import StardustOS.Sys.Files
import StardustOS.Lib.Run

/-!
# The descriptor table

What `nl_open`, `nl_close`, `nl_write` and `nl_read` do to the descriptors of
the current process, whatever the nodes do (`CallOk`, `meets_callOk`).

`nl_open` returns `-EMFILE` when every descriptor is open.  It also passes on an
error code of the path resolution or of the `open` operation, which may be the
same one.
-/

namespace StardustOS.Sys

open Fs Lib
open Process (OPEN_MAX)

variable {σ N α β : Type*}

namespace ProcFiles

variable (p : ProcFiles N)

/-- The open descriptors. -/
def opened : Set (Fin OPEN_MAX) := { i | (p.fd i).node ≠ none }

/-- The first descriptor that is not open. -/
def IsFirstClosed (i : Fin OPEN_MAX) : Prop := i ∉ p.opened ∧ ∀ j < i, j ∈ p.opened

/-- The process and the descriptors other than `i` are as before. -/
structure SameBut (i : Fin OPEN_MAX) (p' : ProcFiles N) : Prop where
  id : p'.id = p.id
  uid : p'.uid = p.uid
  gid : p'.gid = p.gid
  fd : ∀ j ≠ i, p'.fd j = p.fd j

theorem setFd_sameBut (i : Fin OPEN_MAX) (fd : Fd N) : p.SameBut i (p.setFd i fd) :=
  ⟨rfl, rfl, rfl, fun _ hj => Function.update_of_ne hj _ _⟩

@[simp] theorem setFd_fd (i : Fin OPEN_MAX) (fd : Fd N) : (p.setFd i fd).fd i = fd :=
  Function.update_self ..

end ProcFiles

namespace Files

section Ops

variable (W : Nodes σ N) (depth : Nat) (s : Files σ N) (p : ProcFiles N)

/-! ## What the calls promise -/

/-- The descriptor that `nl_open` makes for a node. -/
def newFd (node : N) (mode : Int) : Fd N := ⟨some node, p.gid, p.uid, p.id, 0, mode⟩

/-- The path resolution or the `open` operation of `nl_open` fails with `e`. -/
def OpenFails (path : Option (List UInt8)) (mode : Int) (e : ErrorCode) : Prop :=
  (W.fsResolve path s.world).1 = .error e ∨
    ∃ node w, W.fsResolve path s.world = (.ok node, w) ∧
      (W.fsNodeOpen node (newFd p node mode) w).1 = .error e

/-- `nl_open` opens the first descriptor that is not open, or fails and opens
none. -/
structure OpenOk (path : Option (List UInt8)) (mode : Int) (r : Except ErrorCode Nat)
    (p' : ProcFiles N) : Prop where
  ok : ∀ n, r = .ok n → ∃ (i : Fin OPEN_MAX) (node : N), n = i ∧ p.IsFirstClosed i ∧
    p'.fd i = newFd p node mode ∧ p'.opened = insert i p.opened ∧ p.SameBut i p'
  error : ∀ e, r = .error e → p'.opened = p.opened ∧
    (p' = p ∨ ∃ i, p.IsFirstClosed i ∧ p.SameBut i p')
  full : p.opened = Set.univ → r = .error (errno EMFILE)
  cause : p.opened ≠ Set.univ → ∀ e, r = .error e ↔ s.OpenFails W p path mode e

/-- `nl_close` closes the descriptor, or fails and changes nothing. -/
structure CloseOk (i : Fin OPEN_MAX) (r : Except ErrorCode Nat) (p' : ProcFiles N) : Prop where
  ok : ∀ n, r = .ok n → n = 0 ∧ p'.opened = p.opened \ {i} ∧ p.SameBut i p'
  error : ∀ e, r = .error e → p' = p

/-- `nl_write` and `nl_read` open and close nothing, and leave the other
descriptors alone. -/
structure IoOk (i : Fin OPEN_MAX) (p' : ProcFiles N) : Prop where
  opened : p'.opened = p.opened
  other : p.SameBut i p'

/-- What a call does to the descriptors of the current process.  All calls but
`nl_open` are on an open descriptor. -/
def CallOk : FileCall → Prop
  | .nlOpen path mode => ∀ p, s.curr = some p → ∃ p', (s.nlOpen W path mode).2.curr = some p' ∧
      s.OpenOk W p path mode (s.nlOpen W path mode).1 p'
  | .nlClose fd => ∀ p (i : Fin OPEN_MAX), s.curr = some p → fd = i → i ∈ p.opened →
      ∃ r s' p', s.nlClose W fd = some (r, s') ∧ s'.curr = some p' ∧ CloseOk p i r p'
  | .nlWrite fd buff count => ∀ p (i : Fin OPEN_MAX), s.curr = some p → fd = i → i ∈ p.opened →
      ∀ r x s', s.nlWrite W depth fd buff count = some (r, x, s') →
        ∃ p', s'.curr = some p' ∧ IoOk p i p'
  | .nlRead fd count => ∀ p (i : Fin OPEN_MAX), s.curr = some p → fd = i → i ∈ p.opened →
      ∀ r x s', s.nlRead W depth fd count = some (r, x, s') →
        ∃ p', s'.curr = some p' ∧ IoOk p i p'

end Ops

variable {W : Nodes σ N} {depth : Nat} {s : Files σ N} {p : ProcFiles N} {i : Fin OPEN_MAX}

/-! ## The search of `nl_open` -/

theorem find?_eq_some :
    Fin.find? (fun i => (p.fd i).node.isNone) = some i ↔ p.IsFirstClosed i := by
  simp [ProcFiles.IsFirstClosed, ProcFiles.opened, Option.isSome_iff_ne_none]

theorem find?_eq_none :
    Fin.find? (fun i => (p.fd i).node.isNone) = none ↔ p.opened = Set.univ := by
  simp [Set.eq_univ_iff_forall, ProcFiles.opened, Option.isSome_iff_ne_none]

/-! ## The sets of open descriptors -/

theorem opened_insert {p' : ProcFiles N} (h : p.SameBut i p') (hi : (p'.fd i).node ≠ none) :
    p'.opened = insert i p.opened := by
  ext j
  by_cases hj : j = i
  · subst hj
    simp [ProcFiles.opened, hi]
  · simp [ProcFiles.opened, h.fd j hj, hj]

theorem opened_diff {p' : ProcFiles N} (h : p.SameBut i p') (hi : (p'.fd i).node = none) :
    p'.opened = p.opened \ {i} := by
  ext j
  by_cases hj : j = i
  · subst hj
    simp [ProcFiles.opened, hi]
  · simp [ProcFiles.opened, h.fd j hj, hj]

/-! ## Calls -/

theorem openOk (hcurr : s.curr = some p) (path : Option (List UInt8)) (mode : Int) :
    ∃ p', (s.nlOpen W path mode).2.curr = some p' ∧
      s.OpenOk W p path mode (s.nlOpen W path mode).1 p' := by
  cases hfind : Fin.find? fun i => (p.fd i).node.isNone with
  | none =>
      have hfull := find?_eq_none.mp hfind
      simp only [nlOpen, hcurr, hfind]
      refine ⟨p, rfl, ?_, ?_, fun _ => rfl, fun h => absurd hfull h⟩
      · rintro n ⟨⟩
      · exact fun _ _ => ⟨rfl, .inl rfl⟩
  | some i =>
      have hi := find?_eq_some.mp hfind
      have hnot : p.opened ≠ Set.univ := fun h => hi.1 (h ▸ Set.mem_univ i)
      cases hres : W.fsResolve path s.world with
      | mk res w =>
      cases res with
      | error e =>
          -- The slot was not written to.
          simp only [nlOpen, hcurr, hfind, hres]
          refine ⟨p, rfl, ?_, ?_, fun h => absurd h hnot, fun _ e' => ?_⟩
          · rintro n ⟨⟩
          · exact fun _ _ => ⟨rfl, .inl rfl⟩
          · simp [OpenFails, hres]
      | ok node =>
          have hfails : ∀ e, s.OpenFails W p path mode e ↔
              (W.fsNodeOpen node (newFd p node mode) w).1 = .error e := by
            intro e
            simp [OpenFails, hres]
          cases hopen : W.fsNodeOpen node (newFd p node mode) w with
          | mk r w' =>
          cases r with
          | error e =>
              -- The slot is given back.
              simp only [newFd] at hopen
              simp only [nlOpen, hcurr, hfind, hres, hopen]
              refine ⟨_, rfl, ?_, ?_, fun h => absurd h hnot, fun _ e' => ?_⟩
              · rintro n ⟨⟩
              · intro _ _
                have hbut := p.setFd_sameBut i ⟨none, 0, 0, p.id, 0, 0⟩
                refine ⟨?_, .inr ⟨i, hi, hbut⟩⟩
                rw [opened_diff hbut (by simp), Set.sdiff_singleton_eq_self hi.1]
              · rw [hfails, newFd, hopen]
          | ok n =>
              simp only [newFd] at hopen
              simp only [nlOpen, hcurr, hfind, hres, hopen]
              refine ⟨_, rfl, ?_, ?_, fun h => absurd h hnot, fun _ e' => ?_⟩
              · rintro n ⟨⟩
                have hbut := p.setFd_sameBut i (newFd p node mode)
                exact ⟨i, node, rfl, hi, p.setFd_fd i _,
                  opened_insert hbut (by simp), hbut⟩
              · rintro e ⟨⟩
              · rw [hfails, newFd, hopen]
                simp

section OnFd

variable (hcurr : s.curr = some p)

include hcurr

theorem closeOk {fd : Int} (hfd : fd = i) (hi : i ∈ p.opened) :
    ∃ r s' p', s.nlClose W fd = some (r, s') ∧ s'.curr = some p' ∧ CloseOk p i r p' := by
  subst hfd
  obtain ⟨node, hnode⟩ := Option.ne_none_iff_exists'.mp hi
  rw [nlClose, onFd_open hcurr hnode]
  cases hclose : W.fsNodeClose node (p.fd i) s.world with
  | mk r w =>
  cases r with
  | error e =>
      refine ⟨_, _, p, rfl, hcurr, ?_, fun _ _ => rfl⟩
      rintro n ⟨⟩
  | ok n =>
      refine ⟨_, _, _, rfl, rfl, ?_, ?_⟩
      · rintro n ⟨⟩
        have hbut := p.setFd_sameBut i
          { p.fd i with node := none, mode := 0, gid := 0, uid := 0 }
        exact ⟨rfl, opened_diff hbut (by simp), hbut⟩
      · rintro e ⟨⟩

theorem ioOk {fd : Int} (hfd : fd = i) (hi : i ∈ p.opened) {empty : α}
    {io : N → UInt32 → σ → Option (Except ErrorCode Nat × α × σ)} {r : Except ErrorCode Nat}
    {x : α} {s' : Files σ N} (h : s.nlIo fd empty io = some (r, x, s')) :
    ∃ p', s'.curr = some p' ∧ IoOk p i p' := by
  subst hfd
  obtain ⟨node, hnode⟩ := Option.ne_none_iff_exists'.mp hi
  rw [nlIo, onFd_open hcurr hnode] at h
  obtain ⟨⟨r', x', w⟩, -, heq⟩ := Option.map_eq_some_iff.mp h
  have hlt : ¬ sizeT r' < 0 := UInt32.not_lt_zero
  simp only [hlt, ↓reduceIte] at heq
  cases heq
  have hbut := p.setFd_sameBut i { p.fd i with offset := (p.fd i).offset + sizeT r }
  refine ⟨_, rfl, ?_, hbut⟩
  rw [opened_insert hbut (by simp [hnode]), Set.insert_eq_of_mem hi]

end OnFd

/-- Every call does what it promises. -/
theorem callOk (W : Nodes σ N) (depth : Nat) (s : Files σ N) : ∀ c, s.CallOk W depth c
  | .nlOpen path mode => fun _ hcurr => openOk hcurr path mode
  | .nlClose _ => fun _ _ hcurr hfd hi => closeOk hcurr hfd hi
  | .nlWrite _ _ _ => fun _ _ hcurr hfd hi _ _ _ h => ioOk hcurr hfd hi h
  | .nlRead _ _ => fun _ _ hcurr hfd hi _ _ _ h => ioOk hcurr hfd hi h

/-- Every call of every sequence does what it promises. -/
theorem meets_callOk (W : Nodes σ N) (depth : Nat) (s : Files σ N) (calls : List FileCall) :
    Meets (step W depth) (fun s c => s.CallOk W depth c) s calls :=
  meets_of_forall (callOk W depth) calls

/-! ## An `open` operation that fails -/

/-- A file that cannot be opened. -/
def noFile (e : ErrorCode) : Nodes Unit Unit where
  mode _ _ := 64
  size _ _ := 0
  opts _ _ := ⟨some fun _ _ w => (.error e, w), none, none, none⟩
  fsResolve _ w := (.ok (), w)

/-- A process without open files. -/
def noneOpen : ProcFiles Unit := ⟨1, 0, 0, fun _ => ⟨none, 0, 0, 0, 0, 0⟩⟩

/-- `nl_open` returns `-EMFILE`, and no descriptor is open. -/
theorem nlOpen_emfile :
    ((⟨some noneOpen, ()⟩ : Files Unit Unit).nlOpen (noFile (errno EMFILE)) none 0).1 =
        .error (errno EMFILE) ∧ noneOpen.opened = ∅ := by
  have hopened : noneOpen.opened = ∅ := by simp [ProcFiles.opened, noneOpen]
  have hne : noneOpen.opened ≠ Set.univ := hopened ▸ Set.empty_ne_univ
  obtain ⟨p', -, hok⟩ := openOk (W := noFile (errno EMFILE)) (s := ⟨some noneOpen, ()⟩) rfl none 0
  exact ⟨(hok.cause hne _).mpr (.inr ⟨(), (), rfl, rfl⟩), hopened⟩

end Files

end StardustOS.Sys
