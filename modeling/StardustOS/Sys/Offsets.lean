import StardustOS.Sys.Files
import StardustOS.Lib.Run

/-!
# The offset of a descriptor

`nl_read` and `nl_write` test a `size_t` for an error with `r < 0`, which it
never is.  So the offset grows by the result of the node operation whatever it
is, and an error code moves it back (`call_eq`).

The offset counts the bytes transferred exactly in the runs without failing
operations (`offsetsCount_iff`).
-/

namespace StardustOS.Sys

open Fs Lib
open Process (OPEN_MAX)

variable {σ N β : Type*}

/-- The call is `nl_read` or `nl_write` on the descriptor. -/
def FileCall.On (i : Fin OPEN_MAX) : FileCall → Prop
  | .nlWrite fd _ _ => fd = i
  | .nlRead fd _ => fd = i
  | _ => False

namespace Files

section Ops

variable (W : Nodes σ N) (depth : Nat) (s : Files σ N) (i : Fin OPEN_MAX)

/-- The operation of a call on a node. -/
def transfer : FileCall → N → UInt32 → σ → Option (Except ErrorCode Nat × σ)
  | .nlWrite _ buff count, node, offset, w =>
      (W.fsNodeWrite depth node offset buff count w).map fun (r, _, w) => (r, w)
  | .nlRead _ count, node, offset, w =>
      (W.fsNodeRead depth node offset count w).map fun (r, _, w) => (r, w)
  | _, _, _, _ => none

/-- The operation that a call on the descriptor makes. -/
def nodeOp (c : FileCall) : Option (Except ErrorCode Nat × σ) :=
  s.curr.bind fun p =>
    (p.fd i).node.bind fun node => transfer W depth c node (p.fd i).offset s.world

/-- The offset of the descriptor. -/
def offset : UInt32 := (s.curr.map fun p => (p.fd i).offset).getD 0

/-- The descriptor is open. -/
def IsOpen : Prop := ∃ p node, s.curr = some p ∧ (p.fd i).node = some node

/-! ## What the calls promise -/

/-- A failing operation is reported, and leaves the offset alone. -/
def FailureOk (c : FileCall) : Prop := ∀ e w, s.nodeOp W depth i c = some (.error e, w) →
  ∃ s', s.call W depth c = some (.error e, s') ∧ s'.offset i = s.offset i

/-- The operation does not fail. -/
def NoFailure (c : FileCall) : Prop := ∀ e w, s.nodeOp W depth i c ≠ some (.error e, w)

/-- The bytes that the successful calls returned. -/
def transferred : List FileCall → Files σ N → Nat
  | [], _ => 0
  | c :: cs, s =>
      match s.call W depth c with
      | none => 0
      | some (.ok n, s) => n + transferred cs s
      | some (.error _, s) => transferred cs s

/-- The offset after the calls is the one before them and the bytes transferred,
and no failing operation changed it. -/
structure OffsetsCount (calls : List FileCall) : Prop where
  sum : ∀ s', run (step W depth) s calls = some s' →
    s'.offset i = s.offset i + .ofNat (transferred W depth calls s)
  failures : Meets (step W depth) (fun s c => s.FailureOk W depth i c) s calls

end Ops

/-! ## One call -/

variable {W : Nodes σ N} {depth : Nat} {s : Files σ N} {i : Fin OPEN_MAX}

/-- The descriptor after a call on it. -/
def moved (p : ProcFiles N) (i : Fin OPEN_MAX) (r : Except ErrorCode Nat) : ProcFiles N :=
  p.setFd i { p.fd i with offset := (p.fd i).offset + sizeT r }

/-- A call on an open descriptor makes its operation, and the offset grows by
the result. -/
theorem call_eq {p : ProcFiles N} {node : N} (hcurr : s.curr = some p)
    (hnode : (p.fd i).node = some node) {c : FileCall} (hc : c.On i) :
    s.call W depth c =
      (s.nodeOp W depth i c).map fun (r, w) => (r, ⟨some (moved p i r), w⟩) := by
  have hlt : ∀ r : Except ErrorCode Nat, ¬ sizeT r < 0 := fun _ => UInt32.not_lt_zero
  cases c with
  | nlOpen path mode => exact hc.elim
  | nlClose fd => exact hc.elim
  | nlWrite fd buff count =>
      obtain rfl : fd = i := hc
      simp only [call, nlWrite, nlIo, onFd_open hcurr hnode, nodeOp, hcurr, hnode,
        Option.bind_some, transfer, hlt, ↓reduceIte, Option.map_map, moved]
      rfl
  | nlRead fd count =>
      obtain rfl : fd = i := hc
      simp only [call, nlRead, nlIo, onFd_open hcurr hnode, nodeOp, hcurr, hnode,
        Option.bind_some, transfer, hlt, ↓reduceIte, Option.map_map, moved]
      rfl

theorem moved_offset (p : ProcFiles N) (r : Except ErrorCode Nat) (w : σ) :
    (⟨some (moved p i r), w⟩ : Files σ N).offset i = (p.fd i).offset + sizeT r := by
  simp [offset, moved, ProcFiles.setFd]

theorem moved_isOpen {p : ProcFiles N} {node : N} (hnode : (p.fd i).node = some node)
    (r : Except ErrorCode Nat) (w : σ) : (⟨some (moved p i r), w⟩ : Files σ N).IsOpen i :=
  ⟨_, node, rfl, by simp [moved, ProcFiles.setFd, hnode]⟩

variable (W depth) in
/-- What a call on an open descriptor does. -/
theorem call_cases (hopen : s.IsOpen i) {c : FileCall} (hc : c.On i) :
    (s.nodeOp W depth i c = none ∧ s.call W depth c = none) ∨
    ∃ r w s', s.nodeOp W depth i c = some (r, w) ∧ s.call W depth c = some (r, s') ∧
      s'.IsOpen i ∧ s'.offset i = s.offset i + sizeT r := by
  obtain ⟨p, node, hcurr, hnode⟩ := hopen
  rw [call_eq hcurr hnode hc]
  cases hop : s.nodeOp W depth i c with
  | none => exact .inl ⟨rfl, rfl⟩
  | some rw =>
      obtain ⟨r, w⟩ := rw
      refine .inr ⟨r, w, _, rfl, rfl, moved_isOpen hnode r w, ?_⟩
      rw [moved_offset, offset, hcurr]
      rfl

/-- An error code is not 0 modulo `2^32`. -/
theorem sizeT_error_ne (e : ErrorCode) : sizeT (.error e) ≠ 0 := by
  obtain ⟨r, hlow, hneg⟩ := e
  have hmod : (r % 2 ^ 32).toNat < 2 ^ 32 ∧ (r % 2 ^ 32).toNat ≠ 0 := by omega
  intro heq
  have hzero := congrArg UInt32.toNat heq
  rw [sizeT, UInt32.ofInt, UInt32.toNat_ofNat', Nat.mod_eq_of_lt hmod.1] at hzero
  exact hmod.2 hzero

/-- A call keeps its promise on a failing operation when there is none. -/
theorem failureOk_iff (hopen : s.IsOpen i) {c : FileCall} (hc : c.On i) :
    s.FailureOk W depth i c ↔ s.NoFailure W depth i c := by
  rcases call_cases W depth hopen hc with
    ⟨hop, -⟩ | ⟨r, w, s', hop, hcall, -, hoffset⟩
  · simp [FailureOk, NoFailure, hop]
  · constructor
    · intro hok e w' herror
      obtain ⟨s'', hcall', hsame⟩ := hok e w' herror
      rw [hop] at herror
      cases herror
      rw [hcall] at hcall'
      cases hcall'
      rw [hoffset] at hsame
      exact sizeT_error_ne e (by simpa using hsame)
    · exact fun hno e w' herror => absurd herror (hno e w')

/-- Every call leaves the descriptor open. -/
theorem step_isOpen (hopen : s.IsOpen i) {c : FileCall} (hc : c.On i) {s' : Files σ N}
    (hstep : s.step W depth c = some s') : s'.IsOpen i := by
  obtain ⟨⟨r, t⟩, hcall, rfl⟩ := Option.map_eq_some_iff.mp hstep
  rcases call_cases W depth hopen hc with ⟨-, hnone⟩ | ⟨_, _, s', -, hcall', h, -⟩
  · simp [hnone] at hcall
  · rw [hcall] at hcall'
    cases hcall'
    exact h

/-! ## Sequences of calls -/

/-- Without failing operations, the offset counts the bytes. -/
theorem offset_sum (calls : List FileCall) {s s' : Files σ N} (hopen : s.IsOpen i)
    (hon : ∀ c ∈ calls, c.On i)
    (hmeets : Meets (step W depth) (fun s c => s.NoFailure W depth i c) s calls)
    (hrun : run (step W depth) s calls = some s') :
    s'.offset i = s.offset i + .ofNat (transferred W depth calls s) := by
  induction calls generalizing s with
  | nil =>
      cases hrun
      simp [transferred]
  | cons c cs ih =>
      obtain ⟨t, hstep, hrest⟩ := run_cons.mp hrun
      have hc := hon c List.mem_cons_self
      have ht := step_isOpen hopen hc hstep
      have hsum := ih ht (fun d hd => hon d (List.mem_cons_of_mem _ hd)) (hmeets.2 t hstep) hrest
      obtain ⟨⟨r, t'⟩, hcall, rfl⟩ := Option.map_eq_some_iff.mp hstep
      rcases call_cases W depth hopen hc with
        ⟨-, hnone⟩ | ⟨r', w, s'', hop, hcall', -, hoffset⟩
      · simp [hnone] at hcall
      · rw [hcall] at hcall'
        cases hcall'
        cases r with
        | error e => exact absurd hop (hmeets.1 e w)
        | ok n =>
            rw [hsum, hoffset, transferred, hcall]
            simp [sizeT, UInt32.add_assoc]

/-- The offset of an open descriptor counts the bytes that `nl_read` and
`nl_write` transfer, and failing operations leave it alone, exactly when no
operation fails. -/
theorem offsetsCount_iff (W : Nodes σ N) (depth : Nat) (i : Fin OPEN_MAX) (s : Files σ N)
    (hopen : s.IsOpen i) (calls : List FileCall) (hcalls : ∀ c ∈ calls, c.On i) :
    s.OffsetsCount W depth i calls ↔
      Meets (step W depth) (fun s c => s.NoFailure W depth i c) s calls := by
  have hiff : Meets (step W depth) (fun s c => s.FailureOk W depth i c) s calls ↔
      Meets (step W depth) (fun s c => s.NoFailure W depth i c) s calls :=
    meets_congr (I := fun s => s.IsOpen i) (Q := fun c => c.On i)
      (fun _ _ hopen hc => failureOk_iff hopen hc)
      (fun _ _ _ hopen hc _ hstep => step_isOpen hopen hc hstep) calls hopen hcalls
  constructor
  · exact fun h => hiff.mp h.failures
  · exact fun h => ⟨fun s' hrun => offset_sum calls hopen hcalls h hrun, hiff.mpr h⟩

/-! ## One file -/

/-- A file whose operations have these results, in turn. -/
def oneFile : Nodes (List (Except ErrorCode Nat)) Unit where
  mode _ _ := 64
  size _ _ := 0
  opts _ _ := {
    openFd := none
    closeFd := none
    read := some fun _ _ _ w => (w.headD (.ok 0), [], w.tail)
    write := some fun _ _ _ _ w => (w.headD (.ok 0), w.tail) }
  fsResolve _ w := (.ok (), w)

/-- Descriptor 3 is open at the offset 100. -/
def fileOpen (w : List (Except ErrorCode Nat)) : Files (List (Except ErrorCode Nat)) Unit where
  curr := some {
    id := 1
    uid := 0
    gid := 0
    fd := fun i => ⟨if i = 3 then some () else none, 0, 0, 1, if i = 3 then 100 else 0, 0⟩ }
  world := w

/-- Two calls that transfer bytes. -/
theorem offsetsCount_two :
    (fileOpen [.ok 5, .ok 7]).OffsetsCount oneFile 1 3 [.nlRead 3 10, .nlWrite 3 [] 7] := by
  refine (offsetsCount_iff oneFile 1 3 _ ⟨_, (), rfl, rfl⟩ _ ?_).mpr ⟨?_, fun s' hs' => ⟨?_, ?_⟩⟩
  · intro c hc
    rcases List.mem_pair.mp hc with rfl | rfl
    · rfl
    · rfl
  · intro e w h
    cases h
  · cases hs'
    intro e w h
    cases h
  · exact fun _ _ => trivial

/-- A read fails with `EIO`, and the offset goes from 100 to 94. -/
theorem offsetsCount_wrong :
    (∃ s', (fileOpen [.error (errno EIO)]).call oneFile 1 (.nlRead 3 10) =
        some (.error (errno EIO), s') ∧ s'.offset 3 = 94) ∧
      ¬ (fileOpen [.error (errno EIO)]).OffsetsCount oneFile 1 3 [.nlRead 3 10] := by
  refine ⟨⟨_, rfl, by decide⟩, ?_⟩
  intro h
  obtain ⟨s', hcall, hoffset⟩ := h.failures.1 (errno EIO) [] rfl
  cases hcall
  exact absurd hoffset (by decide)

end Files

end StardustOS.Sys
