import StardustOS.Sys.Descriptors
import StardustOS.Sys.Offsets

/-!
# Calls on descriptors that are not open

`nl_close`, `nl_write` and `nl_read` test that there is a process and that the
descriptor is in range, and then pass the node of the descriptor on.  Neither they
nor the functions of `fs.c` test that there is a node.  So a closed descriptor is
rejected exactly when one of the first two tests refuses it (`rejectsClosed_iff`),
and else the call follows NULL (`onFd_closed`).
-/

namespace StardustOS.Sys

open Fs Lib
open Process (OPEN_MAX)

variable {σ N β : Type*}

/-- The descriptor that a call is made on. -/
def FileCall.fd? : FileCall → Option Int
  | .nlOpen _ _ => none
  | .nlClose fd => some fd
  | .nlWrite fd _ _ => some fd
  | .nlRead fd _ => some fd

namespace Files

variable (s : Files σ N)

/-- The descriptor is open in the current process. -/
def OpenFd (fd : Int) : Prop := ∃ i : Fin OPEN_MAX, fd = i ∧ s.IsOpen i

/-- The call returns an error, whatever the nodes are, and changes neither the
descriptors nor the rest of the kernel nor the buffer. -/
def Rejects : FileCall → Prop
  | .nlOpen _ _ => True
  | .nlClose fd => ∃ e, ∀ W : Nodes σ N, s.nlClose W fd = some (.error e, s)
  | .nlWrite fd buff count => ∃ e, ∀ (W : Nodes σ N) depth,
      s.nlWrite W depth fd buff count = some (.error e, (), s)
  | .nlRead fd count => ∃ e, ∀ (W : Nodes σ N) depth,
      s.nlRead W depth fd count = some (.error e, [], s)

/-- A call on a descriptor that is not open is rejected. -/
def RejectsClosed (c : FileCall) : Prop := ∀ fd ∈ c.fd?, ¬ s.OpenFd fd → s.Rejects c

/-- There is no current process, or the number is none of a descriptor. -/
def OutOfReach (fd : Int) : Prop := s.curr = none ∨ fd < 0 ∨ OPEN_MAX ≤ fd

/-- The only descriptors that are not open and that a call is made on are out of
reach. -/
def ReachesOpen (c : FileCall) : Prop := ∀ fd ∈ c.fd?, ¬ s.OpenFd fd → s.OutOfReach fd

variable {s} {fd : Int}

/-- A descriptor out of reach is refused. -/
theorem onFd_outOfReach (h : s.OutOfReach fd) (invalid : β)
    (f : ProcFiles N → Fin OPEN_MAX → N → Option β) : s.onFd fd invalid f = some invalid := by
  rw [onFd]
  cases hcurr : s.curr with
  | none => rfl
  | some p =>
      have hsome : s.curr ≠ none := by
        rw [hcurr]
        exact Option.some_ne_none p
      have hrange : fd < 0 ∨ OPEN_MAX ≤ fd := h.resolve_left hsome
      exact dif_neg (by omega)

/-- Within reach the node of a descriptor that is not open is followed. -/
theorem onFd_closed (hopen : ¬ s.OpenFd fd) (h : ¬ s.OutOfReach fd) (invalid : β)
    (f : ProcFiles N → Fin OPEN_MAX → N → Option β) : s.onFd fd invalid f = none := by
  rw [OutOfReach, not_or] at h
  obtain ⟨p, hcurr⟩ := Option.ne_none_iff_exists'.mp h.1
  have hrange : 0 ≤ fd ∧ fd < OPEN_MAX := by omega
  simp only [onFd, hcurr, hrange, and_self, ↓reduceDIte]
  cases hnode : (p.fd ⟨fd.toNat, by omega⟩).node with
  | none => rfl
  | some node =>
      exact absurd ⟨⟨fd.toNat, by omega⟩, by simp [hrange.1], p, node, hcurr, hnode⟩ hopen

theorem nlIo_outOfReach {α : Type*} (h : s.OutOfReach fd) (empty : α)
    (io : N → UInt32 → σ → Option (Except ErrorCode Nat × α × σ)) :
    s.nlIo fd empty io = some (.error (errno EINVAL), empty, s) := onFd_outOfReach h _ _

theorem nlIo_closed {α : Type*} (hopen : ¬ s.OpenFd fd) (h : ¬ s.OutOfReach fd) (empty : α)
    (io : N → UInt32 → σ → Option (Except ErrorCode Nat × α × σ)) :
    s.nlIo fd empty io = none := onFd_closed hopen h _ _

/-- A call on a descriptor that is not open is rejected exactly when the descriptor is
out of reach. -/
theorem rejectsClosed_iff (W : Nodes σ N) (s : Files σ N) (c : FileCall) :
    s.RejectsClosed c ↔ s.ReachesOpen c := by
  refine forall₃_congr fun fd hfd hopen => ?_
  cases c with
  | nlOpen path mode => cases hfd
  | nlClose fd' =>
      obtain rfl := Option.mem_some.mp hfd
      constructor
      · rintro ⟨e, he⟩
        refine Classical.not_not.mp fun hreach => ?_
        cases (onFd_closed hopen hreach _ _).symm.trans (he W)
      · exact fun hreach => ⟨_, fun _ => onFd_outOfReach hreach _ _⟩
  | nlWrite fd' buff count =>
      obtain rfl := Option.mem_some.mp hfd
      constructor
      · rintro ⟨e, he⟩
        refine Classical.not_not.mp fun hreach => ?_
        cases (nlIo_closed hopen hreach _ _).symm.trans (he W 0)
      · exact fun hreach => ⟨_, fun _ _ => nlIo_outOfReach hreach _ _⟩
  | nlRead fd' count =>
      obtain rfl := Option.mem_some.mp hfd
      constructor
      · rintro ⟨e, he⟩
        refine Classical.not_not.mp fun hreach => ?_
        cases (nlIo_closed hopen hreach _ _).symm.trans (he W 0)
      · exact fun hreach => ⟨_, fun _ _ => nlIo_outOfReach hreach _ _⟩

/-- In every sequence of calls all calls on closed descriptors are rejected exactly
when all of these are out of reach. -/
theorem meets_rejectsClosed_iff (W : Nodes σ N) (depth : Nat) (s : Files σ N)
    (calls : List FileCall) :
    Meets (step W depth) RejectsClosed s calls ↔ Meets (step W depth) ReachesOpen s calls :=
  meets_congr (I := fun _ => True) (Q := fun _ => True) (fun s c _ _ => rejectsClosed_iff W s c)
    (fun _ _ _ _ _ _ _ => trivial) calls trivial fun _ _ => trivial

/-- A file that can be read, on a file system without any other. -/
def plainFile : Nodes Unit Unit where
  mode _ _ := 64
  size _ _ := 0
  opts _ _ := ⟨none, none, some fun _ _ _ w => (.ok 0, [], w), none⟩
  fsResolve _ w := (.ok (), w)

/-- Descriptor 0 is open. -/
def oneOpen : Files Unit Unit := ⟨some (noneOpen.setFd 0 ⟨some (), 0, 0, 1, 0, 0⟩), ()⟩

/-- It was closed. -/
def oneClosed : Files Unit Unit :=
  ⟨some ((noneOpen.setFd 0 ⟨some (), 0, 0, 1, 0, 0⟩).setFd 0 ⟨none, 0, 0, 1, 0, 0⟩), ()⟩

theorem oneClosed_fd : ¬ oneClosed.OpenFd 0 ∧ ¬ oneClosed.OutOfReach 0 := by
  constructor
  · rintro ⟨i, hi, p, node, hcurr, hnode⟩
    obtain rfl : i = 0 := Fin.ext (by simpa using hi.symm)
    obtain rfl := Option.some.inj hcurr
    rw [ProcFiles.setFd_fd] at hnode
    cases hnode
  · rintro (hcurr | hneg | hlarge)
    · cases hcurr
    · exact absurd hneg (by decide)
    · exact absurd hlarge (by decide)

/-- A descriptor is opened and closed, and then it is read: NULL is followed. -/
theorem rejectsClosed_wrong :
    (∃ s, run (step plainFile 1) ⟨some noneOpen, ()⟩ [.nlOpen none 0, .nlClose 0] = some s ∧
      ¬ s.OpenFd 0 ∧ s.nlRead plainFile 1 0 1 = none) ∧
    ¬ Meets (step plainFile 1) RejectsClosed ⟨some noneOpen, ()⟩
      [.nlOpen none 0, .nlClose 0, .nlRead 0 1] := by
  have hfree : Fin.find? (fun i => (noneOpen.fd i).node.isNone) = some 0 := by simp [noneOpen]
  have hopen : step plainFile 1 ⟨some noneOpen, ()⟩ (.nlOpen none 0) = some oneOpen := by
    simp only [step, call, nlOpen, hfree]
    rfl
  have hclose : step plainFile 1 oneOpen (.nlClose 0) = some oneClosed := by
    have hnode : ((noneOpen.setFd 0 ⟨some (), 0, 0, 1, 0, 0⟩).fd 0).node = some () := by
      rw [ProcFiles.setFd_fd]
    rw [step, call, nlClose, show (0 : Int) = ((0 : Fin OPEN_MAX) : Nat) from rfl,
      onFd_open (s := oneOpen) rfl hnode]
    simp only [ProcFiles.setFd_fd]
    rfl
  obtain ⟨hclosed, hreach⟩ := oneClosed_fd
  refine ⟨⟨oneClosed, ?_, hclosed, nlIo_closed hclosed hreach _ _⟩, ?_⟩
  · rw [run, hopen, Option.bind_some, run, hclose]
    rfl
  · intro h
    have hread := ((h.2 _ hopen).2 _ hclose).1
    exact hreach ((rejectsClosed_iff plainFile oneClosed _).mp hread 0 rfl hclosed)

end Files

end StardustOS.Sys
