import StardustOS.Process.Steps
import Mathlib.Data.List.Rotate

/-!
# Round robin

`schedule` finds the current process by its pid and hands the CPU to the one
behind it in the list, or to the head when it is the last.  `InTurn` is the
order in which the pids come next, from the one behind the current process
around to the current process itself.  A `schedule` takes the first pid of that
order and puts it at its end, so as many of them as there are processes go once
around.

A pid of 0 breaks the circle: `process_next` takes a `curr_pid` of 0 for none.
-/

namespace StardustOS.Process

open Lib

namespace Procs

variable {κ : Type*} (s : Procs κ)

/-- The pids that `curr_pid` takes in a number of calls of `schedule`, and the
state after them. -/
def turns : Nat → Procs κ → Option (List UInt32 × Procs κ)
  | 0, s => some ([], s)
  | n + 1, s => s.schedule.bind fun s => (turns n s).map fun (pids, t) => (s.currPid :: pids, t)

/-- The pids in the order in which they come next. -/
def InTurn (order : List UInt32) : Prop :=
  ∃ before after, s.pids = before ++ s.currPid :: after ∧ order = after ++ before ++ [s.currPid]

variable {s}

theorem exists_inTurn (h : s.currPid ∈ s.pids) : ∃ order, InTurn s order := by
  obtain ⟨before, after, hpids⟩ := List.append_of_mem h
  exact ⟨_, before, after, hpids, rfl⟩

namespace InTurn

variable {order : List UInt32}

theorem perm (h : InTurn s order) : order.Perm s.pids := by
  obtain ⟨before, after, hpids, rfl⟩ := h
  rw [hpids]
  calc (after ++ before ++ [s.currPid]).Perm (s.currPid :: (after ++ before)) :=
        List.perm_append_singleton _ _
    _ |>.Perm (s.currPid :: (before ++ after)) := List.perm_append_comm.cons _
    _ |>.Perm (before ++ s.currPid :: after) := List.perm_middle.symm

/-- The current process is the last in turn. -/
theorem getLast? (h : InTurn s order) : order.getLast? = some s.currPid := by
  obtain ⟨before, after, -, rfl⟩ := h
  exact List.getLast?_concat

end InTurn

/-! ## One turn -/

/-- The current process is found, and the one behind it, or the head, is next. -/
theorem processNext_middle {pre post : List (Nat × Proc)} {c : Nat} {C : Proc} (hs : PidsOk s)
    (hnodes : s.processes.nodes = pre ++ (c, C) :: post) (hid : C.id = s.currPid) :
    s.processFrompid s.currPid = some (c, C) ∧
      s.processNext = (post ++ pre ++ [(c, C)]).head? := by
  have hC : (c, C) ∈ s.processes.nodes := hnodes ▸ List.mem_append_right _ List.mem_cons_self
  have h0 : s.procCount ≠ 0 := by
    intro h0
    rw [hs.count, List.length_eq_zero_iff, pids_eq_nil] at h0
    simp [h0] at hC
  have hcurr : s.currPid ≠ 0 := hid ▸ hs.id_ne_zero hC
  have hfrom := hs.processFrompid_eq hC
  rw [hid] at hfrom
  refine ⟨hfrom, ?_⟩
  simp only [processNext, h0, hcurr, ↓reduceIte, hfrom, SList.next?_middle hnodes]
  cases post with
  | cons n post => rfl
  | nil =>
      rw [SList.first?, hnodes, List.head?_nil, List.nil_append]

/-- `schedule` makes the first pid in turn the current one. -/
theorem schedule_first {order : List UInt32} (hs : PidsOk s) (h : InTurn s order) :
    ∃ c n, ∃ N : Proc, s.schedule = some (s.switch c n N) ∧ order.head? = some N.id := by
  obtain ⟨before, after, hpids, rfl⟩ := h
  rw [pids, SList.contents, List.map_map, List.map_eq_append_iff] at hpids
  obtain ⟨pre, tail, hnodes, rfl, htail⟩ := hpids
  obtain ⟨⟨c, C⟩, post, rfl, hid, rfl⟩ := List.map_eq_cons_iff.mp htail
  obtain ⟨hcurr, hnext⟩ := processNext_middle hs hnodes hid
  have h0 : s.procCount ≠ 0 := by
    intro h0
    rw [hs.count, List.length_eq_zero_iff, pids_eq_nil, hnodes] at h0
    simp at h0
  cases hhead : (post ++ pre ++ [(c, C)]).head? with
  | none => simp at hhead
  | some n =>
      rw [hhead] at hnext
      refine ⟨c, n.1, n.2, by simp only [schedule, h0, ↓reduceIte, hcurr, hnext], ?_⟩
      have hmap := congrArg (Option.map (Proc.id ∘ Prod.snd)) hhead
      rw [← List.head?_map, List.map_append, List.map_append, List.map_singleton] at hmap
      exact hid ▸ hmap

/-- The order once the first pid of it is the current one. -/
theorem inTurn_next {s' : Procs κ} {rest : List UInt32} (h : InTurn s (s'.currPid :: rest))
    (hpids : s'.pids = s.pids) : InTurn s' (rest ++ [s'.currPid]) := by
  obtain ⟨before, after, hs, horder⟩ := h
  rw [InTurn, hpids, hs]
  cases after with
  | cons pid after =>
      obtain ⟨rfl, rfl⟩ := List.cons.inj horder
      exact ⟨before ++ [s.currPid], after, by simp, by simp⟩
  | nil =>
      cases before with
      | cons pid before =>
          obtain ⟨rfl, rfl⟩ := List.cons.inj horder
          exact ⟨[], before ++ [s.currPid], by simp, by simp⟩
      | nil =>
          obtain ⟨hcurr, rfl⟩ := List.cons.inj horder
          exact ⟨[], [], by simp [hcurr], by simp⟩

/-! ## Once around -/

/-- A number of turns, at most once around: the pids come in turn, and those that
had theirs go to the end. -/
theorem turns_inTurn (k : Nat) {s : Procs κ} {order : List UInt32} (hs : PidsOk s)
    (h : InTurn s order) (hk : k ≤ order.length) :
    ∃ t, turns k s = some (order.take k, t) ∧ t.pids = s.pids ∧ InTurn t (order.rotate k) := by
  induction k generalizing s order with
  | zero => exact ⟨s, rfl, rfl, by rwa [List.rotate_zero]⟩
  | succ k ih =>
      obtain ⟨c, n, N, hsched, hhead⟩ := schedule_first hs h
      cases order with
      | nil => cases hhead
      | cons pid rest =>
          obtain rfl : pid = N.id := Option.some.inj hhead
          have hpids : (s.switch c n N).pids = s.pids := pids_switch s c n N
          have hnext : InTurn (s.switch c n N) (rest ++ [N.id]) := inTurn_next h hpids
          have hk' : k ≤ rest.length := Nat.le_of_succ_le_succ hk
          obtain ⟨t, ht, htpids, hturn⟩ := ih (pidsOk_switch hs) hnext (by simp; omega)
          refine ⟨t, ?_, htpids.trans hpids, ?_⟩
          · rw [turns, hsched, Option.bind_some, ht, Option.map_some,
              List.take_append_of_le_length hk', List.take_succ_cons]
            rfl
          · rwa [List.rotate_cons_succ]

/-- With distinct pids that are not 0, of which `curr_pid` is one, as many calls
of `schedule` as there are processes give each process its turn once and end
with the process they began with. -/
theorem schedules_roundRobin (hs : PidsOk s) (hcurr : s.currPid ∈ s.pids) :
    ∃ pids t, turns s.processCount s = some (pids, t) ∧ pids.Perm s.pids ∧
      t.pids = s.pids ∧ t.currPid = s.currPid ∧ pids.getLast? = some s.currPid := by
  obtain ⟨order, h⟩ := exists_inTurn hcurr
  have hlen : s.processCount = order.length := by rw [processCount, hs.count, h.perm.length_eq]
  obtain ⟨t, ht, hpids, hturn⟩ := turns_inTurn order.length hs h (Nat.le_refl _)
  rw [List.take_length] at ht
  rw [List.rotate_length] at hturn
  refine ⟨order, t, hlen ▸ ht, h.perm, hpids, ?_, h.getLast?⟩
  exact Option.some.inj (hturn.getLast?.symm.trans h.getLast?)

/-- Three processes, of which the first created is the current one. -/
def three : Procs (Nat × Mem.Memory) :=
  (run (step small) smallBoot
    [.procCreate none [97] 0, .procCreate none [98] 0, .procCreate none [99] 0]).getD smallBoot

theorem schedules_roundRobin_three :
    ∃ pids t, turns 3 three = some (pids, t) ∧ pids.Perm [3, 2, 1] ∧ t.pids = [3, 2, 1] ∧
      t.currPid = 1 ∧ pids.getLast? = some 1 :=
  schedules_roundRobin (s := three) ⟨by decide, by decide, by decide⟩ (by decide)

/-- One process, created when the counter had come around to 0. -/
def pidZero : Procs (Nat × Mem.Memory) :=
  (run (step small) { smallBoot with nextPid := 0 } [.procCreate none [97] 0]).getD smallBoot

/-- It is the current process, and `process_next` gives NULL. -/
theorem schedules_roundRobin_wrong :
    pidZero.pids.Nodup ∧ pidZero.processCount = 1 ∧ pidZero.pids.length = 1 ∧
      pidZero.currPid ∈ pidZero.pids ∧ turns 1 pidZero = none := by
  have hnone : (turns 1 pidZero).map Prod.fst = none := by decide
  exact ⟨by decide, by decide, by decide, by decide, Option.map_eq_none_iff.mp hnone⟩

end Procs

end StardustOS.Process
