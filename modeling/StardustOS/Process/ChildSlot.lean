import StardustOS.Process.CreateAtomic

/-!
# A slot that is claimed and given back

`proc_exec` that fails claims a slot in the child array of its caller and drops
the child again.  The array is then as before if the slot was a new one at the end
(`same_drop_iff`): where a slot is used again, the window also loses its last
slot.
-/

namespace StardustOS.Process

open Lib

namespace Children

variable {c d : Children} {pid x : UInt32} {i : Nat}

/-- The same number of children, and the same pids. -/
structure Same (c d : Children) : Prop where
  count : d.childCount = c.childCount
  mem : ∀ x ≠ 0, x ∈ d.window ↔ x ∈ c.window

/-- A slot for `pid` that is claimed is given back.  A process with the pid of the
caller hides the caller from `process_frompid`, and nothing is dropped. -/
def GivesBack (c : Children) (self pid : UInt32) : Prop :=
  if pid = self then 0 ∈ c.window ∧ pid ∈ c.window else 0 ∉ c.window ∧ c.window.count pid ≠ 1

instance {self : UInt32} : Decidable (c.GivesBack self pid) :=
  inferInstanceAs (Decidable (if pid = self then 0 ∈ c.window ∧ pid ∈ c.window
    else 0 ∉ c.window ∧ c.window.count pid ≠ 1))

theorem getElem_window (c : Children) {j : Nat} (hj : j < c.window.length) :
    c.window[j] = c.child j := by
  simp only [window, List.getElem_map, List.getElem_range]

theorem window_set (c : Children) (i : Nat) (pid : UInt32) :
    (c.set i pid).window = c.window.set i pid := by
  refine List.ext_getElem (by simp [set]) ?_
  intro j hj hj'
  simp only [window, set, List.getElem_map, List.getElem_range, List.getElem_set, eq_comm]

/-- A slot with a 0 takes a pid: the other pids stay. -/
theorem mem_window_set (hi : i < c.childCount) (h0 : c.child i = 0) (hx : x ≠ 0) :
    x ∈ (c.set i pid).window ↔ x = pid ∨ x ∈ c.window := by
  have hlen : i < c.window.length := by rwa [length_window]
  have hget : c.window[i] = 0 := by simpa [window] using h0
  have hold := (List.getElem_cons_eraseIdx_perm hlen).mem_iff (a := x)
  rw [hget, List.mem_cons, or_iff_right hx] at hold
  rw [window_set, (List.set_perm_cons_eraseIdx hlen pid).mem_iff, List.mem_cons, hold]

/-- The entry that `proc_destroy` zeroes is the first one with the pid. -/
theorem drop_of_mem (h : pid ∈ c.window) :
    (c.drop pid).childCount = c.childCount - 1 ∧
      (c.drop pid).window = (c.window.set (c.window.idxOf pid) 0).dropLast := by
  have hlt := List.idxOf_lt_length_of_mem h
  have hget := List.getElem_idxOf hlt
  rw [getElem_window] at hget
  have hfind : findFrom (fun j => c.child j = pid) c.childCount 0 = some (c.window.idxOf pid) := by
    refine findFrom_eq_some ?_ (Nat.zero_le _) (by rwa [Nat.zero_add, ← length_window]) ?_
    · exact decide_eq_true hget
    · intro j _ hj
      have hne := List.not_of_lt_findIdx hj
      rw [getElem_window] at hne
      simpa using hne
  rw [drop, hfind, ← window_set]
  refine ⟨rfl, ?_⟩
  show (List.range (c.childCount - 1)).map _ = ((List.range c.childCount).map _).dropLast
  rw [← List.map_dropLast]
  cases c.childCount with
  | zero => rfl
  | succ n => rw [List.range_succ, List.dropLast_concat, Nat.add_sub_cancel]

/-- A claim takes a slot with a 0, or a new one where the window has none. -/
theorem claim_cases (h : c.claim = some (i, d)) :
    (c.child i = 0 ∧ i < c.childCount ∧ d = c) ∨
      (0 ∉ c.window ∧ ∀ pid, (d.set i pid).window = c.window ++ [pid]) := by
  by_cases h0 : 0 ∈ c.window
  · left
    obtain ⟨j, hj, hj0⟩ := List.mem_map.mp h0
    obtain ⟨b, hb⟩ := findFrom_isSome (p := fun i => c.child i = 0) (n := c.childCount) (i := 0)
      (by simpa using hj0) (Nat.zero_le j) (by simpa using hj)
    obtain ⟨hb0, -, hlt⟩ := findFrom_some hb
    rw [claim, hb] at h
    obtain ⟨rfl, rfl⟩ := Prod.mk.inj (Option.some.inj h)
    exact ⟨of_decide_eq_true hb0, by omega, rfl⟩
  · exact Or.inr ⟨h0, window_claim h0 h⟩

/-- A claimed slot that keeps its pid. -/
theorem same_set_iff (h : c.claim = some (i, d)) (hpid : pid ≠ 0) :
    c.Same (d.set i pid) ↔ 0 ∈ c.window ∧ pid ∈ c.window := by
  obtain ⟨h0, hi, rfl⟩ | ⟨h0, hw⟩ := claim_cases h
  · have hzero : 0 ∈ d.window := h0 ▸ child_mem_window hi
    rw [and_iff_right hzero]
    constructor
    · intro hsame
      exact (hsame.mem pid hpid).mp ((mem_window_set hi h0 hpid).mpr (Or.inl rfl))
    · intro hmem
      refine ⟨rfl, fun x hx => ?_⟩
      rw [mem_window_set hi h0 hx, or_iff_right_iff_imp]
      rintro rfl
      exact hmem
  · refine iff_of_false ?_ fun h => h0 h.1
    intro hsame
    have hlen := congrArg List.length (hw pid)
    rw [length_window, List.length_append, length_window, hsame.count, List.length_singleton]
      at hlen
    omega

/-- A claimed slot whose pid is dropped again. -/
theorem same_drop_iff (h : c.claim = some (i, d)) :
    c.Same ((d.set i pid).drop pid) ↔ 0 ∉ c.window ∧ c.window.count pid ≠ 1 := by
  have hmem := mem_window_claim h pid
  obtain ⟨hcount, hwindow⟩ := drop_of_mem hmem
  obtain ⟨h0, hi, rfl⟩ | ⟨h0, hw⟩ := claim_cases h
  · -- the window lost its last entry
    have hzero : 0 ∈ d.window := h0 ▸ child_mem_window hi
    refine iff_of_false ?_ fun h => h.1 hzero
    intro hsame
    have hlt : d.childCount - 1 = d.childCount := hcount.symm.trans hsame.count
    omega
  · have hlen : (d.set i pid).childCount = c.childCount + 1 := by
      rw [← length_window, hw, List.length_append, length_window, List.length_singleton]
    rw [hlen, Nat.add_sub_cancel] at hcount
    rw [hw] at hwindow
    rw [and_iff_right h0]
    by_cases hin : pid ∈ c.window
    · -- an older entry with the pid was zeroed
      have hlt := List.idxOf_lt_length_of_mem hin
      rw [List.idxOf_append_of_mem hin, List.set_append_left _ _ hlt, List.dropLast_concat]
        at hwindow
      have hothers : ∀ x ≠ 0, x ∈ ((d.set i pid).drop pid).window ↔ x ∈ c.window.erase pid := by
        intro x hx
        rw [hwindow, (List.set_perm_cons_eraseIdx hlt 0).mem_iff, List.mem_cons, or_iff_right hx,
          List.eraseIdx_idxOf_eq_erase]
      have hpid : pid ≠ 0 := fun heq => h0 (heq ▸ hin)
      have hpos := List.count_pos_iff.mpr hin
      have herase : pid ∈ c.window.erase pid ↔ c.window.count pid ≠ 1 := by
        rw [← List.count_pos_iff, List.count_erase_self]
        omega
      rw [← herase, ← hothers pid hpid]
      constructor
      · exact fun hsame => (hsame.mem pid hpid).mpr hin
      · intro hkept
        refine ⟨hcount, fun x hx => ?_⟩
        by_cases hxp : x = pid
        · subst hxp
          exact iff_of_true hkept hin
        · rw [hothers x hx, List.mem_erase_of_ne hxp]
    · -- the new entry was zeroed
      rw [List.idxOf_append_of_notMem hin, List.idxOf_cons_self, Nat.add_zero,
        List.set_append_right _ _ (Nat.le_refl _), Nat.sub_self, List.set_cons_zero,
        List.dropLast_concat] at hwindow
      refine iff_of_true ⟨hcount, fun x _ => by rw [hwindow]⟩ ?_
      rw [List.count_eq_zero.mpr hin]
      decide

end Children

end StardustOS.Process
