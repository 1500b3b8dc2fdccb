import Mathlib.Algebra.BigOperators.Group.List.Basic
import Mathlib.Data.List.Nodup
import Mathlib.Data.List.Perm.Basic
import Mathlib.Data.Nat.ModEq
import Mathlib.Tactic.Common

/-!
# Ring buffers

A ring of `n` slots keeps the last `n` values of a sequence: the value that comes
at time `t` is written to slot `t % n`, over the one that came `n` values before.
What the ring stands for is the sequence itself, `hist`, with the newest value
first.  `Holds` says where each value is, and that the slots hold the values of
the `window` and no others.  A slot that was never written holds `d`.
-/

namespace StardustOS.Lib.Ring

variable {α : Type*} (n : Nat) (d : α)

/-- The value `x` comes at time `t`. -/
def write (t : Nat) (x : α) (slot : Nat → α) : Nat → α := fun i => if i = t % n then x else slot i

/-- The slots. -/
def cells (slot : Nat → α) : List α := (List.range n).map slot

/-- The last `n` values, and `d` for those that have not come yet. -/
def window (hist : List α) : List α := (hist ++ List.replicate n d).take n

/-- The slots hold the last values of the sequence. -/
structure Holds (slot : Nat → α) (hist : List α) : Prop where
  at_slot : ∀ k < n, slot ((hist.length + (n - 1 - k)) % n) = hist.getD k d
  perm : (cells n slot).Perm (window n d hist)

variable {n d} {slot : Nat → α} {hist : List α} {x : α}

@[simp] theorem length_cells : (cells n slot).length = n := by simp [cells]

theorem getElem_cells {i : Nat} (h : i < (cells n slot).length) : (cells n slot)[i] = slot i := by
  simp [cells]

/-! ## The window -/

/-- The values of the window but the oldest. -/
def newer (n : Nat) (d : α) (hist : List α) : List α := (hist ++ List.replicate n d).take (n - 1)

theorem window_cons (hn : 0 < n) : window n d (x :: hist) = x :: newer n d hist := by
  obtain ⟨m, rfl⟩ := Nat.exists_eq_succ_of_ne_zero hn.ne'
  rfl

theorem window_eq_concat (hn : 0 < n) :
    window n d hist = newer n d hist ++ [hist.getD (n - 1) d] := by
  obtain ⟨m, rfl⟩ := Nat.exists_eq_succ_of_ne_zero hn.ne'
  have hlast : (hist ++ List.replicate (m + 1) d)[m]? = some (hist.getD m d) := by
    rw [List.getElem?_append, List.getD_eq_getElem?_getD]
    split
    · rw [List.getElem?_eq_getElem ‹_›, Option.getD_some]
    · rw [List.getElem?_replicate_of_lt (by omega),
        List.getElem?_eq_none (l := hist) (Nat.not_lt.mp ‹_›), Option.getD_none]
  show (hist ++ List.replicate (m + 1) d).take (m + 1) = _
  rw [List.take_add_one, hlast]
  rfl

/-- Only the values of the sequence are found in the window, if `d` is not asked
for. -/
theorem count_window [DecidableEq α] (hx : x ≠ d) :
    (window n d hist).count x = (hist.take n).count x := by
  have hd : ¬ (d == x) = true := by simpa using hx.symm
  rw [window, List.take_append, List.count_append, List.take_replicate, List.count_replicate,
    if_neg hd, Nat.add_zero]

/-! ## Writes -/

theorem cells_write (t : Nat) : cells n (write n t x slot) = (cells n slot).set (t % n) x := by
  refine List.ext_getElem (by simp) ?_
  intro i hi _
  rw [getElem_cells, List.getElem_set, getElem_cells, write]
  exact if_congr eq_comm rfl rfl

/-- Slots that are written less than `n` apart are different. -/
theorem slot_ne {t k : Nat} (h0 : 0 < k) (hk : k < n) : (t + k) % n ≠ t % n := by
  intro heq
  have hmod : t + k ≡ t + 0 [MOD n] := heq
  have hzero := Nat.ModEq.add_left_cancel' t hmod
  rw [Nat.ModEq, Nat.mod_eq_of_lt hk, Nat.zero_mod] at hzero
  exact h0.ne' hzero

/-- Before anything comes. -/
theorem holds_nil (n : Nat) (d : α) : Holds n d (fun _ => d) [] := by
  refine ⟨fun _ _ => rfl, ?_⟩
  rw [cells, window, List.nil_append, List.map_const', List.length_range, List.take_replicate,
    Nat.min_self]

/-- A write keeps what the ring stands for: it goes over the oldest value. -/
theorem Holds.write (h : Holds n d slot hist) (hn : 0 < n) (x : α) :
    Holds n d (write n hist.length x slot) (x :: hist) where
  at_slot := by
    intro k hk
    cases k with
    | zero =>
        have hslot : ((x :: hist).length + (n - 1 - 0)) % n = hist.length % n := by
          rw [List.length_cons, show hist.length + 1 + (n - 1 - 0) = hist.length + n by omega,
            Nat.add_mod_right]
        rw [hslot, Ring.write, if_pos rfl, List.getD_cons_zero]
    | succ k =>
        have hslot : (x :: hist).length + (n - 1 - (k + 1)) = hist.length + (n - 1 - k) := by
          rw [List.length_cons]
          omega
        rw [hslot, Ring.write, if_neg (slot_ne (by omega) (by omega)), List.getD_cons_succ]
        exact h.at_slot k (by omega)
  perm := by
    have hold : slot (hist.length % n) = hist.getD (n - 1) d := by
      have hslot := h.at_slot (n - 1) (by omega)
      rwa [Nat.sub_self, Nat.add_zero] at hslot
    have hlt : hist.length % n < (cells n slot).length := by
      rw [length_cells]
      exact Nat.mod_lt _ hn
    -- The slots without the one that is written hold the newer values.
    have hrest : ((cells n slot).eraseIdx (hist.length % n)).Perm (newer n d hist) := by
      have hcells := List.getElem_cons_eraseIdx_perm hlt
      rw [getElem_cells, hold] at hcells
      have hwindow := h.perm
      rw [window_eq_concat hn] at hwindow
      exact ((hcells.trans hwindow).trans (List.perm_append_singleton _ _)).cons_inv
    rw [cells_write, window_cons hn]
    exact (List.set_perm_cons_eraseIdx hlt x).trans (hrest.cons x)

/-- The slots that hold a value are as many as the last values that are it. -/
theorem Holds.count_cells [DecidableEq α] (h : Holds n d slot hist) (hx : x ≠ d) :
    (cells n slot).count x = (hist.take n).count x := by
  rw [h.perm.count_eq, count_window hx]

/-- No member of a list is counted under two values. -/
theorem sum_count_le_length [DecidableEq α] {xs : List α} (hxs : xs.Nodup) (l : List α) :
    (xs.map fun x => l.count x).sum ≤ l.length := by
  induction l with
  | nil => simp
  | cons y l ih =>
      have hone : (xs.map fun x => if y == x then 1 else 0).sum = xs.count y := by
        clear hxs ih
        induction xs with
        | nil => rfl
        | cons x xs ih =>
            rw [List.map_cons, List.sum_cons, ih, List.count_cons, Nat.add_comm, BEq.comm]
      simp only [List.count_cons, List.sum_map_add, hone, List.length_cons]
      have hle := List.nodup_iff_count_le_one.mp hxs y
      omega

/-- The slots of different values are different slots. -/
theorem sum_count_cells_le [DecidableEq α] {xs : List α} (hxs : xs.Nodup) (n : Nat)
    (slot : Nat → α) : (xs.map fun x => (cells n slot).count x).sum ≤ n :=
  (sum_count_le_length hxs _).trans_eq length_cells

end StardustOS.Lib.Ring
