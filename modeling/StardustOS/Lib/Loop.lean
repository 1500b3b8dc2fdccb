import Mathlib.Data.Set.Basic
import Mathlib.Order.Bounds.Defs
import Mathlib.Tactic.TypeStar
import Mathlib.Tactic.Common

/-!
# Counted loops and linear searches

The C loops of the form `for (i = 0; i < n; i++)` fall into five shapes.

* `forUpto` threads a state through the body, and `forUpto_inv` is its
  invariant rule.  `forDown` is the loop that counts down.
* `anyUpto` and `allUpto` return early from a test, and say whether some or
  every index passes it.
* `countUpto` counts the indices that pass a test.
* `findFrom` returns the first index that passes a test.
* `scanRun` returns the first index from which `count` indices in a row pass a
  test.  It keeps the length and the start of the run it is in, and forgets
  both when an index fails.  `scanRun_eq_some` and `scanRun_eq_none` say what it
  finds.

A recursion with a bound on its depth takes one bound for all the calls that it makes
(`exists_common`).  What it comes to with every bound that is large enough is what it
`Returns`.
-/

namespace StardustOS.Lib

variable {σ ι : Type*}

/-! ## Bounds -/

/-- Finitely many bounds have a common one. -/
theorem exists_common {P : ι → Nat → Prop} {l : List ι}
    (h : ∀ i ∈ l, ∃ n, ∀ m ≥ n, P i m) : ∃ n, ∀ i ∈ l, ∀ m ≥ n, P i m := by
  induction l with
  | nil => exact ⟨0, by simp⟩
  | cons i l ih =>
      obtain ⟨n, hn⟩ := h i List.mem_cons_self
      obtain ⟨n', hn'⟩ := ih fun j hj => h j (List.mem_cons_of_mem _ hj)
      refine ⟨max n n', ?_⟩
      intro j hj m hm
      rcases List.mem_cons.mp hj with rfl | hj
      · exact hn m (Nat.le_trans (Nat.le_max_left _ _) hm)
      · exact hn' j hj m (Nat.le_trans (Nat.le_max_right _ _) hm)

/-- With enough turns the loop comes to an end, with `r`. -/
def Returns (loop : Nat → Option σ) (r : σ) : Prop := ∃ n, ∀ budget > n, loop budget = some r

/-- A loop returns one thing. -/
theorem Returns.unique {loop : Nat → Option σ} {r r' : σ} (h : Returns loop r)
    (h' : Returns loop r') : r = r' := by
  obtain ⟨n, hn⟩ := h
  obtain ⟨n', hn'⟩ := h'
  have hr := hn (max n n' + 1) (Nat.lt_succ_of_le (Nat.le_max_left _ _))
  have hr' := hn' (max n n' + 1) (Nat.lt_succ_of_le (Nat.le_max_right _ _))
  exact Option.some.inj (hr.symm.trans hr')

theorem Returns.map {τ : Type*} {loop : Nat → Option σ} {r : σ} (h : Returns loop r) (f : σ → τ) :
    Returns (fun budget => (loop budget).map f) (f r) := by
  obtain ⟨n, hn⟩ := h
  refine ⟨n, ?_⟩
  intro budget hbudget
  simp only [hn budget hbudget, Option.map_some]

/-- Where one turn more changes nothing, it is enough that the loop comes to an end. -/
theorem returns_of_succ {loop : Nat → Option σ} {r : σ}
    (hsucc : ∀ n r, loop n = some r → loop (n + 1) = some r) {n : Nat} (h : loop n = some r) :
    Returns loop r := by
  have hmore : ∀ k, loop (n + k) = some r := by
    intro k
    induction k with
    | zero => exact h
    | succ k ih => exact hsucc _ r ih
  refine ⟨n, ?_⟩
  intro budget hbudget
  obtain ⟨k, rfl⟩ := Nat.exists_eq_add_of_lt hbudget
  exact hmore (k + 1)

/-! ## Loops over a state -/

/-- `for (i = 0; i < n; i++) s = body(i, s)`. -/
def forUpto : Nat → (Nat → σ → σ) → σ → σ
  | 0, _, s => s
  | n + 1, body, s => body n (forUpto n body s)

@[simp] theorem forUpto_zero (body : Nat → σ → σ) (s : σ) : forUpto 0 body s = s := rfl

theorem forUpto_succ (n : Nat) (body : Nat → σ → σ) (s : σ) :
    forUpto (n + 1) body s = body n (forUpto n body s) := rfl

/-- The invariant rule: `P i` holds before the turn of index `i`. -/
theorem forUpto_inv {P : Nat → σ → Prop} {body : Nat → σ → σ} {s : σ} (n : Nat) (h0 : P 0 s)
    (hs : ∀ i t, i < n → P i t → P (i + 1) (body i t)) : P n (forUpto n body s) := by
  induction n with
  | zero => exact h0
  | succ n ih =>
      have hn : P n (forUpto n body s) := ih fun i t hi => hs i t (Nat.lt_succ_of_lt hi)
      exact hs n _ (Nat.lt_succ_self n) hn

/-- A property that no turn of the loop changes is not changed by the loop. -/
theorem forUpto_eq {α : Type*} {f : σ → α} {body : Nat → σ → σ} (n : Nat) (s : σ)
    (h : ∀ i t, i < n → f (body i t) = f t) : f (forUpto n body s) = f s :=
  forUpto_inv (P := fun _ t => f t = f s) n rfl fun i t hi ht => (h i t hi).trans ht

/-- A loop simulates another when its body does, turn by turn. -/
theorem forUpto_sim {τ : Type*} {R : σ → τ → Prop} {body : Nat → σ → σ} {body' : Nat → τ → τ}
    {s : σ} {t : τ} (h0 : R s t) (n : Nat)
    (hs : ∀ i s t, i < n → R s t → R (body i s) (body' i t)) :
    R (forUpto n body s) (forUpto n body' t) := by
  induction n with
  | zero => exact h0
  | succ n ih =>
      have hn : R (forUpto n body s) (forUpto n body' t) :=
        ih fun i s t hi => hs i s t (Nat.lt_succ_of_lt hi)
      exact hs n _ _ (Nat.lt_succ_self n) hn

/-- Two bodies that agree as long as `P` holds, which they keep, make one loop. -/
theorem forUpto_congr {P : σ → Prop} {body body' : Nat → σ → σ} {s : σ} (h0 : P s)
    (heq : ∀ i t, P t → body i t = body' i t) (hkeep : ∀ i t, P t → P (body' i t)) (n : Nat) :
    forUpto n body s = forUpto n body' s ∧ P (forUpto n body' s) := by
  induction n with
  | zero => exact ⟨rfl, h0⟩
  | succ n ih =>
      obtain ⟨h, hP⟩ := ih
      rw [forUpto_succ, forUpto_succ, h]
      exact ⟨heq n _ hP, hkeep n _ hP⟩

/-- `for (i = n; i != 0; i--) s = body(i - 1, s)`. -/
def forDown : Nat → (Nat → σ → σ) → σ → σ
  | 0, _, s => s
  | n + 1, body, s => forDown n body (body n s)

/-- The invariant rule: `P i` holds when the indices from `i` on are done. -/
theorem forDown_inv {P : Nat → σ → Prop} {body : Nat → σ → σ} {n : Nat} {s : σ} (hn : P n s)
    (hs : ∀ i t, i < n → P (i + 1) t → P i (body i t)) : P 0 (forDown n body s) := by
  induction n generalizing s with
  | zero => exact hn
  | succ n ih => exact ih (hs n s (Nat.lt_succ_self n) hn) fun i t hi => hs i t (by omega)

/-- `count = 0; for (i = 0; i < n; i++) if (p(i)) count++`. -/
def countUpto (n : Nat) (p : Nat → Bool) : Nat :=
  forUpto n (fun i count => if p i then count + 1 else count) 0

theorem countUpto_eq (n : Nat) (p : Nat → Bool) : countUpto n p = (List.range n).countP p := by
  induction n with
  | zero => rfl
  | succ n ih =>
      show (if p n then countUpto n p + 1 else countUpto n p) = _
      rw [List.range_succ, List.countP_append, ih, List.countP_singleton]
      split
      · rfl
      · rfl

/-! ## Tests over a range -/

/-- `for (i = 0; i < n; i++) if (p(i)) return 1; return 0`. -/
def anyUpto : Nat → (Nat → Bool) → Bool
  | 0, _ => false
  | n + 1, p => anyUpto n p || p n

/-- `for (i = 0; i < n; i++) if (!p(i)) return 0; return 1`. -/
def allUpto : Nat → (Nat → Bool) → Bool
  | 0, _ => true
  | n + 1, p => allUpto n p && p n

theorem anyUpto_eq_true {p : Nat → Bool} {n : Nat} :
    anyUpto n p = true ↔ ∃ i < n, p i = true := by
  induction n with
  | zero => simp [anyUpto]
  | succ n ih =>
      rw [anyUpto, Bool.or_eq_true, ih]
      constructor
      · rintro (⟨i, hi, hp⟩ | hp)
        · exact ⟨i, Nat.lt_succ_of_lt hi, hp⟩
        · exact ⟨n, Nat.lt_succ_self n, hp⟩
      · rintro ⟨i, hi, hp⟩
        obtain hi | rfl := Nat.lt_succ_iff_lt_or_eq.mp hi
        · exact Or.inl ⟨i, hi, hp⟩
        · exact Or.inr hp

theorem anyUpto_eq_false {n : Nat} {p : Nat → Bool} :
    anyUpto n p = false ↔ ∀ i < n, p i = false := by
  rw [← Bool.not_eq_true, anyUpto_eq_true]
  simp

theorem allUpto_eq_true {p : Nat → Bool} {n : Nat} :
    allUpto n p = true ↔ ∀ i < n, p i = true := by
  induction n with
  | zero => simp [allUpto]
  | succ n ih =>
      simp only [allUpto, Bool.and_eq_true, ih, Nat.lt_succ_iff_lt_or_eq]
      constructor
      · rintro ⟨h, hn⟩ i (hi | rfl)
        · exact h i hi
        · exact hn
      · exact fun h => ⟨fun i hi => h i (Or.inl hi), h n (Or.inr rfl)⟩

/-! ## Searches -/

/-- The first of the `n` indices from `i` on that passes `p`. -/
def findFrom (p : Nat → Bool) : Nat → Nat → Option Nat
  | 0, _ => none
  | n + 1, i => if p i then some i else findFrom p n (i + 1)

theorem findFrom_some {p : Nat → Bool} {n i a : Nat} (h : findFrom p n i = some a) :
    p a = true ∧ i ≤ a ∧ a < i + n := by
  induction n generalizing i with
  | zero => simp [findFrom] at h
  | succ n ih =>
      by_cases hp : p i
      · simp only [findFrom, hp, ↓reduceIte, Option.some.injEq] at h
        subst h
        exact ⟨hp, by omega, by omega⟩
      · simp only [findFrom, hp] at h
        obtain ⟨ha, h1, h2⟩ := ih h
        exact ⟨ha, by omega, by omega⟩

theorem findFrom_eq_some {p : Nat → Bool} {a n i : Nat} (ha : p a = true) (h1 : i ≤ a)
    (h2 : a < i + n) (hmin : ∀ j, i ≤ j → j < a → p j = false) : findFrom p n i = some a := by
  induction n generalizing i with
  | zero => omega
  | succ n ih =>
      by_cases hi : i = a
      · subst hi
        rw [findFrom, if_pos ha]
      · rw [findFrom, hmin i (Nat.le_refl i) (by omega), if_neg Bool.false_ne_true]
        exact ih (by omega) (by omega) fun j hj => hmin j (by omega)

theorem findFrom_isSome {p : Nat → Bool} {a n i : Nat} (hp : p a = true) (h1 : i ≤ a)
    (h2 : a < i + n) : ∃ b, findFrom p n i = some b := by
  induction n generalizing i with
  | zero => omega
  | succ n ih =>
      rw [findFrom]
      split
      · exact ⟨i, rfl⟩
      · rename_i hi
        have hne : i ≠ a := fun heq => hi (heq ▸ hp)
        exact ih (by omega) (by omega)

/-- The first index from which `count` indices in a row pass `p`, among the `n`
indices from `i` on.  `size` is the length of the run that ends just before `i`
and `start` is where it began. -/
def scanRun (p : Nat → Bool) (count : Nat) : Nat → Nat → Nat → Nat → Option Nat
  | 0, _, _, _ => none
  | n + 1, i, size, start =>
      if p i then
        let start := if size = 0 then i else start
        if size + 1 = count then some start
        else scanRun p count n (i + 1) (size + 1) start
      else scanRun p count n (i + 1) 0 start

/-- What the search returns is a run of `count` indices that all pass, inside
the range searched. -/
theorem scanRun_some {p : Nat → Bool} {count lo n i size start a : Nat}
    (h : scanRun p count n i size start = some a) (hlo : lo ≤ i)
    (hst : size ≠ 0 → lo ≤ start ∧ start + size = i) (hrun : ∀ k < size, p (start + k) = true) :
    lo ≤ a ∧ a + count ≤ i + n ∧ ∀ k < count, p (a + k) = true := by
  induction n generalizing i size start with
  | zero => simp [scanRun] at h
  | succ n ih =>
      by_cases hp : p i
      · simp only [scanRun, hp, ↓reduceIte] at h
        -- the run reaches up to and including `i`
        have hrun' : ∀ k < size + 1, p ((if size = 0 then i else start) + k) = true := by
          intro k hk
          by_cases hz : size = 0
          · subst hz
            obtain rfl : k = 0 := by omega
            simpa using hp
          · simp only [hz, ↓reduceIte]
            by_cases hks : k < size
            · exact hrun k hks
            · rw [show start + k = i by have := (hst hz).2; omega]
              exact hp
        have hst' : lo ≤ (if size = 0 then i else start) ∧
            (if size = 0 then i else start) + (size + 1) = i + 1 := by
          by_cases hz : size = 0
          · simp [hz, hlo]
          · have := hst hz
            simp only [hz, ↓reduceIte]
            omega
        by_cases hc : size + 1 = count
        · simp only [hc, ↓reduceIte, Option.some.injEq] at h
          subst h hc
          exact ⟨hst'.1, by omega, hrun'⟩
        · simp only [hc, ↓reduceIte] at h
          obtain ⟨h1, h2, h3⟩ := ih h (by omega) (fun _ => hst') hrun'
          exact ⟨h1, by omega, h3⟩
      · simp only [scanRun, hp] at h
        obtain ⟨h1, h2, h3⟩ : lo ≤ a ∧ a + count ≤ i + 1 + n ∧ ∀ k < count, p (a + k) = true :=
          ih h (by omega) (fun h0 => absurd rfl h0) (fun k hk => absurd hk (by omega))
        exact ⟨h1, by omega, h3⟩

/-- A search that begins without a run. -/
theorem scanRun_zero_some {p : Nat → Bool} {count n i start a : Nat}
    (h : scanRun p count n i 0 start = some a) :
    i ≤ a ∧ a + count ≤ i + n ∧ ∀ k < count, p (a + k) = true :=
  scanRun_some h (Nat.le_refl i) (fun h0 => absurd rfl h0) fun k hk => absurd hk (Nat.not_lt_zero k)

/-- A run of `count` indices that all pass is not behind what the search
returns. -/
theorem scanRun_le {p : Nat → Bool} {count a n i size start : Nat} (hc : 0 < count)
    (ha : ∀ k < count, p (a + k) = true) (hsize : size < count) (hst : size ≠ 0 → start + size = i)
    (hpos : i ≤ a ∨ size ≠ 0 ∧ start ≤ a) (hend : a + count ≤ i + n) :
    ∃ b ≤ a, scanRun p count n i size start = some b := by
  induction n generalizing i size start with
  | zero => omega
  | succ n ih =>
      by_cases hp : p i
      · -- the run that `i` is in began at `a` or before
        have hle : (if size = 0 then i else start) ≤ a := by
          split
          · omega
          · have := hst ‹_›
            omega
        simp only [scanRun, hp, ↓reduceIte]
        by_cases hc' : size + 1 = count
        · exact ⟨_, hle, if_pos hc'⟩
        · rw [if_neg hc']
          refine ih (by omega) (fun _ => ?_) (.inr ⟨by omega, hle⟩) (by omega)
          split
          · omega
          · have := hst ‹_›
            omega
      · simp only [scanRun, hp]
        have hout : i < a ∨ a + count ≤ i := by
          by_contra h
          rw [not_or, Nat.not_lt, Nat.not_le] at h
          obtain ⟨k, hk⟩ := Nat.exists_eq_add_of_le h.1
          exact hp (hk ▸ ha k (by omega))
        have hi : i + 1 ≤ a := by
          by_cases hz : size = 0
          · omega
          · have := hst hz
            omega
        exact ih hc (fun h0 => absurd rfl h0) (.inl hi) (by omega)

theorem scanRun_zero_le {p : Nat → Bool} {count a n i : Nat} (hc : 0 < count)
    (ha : ∀ k < count, p (a + k) = true) (hi : i ≤ a) (hend : a + count ≤ i + n) (start : Nat) :
    ∃ b ≤ a, scanRun p count n i 0 start = some b :=
  scanRun_le hc ha hc (fun h0 => absurd rfl h0) (Or.inl hi) hend

/-- The indices from which `count` in a row pass `p`, among those from `lo` on and below
`hi`. -/
def runs (p : Nat → Bool) (count lo hi : Nat) : Set Nat :=
  {a | lo ≤ a ∧ a + count ≤ hi ∧ ∀ k < count, p (a + k) = true}

/-- The search finds the lowest run. -/
theorem scanRun_eq_some {p : Nat → Bool} {count n i start a : Nat} (hc : 0 < count) :
    scanRun p count n i 0 start = some a ↔ IsLeast (runs p count i (i + n)) a := by
  constructor
  · intro h
    refine ⟨scanRun_zero_some h, ?_⟩
    rintro b ⟨hi, hend, hb⟩
    obtain ⟨c, hcb, hfound⟩ := scanRun_zero_le hc hb hi hend start
    obtain rfl : a = c := Option.some.inj (h.symm.trans hfound)
    exact hcb
  · rintro ⟨⟨hi, hend, ha⟩, hleast⟩
    obtain ⟨b, hba, hfound⟩ := scanRun_zero_le hc ha hi hend start
    rw [hfound, Nat.le_antisymm hba (hleast (scanRun_zero_some hfound))]

/-- It finds none only where there is none. -/
theorem scanRun_eq_none {p : Nat → Bool} {count n i start : Nat} (hc : 0 < count) :
    scanRun p count n i 0 start = none ↔ runs p count i (i + n) = ∅ := by
  rw [Set.eq_empty_iff_forall_notMem]
  constructor
  · rintro h a ⟨hi, hend, ha⟩
    obtain ⟨b, -, hfound⟩ := scanRun_zero_le hc ha hi hend start
    exact absurd (h.symm.trans hfound) (by simp)
  · intro h
    cases hfound : scanRun p count n i 0 start with
    | none => rfl
    | some a => exact absurd (scanRun_zero_some hfound) (h a)

/-- The first index that passes is found. -/
theorem scanRun_one {p : Nat → Bool} {a n : Nat} (hp : p a = true) (ha : a < n) :
    ∃ b ≤ a, scanRun p 1 n 0 0 0 = some b := by
  refine scanRun_zero_le Nat.one_pos (fun k hk => ?_) (Nat.zero_le a) (by omega) 0
  rwa [Nat.lt_one_iff.mp hk]

theorem of_scanRun_one {p : Nat → Bool} {b n : Nat} (h : scanRun p 1 n 0 0 0 = some b) :
    b < n ∧ p b = true := by
  obtain ⟨-, hb, hp⟩ := scanRun_zero_some h
  exact ⟨by omega, hp 0 Nat.one_pos⟩

end StardustOS.Lib
