import Mathlib.Algebra.Order.Ring.Nat
import Mathlib.Logic.Function.Basic
import Mathlib.Tactic.Common

/-!
# Packed bitmaps

A bitmap of `n` words of `w` bits each.  Bit `i` is bit `i % w` of word `i / w`,
and is read and written with the mask `1 << (i % w)`.  `testBit_setBit` and
`testBit_clearBit` say that a write reaches one bit and no other.
-/

namespace StardustOS.Lib

/-- `n` words of `w` bits. -/
abbrev Bitmap (n w : Nat) := Fin n → BitVec w

namespace Bitmap

variable {n w : Nat} [NeZero n] [NeZero w]

/-- The mask of a bit in its word. -/
def mask (w i : Nat) : BitVec w := 1#w <<< (i % w)

/-- The word that holds a bit. -/
def word (n w i : Nat) [NeZero n] : Fin n := Fin.ofNat n (i / w)

/-- `m[i / w] & (1 << i % w)`, as a truth value. -/
def testBit (m : Bitmap n w) (i : Nat) : Bool := m (word n w i) &&& mask w i != 0

/-- `m[i / w] |= 1 << i % w`. -/
def setBit (m : Bitmap n w) (i : Nat) : Bitmap n w :=
  Function.update m (word n w i) (m (word n w i) ||| mask w i)

/-- `m[i / w] &= ~(1 << i % w)`. -/
def clearBit (m : Bitmap n w) (i : Nat) : Bitmap n w :=
  Function.update m (word n w i) (m (word n w i) &&& ~~~ mask w i)

theorem getLsbD_mask (i k : Nat) : (mask w i).getLsbD k = decide (k = i % w) := by
  have := Nat.mod_lt i (Nat.pos_of_neZero w)
  simp only [mask, BitVec.getLsbD_shiftLeft, BitVec.getLsbD_one]
  by_cases hk : k = i % w
  · simp [hk, this, Nat.pos_of_neZero w]
  · by_cases hlt : k < i % w
    · simp [hk, hlt]
    · simp [hk, hlt]
      omega

theorem testBit_eq (m : Bitmap n w) (i : Nat) :
    m.testBit i = (m (word n w i)).getLsbD (i % w) := by
  have hlt := Nat.mod_lt i (Nat.pos_of_neZero w)
  cases hb : (m (word n w i)).getLsbD (i % w)
  · -- the mask has no other bit to meet
    have hz : m (word n w i) &&& mask w i = 0#w := by
      apply BitVec.eq_of_getLsbD_eq
      intro k _
      rw [BitVec.getLsbD_and, getLsbD_mask, BitVec.getLsbD_zero]
      by_cases hk : k = i % w
      · rw [hk, hb, Bool.false_and]
      · simp [hk]
    simp [testBit, hz]
  · have hbit : (m (word n w i) &&& mask w i).getLsbD (i % w) = true := by
      simp [getLsbD_mask, hb]
    simp only [testBit, bne_iff_ne, ne_eq]
    intro hz
    rw [hz] at hbit
    simp at hbit

omit [NeZero w] in
theorem word_eq_iff {i j : Nat} (hi : i < n * w) (hj : j < n * w) :
    word n w i = word n w j ∧ i % w = j % w ↔ i = j := by
  constructor
  · rintro ⟨hw, hm⟩
    have hi' : i / w < n := Nat.div_lt_of_lt_mul (by rwa [Nat.mul_comm])
    have hj' : j / w < n := Nat.div_lt_of_lt_mul (by rwa [Nat.mul_comm])
    have hdiv : i / w = j / w := by
      have := congrArg Fin.val hw
      simpa [word, Nat.mod_eq_of_lt hi', Nat.mod_eq_of_lt hj'] using this
    rw [← Nat.div_add_mod i w, ← Nat.div_add_mod j w, hdiv, hm]
  · rintro rfl
    exact ⟨rfl, rfl⟩

theorem testBit_setBit (m : Bitmap n w) {i j : Nat} (hi : i < n * w) (hj : j < n * w) :
    (m.setBit i).testBit j = (decide (j = i) || m.testBit j) := by
  rw [testBit_eq, testBit_eq, setBit]
  by_cases hw : word n w j = word n w i
  · rw [hw, Function.update_self, BitVec.getLsbD_or, getLsbD_mask, Bool.or_comm]
    congr 1
    simpa [hw] using word_eq_iff hj hi
  · have hne : j ≠ i := fun h => hw (h ▸ rfl)
    rw [Function.update_of_ne hw]
    simp [hne]

theorem testBit_clearBit (m : Bitmap n w) {i j : Nat} (hi : i < n * w) (hj : j < n * w) :
    (m.clearBit i).testBit j = (!decide (j = i) && m.testBit j) := by
  rw [testBit_eq, testBit_eq, clearBit]
  by_cases hw : word n w j = word n w i
  · have hlt := Nat.mod_lt j (Nat.pos_of_neZero w)
    have heq : j % w = i % w ↔ j = i := by simpa [hw] using word_eq_iff hj hi
    rw [hw, Function.update_self, BitVec.getLsbD_and, BitVec.getLsbD_not, getLsbD_mask,
      Bool.and_comm]
    simp [hlt, heq]
  · have hne : j ≠ i := fun h => hw (h ▸ rfl)
    rw [Function.update_of_ne hw]
    simp [hne]

end Bitmap

end StardustOS.Lib
