import StardustOS.Lib.Image
import StardustOS.Lib.Loop
import StardustOS.Libc.Strings

/-!
# Memory functions

`memcpy` and `memmove` on a memory of 32-bit addresses.  A block may run over the end
of the address space.

`memmove` copies upwards or downwards.  In both directions the bytes that were copied
are a part `[lo, hi)` of the block, and what is still to be read is as it was before
(`Moved`).
-/

namespace StardustOS.Libc

open Lib

/-- `memcpy`: one byte after another. -/
def memcpy (dst : UInt32) (src : List UInt8) (mem : UInt32 → UInt8) : UInt32 → UInt8 :=
  forUpto src.length (fun i mem => Function.update mem (dst + UInt32.ofNat i) (byteAt src i)) mem

/-- The `n` bytes from `addr` on. -/
def readBytes (mem : UInt32 → UInt8) (addr : UInt32) (n : Nat) : List UInt8 :=
  (List.range n).map fun i => mem (addr + UInt32.ofNat i)

variable {dst x : UInt32} {src : List UInt8} {mem : UInt32 → UInt8}

/-- The address `i` bytes into a block is `i` bytes from its start. -/
theorem toNat_add_sub {i : Nat} (h : i < 2 ^ 32) : (dst + UInt32.ofNat i - dst).toNat = i := by
  rw [add_sub_cancel_left, UInt32.toNat_ofNat_of_lt' h]

theorem memcpy_apply (h : src.length ≤ 2 ^ 32) (x : UInt32) :
    memcpy dst src mem x =
      if InBlock dst src.length x then byteAt src (x - dst).toNat else mem x := by
  -- before the turn `i` the bytes below `i` were copied
  let P (i : Nat) (m : UInt32 → UInt8) : Prop :=
    m x = if InBlock dst i x then byteAt src (x - dst).toNat else mem x
  refine forUpto_inv (P := P) src.length (if_neg (Nat.not_lt_zero _)).symm ?_
  intro i m hi hm
  have hi32 : i < 2 ^ 32 := hi.trans_le h
  show Function.update m (dst + UInt32.ofNat i) (byteAt src i) x =
    if (x - dst).toNat < i + 1 then byteAt src (x - dst).toNat else mem x
  by_cases hx : x = dst + UInt32.ofNat i
  · rw [hx, toNat_add_sub hi32, if_pos (Nat.lt_succ_self i), Function.update_self]
  · have hne : (x - dst).toNat ≠ i := by
      intro heq
      refine hx (eq_add_of_sub_eq' (UInt32.toNat_inj.mp ?_))
      rw [heq, UInt32.toNat_ofNat_of_lt' hi32]
    have hlt : (x - dst).toNat < i + 1 ↔ InBlock dst i x := by
      rw [InBlock]
      omega
    rw [Function.update_of_ne hx, hm]
    simp only [hlt]

/-- Nothing else is written. -/
theorem memcpy_outside (h : src.length ≤ 2 ^ 32) (hx : ¬ InBlock dst src.length x) :
    memcpy dst src mem x = mem x := by
  rw [memcpy_apply h, if_neg hx]

/-- A block that was copied is read back, and what is behind it is as before. -/
theorem readBytes_memcpy {n : Nat} (h : src.length + n ≤ 2 ^ 32) :
    readBytes (memcpy dst src mem) dst (src.length + n) =
      src ++ readBytes mem (dst + UInt32.ofNat src.length) n := by
  refine List.ext_getElem (by simp [readBytes]) ?_
  intro i hi _
  have hi32 : i < src.length + n := by simpa [readBytes] using hi
  have hoff : (dst + UInt32.ofNat i - dst).toNat = i := toNat_add_sub (hi32.trans_le h)
  simp only [readBytes, List.getElem_map, List.getElem_range,
    memcpy_apply ((Nat.le_add_right _ n).trans h), InBlock, hoff]
  split
  · rename_i hsrc
    rw [List.getElem_append_left hsrc, byteAt, List.getD_eq_getElem _ _ hsrc]
  · rename_i hsrc
    rw [List.getElem_append_right (Nat.not_lt.mp hsrc)]
    simp only [List.getElem_map, List.getElem_range]
    rw [add_assoc, ← UInt32.ofNat_add, Nat.add_sub_cancel' (Nat.not_lt.mp hsrc)]

/-! ## `memmove` -/

/-- `memmove`: the result and the memory. -/
def memmove (dst src size : UInt32) (mem : UInt32 → UInt8) : UInt32 × (UInt32 → UInt8) :=
  let copy (i : Nat) (mem : UInt32 → UInt8) : UInt32 → UInt8 :=
    Function.update mem (dst + UInt32.ofNat i) (mem (src + UInt32.ofNat i))
  if dst < src then (dst, forUpto size.toNat copy mem) else (dst, forDown size.toNat copy mem)

/-- The bytes `[lo, hi)` of the block were copied. -/
def Moved (dst src : UInt32) (mem : UInt32 → UInt8) (lo hi : Nat) (m : UInt32 → UInt8) : Prop :=
  ∀ x, m x =
    if lo ≤ (x - dst).toNat ∧ (x - dst).toNat < hi then mem (src + (x - dst)) else mem x

theorem Moved.refl (dst src : UInt32) (mem : UInt32 → UInt8) (i : Nat) :
    Moved dst src mem i i mem := by
  intro x
  rw [if_neg (by omega)]

/-- One more byte is copied, which was not written before. -/
theorem Moved.copy {src : UInt32} {m : UInt32 → UInt8} {lo hi lo' hi' i : Nat}
    (h : Moved dst src mem lo hi m) (hi32 : i < 2 ^ 32)
    (hjoin : ∀ j, lo' ≤ j ∧ j < hi' ↔ lo ≤ j ∧ j < hi ∨ j = i)
    (hunread : ¬ (lo ≤ (src + UInt32.ofNat i - dst).toNat ∧
      (src + UInt32.ofNat i - dst).toNat < hi)) :
    Moved dst src mem lo' hi'
      (Function.update m (dst + UInt32.ofNat i) (m (src + UInt32.ofNat i))) := by
  intro x
  have hread : m (src + UInt32.ofNat i) = mem (src + UInt32.ofNat i) := by rw [h, if_neg hunread]
  by_cases hx : x = dst + UInt32.ofNat i
  · have hin : lo' ≤ i ∧ i < hi' := (hjoin i).mpr (Or.inr rfl)
    rw [hx, Function.update_self, hread, toNat_add_sub hi32, if_pos hin, add_sub_cancel_left]
  · have hne : (x - dst).toNat ≠ i := by
      rintro heq
      refine hx (eq_add_of_sub_eq' (UInt32.toNat_inj.mp ?_))
      rw [heq, UInt32.toNat_ofNat_of_lt' hi32]
    rw [Function.update_of_ne hx, h]
    simp only [hjoin, hne, or_false]

/-- How far a byte of the source is from the start of the block. -/
theorem toNat_source {src : UInt32} {i : Nat} (h : src.toNat + i < 2 ^ 32) :
    (src + UInt32.ofNat i - dst).toNat = (2 ^ 32 + src.toNat + i - dst.toNat) % 2 ^ 32 := by
  have hi32 : i < 2 ^ 32 := by omega
  have hi : (UInt32.ofNat i).toNat = i := UInt32.toNat_ofNat_of_lt' hi32
  have := dst.toNat_lt
  rw [UInt32.toNat_sub, UInt32.toNat_add, hi]
  omega

/-- However the ranges overlap, the whole block is copied. -/
theorem memmove_moved {src size : UInt32} (hdst : dst.toNat + size.toNat ≤ 2 ^ 32)
    (hsrc : src.toNat + size.toNat ≤ 2 ^ 32) (mem : UInt32 → UInt8) :
    Moved dst src mem 0 size.toNat (memmove dst src size mem).2 := by
  have hlt := size.toNat_lt
  simp only [memmove]
  split
  · rename_i hup
    rw [UInt32.lt_iff_toNat_lt] at hup
    refine forUpto_inv (P := fun i m => Moved dst src mem 0 i m) _ (.refl dst src mem 0) ?_
    intro i m hi hm
    refine hm.copy (by omega) (by omega) ?_
    -- upwards the source is ahead of what was written
    rw [toNat_source (by omega)]
    omega
  · rename_i hdown
    rw [UInt32.lt_iff_toNat_lt] at hdown
    refine forDown_inv (P := fun i m => Moved dst src mem i size.toNat m)
      (.refl dst src mem size.toNat) ?_
    intro i m hi hm
    refine hm.copy (by omega) (by omega) ?_
    -- downwards it is behind, or below the block
    rw [toNat_source (by omega)]
    omega

/-- `memmove` copies as if the source were read as a whole first. -/
theorem memmove_copies {dst src size : UInt32} (hdst : dst.toNat + size.toNat ≤ 2 ^ 32)
    (hsrc : src.toNat + size.toNat ≤ 2 ^ 32) (mem : UInt32 → UInt8) :
    (memmove dst src size mem).1 = dst ∧
      (∀ i < size.toNat, (memmove dst src size mem).2 (dst + UInt32.ofNat i) =
        mem (src + UInt32.ofNat i)) ∧
      ∀ x, ¬ InBlock dst size.toNat x → (memmove dst src size mem).2 x = mem x := by
  have hmoved := memmove_moved hdst hsrc mem
  refine ⟨?_, fun i hi => ?_, fun x hx => ?_⟩
  · simp only [memmove]
    split
    · rfl
    · rfl
  · have hoff : (dst + UInt32.ofNat i - dst).toNat = i :=
      toNat_add_sub (hi.trans size.toNat_lt)
    rw [hmoved, hoff, if_pos ⟨Nat.zero_le i, hi⟩, add_sub_cancel_left]
  · rw [hmoved, if_neg fun h => hx h.2]

/-- Eight bytes that move up by three, over their own end, in a memory that holds the low
bytes of its addresses. -/
theorem memmove_copies_overlap :
    (memmove 0x1003 0x1000 8 UInt32.toUInt8).1 = 0x1003 ∧
      (∀ i < 8, (memmove 0x1003 0x1000 8 UInt32.toUInt8).2 (0x1003 + UInt32.ofNat i) =
        (0x1000 + UInt32.ofNat i).toUInt8) ∧
      ∀ x, ¬ InBlock 0x1003 8 x →
        (memmove 0x1003 0x1000 8 UInt32.toUInt8).2 x = x.toUInt8 :=
  memmove_copies (by decide) (by decide) UInt32.toUInt8

end StardustOS.Libc
