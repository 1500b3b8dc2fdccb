import Mathlib.Data.UInt
import Mathlib.Tactic.Common

/-!
# Memory images

What an address space of 32 bits shows: which addresses are on pages that are
present, the bytes there, and the blocks that were written, the last one first.
A write to an address whose page is not present is undefined.

A block may run over the end of the address space.
-/

namespace StardustOS.Lib

/-- The block of `n` bytes from `addr` on holds the address `x`. -/
def InBlock (addr : UInt32) (n : Nat) (x : UInt32) : Prop := (x - addr).toNat < n

instance {addr : UInt32} {n : Nat} {x : UInt32} : Decidable (InBlock addr n x) :=
  inferInstanceAs (Decidable ((x - addr).toNat < n))

/-- The address `x` is on one of the `n` pages from the page of `addr` on. -/
def OnPages (addr : UInt32) (n : Nat) (x : UInt32) : Prop :=
  ∃ i < n, x.toNat / 0x1000 = (addr.toNat / 0x1000 + i) % 0x100000

instance {addr : UInt32} {n : Nat} {x : UInt32} : Decidable (OnPages addr n x) :=
  inferInstanceAs (Decidable (∃ i < n, x.toNat / 0x1000 = (addr.toNat / 0x1000 + i) % 0x100000))

/-- A block within a larger one. -/
theorem InBlock.of_offset {addr x : UInt32} {n k : Nat} (hx : InBlock (addr + UInt32.ofNat n) k x)
    (h : n + k ≤ 2 ^ 32) : InBlock addr (n + k) x := by
  have hsum : x - addr = x - (addr + UInt32.ofNat n) + UInt32.ofNat n := by
    rw [← sub_sub, sub_add_cancel]
  rw [InBlock] at hx ⊢
  rw [hsum, UInt32.toNat_add, UInt32.toNat_ofNat']
  omega

/-- The pages reach over a block. -/
theorem onPages_iff {addr : UInt32} {n m : Nat} (hm : m < 0x100000) (h0 : 0 < n)
    (hn : addr.toNat % 0x1000 + n ≤ 2 ^ 32) :
    (∀ x, InBlock addr n x → OnPages addr m x) ↔ (addr.toNat % 0x1000 + (n - 1)) / 0x1000 < m := by
  constructor
  · intro h
    -- the last address of the block
    have hlast : (UInt32.ofNat (n - 1)).toNat = n - 1 :=
      UInt32.toNat_ofNat_of_lt' (by simp only [UInt32.size]; omega)
    have hin : InBlock addr n (addr + UInt32.ofNat (n - 1)) := by
      rw [InBlock, add_sub_cancel_left, hlast]
      omega
    obtain ⟨i, hi, hpage⟩ := h _ hin
    rw [UInt32.toNat_add, hlast] at hpage
    omega
  · intro h x hx
    refine ⟨(addr.toNat % 0x1000 + (x - addr).toNat) / 0x1000, ?_, ?_⟩
    · rw [InBlock] at hx
      omega
    · have hsum : x.toNat = (addr.toNat + (x - addr).toNat) % 2 ^ 32 := by
        rw [← UInt32.toNat_add, add_sub_cancel]
      omega

/-- An address space, and the blocks that were written. -/
structure Image where
  present : UInt32 → Bool
  byte : UInt32 → UInt8
  writes : List (UInt32 × Nat)

namespace Image

/-- A block of bytes is written. -/
def write (addr : UInt32) (bytes : List UInt8) (img : Image) : Option Image :=
  if ∀ j < bytes.length, img.present (addr + UInt32.ofNat j) = true then
    some { img with
      byte := fun x => bytes[(x - addr).toNat]?.getD (img.byte x)
      writes := (addr, bytes.length) :: img.writes }
  else none

/-- From `img` to `img'` pages were mapped.  What they hold is not said. -/
structure Mapped (addr : UInt32) (n : Nat) (img img' : Image) : Prop where
  present : ∀ x, img'.present x = true ↔ img.present x = true ∨ OnPages addr n x
  byte : ∀ x, img.present x = true → img'.byte x = img.byte x
  writes : img'.writes = img.writes

/-- Pages are mapped, of zeros where there was none. -/
def map (addr : UInt32) (n : Nat) (img : Image) : Image where
  present x := img.present x || decide (OnPages addr n x)
  byte x := if img.present x then img.byte x else 0
  writes := img.writes

theorem map_mapped (addr : UInt32) (n : Nat) (img : Image) :
    Mapped addr n img (img.map addr n) where
  present x := by simp [map]
  byte x hx := if_pos hx
  writes := rfl

/-- The pages of one image are in the other, with the same bytes outside `T`. -/
structure Keeps (T : UInt32 → Prop) (img img' : Image) : Prop where
  present : ∀ x, img.present x = true → img'.present x = true
  byte : ∀ x, img.present x = true → ¬ T x → img'.byte x = img.byte x

theorem Keeps.refl (T : UInt32 → Prop) (img : Image) : Keeps T img img :=
  ⟨fun _ h => h, fun _ _ _ => rfl⟩

theorem Keeps.trans {T : UInt32 → Prop} {img mid img' : Image} (h : Keeps T img mid)
    (h' : Keeps T mid img') : Keeps T img img' where
  present x hx := h'.present x (h.present x hx)
  byte x hx hT := (h'.byte x (h.present x hx) hT).trans (h.byte x hx hT)

theorem Keeps.mono {T T' : UInt32 → Prop} {img img' : Image} (h : Keeps T img img')
    (hT : ∀ x, T x → T' x) : Keeps T' img img' :=
  ⟨h.present, fun x hx hx' => h.byte x hx (mt (hT x) hx')⟩

theorem Mapped.keeps {addr : UInt32} {n : Nat} {img img' : Image} (h : Mapped addr n img img')
    (T : UInt32 → Prop) : Keeps T img img' where
  present x hx := (h.present x).mpr (Or.inl hx)
  byte x hx _ := h.byte x hx

section Write

variable {addr : UInt32} {bytes : List UInt8} {img img' : Image}

theorem write_eq (h : img.write addr bytes = some img') :
    img' = { img with
      byte := fun x => bytes[(x - addr).toNat]?.getD (img.byte x)
      writes := (addr, bytes.length) :: img.writes } := by
  rw [write] at h
  split at h
  · exact (Option.some.inj h).symm
  · cases h

theorem write_keeps (h : img.write addr bytes = some img') :
    Keeps (InBlock addr bytes.length) img img' := by
  rw [write_eq h]
  refine ⟨fun _ hx => hx, ?_⟩
  intro x _ hout
  have hnone : bytes[(x - addr).toNat]? = none :=
    List.getElem?_eq_none (Nat.not_lt.mp hout)
  simp only [hnone, Option.getD_none]

theorem write_byte (h : img.write addr bytes = some img') {x : UInt32}
    {c : UInt8} (hx : bytes[(x - addr).toNat]? = some c) : img'.byte x = c := by
  rw [write_eq h]
  simp only [hx, Option.getD_some]

/-- What was written is present. -/
theorem write_present (h : img.write addr bytes = some img') {x : UInt32}
    (hx : InBlock addr bytes.length x) : img'.present x = true := by
  rw [write_eq h]
  rw [write] at h
  split at h
  · rename_i hpages
    have hpage := hpages _ hx
    rwa [UInt32.ofNat_toNat, add_sub_cancel] at hpage
  · cases h

/-- A write maps no pages. -/
theorem present_of_write (h : img.write addr bytes = some img') : img'.present = img.present := by
  rw [write_eq h]

theorem write_writes (h : img.write addr bytes = some img') :
    img'.writes = (addr, bytes.length) :: img.writes := by
  rw [write_eq h]

end Write

end Image

end StardustOS.Lib
