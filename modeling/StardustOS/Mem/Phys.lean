import StardustOS.Errno
import StardustOS.Lib.Bitmap
import StardustOS.Lib.Loop
import Mathlib.Data.Finset.Card
import Mathlib.Data.Fintype.Basic
import Mathlib.Order.Interval.Finset.Nat

/-!
# The physical memory manager

The first part of `mem.c`: a bitmap with one bit for each page frame of the
32-bit address space, and two counters.

Addresses and counts are natural numbers, and an address is read modulo `2^32`,
as `unsigned int` arithmetic does (`frameOf`).  The functions are specified by
the set of frames they mark: `used_physSetused`, `used_physSetfree`,
`physIsused_eq_false` and `physAlloc_spec`.  `balance` is what all of them keep:
`used_mem` moves with the number of used frames.
-/

namespace StardustOS.Mem

open Lib

/-- `PAGE_SIZE`. -/
def PAGE_SIZE : Nat := 4096

/-- A page frame number.  Page numbers of virtual addresses have the same type. -/
abbrev Frame := Fin (2 ^ 20)

instance frames_neZero : NeZero (2 ^ 20) := ⟨by decide⟩
instance words_neZero : NeZero 131072 := ⟨by decide⟩

/-- The frame that holds an address. -/
def frameOf (addr : Nat) : Frame :=
  ⟨addr % 2 ^ 32 / PAGE_SIZE, by rw [PAGE_SIZE]; omega⟩

/-- The first address of a frame. -/
def Frame.addr (f : Frame) : Nat := f.val * PAGE_SIZE

@[simp] theorem frameOf_addr (f : Frame) : frameOf f.addr = f := by
  have := f.isLt
  ext
  simp only [frameOf, Frame.addr, PAGE_SIZE]
  omega

theorem frameOf_mul {i : Nat} (hi : i < 2 ^ 20) : (frameOf (i * PAGE_SIZE)).val = i := by
  simp only [frameOf, PAGE_SIZE]
  omega

/-- The static data of `mem.c` for physical memory. -/
structure Phys where
  mem : Bitmap 131072 8
  usedMem : UInt32
  totalMem : UInt32

/-- The frames of the `count` pages from `addr` on. -/
def runFrames (addr count : Nat) : Finset Frame :=
  (Finset.range count).image fun i => frameOf (addr + i * PAGE_SIZE)

theorem mem_runFrames {addr count : Nat} {f : Frame} :
    f ∈ runFrames addr count ↔ ∃ i < count, frameOf (addr + i * PAGE_SIZE) = f := by
  simp [runFrames]

@[simp] theorem runFrames_zero (addr : Nat) : runFrames addr 0 = ∅ := rfl

theorem runFrames_succ (addr count : Nat) :
    runFrames addr (count + 1) =
      insert (frameOf (addr + count * PAGE_SIZE)) (runFrames addr count) := by
  rw [runFrames, Finset.range_add_one, Finset.image_insert, runFrames]

theorem runFrames_one (addr : Nat) : runFrames addr 1 = {frameOf addr} := by
  simp [runFrames]

namespace Phys

variable (s : Phys)

/-! ## The functions -/

/-- `PHYSICAL_IS_USED`. -/
def physicalIsUsed (addr : Nat) : Bool := s.mem.testBit (frameOf addr).val

/-- The body of the loop of `phys_setused`. -/
def setusedPage (addr : Nat) : Phys :=
  if !s.physicalIsUsed addr then
    { s with usedMem := s.usedMem + 4096, mem := s.mem.setBit (frameOf addr).val }
  else s

/-- The body of the loop of `phys_setfree`. -/
def setfreePage (addr : Nat) : Phys :=
  if s.physicalIsUsed addr then
    { s with usedMem := s.usedMem - 4096, mem := s.mem.clearBit (frameOf addr).val }
  else s

/-- `phys_isused`. -/
def physIsused (addr count : Nat) : Bool :=
  anyUpto count fun i => s.physicalIsUsed (addr + i * PAGE_SIZE)

/-- `phys_setused`. -/
def physSetused (addr count : Nat) : Phys :=
  forUpto count (fun i s => s.setusedPage (addr + i * PAGE_SIZE)) s

/-- `phys_setfree`, also called `phys_free`. -/
def physSetfree (addr count : Nat) : Phys :=
  forUpto count (fun i s => s.setfreePage (addr + i * PAGE_SIZE)) s

/-- What `phys_alloc` returns when it finds no run. -/
def allocFailed : Nat := asU32 (-ENOMEM)

/-- `phys_alloc`. -/
def physAlloc (count : Nat) : Nat × Phys :=
  match findFrom (fun i => !s.physIsused (i * PAGE_SIZE) count)
      (s.totalMem.toNat / PAGE_SIZE) 0 with
  | none => (allocFailed, s)
  | some i => (i * PAGE_SIZE, s.physSetused (i * PAGE_SIZE) count)

/-! ## The set of used frames -/

/-- The used bit of a frame. -/
def isUsed (f : Frame) : Bool := s.mem.testBit f.val

/-- The frames whose used bit is set. -/
def used : Finset Frame := Finset.univ.filter fun f => s.isUsed f

@[simp] theorem mem_used {f : Frame} : f ∈ s.used ↔ s.isUsed f = true := by
  simp [used]

theorem physicalIsUsed_eq_true {addr : Nat} :
    s.physicalIsUsed addr = true ↔ frameOf addr ∈ s.used := by
  rw [mem_used, physicalIsUsed, isUsed]

theorem physIsused_eq_false {addr count : Nat} :
    s.physIsused addr count = false ↔ Disjoint s.used (runFrames addr count) := by
  rw [physIsused, anyUpto_eq_false, Finset.disjoint_right]
  simp only [mem_runFrames, forall_exists_index, and_imp, ← Bool.not_eq_true,
    physicalIsUsed_eq_true]
  exact ⟨fun h f i hi hf => hf ▸ h i hi, fun h i hi => h i hi rfl⟩

theorem used_setusedPage (addr : Nat) :
    (s.setusedPage addr).used = insert (frameOf addr) s.used := by
  by_cases h : s.physicalIsUsed addr
  · rw [setusedPage, h, Bool.not_true, if_neg Bool.false_ne_true, Finset.insert_eq_self.mpr]
    exact s.physicalIsUsed_eq_true.mp h
  · ext f
    have hf := f.isLt
    have ha := (frameOf addr).isLt
    rw [setusedPage, if_pos (by simpa using h), mem_used, isUsed,
      Bitmap.testBit_setBit _ (by omega) (by omega)]
    simp [isUsed, Fin.ext_iff]

theorem used_setfreePage (addr : Nat) :
    (s.setfreePage addr).used = s.used.erase (frameOf addr) := by
  by_cases h : s.physicalIsUsed addr
  · ext f
    have hf := f.isLt
    have ha := (frameOf addr).isLt
    rw [setfreePage, if_pos h, mem_used, isUsed,
      Bitmap.testBit_clearBit _ (by omega) (by omega)]
    simp [isUsed, Fin.ext_iff]
  · rw [setfreePage, if_neg h, Finset.erase_eq_self.mpr]
    rwa [← physicalIsUsed_eq_true]

theorem used_physSetused (addr count : Nat) :
    (s.physSetused addr count).used = s.used ∪ runFrames addr count := by
  induction count with
  | zero => simp [physSetused]
  | succ count ih =>
      rw [physSetused] at ih
      rw [physSetused, forUpto_succ, used_setusedPage, ih, runFrames_succ, Finset.union_insert]

theorem used_physSetfree (addr count : Nat) :
    (s.physSetfree addr count).used = s.used \ runFrames addr count := by
  induction count with
  | zero => simp [physSetfree]
  | succ count ih =>
      rw [physSetfree] at ih
      rw [physSetfree, forUpto_succ, used_setfreePage, ih, runFrames_succ, Finset.sdiff_insert]

theorem used_physSetused_frame (f : Frame) :
    (s.physSetused f.addr 1).used = insert f s.used := by
  rw [used_physSetused, runFrames_one, frameOf_addr, Finset.union_comm, Finset.insert_eq]

theorem used_physSetfree_frame (f : Frame) :
    (s.physSetfree f.addr 1).used = s.used.erase f := by
  rw [used_physSetfree, runFrames_one, frameOf_addr, Finset.erase_eq]

/-- Marking keeps `total_mem`. -/
@[simp] theorem totalMem_physSetused (addr count : Nat) :
    (s.physSetused addr count).totalMem = s.totalMem :=
  forUpto_eq (f := totalMem) count s fun _ t _ => by
    rw [setusedPage]
    split <;> rfl

/-! ## The counter -/

/-- What is left of `used_mem` after all used frames are counted off. -/
def balance : UInt32 := s.usedMem - 4096 * UInt32.ofNat s.used.card

theorem balance_setusedPage (addr : Nat) : (s.setusedPage addr).balance = s.balance := by
  by_cases h : s.physicalIsUsed addr
  · rw [setusedPage, h, Bool.not_true, if_neg Bool.false_ne_true]
  · have hnot : frameOf addr ∉ s.used := by rwa [← physicalIsUsed_eq_true]
    have hmem : (s.setusedPage addr).usedMem = s.usedMem + 4096 := by
      rw [setusedPage, if_pos (by simpa using h)]
    rw [balance, balance, used_setusedPage, hmem, Finset.card_insert_of_notMem hnot,
      UInt32.ofNat_add]
    grind

theorem balance_setfreePage (addr : Nat) : (s.setfreePage addr).balance = s.balance := by
  by_cases h : s.physicalIsUsed addr
  · have hmem : (s.setfreePage addr).usedMem = s.usedMem - 4096 := by
      rw [setfreePage, if_pos h]
    have hcard := Finset.card_erase_add_one (s.physicalIsUsed_eq_true.mp h)
    rw [balance, balance, used_setfreePage, hmem, ← hcard, UInt32.ofNat_add]
    grind
  · rw [setfreePage, if_neg h]

@[simp] theorem balance_physSetused (addr count : Nat) :
    (s.physSetused addr count).balance = s.balance :=
  forUpto_eq (f := balance) count s fun _ t _ => t.balance_setusedPage _

@[simp] theorem balance_physSetfree (addr count : Nat) :
    (s.physSetfree addr count).balance = s.balance :=
  forUpto_eq (f := balance) count s fun _ t _ => t.balance_setfreePage _

/-- Equal balances turn a difference in used frames into one in `used_mem`. -/
theorem usedMem_of_balance {s t : Phys} {n : Nat} (hb : t.balance = s.balance)
    (hn : t.used.card = s.used.card + n) : t.usedMem = s.usedMem + UInt32.ofNat (4096 * n) := by
  rw [balance, balance, hn, UInt32.ofNat_add] at hb
  rw [UInt32.ofNat_mul]
  grind

/-! ## The allocator -/

theorem allocFailed_ne (i : Nat) : i * PAGE_SIZE ≠ allocFailed := by
  have : allocFailed = 2 ^ 32 - 1 := by decide
  rw [this, PAGE_SIZE]
  omega

/-- `phys_alloc` fails and changes nothing, or it returns the address of a run
of frames that were all unused and marks them. -/
theorem physAlloc_spec (count : Nat) :
    s.physAlloc count = (allocFailed, s) ∨
      ∃ i < 2 ^ 20, s.physAlloc count = (i * PAGE_SIZE, s.physSetused (i * PAGE_SIZE) count) ∧
        Disjoint s.used (runFrames (i * PAGE_SIZE) count) := by
  rw [physAlloc]
  cases h : findFrom (fun i => !s.physIsused (i * PAGE_SIZE) count)
      (s.totalMem.toNat / PAGE_SIZE) 0 with
  | none => exact Or.inl rfl
  | some i =>
      obtain ⟨hfree, -, hlt⟩ := findFrom_some h
      have hbound : s.totalMem.toNat < 2 ^ 32 := s.totalMem.toNat_lt
      refine Or.inr ⟨i, ?_, rfl, ?_⟩
      · simp only [PAGE_SIZE] at hlt
        omega
      · rw [← physIsused_eq_false]
        simpa using hfree

/-- An address that `phys_alloc` returns for a run that it found. -/
theorem physAlloc_some {count : Nat} (h : (s.physAlloc count).1 ≠ allocFailed) :
    ∃ i < 2 ^ 20, s.physAlloc count = (i * PAGE_SIZE, s.physSetused (i * PAGE_SIZE) count) ∧
      Disjoint s.used (runFrames (i * PAGE_SIZE) count) := by
  obtain hfail | hok := s.physAlloc_spec count
  · rw [hfail] at h
    exact absurd rfl h
  · exact hok

/-- The first run of unused frames is the one that is found. -/
theorem physAlloc_first {count a : Nat} (ha : a < s.totalMem.toNat / PAGE_SIZE)
    (hfree : Disjoint s.used (runFrames (a * PAGE_SIZE) count))
    (hbusy : ∀ i < a, ¬ Disjoint s.used (runFrames (i * PAGE_SIZE) count)) :
    (s.physAlloc count).1 = a * PAGE_SIZE := by
  have hfind : findFrom (fun i => !s.physIsused (i * PAGE_SIZE) count)
      (s.totalMem.toNat / PAGE_SIZE) 0 = some a := by
    refine findFrom_eq_some ?_ (Nat.zero_le a) (by omega) fun i _ hi => ?_
    · rw [s.physIsused_eq_false.mpr hfree, Bool.not_false]
    · rw [Bool.not_eq_false', ← Bool.not_eq_false, physIsused_eq_false]
      exact hbusy i hi
  rw [physAlloc, hfind]

end Phys

end StardustOS.Mem
