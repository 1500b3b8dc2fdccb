import StardustOS.Mem.KernelSpace

/-!
# First fit

`virt_alloc` and `mem_allocident` go through the pages of a half once and count the
pages that are free in a row.  `FirstFit` says what they return: the lowest address
from which there are enough of them, and 0 where there is none.

The address 0 would be a run of its own, so page 0 has to be present.
-/

namespace StardustOS.Mem

open Lib

/-- The addresses in `[lo, hi)` of pages from which `count` pages in a row are free. -/
def freeFrom (free : Nat → Prop) (count lo hi : Nat) : Set Nat :=
  {addr | addr % PAGE_SIZE = 0 ∧ lo ≤ addr ∧ addr + count * PAGE_SIZE ≤ hi ∧
    ∀ k < count, free (addr + k * PAGE_SIZE)}

/-- Pages in a row are the numbers of pages in a row. -/
theorem mul_mem_freeFrom {p : Nat → Bool} {free : Nat → Prop} {count lo hi i : Nat}
    (hp : ∀ i, p i = true ↔ free (i * PAGE_SIZE)) :
    i * PAGE_SIZE ∈ freeFrom free count (lo * PAGE_SIZE) (hi * PAGE_SIZE) ↔
      i ∈ runs p count lo hi := by
  have hpos : 0 < PAGE_SIZE := by decide
  simp only [freeFrom, runs, Set.mem_ofPred_eq, Nat.mul_mod_left, true_and, ← Nat.add_mul,
    Nat.mul_le_mul_right_iff hpos, hp]

/-- What a search among free pages returns, which leaves the memory `s` as it is when it
finds none. -/
structure FirstFit (found : Set Nat) (s : Memory) (r : Nat × Memory) : Prop where
  lowest : r.1 ≠ 0 → IsLeast found r.1
  zero : r.1 = 0 ↔ found = ∅
  unchanged : r.1 = 0 → r.2 = s

/-- A search by page numbers, in which page 0 is not free. -/
theorem firstFit_scan {p : Nat → Bool} {count lo hi : Nat} (s : Memory) (free : Nat → Prop)
    (hp : ∀ i, p i = true ↔ free (i * PAGE_SIZE)) (hc : 0 < count) (hlo : lo ≤ hi)
    (hzero : p 0 = false) (map : Nat → Memory) :
    FirstFit (freeFrom free count (lo * PAGE_SIZE) (hi * PAGE_SIZE)) s
      (match scanRun p count (hi - lo) lo 0 0 with
        | none => (0, s)
        | some i => (i * PAGE_SIZE, map i)) := by
  have hrange : lo + (hi - lo) = hi := Nat.add_sub_cancel' hlo
  cases h : scanRun p count (hi - lo) lo 0 0 with
  | none =>
      rw [scanRun_eq_none hc, hrange] at h
      refine ⟨fun h0 => absurd rfl h0, iff_of_true rfl ?_, fun _ => rfl⟩
      rw [Set.eq_empty_iff_forall_notMem] at h ⊢
      intro addr haddr
      obtain ⟨i, rfl⟩ : ∃ i, addr = i * PAGE_SIZE :=
        ⟨addr / PAGE_SIZE, (Nat.div_mul_cancel (Nat.dvd_of_mod_eq_zero haddr.1)).symm⟩
      exact h i ((mul_mem_freeFrom hp).mp haddr)
  | some i =>
      rw [scanRun_eq_some hc, hrange] at h
      have hmem := (mul_mem_freeFrom hp).mpr h.1
      have hi0 : i * PAGE_SIZE ≠ 0 := by
        intro h0
        obtain rfl : i = 0 := (Nat.mul_eq_zero.mp h0).resolve_right (by decide)
        exact absurd (h.1.2.2 0 hc) (by simp [hzero])
      refine ⟨fun _ => ⟨hmem, ?_⟩, iff_of_false hi0 (Set.Nonempty.ne_empty ⟨_, hmem⟩),
        fun h0 => absurd h0 hi0⟩
      intro addr haddr
      obtain ⟨j, rfl⟩ : ∃ j, addr = j * PAGE_SIZE :=
        ⟨addr / PAGE_SIZE, (Nat.div_mul_cancel (Nat.dvd_of_mod_eq_zero haddr.1)).symm⟩
      exact Nat.mul_le_mul_right _ (h.2 ((mul_mem_freeFrom hp).mp haddr))

namespace Memory

variable (s : Memory) (dir : Frame) (count : Nat)

/-- The addresses of a half from which `count` pages are not present. -/
def absentFrom (isuser : Bool) : Set Nat :=
  freeFrom (fun addr => s.pageIspresent dir addr = false) count
    (if isuser then 0x40000000 else 0) (if isuser then 2 ^ 32 else 0x40000000)

/-- The addresses of the kernel half from which `count` pages are not present and the frames
of the same numbers are not used. -/
def identFrom : Set Nat :=
  freeFrom (fun addr => s.pageIspresent dir addr = false ∧ frameOf addr ∉ s.phys.used) count
    0 0x40000000

variable {s dir count}

theorem virtAlloc_firstFit (hc : 1 ≤ count) (hzero : s.pageIspresent dir 0 = true)
    (paddr : Nat) (w u : Bool) :
    FirstFit (s.absentFrom dir count u) s (s.virtAlloc dir paddr count w u) := by
  let p (i : Nat) : Bool := !s.pageIspresent dir (i * PAGE_SIZE)
  have hp : ∀ i, p i = true ↔ s.pageIspresent dir (i * PAGE_SIZE) = false := by
    intro i
    exact Bool.not_eq_true' _ ▸ Iff.rfl
  have hpage : p 0 = false := by
    show (!s.pageIspresent dir (0 * PAGE_SIZE)) = false
    rw [Nat.zero_mul, hzero, Bool.not_true]
  have hle : (if u then 256 else 0) * 1024 ≤ (if u then 1024 else 256) * 1024 := by
    cases u <;> decide
  have hscan := firstFit_scan s (fun addr => s.pageIspresent dir addr = false) hp hc hle hpage
    fun i => s.virtMap dir (i * PAGE_SIZE) paddr count w u
  rw [virtAlloc, if_neg (Nat.ne_of_gt hc), absentFrom]
  cases u with
  | false => exact hscan
  | true => exact hscan

theorem memAllocident_firstFit (hc : 1 ≤ count) (hzero : s.pageIspresent dir 0 = true)
    (w : Bool) : FirstFit (s.identFrom dir count) s (s.memAllocident dir count w false) := by
  have hpage : s.identFree dir 0 = false := by
    rw [identFree, Nat.zero_mul, hzero, Bool.true_or, Bool.not_true]
  rw [memAllocident, memAllocidentWith, if_neg (Nat.ne_of_gt hc), identFrom]
  exact firstFit_scan s _ (fun _ => s.identFree_eq_true) hc (Nat.zero_le (256 * 1024)) hpage _

/-- Both searches are first fit. -/
theorem searches_firstFit (hc : 1 ≤ count) (hzero : s.pageIspresent dir 0 = true)
    (paddr : Nat) (w : Bool) :
    (∀ u, FirstFit (s.absentFrom dir count u) s (s.virtAlloc dir paddr count w u)) ∧
      FirstFit (s.identFrom dir count) s (s.memAllocident dir count w false) :=
  ⟨virtAlloc_firstFit hc hzero paddr w, memAllocident_firstFit hc hzero w⟩

/-- Three pages of the machine of `mem_init`. -/
theorem searches_firstFit_booted :
    (∀ u, FirstFit (booted.absentFrom 1 3 u) booted (booted.virtAlloc 1 0x200000 3 true u)) ∧
      FirstFit (booted.identFrom 1 3) booted (booted.memAllocident 1 3 true false) :=
  searches_firstFit (by decide) (by decide) 0x200000 true

end Memory

end StardustOS.Mem
