import StardustOS.Mem.KernelSpace
import StardustOS.Mem.OutOfMemory
import StardustOS.Mem.PagingRules
import StardustOS.Lib.Run

/-!
# The pages of the heap

`liballoc` asks for pages.  The hooks hand `pages * PAGE_SIZE` to `mem_alloc` and
`mem_free`, which count in pages themselves.  So a block of `n` pages takes
`4096 * n` of them, and an allocation that one of the searches of `mem_alloc` can serve
breaks the accounts at once.  One that neither can serve is not refused: `mem_alloc` then
clears so many pages from address 0 on, and with them the directory of the kernel.

`runs_accounted` says that no run keeps the accounts: its first call breaks them, or the
kernel.
-/

namespace StardustOS.Mem

open Lib

namespace Memory

variable (s : Memory) (krnl : Frame)

/-! ## The hooks -/

/-- `liballoc_alloc`. -/
def liballocAlloc (pages : Nat) : Nat × Memory :=
  s.memAlloc krnl (pages * PAGE_SIZE % 2 ^ 32) true false

/-- `liballoc_free`. -/
def liballocFree (ptr pages : Nat) : Memory := s.memFree krnl ptr (pages * PAGE_SIZE % 2 ^ 32)

/-- There are so many unused frames in a row, and so many absent pages. -/
def Suffices (pages : Nat) : Prop := ¬ s.PhysFails pages ∧ ¬ s.VirtFails krnl pages false

/-- The pages of a block are there, and each has a used frame of its own. -/
structure Backed (ptr pages : Nat) : Prop where
  present : ∀ i < pages, s.pageIspresent krnl (ptr + i * PAGE_SIZE) = true
  used : ∀ i < pages, (s.pte krnl (frameOf (ptr + i * PAGE_SIZE))).frame ∈ s.phys.used
  inj : ∀ i < pages, ∀ j < pages, (s.pte krnl (frameOf (ptr + i * PAGE_SIZE))).frame =
    (s.pte krnl (frameOf (ptr + j * PAGE_SIZE))).frame → i = j

end Memory

/-- A call of the heap. -/
inductive HookCall where
  | liballocAlloc (pages : Nat)
  | liballocFree (ptr pages : Nat)
deriving DecidableEq, Repr

/-- The memory, and the blocks that the heap has, with their pages. -/
structure Hooks where
  mem : Memory
  live : List (Nat × Nat)

/-- The products that are formed for `pages` fit: that of the hook in an `int`,
and that of `mem_alloc` in an `unsigned int`. -/
def Fits (pages : Nat) : Prop :=
  pages * PAGE_SIZE < 2 ^ 31 ∧ pages * PAGE_SIZE * PAGE_SIZE < 2 ^ 32

namespace Hooks

variable (krnl : Frame) (s : Hooks)

/-- The state after a call.  NULL is no block. -/
def call : HookCall → Hooks
  | .liballocAlloc pages =>
      let (ptr, mem) := s.mem.liballocAlloc krnl pages
      ⟨mem, if ptr = 0 then s.live else (ptr, pages) :: s.live⟩
  | .liballocFree ptr pages => ⟨s.mem.liballocFree krnl ptr pages, s.live.erase (ptr, pages)⟩

/-- One call of a run; all of them are defined. -/
def step (s : Hooks) (c : HookCall) : Option Hooks := some (s.call krnl c)

/-- What the heap sees to: it asks for pages where memory suffices, and frees the
blocks that it has. -/
def Contract : HookCall → Prop
  | .liballocAlloc pages => 0 < pages ∧ s.mem.Suffices krnl pages
  | .liballocFree ptr pages => (ptr, pages) ∈ s.live

/-- Every block has its pages, and the used frames are those of the start and one
for each page of a block. -/
structure Accounted (base : Finset Frame) : Prop where
  backed : ∀ b ∈ s.live, s.mem.Backed krnl b.1 b.2
  count : s.mem.phys.used.card = base.card + (s.live.map Prod.snd).sum

/-- The call comes to its end, leaves the directory of the kernel as it was, keeps the
accounts, and its products fit. -/
structure CallOk (base : Finset Frame) (c : HookCall) : Prop where
  returns : ∀ pages, c = .liballocAlloc pages →
    ¬ s.mem.MemAllocFaults krnl (pages * PAGE_SIZE % 2 ^ 32) true false
  kernel : ∀ k, KernelHalf k → (s.call krnl c).mem.ram krnl k = s.mem.ram krnl k
  accounted : (s.call krnl c).Accounted krnl base
  fits : ∀ pages, c = .liballocAlloc pages → Fits pages

/-- There are not 4096 times as many frames in a row, nor pages, and the product
of `mem_alloc` fits. -/
def NoRoom (pages : Nat) : Prop :=
  pages < 256 ∧ s.mem.PhysFails (pages * PAGE_SIZE) ∧
    s.mem.VirtFails krnl (pages * PAGE_SIZE) false

end Hooks

/-! ## Counting frames -/

theorem runFrames_mono (addr : Nat) {m n : Nat} (h : m ≤ n) :
    runFrames addr m ⊆ runFrames addr n := by
  intro f hf
  obtain ⟨i, hi, rfl⟩ := mem_runFrames.mp hf
  exact mem_runFrames.mpr ⟨i, by omega, rfl⟩

/-- Up to `2^20` pages in a row are that many frames. -/
theorem card_runFrames (addr : Nat) {n : Nat} (hn : n ≤ 2 ^ 20) : (runFrames addr n).card = n := by
  rw [runFrames, Finset.card_image_of_injOn, Finset.card_range]
  intro i hi j hj h
  rw [Finset.coe_range, Set.mem_Iio] at hi hj
  exact frameOf_inj (by omega) (by omega) h

namespace Memory

variable {s : Memory} {krnl : Frame} {pages : Nat}

/-- The kernel half has `2^18` pages. -/
theorem virtScan_end {count j : Nat} (hj : s.virtScan krnl count false = some j) :
    j + count ≤ 2 ^ 18 := by
  obtain ⟨-, hend, -⟩ := scanRun_zero_some hj
  simpa using hend

theorem Suffices.le (h : s.Suffices krnl pages) : pages ≤ 2 ^ 18 := by
  obtain ⟨j, hj⟩ := Option.ne_none_iff_exists'.mp h.2
  exact (Nat.le_add_left pages j).trans (virtScan_end hj)

/-- For such a number the hook does not wrap around. -/
theorem Suffices.liballocAlloc_eq (h : s.Suffices krnl pages) :
    s.liballocAlloc krnl pages = s.memAlloc krnl (pages * PAGE_SIZE) true false := by
  have hle := h.le
  rw [liballocAlloc, Nat.mod_eq_of_lt]
  rw [PAGE_SIZE]
  omega

/-- A run of frames that is found is marked, and is longer than the block. -/
theorem used_memAlloc_of_physOk (hpos : 0 < pages) (hle : pages ≤ 2 ^ 18)
    (hphys : ¬ s.PhysFails (pages * PAGE_SIZE)) :
    s.phys.used.card + pages <
      (s.memAlloc krnl (pages * PAGE_SIZE) true false).2.phys.used.card := by
  have hlong : pages + 1 ≤ pages * PAGE_SIZE := by
    rw [PAGE_SIZE]
    omega
  obtain ⟨i, -, hok, hdis⟩ := s.phys.physAlloc_some hphys
  have hsub := s.used_physAlloc_subset krnl (show pages * PAGE_SIZE ≠ 0 by omega) true false
  rw [hok, Phys.used_physSetused] at hsub
  have hshort := runFrames_mono (i * PAGE_SIZE) hlong
  have hall := (Finset.union_subset_union_right hshort).trans hsub
  have hcard := Finset.card_le_card hall
  rw [Finset.card_union_of_disjoint (hdis.mono_right hshort),
    card_runFrames _ (by omega)] at hcard
  omega

theorem virtScan_ne_zero {count j : Nat} (hpage : s.pageIspresent krnl 0 = true) (hpos : 0 < count)
    (hj : s.virtScan krnl count false = some j) : j ≠ 0 := by
  rintro rfl
  exact absurd (hpage.symm.trans (absent_of_virtScan hpos hj)) (by decide)

/-- Absent pages in a row are a range for `virt_alloc`. -/
theorem not_virtFails_of_absent {a count : Nat} (hpos : 0 < count) (hend : a + count ≤ 2 ^ 18)
    (habs : ∀ k < count, s.pageIspresent krnl ((a + k) * PAGE_SIZE) = false) :
    ¬ s.VirtFails krnl count false := by
  have hrun : ∀ k < count, (!s.pageIspresent krnl ((a + k) * PAGE_SIZE)) = true := by
    intro k hk
    rw [habs k hk]
    rfl
  have hlast : a + count ≤ 0 + (256 * 1024 - 0 * 1024) := by omega
  obtain ⟨b, -, hscan⟩ : ∃ b ≤ a, s.virtScan krnl count false = some b :=
    scanRun_zero_le hpos hrun (Nat.zero_le a) hlast 0
  intro hfails
  exact Option.some_ne_none b (hscan.symm.trans hfails)

/-- Without one, pages are mapped all the same, and nothing is marked. -/
theorem memAlloc_of_virtOk (h : KernelReady s krnl) {count j : Nat} (hpos : 0 < count)
    (hphys : s.PhysFails count) (hj : s.virtScan krnl count false = some j) :
    (s.memAlloc krnl count true false).1 ≠ 0 ∧
      (s.memAlloc krnl count true false).2.phys.used = s.phys.used := by
  have hend := virtScan_end hj
  rw [memAlloc_of_physFails hpos hphys, virtAlloc_of_some hpos hj]
  constructor
  · intro h0
    have hpage : s.pageIspresent krnl 0 = true := by
      have hfirst : frameOf 0 = 0 := rfl
      have hzero := h.page_zero
      rw [pageIspresent_eq, hfirst, h.tables.present _ hzero.kernel]
      exact hzero.present
    exact virtScan_ne_zero hpage hpos hj ((Nat.mul_eq_zero.mp h0).resolve_right (by decide))
  · have hK : ∀ i < count, KernelHalf (frameOf (j * PAGE_SIZE + i * PAGE_SIZE)).pdi := by
      intro i hi
      rw [← Nat.add_mul]
      exact kernelHalf_frameOf (by omega)
    rw [(memset_cleared _ _).phys]
    exact congrArg Phys.used (virtMap_hasPtes h.tables Phys.allocFailed true false hK).phys

/-! ## Clearing from address 0 on -/

/-- A page that was cleared had not been taken away before, so what was cleared is the frame
that it led to. -/
theorem memsetPages_clears {vaddr n i : Nat} (hi : i < n)
    (hpres : (s.memsetPages vaddr i).pageIspresent s.cr3 (vaddr + i * PAGE_SIZE) = true) :
    (s.memsetPages vaddr n).ZeroRow (frameOf (s.virt2phys s.cr3 (vaddr + i * PAGE_SIZE))) := by
  have hcleared : Cleared s (s.memsetPages vaddr i) :=
    forUpto_inv (P := fun _ t => Cleared s t) i (Cleared.refl s)
      fun _ _ _ ht => ht.trans (memsetPage_cleared _)
  have hrow : ∀ F k, ((s.memsetPages vaddr i).ram F k).present = true →
      (s.memsetPages vaddr i).ram F = s.ram F := by
    intro F k hk
    refine (hcleared.row F).resolve_right fun hzero => ?_
    rw [hzero] at hk
    cases hk
  have hframe : (s.memsetPages vaddr i).virt2phys s.cr3 (vaddr + i * PAGE_SIZE) =
      s.virt2phys s.cr3 (vaddr + i * PAGE_SIZE) := by
    have hwalk := hpres
    rw [pageIspresent] at hwalk
    cases hpde : ((s.memsetPages vaddr i).ram s.cr3 (pdIndex (vaddr + i * PAGE_SIZE))).present with
    | false => simp [hpde] at hwalk
    | true =>
        simp only [hpde, Bool.true_eq_false, ↓reduceIte] at hwalk
        rw [virt2phys, virt2phys, hrow _ _ hwalk, hrow _ _ hpde]
  induction hi with
  | refl =>
      intro k
      rw [memsetPages, forUpto_succ, ← memsetPages, memsetPage, hcleared.cr3, if_pos hpres, hframe]
      exact zeroFrame_ram_self _ _ _
  | @step n hn ih =>
      intro k
      rw [memsetPages, forUpto_succ, ← memsetPages]
      obtain hsame | hzero := (memsetPage_cleared (s := s.memsetPages vaddr n)
        (vaddr + n * PAGE_SIZE)).row (frameOf (s.virt2phys s.cr3 (vaddr + i * PAGE_SIZE)))
      · rw [hsame]
        exact ih k
      · rw [hzero]

/-- A `memset` of 16 MiB or more from address 0 on clears the directory of the kernel, if it
comes to its end. -/
theorem memset_null_kernel (h : KernelReady s krnl) (hlow : krnl.addr < 0x1000000)
    (hpos : 0 < pages) (hlt : pages < 256)
    (hends : ¬ s.MemsetFaults 0 (pages * PAGE_SIZE)) :
    (s.memset 0 (pages * PAGE_SIZE)).ZeroRow krnl := by
  have hcount : krnl.val < memsetCount (pages * PAGE_SIZE) := by
    rw [Frame.addr] at hlow
    rw [memsetCount]
    simp only [PAGE_SIZE] at hlow ⊢
    omega
  have hpres : (s.memsetPages 0 krnl.val).pageIspresent s.cr3 (0 + krnl.val * PAGE_SIZE) =
      true := by
    by_contra habs
    exact hends ⟨krnl.val, hcount, Bool.not_eq_true _ ▸ habs⟩
  have hident : frameOf (s.virt2phys s.cr3 (0 + krnl.val * PAGE_SIZE)) = krnl := by
    have hpage : frameOf (0 + krnl.val * PAGE_SIZE) = krnl := by
      rw [Nat.zero_add]
      exact frameOf_addr krnl
    rw [frameOf_virt2phys, hpage, pte, h.loaded_kernel _ h.krnl_page.kernel]
    exact h.krnl_page.frame
  have hclear := memsetPages_clears hcount hpres
  rwa [hident] at hclear

end Memory

/-! ## What a call does -/

namespace Hooks

variable {krnl : Frame} {s : Hooks} {pages : Nat}

@[simp] theorem call_liballocAlloc_mem :
    (s.call krnl (.liballocAlloc pages)).mem = (s.mem.liballocAlloc krnl pages).2 := rfl

@[simp] theorem call_liballocAlloc_live :
    (s.call krnl (.liballocAlloc pages)).live =
      if (s.mem.liballocAlloc krnl pages).1 = 0 then s.live
      else ((s.mem.liballocAlloc krnl pages).1, pages) :: s.live := rfl

/-- With no block yet, an allocation for which frames are found breaks the accounts. -/
theorem physFails_of_accounted {base : Finset Frame} (hlive : s.live = [])
    (hbase : s.mem.phys.used.card = base.card)
    (hc : s.Contract krnl (.liballocAlloc pages))
    (h : (s.call krnl (.liballocAlloc pages)).Accounted krnl base) :
    s.mem.PhysFails (pages * PAGE_SIZE) := by
  obtain ⟨hpos, hsuff⟩ := hc
  by_contra hphys
  have hmore : _ < (s.mem.memAlloc krnl (pages * PAGE_SIZE) true false).2.phys.used.card :=
    Memory.used_memAlloc_of_physOk hpos hsuff.le hphys
  have hacc := h.count
  rw [call_liballocAlloc_mem, call_liballocAlloc_live, hsuff.liballocAlloc_eq, hlive] at hacc
  split at hacc
  · rw [List.map_nil, List.sum_nil] at hacc
    omega
  · rw [List.map_singleton, List.sum_singleton] at hacc
    omega

/-- With no block yet, only an allocation that is not served keeps the accounts. -/
theorem CallOk.noRoom {base : Finset Frame} (hready : KernelReady s.mem krnl)
    (hlive : s.live = []) (hbase : s.mem.phys.used.card = base.card)
    (hc : s.Contract krnl (.liballocAlloc pages))
    (h : s.CallOk krnl base (.liballocAlloc pages)) : s.NoRoom krnl pages := by
  have hphys := physFails_of_accounted hlive hbase hc h.accounted
  obtain ⟨hpos, hsuff⟩ := hc
  have hcount : 0 < pages * PAGE_SIZE := Nat.mul_pos hpos (by decide)
  have hlt : pages < 256 := by
    have := (h.fits pages rfl).2
    rw [PAGE_SIZE] at this
    omega
  refine ⟨hlt, hphys, ?_⟩
  by_contra hvirt
  obtain ⟨j, hj⟩ := Option.ne_none_iff_exists'.mp hvirt
  obtain ⟨hptr, hused⟩ := Memory.memAlloc_of_virtOk hready hcount hphys hj
  have hacc := h.accounted.count
  rw [call_liballocAlloc_mem, call_liballocAlloc_live, hsuff.liballocAlloc_eq, hlive] at hacc
  rw [if_neg hptr, hused, hbase] at hacc
  rw [List.map_singleton, List.sum_singleton] at hacc
  omega

/-- An allocation that is not served clears the directory of the kernel. -/
theorem not_callOk_of_noRoom {base : Finset Frame} (hready : KernelReady s.mem krnl)
    (hlow : krnl.addr < 0x1000000) (hc : s.Contract krnl (.liballocAlloc pages))
    (hroom : s.NoRoom krnl pages) : ¬ s.CallOk krnl base (.liballocAlloc pages) := by
  obtain ⟨hpos, hsuff⟩ := hc
  obtain ⟨hlt, hphys, hvirt⟩ := hroom
  have hcount : 1 ≤ pages * PAGE_SIZE := Nat.mul_pos hpos (by decide)
  have hwrap : pages * PAGE_SIZE % 2 ^ 32 = pages * PAGE_SIZE := by
    rw [PAGE_SIZE]
    omega
  intro h
  have hends := h.returns pages rfl
  rw [hwrap, Memory.memAllocFaults_of_fails hphys hvirt] at hends
  have hzero := Memory.memset_null_kernel hready hlow hpos hlt hends
  have hkept := h.kernel 0 (by decide)
  rw [call_liballocAlloc_mem, hsuff.liballocAlloc_eq, Memory.memAlloc_of_fails hcount hphys hvirt,
    hzero 0] at hkept
  have hpresent := hready.tables.present 0 (by decide)
  rw [← hkept] at hpresent
  cases hpresent

/-- No allocation keeps the accounts while there is no block. -/
theorem not_callOk {base : Finset Frame} (hready : KernelReady s.mem krnl)
    (hlow : krnl.addr < 0x1000000) (hlive : s.live = [])
    (hbase : s.mem.phys.used.card = base.card)
    (hc : s.Contract krnl (.liballocAlloc pages)) :
    ¬ s.CallOk krnl base (.liballocAlloc pages) :=
  fun h => not_callOk_of_noRoom hready hlow hc (h.noRoom hready hlive hbase hc) h

/-- No run keeps the accounts: its first call is an allocation, for there is no block to
free, and no allocation keeps them. -/
theorem runs_accounted {s : Memory} (hready : KernelReady s krnl) (hlow : krnl.addr < 0x1000000)
    (c : HookCall) (calls : List HookCall)
    (h : Meets (step krnl) (fun t c => t.Contract krnl c) ⟨s, []⟩ (c :: calls)) :
    ¬ Meets (step krnl) (fun t c => t.CallOk krnl s.phys.used c) ⟨s, []⟩ (c :: calls) := by
  intro hok
  cases c with
  | liballocFree ptr pages => exact absurd h.1 List.not_mem_nil
  | liballocAlloc pages => exact not_callOk hready hlow rfl rfl h.1 hok.1

/-- The booted machine has mapped its first two pages. -/
theorem booted_absent {i : Nat} (hi : 2 ≤ i) (hlt : i < 2 ^ 18) :
    booted.pageIspresent 1 (i * PAGE_SIZE) = false := by
  have hval := frameOf_mul (i := i) (by omega)
  have hrow := booted_row (kernelHalf_frameOf hlt)
  rw [Memory.pageIspresent_eq, Memory.pte, hrow]
  simp only [booted, Bool.true_and, Frame.pdi, Frame.pti, hval, Fin.ext_iff]
  rw [if_neg, if_neg]
  · rfl
  · rintro ⟨htable, hpage⟩
    have hfirst : i / 1024 + 2 = 2 := htable
    omega
  · rintro ⟨htable, -⟩
    have hdir : i / 1024 + 2 = 1 := htable
    omega

/-- It has the pages for a request. -/
theorem booted_virtOk {count : Nat} (hpos : 0 < count) (hle : count ≤ 4096) :
    ¬ booted.VirtFails 1 count false :=
  Memory.not_virtFails_of_absent (a := 2) hpos (by omega) fun k hk =>
    booted_absent (by omega) (by omega)

/-- Its frames from 264 on are unused. -/
theorem booted_unused {f : Frame} (hf : 264 ≤ f.val) : f ∉ booted.phys.used := by
  have hword : Bitmap.word 131072 8 f.val = ⟨f.val / 8, by omega⟩ := by
    ext
    simp only [Bitmap.word, Fin.ofNat]
    omega
  have hout : ¬ f.val / 8 < 33 := by omega
  rw [Phys.mem_used, Phys.isUsed, Bitmap.testBit_eq, hword]
  simp [booted, hout]

/-- So there are frames for a request. -/
theorem booted_physOk {count : Nat} (hpos : 0 < count) (hle : count ≤ 4096) :
    ¬ booted.PhysFails count := by
  have hfree : Disjoint booted.phys.used (runFrames (264 * PAGE_SIZE) count) := by
    rw [Finset.disjoint_right]
    intro f hf
    obtain ⟨i, hi, rfl⟩ := mem_runFrames.mp hf
    refine booted_unused ?_
    rw [← Nat.add_mul, frameOf_mul (by omega)]
    omega
  have hbusy : ∀ i < 264, ¬ Disjoint booted.phys.used (runFrames (i * PAGE_SIZE) count) := by
    intro i hi hdis
    have hused : frameOf (i * PAGE_SIZE) ∈ booted.phys.used := by
      refine booted_used ?_
      rwa [frameOf_mul (by omega)]
    exact Finset.disjoint_left.mp hdis hused (mem_runFrames.mpr ⟨0, hpos, by simp⟩)
  intro hfails
  have hmem : 264 < booted.phys.totalMem.toNat / PAGE_SIZE := by decide +kernel
  have hfirst := booted.phys.physAlloc_first hmem hfree hbusy
  exact Phys.allocFailed_ne 264 (hfirst.symm.trans hfails)

theorem booted_contract : Contract 1 ⟨booted, []⟩ (.liballocAlloc 1) :=
  ⟨by decide, booted_physOk Nat.one_pos (by decide), booted_virtOk Nat.one_pos (by decide)⟩

/-- One page of the booted machine, the first that is asked for. -/
theorem runs_accounted_booted :
    ¬ Meets (step 1) (fun t c => t.CallOk 1 booted.phys.used c) ⟨booted, []⟩ [.liballocAlloc 1] :=
  runs_accounted booted_ready (by decide) (.liballocAlloc 1) []
    ⟨booted_contract, fun _ _ => trivial⟩

/-- It takes more frames than the one that it should take. -/
theorem runs_accounted_wrong :
    KernelReady booted 1 ∧ Contract 1 ⟨booted, []⟩ (.liballocAlloc 1) ∧
      ¬ (call 1 ⟨booted, []⟩ (.liballocAlloc 1)).Accounted 1 booted.phys.used := by
  refine ⟨booted_ready, booted_contract, fun hacc => ?_⟩
  have hfails : booted.PhysFails (1 * PAGE_SIZE) :=
    physFails_of_accounted (s := ⟨booted, []⟩) rfl rfl booted_contract hacc
  exact booted_physOk (by decide) (by decide) hfails

end Hooks

end StardustOS.Mem
