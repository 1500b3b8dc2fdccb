import StardustOS.Mem.PagingRules

/-!
# Starting the memory manager

`mem_init` clears the bitmap, fills the kernel half of `krnl_pgdir`, loads the
Multiboot memory map and maps the kernel image to itself.

The map is the list of entries that the walk through `mmap_addr` and
`mmap_length` meets.  The modules are a chain: the code reads each structure
just behind the end of the last module.  A loop over an entry that does not end,
because the address wraps around before it reaches `len`, is the outcome `none`.

What is marked before the first allocation is `holes_marked`.
-/

namespace StardustOS.Mem

open Lib

/-- `multiboot_memory_map_t`, without its size. -/
structure MmapEntry where
  addr : Nat
  len : Nat
  type : Nat
deriving DecidableEq, Repr

/-- `MULTIBOOT_MEMORY_AVAILABLE`. -/
def MULTIBOOT_MEMORY_AVAILABLE : Nat := 1

/-- What the memory manager reads of the boot loader's information and of the
kernel image.  `modEnd` reads `mod_end` of the structure at an address. -/
structure BootInfo where
  mmap : List MmapEntry
  modsCount : Nat
  modsAddr : Nat
  modEnd : Nat → Nat
  kernelEnd : Nat

/-- `PAGE_ALIGN`. -/
def pageAlign (x : Nat) : Nat := (x + PAGE_SIZE - x % PAGE_SIZE) % 2 ^ 32

/-- How many addresses from `addr` on, a page apart, are below `len`. -/
def MmapEntry.strides (e : MmapEntry) : Nat := (e.len - e.addr + (PAGE_SIZE - 1)) / PAGE_SIZE

/-- The loop over the entry reaches `len` before the address wraps around. -/
def MmapEntry.Ends (e : MmapEntry) : Prop :=
  e.addr < e.len → e.addr + e.strides * PAGE_SIZE < 2 ^ 64

instance (e : MmapEntry) : Decidable e.Ends :=
  inferInstanceAs (Decidable (e.addr < e.len → e.addr + e.strides * PAGE_SIZE < 2 ^ 64))

/-- Where the chain of modules ends. -/
def BootInfo.modsEnd (info : BootInfo) : Nat :=
  forUpto info.modsCount (fun _ mod => (info.modEnd mod + 1) % 2 ^ 32) info.modsAddr

/-- `used_mem` after the memory map is loaded. -/
def BootInfo.usedMem (info : BootInfo) : Nat := pageAlign (max info.kernelEnd info.modsEnd)

/-- The pages that `mem_init` maps to themselves. -/
def BootInfo.identPages (info : BootInfo) : Nat := pageAlign info.usedMem / PAGE_SIZE + 1

namespace Phys

variable (s : Phys)

/-- `PHYSICAL_SET_USED`. -/
def physicalSetUsed (addr : Nat) : Phys := { s with mem := s.mem.setBit (frameOf addr).val }

/-- The loop over an entry that is not available:
`for (uint64_t addr = mmap->addr; addr < mmap->len; addr += PAGE_SIZE)`. -/
def markEntry (e : MmapEntry) : Option Phys :=
  if e.Ends then
    some (forUpto e.strides (fun i s => s.physicalSetUsed (e.addr + i * PAGE_SIZE)) s)
  else none

/-- The loop over the entries of the map. -/
def loadEntries : List MmapEntry → Phys → Option Phys
  | [], s => some s
  | e :: es, s =>
      if e.type = MULTIBOOT_MEMORY_AVAILABLE then
        loadEntries es { s with totalMem := s.totalMem + UInt32.ofNat e.len }
      else (s.markEntry e).bind (loadEntries es)

/-- `mem_loadmmap`. -/
def memLoadmmap (info : BootInfo) : Option Phys :=
  (loadEntries info.mmap { s with totalMem := 0 }).map fun s =>
    { s with usedMem := UInt32.ofNat info.usedMem }

/-! ## What the map marks -/

theorem used_physicalSetUsed (addr : Nat) :
    (s.physicalSetUsed addr).used = insert (frameOf addr) s.used := by
  ext f
  have hf := f.isLt
  have ha := (frameOf addr).isLt
  rw [mem_used, isUsed, physicalSetUsed, Bitmap.testBit_setBit _ (by omega) (by omega)]
  simp [isUsed, Fin.ext_iff]

theorem used_markLoop (addr n : Nat) :
    (forUpto n (fun i s => physicalSetUsed s (addr + i * PAGE_SIZE)) s).used =
      s.used ∪ runFrames addr n := by
  induction n with
  | zero => simp
  | succ n ih =>
      rw [forUpto_succ, used_physicalSetUsed, ih, runFrames_succ, Finset.union_insert]

variable {s}

theorem markEntry_eq {e : MmapEntry} {t : Phys} (h : s.markEntry e = some t) :
    t.used = s.used ∪ runFrames e.addr e.strides := by
  by_cases he : e.Ends
  · simp only [markEntry, he, ↓reduceIte, Option.some.injEq] at h
    rw [← h, used_markLoop]
  · simp [markEntry, he] at h

/-- The loops of all entries end, or none of the map is loaded. -/
theorem loadEntries_isSome (es : List MmapEntry) (s : Phys)
    (h : ∀ e ∈ es, e.type ≠ MULTIBOOT_MEMORY_AVAILABLE → e.Ends) :
    ∃ t, loadEntries es s = some t := by
  induction es generalizing s with
  | nil => exact ⟨s, rfl⟩
  | cons e es ih =>
      have hes := fun e' he' => h e' (List.mem_cons_of_mem _ he')
      by_cases he : e.type = MULTIBOOT_MEMORY_AVAILABLE
      · rw [loadEntries, if_pos he]
        exact ih _ hes
      · rw [loadEntries, if_neg he, markEntry, if_pos (h e List.mem_cons_self he)]
        exact ih _ hes

/-- Loading the map marks the strides of the entries that are not available, and
unmarks nothing. -/
theorem loadEntries_marks {es : List MmapEntry} {s t : Phys} (h : loadEntries es s = some t) :
    s.used ⊆ t.used ∧
      ∀ e ∈ es, e.type ≠ MULTIBOOT_MEMORY_AVAILABLE → runFrames e.addr e.strides ⊆ t.used := by
  induction es generalizing s with
  | nil =>
      cases h
      exact ⟨Finset.Subset.refl _, by simp⟩
  | cons e es ih =>
      by_cases he : e.type = MULTIBOOT_MEMORY_AVAILABLE
      · rw [loadEntries, if_pos he] at h
        obtain ⟨hsub, hall⟩ := ih h
        refine ⟨hsub, ?_⟩
        intro e' he' hne
        obtain rfl | he' := List.mem_cons.mp he'
        · exact absurd he hne
        · exact hall e' he' hne
      · rw [loadEntries, if_neg he, Option.bind_eq_some_iff] at h
        obtain ⟨s', hs', h⟩ := h
        obtain ⟨hsub, hall⟩ := ih h
        rw [markEntry_eq hs'] at hsub
        refine ⟨Finset.union_subset_left hsub, ?_⟩
        intro e' he' hne
        obtain rfl | he' := List.mem_cons.mp he'
        · exact Finset.union_subset_right hsub
        · exact hall e' he' hne

end Phys

/-- `mem_init`. -/
def Memory.memInit (s : Memory) (L : Layout) (info : BootInfo) : Option Memory :=
  let s := s.setPhys { s.phys with mem := fun _ => 0 }
  let s := s.setKernelEntries L L.krnlPgdir
  (s.phys.memLoadmmap info).map fun phys =>
    let s := s.setPhys phys
    let s := s.memIdentmap L.krnlPgdir 0 (pageAlign phys.usedMem.toNat / PAGE_SIZE + 1)
    -- `paging_loaddir`
    { s with cr3 := L.krnlPgdir }

theorem BootInfo.usedMem_lt (info : BootInfo) : info.usedMem < 2 ^ 32 :=
  Nat.mod_lt _ (by decide)

/-- `mem_init` returns when the loop over every entry of the map ends. -/
theorem memInit_isSome (s : Memory) (L : Layout) {info : BootInfo}
    (h : ∀ e ∈ info.mmap, e.type ≠ MULTIBOOT_MEMORY_AVAILABLE → e.Ends) :
    ∃ t, s.memInit L info = some t := by
  obtain ⟨phys, hphys⟩ := Phys.loadEntries_isSome info.mmap _ h
  exact ⟨_, by rw [Memory.memInit, Phys.memLoadmmap, hphys]; rfl⟩

/-- The state in which `mem_init` maps the kernel image. -/
def Memory.loaded (s : Memory) (L : Layout) (info : BootInfo) (phys : Phys) : Memory :=
  ((s.setPhys { s.phys with mem := fun _ => 0 }).setKernelEntries L L.krnlPgdir).setPhys
    { phys with usedMem := UInt32.ofNat info.usedMem }

theorem memInit_eq {s t : Memory} {L : Layout} {info : BootInfo} (h : s.memInit L info = some t) :
    ∃ phys, Phys.loadEntries info.mmap
        { ((s.setPhys { s.phys with mem := fun _ => 0 }).setKernelEntries L L.krnlPgdir).phys with
          totalMem := 0 } = some phys ∧
      t.phys = ((s.loaded L info phys).memIdentmap L.krnlPgdir 0 info.identPages).phys ∧
      t.ram = ((s.loaded L info phys).memIdentmap L.krnlPgdir 0 info.identPages).ram ∧
      t.cr3 = L.krnlPgdir := by
  rw [Memory.memInit, Option.map_eq_some_iff] at h
  obtain ⟨_, hload, rfl⟩ := h
  rw [Phys.memLoadmmap, Option.map_eq_some_iff] at hload
  obtain ⟨phys, hphys, rfl⟩ := hload
  refine ⟨phys, hphys, ?_⟩
  have hpages : (UInt32.ofNat info.usedMem).toNat = info.usedMem :=
    Nat.mod_eq_of_lt info.usedMem_lt
  rw [hpages]
  exact ⟨rfl, rfl, rfl⟩

/-- `mem_init` marks the pages it maps to themselves and the strides of the
entries that are not available. -/
theorem memInit_marks {s t : Memory} {L : Layout} {info : BootInfo}
    (h : s.memInit L info = some t) :
    runFrames 0 info.identPages ⊆ t.phys.used ∧
      ∀ e ∈ info.mmap, e.type ≠ MULTIBOOT_MEMORY_AVAILABLE →
        runFrames e.addr e.strides ⊆ t.phys.used := by
  obtain ⟨phys, hphys, ht, -⟩ := memInit_eq h
  have hmarks := (Phys.loadEntries_marks hphys).2
  have hall := (s.loaded L info phys).used_memIdentmap L.krnlPgdir 0 info.identPages
  rw [ht]
  exact ⟨Finset.union_subset_right hall,
    fun e he hne => (hmarks e he hne).trans (Finset.union_subset_left hall)⟩

end StardustOS.Mem
