import StardustOS.Lib.Run
import StardustOS.Mem.Boot
import StardustOS.Mem.KernelSpace

/-!
# Only real memory is handed out

A frame is memory (`IsRam`) when it lies inside an available entry of the
memory map and meets no other entry.  The allocators know of the map only what
`mem_loadmmap` marked, and that takes the length of an entry for its end:
entries that are longer than their own address is high lose their first part
only, and all others are not marked at all.

So the allocators hand out memory only when marking happens to cover all that is
not memory: `HolesMarked` says so in terms of the map, and `runs_onlyRam`
carries it through any run of calls that frees only memory.
-/

namespace StardustOS.Mem

open Lib

/-- The frame lies inside the entry. -/
def MmapEntry.Covers (e : MmapEntry) (f : Frame) : Prop :=
  e.addr ≤ f.addr ∧ f.addr + PAGE_SIZE ≤ e.addr + e.len

/-- The frame and the entry have an address in common. -/
def MmapEntry.Intersects (e : MmapEntry) (f : Frame) : Prop :=
  0 < e.len ∧ e.addr < f.addr + PAGE_SIZE ∧ f.addr < e.addr + e.len

/-- The frame lies inside an available entry and meets no other entry. -/
def IsRam (mmap : List MmapEntry) (f : Frame) : Prop :=
  (∃ e ∈ mmap, e.type = MULTIBOOT_MEMORY_AVAILABLE ∧ e.Covers f) ∧
    ∀ e ∈ mmap, e.type ≠ MULTIBOOT_MEMORY_AVAILABLE → ¬ e.Intersects f

/-- Every frame that is not memory is marked: it is a page of the kernel image,
or lies a number of pages above the start of an entry which is not available, at
an address below the length of that entry. -/
def BootInfo.HolesMarked (info : BootInfo) : Prop :=
  ∀ f, ¬ IsRam info.mmap f → f ∈ runFrames 0 info.identPages ∨
    ∃ e ∈ info.mmap, e.type ≠ MULTIBOOT_MEMORY_AVAILABLE ∧ f ∈ runFrames e.addr e.strides

/-- A call of the memory manager, on any directory. -/
inductive MemCall where
  | physAlloc (count : Nat)
  | memAlloc (dir : Frame) (count : Nat) (iswrite isuser : Bool)
  | memAllocident (dir : Frame) (count : Nat) (iswrite isuser : Bool)
  | memMap (pgdir : Frame) (addr count : Nat) (iswrite isuser : Bool)
  | memFree (dir : Frame) (addr count : Nat)

namespace Memory

/-- The state after a call. -/
def call (s : Memory) : MemCall → Memory
  | .physAlloc count => s.setPhys (s.phys.physAlloc count).2
  | .memAlloc dir count iswrite isuser => (s.memAlloc dir count iswrite isuser).2
  | .memAllocident dir count iswrite isuser => (s.memAllocident dir count iswrite isuser).2
  | .memMap pgdir addr count iswrite isuser => s.memMap pgdir addr count iswrite isuser
  | .memFree dir addr count => s.memFree dir addr count

/-- One call of a run; all of them are defined. -/
def step (s : Memory) (c : MemCall) : Option Memory := some (s.call c)

/-- A release gives back memory. -/
def FreesRam (mmap : List MmapEntry) (s : Memory) : MemCall → Prop
  | .memFree dir addr count =>
      s.virtIspresent dir addr count = true →
        ∀ f ∈ runFrames (s.virt2phys dir addr) count, IsRam mmap f
  | _ => True

/-- The call hands out the frame. -/
def HandsOut (s : Memory) (c : MemCall) (f : Frame) : Prop :=
  f ∉ s.phys.used ∧ f ∈ (s.call c).phys.used

/-- Every frame that is not memory is used. -/
def HolesUsed (mmap : List MmapEntry) (s : Memory) : Prop :=
  ∀ f, f ∉ s.phys.used → IsRam mmap f

variable {s : Memory} {mmap : List MmapEntry}

theorem phys_virtUnmap (dir : Frame) (vaddr count : Nat) :
    (s.virtUnmap dir vaddr count).phys = s.phys :=
  forUpto_eq (f := Memory.phys) count s fun _ t _ => by
    rw [virtUnmapPage]
    split
    · rfl
    · rfl

/-- A release takes only the frames it frees off the used ones. -/
theorem used_memFree {dir : Frame} {addr count : Nat} {f : Frame} (hf : f ∈ s.phys.used)
    (hnot : f ∉ (s.memFree dir addr count).phys.used) :
    s.virtIspresent dir addr count = true ∧ f ∈ runFrames (s.virt2phys dir addr) count := by
  rw [memFree] at hnot
  split at hnot
  · refine ⟨‹_›, ?_⟩
    rw [phys_virtUnmap, setPhys_phys, Phys.used_physSetfree, Finset.mem_sdiff, not_and_not_right]
      at hnot
    exact hnot hf
  · exact absurd hf hnot

/-- A used frame that is not used after a call was freed by it. -/
theorem used_call {f : Frame} (hf : f ∈ s.phys.used) (c : MemCall)
    (hnot : f ∉ (s.call c).phys.used) :
    ∃ dir addr count, c = .memFree dir addr count ∧ s.virtIspresent dir addr count = true ∧
      f ∈ runFrames (s.virt2phys dir addr) count := by
  cases c with
  | physAlloc count => exact absurd (s.used_subset_physAlloc count hf) hnot
  | memAlloc dir count w u => exact absurd (s.used_subset_memAlloc dir count w u hf) hnot
  | memAllocident dir count w u =>
      exact absurd (s.used_subset_memAllocident dir count w u hf) hnot
  | memMap dir addr count w u => exact absurd (s.used_subset_memMap dir addr count w u hf) hnot
  | memFree dir addr count =>
      obtain ⟨hpres, hmem⟩ := used_memFree hf hnot
      exact ⟨dir, addr, count, rfl, hpres, hmem⟩

/-- No call that frees only memory breaks the invariant. -/
theorem call_holesUsed (h : s.HolesUsed mmap) (c : MemCall) (hc : s.FreesRam mmap c) :
    (s.call c).HolesUsed mmap := by
  intro f hf
  by_cases hu : f ∈ s.phys.used
  · obtain ⟨dir, addr, count, rfl, hpres, hmem⟩ := used_call hu c hf
    exact hc hpres f hmem
  · exact h f hu

/-! ## What is handed out -/

theorem HolesUsed.isRam (h : s.HolesUsed mmap) {c : MemCall} {f : Frame} (hf : s.HandsOut c f) :
    IsRam mmap f := h f hf.1

/-- The frames of a run that `phys_alloc` returns are handed out by it. -/
theorem handsOut_physAlloc {count : Nat} (hok : (s.phys.physAlloc count).1 ≠ Phys.allocFailed)
    {f : Frame} (hf : f ∈ runFrames (s.phys.physAlloc count).1 count) :
    s.HandsOut (.physAlloc count) f := by
  obtain ⟨i, -, hpa, hdis⟩ := s.phys.physAlloc_some hok
  rw [hpa] at hf
  refine ⟨Finset.disjoint_right.mp hdis hf, ?_⟩
  rw [call, setPhys_phys, hpa, Phys.used_physSetused]
  exact Finset.mem_union_right _ hf

/-- The frames of a run that `mem_allocident` returns are handed out by it. -/
theorem handsOut_memAllocident {dir : Frame} {count : Nat} {w u : Bool}
    (hok : (s.memAllocident dir count w u).1 ≠ 0) {f : Frame}
    (hf : f ∈ runFrames (s.memAllocident dir count w u).1 count) :
    s.HandsOut (.memAllocident dir count w u) f := by
  rw [memAllocident] at hok hf
  obtain hfail | ⟨i, -, hhi, hfree, hall⟩ := s.memAllocidentWith_spec
    (fun a s => s.virtMap dir a a count w u) dir count u
  · rw [hfail] at hok
    exact absurd rfl hok
  · rw [hall] at hf
    refine ⟨?_, ?_⟩
    · obtain ⟨k, hk, rfl⟩ := mem_runFrames.mp hf
      rw [← Nat.add_mul]
      exact (s.identFree_eq_true.mp (hfree k hk)).2
    · rw [call, memAllocident, hall]
      refine (keeps_used (runFrames (i * PAGE_SIZE) count)).memset _ _ ?_ hf
      refine (keeps_used _).virtMap (fun _ => trivial) (fun _ _ _ _ _ _ => trivial) trivial
        (fun _ _ => trivial) ?_
      rw [setPhys_phys, Phys.used_physSetused]
      exact Finset.subset_union_right

/-! ## Runs from the start -/

theorem memInit_holesUsed {s₀ : Memory} {L : Layout} {info : BootInfo}
    (hinit : s.memInit L info = some s₀) (hmap : info.HolesMarked) :
    s₀.HolesUsed info.mmap := by
  obtain ⟨himage, hentries⟩ := memInit_marks hinit
  intro f hf
  by_contra hnot
  obtain h | ⟨e, he, hne, h⟩ := hmap f hnot
  · exact hf (himage h)
  · exact hf (hentries e he hne h)

/-- When the marking covers all that is not memory, every frame that is handed
out after any run of calls from `mem_init` on is memory, as long as only memory
is freed.  That holds of every frame that a call newly marks, and of every frame
of the runs that `phys_alloc` and `mem_allocident` return. -/
theorem runs_onlyRam {s₀ : Memory} {L : Layout} {info : BootInfo}
    (hinit : s.memInit L info = some s₀) (hmap : info.HolesMarked) (calls : List MemCall)
    (hcalls : Meets step (FreesRam info.mmap) s₀ calls) :
    ∃ t, run step s₀ calls = some t ∧
      (∀ c f, t.HandsOut c f → IsRam info.mmap f) ∧
      (∀ count, (t.phys.physAlloc count).1 ≠ Phys.allocFailed →
        ∀ f ∈ runFrames (t.phys.physAlloc count).1 count, IsRam info.mmap f) ∧
      ∀ dir count w u, (t.memAllocident dir count w u).1 ≠ 0 →
        ∀ f ∈ runFrames (t.memAllocident dir count w u).1 count, IsRam info.mmap f := by
  obtain ⟨t, hrun, ht⟩ := run_defined (I := HolesUsed info.mmap)
    (fun s c hs hc => ⟨s.call c, rfl, call_holesUsed hs c hc⟩) calls
    (memInit_holesUsed hinit hmap) hcalls
  exact ⟨t, hrun, fun c f hf => ht.isRam hf,
    fun count hok f hf => ht.isRam (handsOut_physAlloc hok hf),
    fun dir count w u hok f hf => ht.isRam (handsOut_memAllocident hok hf)⟩

section Maps

/-- Memory before anything is set up. -/
def blank : Memory := ⟨⟨fun _ => 0, 0, 0⟩, fun _ _ => Entry.zero, 1⟩

/-- A kernel image of 1 MiB, and no modules. -/
def bootInfo (mmap : List MmapEntry) : BootInfo := ⟨mmap, 0, 0, fun _ => 0, 0x100000⟩

/-- 16 MiB of memory, and all addresses above them reserved. -/
def coveredMap : List MmapEntry := [⟨0, 0x1000000, 1⟩, ⟨0x1000000, 0x100000000, 2⟩]

theorem coveredMap_marked : (bootInfo coveredMap).HolesMarked := by
  intro f hf
  by_cases hlow : f.val < 4096
  · refine absurd ⟨⟨_, List.mem_cons_self, rfl, ?_⟩, fun e he hne => ?_⟩ hf
    · simp only [MmapEntry.Covers, Frame.addr, PAGE_SIZE]
      omega
    · obtain rfl | he := List.mem_cons.mp he
      · exact absurd rfl hne
      · obtain rfl := List.mem_singleton.mp he
        simp only [MmapEntry.Intersects, Frame.addr, PAGE_SIZE]
        omega
  · refine Or.inr ⟨⟨0x1000000, 0x100000000, 2⟩, by simp [bootInfo, coveredMap], by decide, ?_⟩
    have := f.isLt
    refine mem_runFrames.mpr ⟨f.val - 4096, ?_, ?_⟩
    · simp only [MmapEntry.strides, PAGE_SIZE]
      omega
    · ext
      simp only [frameOf, PAGE_SIZE]
      omega

/-- With that map, allocations hand out memory. -/
theorem runs_onlyRam_covered :
    ∃ s₀ t, blank.memInit ⟨1, 2⟩ (bootInfo coveredMap) = some s₀ ∧
      run step s₀ [.physAlloc 2, .memAlloc 1 1 true false] = some t ∧
      ∀ c f, t.HandsOut c f → IsRam coveredMap f := by
  have hends : ∀ e ∈ (bootInfo coveredMap).mmap, e.type ≠ MULTIBOOT_MEMORY_AVAILABLE → e.Ends := by
    decide
  obtain ⟨s₀, hinit⟩ := memInit_isSome blank ⟨1, 2⟩ hends
  obtain ⟨t, hrun, hout, -⟩ := runs_onlyRam hinit coveredMap_marked
    [.physAlloc 2, .memAlloc 1 1 true false] ⟨trivial, fun _ _ => ⟨trivial, fun _ _ => trivial⟩⟩
  exact ⟨s₀, t, hinit, hrun, hout⟩

/-- 16 MiB of memory, of which the first page behind the kernel is reserved. -/
def holeMap : List MmapEntry := [⟨0, 0x1000000, 1⟩, ⟨0x103000, 0x1000, 2⟩]

theorem loaded_row (s : Memory) (L : Layout) (info : BootInfo) (phys : Phys) {k : Fin 1024}
    (hk : KernelHalf k) :
    (s.loaded L info phys).ram L.krnlPgdir k = ⟨true, true, false, L.table k.val⟩ := by
  rw [loaded, setPhys_ram, (setKernelEntries_spec _ L _).2 k, if_pos hk]

/-- The state in which the kernel image is mapped has its kernel tables. -/
theorem loaded_tables (s : Memory) {L : Layout} (info : BootInfo) (phys : Phys)
    (hne : ∀ k : Fin 1024, KernelHalf k → L.table k.val ≠ L.krnlPgdir)
    (htop : L.krnlPgtbl.val + 256 ≤ 2 ^ 20) :
    (s.loaded L info phys).TablesOn L.krnlPgdir KernelHalf := by
  have hrow := fun {k} (hk : KernelHalf k) => loaded_row s L info phys hk
  refine ⟨fun k hk => by rw [hrow hk], fun k hk => ?_, fun k k' hk hk' heq => ?_⟩
  · rw [hrow hk]
    exact hne k hk
  · rw [hrow hk, hrow hk'] at heq
    have hval := congrArg Fin.val (show L.table k.val = L.table k'.val from heq)
    rw [Layout.table_val hk htop, Layout.table_val hk' htop] at hval
    ext
    omega

theorem used_clear (u t : UInt32) : Phys.used ⟨fun _ => 0, u, t⟩ = ∅ := by
  ext f
  rw [Phys.mem_used, Phys.isUsed, Bitmap.testBit_eq]
  simp

/-- After `mem_init` on the map with a hole, the kernel image is marked and the
hole is not. -/
theorem used_holeMap {s₀ : Memory} (hinit : blank.memInit ⟨1, 2⟩ (bootInfo holeMap) = some s₀) :
    s₀.phys.used = runFrames 0 0x103 ∧ s₀.phys.totalMem = 0x1000000 := by
  obtain ⟨phys, hload, hphys, -⟩ := memInit_eq hinit
  have hpages : (bootInfo holeMap).identPages = 0x103 := by decide
  set s := blank.loaded ⟨1, 2⟩ (bootInfo holeMap) phys
  have hK : ∀ i < 0x103, KernelHalf (frameOf (0 + i * PAGE_SIZE)).pdi := fun i hi => by
    rw [Nat.zero_add]
    exact kernelHalf_frameOf (by omega)
  have htables : s.TablesOn 1 KernelHalf := by
    refine loaded_tables (L := ⟨1, 2⟩) blank (bootInfo holeMap) phys (fun k hk heq => ?_)
      (by decide)
    have hval := congrArg Fin.val heq
    rw [Layout.table_val hk (by decide)] at hval
    simp at hval
    omega
  have hmap := virtMap_hasPtes (s := s.setPhys (s.phys.physSetused 0 0x103))
    (htables.of_row rfl) 0 true false hK
  rw [hpages, memIdentmap, hmap.phys, setPhys_phys] at hphys
  -- the loop over the reserved entry ends before it starts
  have hval : Phys.loadEntries holeMap ⟨fun _ => 0, 0, 0⟩ =
      some ⟨fun _ => 0, 0, 0x1000000⟩ := by
    rw [holeMap, Phys.loadEntries, if_pos (by decide), Phys.loadEntries, if_neg (by decide),
      Phys.markEntry, if_pos (by decide)]
    rfl
  rw [(setKernelEntries_spec _ _ _).1.phys] at hload
  obtain rfl : ⟨fun _ => 0, 0, 0x1000000⟩ = phys := Option.some.inj (hval.symm.trans hload)
  rw [hphys, Phys.used_physSetused, Phys.totalMem_physSetused]
  refine ⟨?_, rfl⟩
  rw [show s.phys.used = ∅ from used_clear _ _, Finset.empty_union]

/-- The first frame that is handed out then is reserved. -/
theorem memInit_holeMap_wrong :
    ∃ s₀, blank.memInit ⟨1, 2⟩ (bootInfo holeMap) = some s₀ ∧
      (s₀.phys.physAlloc 1).1 = 0x103000 ∧ ¬ IsRam holeMap (frameOf 0x103000) := by
  have hends : ∀ e ∈ (bootInfo holeMap).mmap, e.type ≠ MULTIBOOT_MEMORY_AVAILABLE → e.Ends := by
    decide
  obtain ⟨s₀, hinit⟩ := memInit_isSome blank ⟨1, 2⟩ hends
  obtain ⟨hused, htotal⟩ := used_holeMap hinit
  refine ⟨s₀, hinit, ?_, fun hram => ?_⟩
  · refine s₀.phys.physAlloc_first (a := 0x103) ?_ ?_ fun i hi => ?_
    · rw [htotal]
      decide
    · rw [hused, runFrames_one, Finset.disjoint_singleton_right, mem_runFrames]
      rintro ⟨j, hj, heq⟩
      have := congrArg Fin.val heq
      rw [Nat.zero_add, frameOf_mul (by omega), frameOf_mul (by omega)] at this
      omega
    · rw [hused, runFrames_one, Finset.disjoint_singleton_right, not_not, mem_runFrames]
      exact ⟨i, hi, by rw [Nat.zero_add]⟩
  · refine hram.2 ⟨0x103000, 0x1000, 2⟩ (by simp [holeMap]) (by decide) ?_
    simp only [MmapEntry.Intersects, Frame.addr, frameOf, PAGE_SIZE]
    omega

end Maps

end Memory

end StardustOS.Mem
