import StardustOS.Mem.UserHalf

/-!
# One kernel half for all directories

`mem_init` and `mem_alloc_pgdir` write the same 256 entries, so every directory
leads to `krnl_pgtbl` for the pages below 1 GiB.  The calls that work on such
pages find these entries present and write in `krnl_pgtbl` only: an answer about
a kernel page is the same in every directory.

`SharedKernel` is the invariant.  It rests on the directories and `krnl_pgtbl`
being used frames, so `mem_free` may not reach them (`OnKernelHalf`).
-/

namespace StardustOS.Mem

open Lib

/-- The calls, through any directory. -/
inductive KernelCall where
  | memAllocPgdir
  | pagingLoaddir (dir : Frame)
  | virtMap (dir : Frame) (vaddr paddr count : Nat) (iswrite isuser : Bool)
  | virtUnmap (dir : Frame) (vaddr count : Nat)
  | memAlloc (dir : Frame) (count : Nat) (iswrite : Bool)
  | memAllocident (dir : Frame) (count : Nat) (iswrite : Bool)
  | memFree (dir : Frame) (addr count : Nat)

/-- A run of pages below 1 GiB. -/
def BelowUser (vaddr count : Nat) : Prop := vaddr + count * PAGE_SIZE ≤ 0x40000000

instance (vaddr count : Nat) : Decidable (BelowUser vaddr count) :=
  inferInstanceAs (Decidable (_ ≤ _))

theorem BelowUser.kernelHalf {vaddr count i : Nat} (h : BelowUser vaddr count) (hi : i < count) :
    KernelHalf (frameOf (vaddr + i * PAGE_SIZE)).pdi := by
  rw [BelowUser, PAGE_SIZE] at h
  simp only [KernelHalf, Frame.pdi, frameOf, PAGE_SIZE]
  omega

namespace Spaces

variable (L : Layout) (s : Spaces)

/-- The state after a call. -/
def kernelCall : KernelCall → Spaces
  | .memAllocPgdir => s.call L .memAllocPgdir
  | .pagingLoaddir dir => s.call L (.pagingLoaddir dir)
  | .virtMap dir vaddr paddr count w u => { s with mem := s.mem.virtMap dir vaddr paddr count w u }
  | .virtUnmap dir vaddr count => s.call L (.virtUnmap dir vaddr count)
  | .memAlloc dir count w => { s with mem := (s.mem.memAlloc dir count w false).2 }
  | .memAllocident dir count w => s.call L (.memAllocident dir count w false)
  | .memFree dir addr count => { s with mem := s.mem.memFree dir addr count }

/-- One call of a run; all of them are defined. -/
def kernelStep (s : Spaces) (c : KernelCall) : Option Spaces := some (s.kernelCall L c)

/-- The call is made through a directory and for pages below 1 GiB, `mem_alloc`
succeeds, and `mem_free` frees no directory and none of `krnl_pgtbl`. -/
def OnKernelHalf : KernelCall → Prop
  | .memAllocPgdir => True
  | .pagingLoaddir dir => dir ∈ s.dirs
  | .virtMap dir vaddr _ count _ _ => dir ∈ s.dirs ∧ BelowUser vaddr count
  | .virtUnmap dir vaddr count => dir ∈ s.dirs ∧ BelowUser vaddr count
  | .memAlloc dir count w =>
      dir ∈ s.dirs ∧ (s.mem.phys.physAlloc count).1 ≠ Phys.allocFailed ∧
        (s.mem.memAlloc dir count w false).1 ≠ 0
  | .memAllocident dir _ _ => dir ∈ s.dirs
  | .memFree dir addr count =>
      dir ∈ s.dirs ∧ BelowUser addr count ∧ (s.mem.virtIspresent dir addr count = true →
        Disjoint (runFrames (s.mem.virt2phys dir addr) count) (s.dirs ∪ L.tables))

/-- A page below 1 GiB is present in all directories or in none, and leads to
the same address in all of them. -/
def SameKernel : Prop :=
  ∀ D ∈ s.dirs, ∀ D' ∈ s.dirs, ∀ vaddr < 0x40000000,
    s.mem.pageIspresent D vaddr = s.mem.pageIspresent D' vaddr ∧
      s.mem.virt2phys D vaddr = s.mem.virt2phys D' vaddr

/-- Every directory has the entries of the kernel half.  The directories, the
loaded one among them, and `krnl_pgtbl` are used frames and different from each
other. -/
structure SharedKernel : Prop where
  krnl : L.krnlPgdir ∈ s.dirs
  loaded : s.mem.cr3 ∈ s.dirs
  rows : ∀ D ∈ s.dirs, ∀ k, KernelHalf k → s.mem.ram D k = ⟨true, true, false, L.table k.val⟩
  apart : ∀ D ∈ s.dirs, D ∉ L.tables
  inj : ∀ k k', KernelHalf k → KernelHalf k' → L.table k.val = L.table k'.val → k = k'
  used : s.dirs ∪ L.tables ⊆ s.mem.phys.used

variable {L} {s}

namespace SharedKernel

variable (h : s.SharedKernel L) {D : Frame}

include h

theorem sameKernel : s.SameKernel := by
  intro D hD D' hD' vaddr hv
  have hk : KernelHalf (pdIndex vaddr) := by
    rw [pdIndex_eq, kernelHalf_pdi_iff]
    simp only [Frame.addr, frameOf, PAGE_SIZE]
    omega
  have hrow := (h.rows D hD _ hk).trans (h.rows D' hD' _ hk).symm
  constructor
  · rw [Memory.pageIspresent, Memory.pageIspresent, hrow]
  · rw [Memory.virt2phys, Memory.virt2phys, hrow]

theorem tablesOn (hD : D ∈ s.dirs) : s.mem.TablesOn D KernelHalf where
  present k hk := by rw [h.rows D hD k hk]
  ne_dir k hk := by
    rw [h.rows D hD k hk]
    exact fun heq => h.apart D hD (heq ▸ L.table_mem hk)
  inj k k' hk hk' := by
    rw [h.rows D hD k hk, h.rows D hD k' hk']
    exact h.inj k k' hk hk'

theorem dir_used (hD : D ∈ s.dirs) : D ∈ s.mem.phys.used :=
  h.used (Finset.mem_union_left _ hD)

/-- What holds of the kernel's directory holds of each of them. -/
theorem kernelTables (hD : D ∈ s.dirs) : s.mem.KernelTables D where
  tables := h.tablesOn hD
  loaded_tables := h.tablesOn h.loaded
  loaded_kernel k hk := (h.rows _ h.loaded k hk).trans (h.rows D hD k hk).symm
  krnl_used := h.dir_used hD
  loaded_used := h.dir_used h.loaded
  tables_used k hk := by
    rw [h.rows D hD k hk]
    exact h.used (Finset.mem_union_right _ (L.table_mem hk))

/-- Writes in kernel tables, and new contents in frames that are no directories,
keep the entries of all directories. -/
theorem update {S : Finset Frame} {phys : Phys} {t : Memory} {f : Frame → Entry}
    (hD : D ∈ s.dirs) (hu : Memory.KernelUpdate S (s.mem.setPhys phys) D t f)
    (hS : Disjoint s.dirs S) (hused : s.dirs ∪ L.tables ⊆ phys.used) :
    SharedKernel L ⟨t, s.dirs⟩ where
  krnl := h.krnl
  loaded := by
    rw [hu.cr3]
    exact h.loaded
  rows D' hD' k hk := by
    have hrow : t.ram D' = s.mem.ram D' := by
      refine hu.other D' (Finset.disjoint_left.mp hS hD') ?_
      intro j hj
      rw [Memory.setPhys_ram, h.rows D hD j hj]
      exact fun heq => h.apart D' hD' (heq ▸ L.table_mem hj)
    rw [hrow]
    exact h.rows D' hD' k hk
  apart := h.apart
  inj := h.inj
  used := by
    rw [hu.phys]
    exact hused

/-- A mapping or a removal below 1 GiB. -/
theorem hasPtes {t : Memory} {f : Frame → Entry} (phys : Phys) (hD : D ∈ s.dirs)
    (hm : Memory.HasPtes (s.mem.setPhys phys) D KernelHalf t f)
    (hused : s.dirs ∪ L.tables ⊆ phys.used) : SharedKernel L ⟨t, s.dirs⟩ :=
  h.update (S := ∅) hD ⟨hm.phys, hm.cr3, hm.pte, fun F _ hF => hm.other F hF⟩
    (Finset.disjoint_empty_right _) hused

/-- Frames that are marked leave the used ones as they are. -/
theorem used_setused (addr count : Nat) :
    s.dirs ∪ L.tables ⊆ (s.mem.phys.physSetused addr count).used := by
  rw [Phys.used_physSetused]
  exact h.used.trans Finset.subset_union_left

/-- New frames are no directories. -/
theorem disjoint_dirs {S : Finset Frame} (hS : Disjoint s.mem.phys.used S) : Disjoint s.dirs S :=
  hS.mono_left (Finset.subset_union_left.trans h.used)

theorem virtMap (hD : D ∈ s.dirs) {vaddr count : Nat} (hb : BelowUser vaddr count) (paddr : Nat)
    (w u : Bool) : SharedKernel L { s with mem := s.mem.virtMap D vaddr paddr count w u } :=
  h.hasPtes s.mem.phys hD
    (Memory.virtMap_hasPtes (h.tablesOn hD) paddr w u fun _ hi => hb.kernelHalf hi) h.used

theorem virtUnmap (hD : D ∈ s.dirs) {vaddr count : Nat} (hb : BelowUser vaddr count) :
    SharedKernel L { s with mem := s.mem.virtUnmap D vaddr count } :=
  h.hasPtes s.mem.phys hD
    (Memory.virtUnmap_hasPtes (h.tablesOn hD) fun _ hi => hb.kernelHalf hi) h.used

theorem memAlloc (hD : D ∈ s.dirs) {count : Nat} {w : Bool}
    (hp : (s.mem.phys.physAlloc count).1 ≠ Phys.allocFailed)
    (hv : (s.mem.memAlloc D count w false).1 ≠ 0) :
    SharedKernel L { s with mem := (s.mem.memAlloc D count w false).2 } := by
  obtain ⟨i, j, -, -, -, hdis, -, -, -, hu⟩ := Memory.memAlloc_kernel (h.kernelTables hD) hp hv
  exact h.update hD hu (h.disjoint_dirs hdis) (h.used_setused _ _)

theorem memAllocident (hD : D ∈ s.dirs) (count : Nat) (w : Bool) :
    SharedKernel L { s with mem := (s.mem.memAllocident D count w false).2 } := by
  obtain hfail | ⟨i, -, hdis, -, hu⟩ := Memory.memAllocident_kernelRun (h.kernelTables hD) count w
  · rw [hfail]
    exact h
  · exact h.update hD hu (h.disjoint_dirs hdis) (h.used_setused _ _)

theorem memFree (hD : D ∈ s.dirs) {addr count : Nat} (hb : BelowUser addr count)
    (hfree : s.mem.virtIspresent D addr count = true →
      Disjoint (runFrames (s.mem.virt2phys D addr) count) (s.dirs ∪ L.tables)) :
    SharedKernel L { s with mem := s.mem.memFree D addr count } := by
  rw [Memory.memFree]
  split
  · have htables : (s.mem.setPhys (s.mem.phys.physSetfree (s.mem.virt2phys D addr) count)).TablesOn
        D KernelHalf := (h.tablesOn hD).of_row rfl
    refine h.hasPtes _ hD (Memory.virtUnmap_hasPtes htables fun _ hi => hb.kernelHalf hi) ?_
    rw [Phys.used_physSetfree, Finset.subset_sdiff]
    exact ⟨h.used, (hfree ‹_›).symm⟩
  · exact h

/-- A new directory gets the entries of the kernel half. -/
theorem memAllocPgdir : SharedKernel L (s.call L .memAllocPgdir) := by
  have hk := h.kernelTables h.krnl
  by_cases hret : (s.mem.memAllocPgdir L).1 = 0
  · have hsame := h.memAllocident h.krnl 1 true
    obtain ⟨a, t, hx⟩ : ∃ a t, s.mem.memAllocident L.krnlPgdir 1 true false = (a, t) :=
      ⟨_, _, rfl⟩
    have ha : a = 0 := by
      by_contra ha
      rw [memAllocPgdir_eq hx, if_neg ha] at hret
      exact ha hret
    rw [hx] at hsame
    rw [call, if_pos hret, memAllocPgdir_eq hx, if_pos ha]
    exact hsame
  · obtain ⟨f, hf, hfu, haddr, hu, hrow⟩ := memAllocPgdir_spec hk hret
    have hfdirs : f ∉ s.dirs := fun hmem => hfu (h.dir_used hmem)
    have hold : SharedKernel L ⟨(s.mem.memAllocPgdir L).2, s.dirs⟩ :=
      h.update h.krnl hu (Finset.disjoint_singleton_right.mpr hfdirs) (h.used_setused f.addr 1)
    have hused : f ∈ (s.mem.memAllocPgdir L).2.phys.used := by
      rw [hu.phys, Memory.setPhys_phys, Phys.used_physSetused_frame]
      exact Finset.mem_insert_self f _
    rw [call, if_neg hret, haddr, frameOf_addr]
    refine ⟨Finset.mem_insert_of_mem hold.krnl, Finset.mem_insert_of_mem hold.loaded,
      fun D hD k hk => ?_, fun D hD => ?_, h.inj, ?_⟩
    · obtain rfl | hD := Finset.mem_insert.mp hD
      · rw [hrow, if_pos hk]
      · exact hold.rows D hD k hk
    · obtain rfl | hD := Finset.mem_insert.mp hD
      · exact fun hT => hfu (h.used (Finset.mem_union_right _ hT))
      · exact hold.apart D hD
    · rw [Finset.insert_union]
      exact Finset.insert_subset hused hold.used

end SharedKernel

/-- One call keeps the invariant. -/
theorem kernelStep_shared (s : Spaces) (c : KernelCall) (h : s.SharedKernel L)
    (hc : s.OnKernelHalf L c) : ∃ s', s.kernelStep L c = some s' ∧ s'.SharedKernel L := by
  refine ⟨_, rfl, ?_⟩
  cases c with
  | memAllocPgdir => exact h.memAllocPgdir
  | pagingLoaddir dir => exact ⟨h.krnl, hc, h.rows, h.apart, h.inj, h.used⟩
  | virtMap dir vaddr paddr count w u => exact h.virtMap hc.1 hc.2 paddr w u
  | virtUnmap dir vaddr count => exact h.virtUnmap hc.1 hc.2
  | memAlloc dir count w => exact h.memAlloc hc.1 hc.2.1 hc.2.2
  | memAllocident dir count w => exact h.memAllocident hc count w
  | memFree dir addr count => exact h.memFree hc.1 hc.2.1 hc.2.2

end Spaces

/-- `mem_init` leaves the kernel's directory as the only one. -/
theorem Linked.sharedKernel {L : Layout} {info : BootInfo} {s t : Memory} (h : Linked L info s)
    (hinit : s.memInit L info = some t) : Spaces.SharedKernel L ⟨t, {L.krnlPgdir}⟩ := by
  obtain ⟨hdir, -⟩ := h.memInit_spec hinit
  obtain ⟨-, -, -, -, hcr3⟩ := memInit_eq hinit
  have hused := (memInit_marks hinit).1
  refine ⟨Finset.mem_singleton_self _, ?_, fun D hD k hk => ?_, fun D hD => ?_,
    fun k k' hk hk' heq => ?_, ?_⟩
  · rw [hcr3]
    exact Finset.mem_singleton_self _
  · rw [Finset.mem_singleton.mp hD, hdir, if_pos hk]
  · rw [Finset.mem_singleton.mp hD]
    exact h.dir
  · have hval := congrArg Fin.val heq
    rw [h.table_val hk, h.table_val hk'] at hval
    ext
    omega
  · refine Finset.union_subset (Finset.singleton_subset_iff.mpr ?_) ?_
    · exact hused (mem_runFrames_image h.dir_lt)
    · intro F hF
      exact hused (mem_runFrames_image (h.place hF).2)

namespace Spaces

/-- In every run from `mem_init` on, all directories show the same kernel
pages. -/
theorem runs_sameKernel {L : Layout} {info : BootInfo} {s t : Memory} (h : Linked L info s)
    (hinit : s.memInit L info = some t) (calls : List KernelCall)
    (hcalls : Meets (kernelStep L) (OnKernelHalf L) ⟨t, {L.krnlPgdir}⟩ calls) :
    ∃ s', run (kernelStep L) ⟨t, {L.krnlPgdir}⟩ calls = some s' ∧ s'.SameKernel := by
  obtain ⟨s', hrun, hshared⟩ :=
    run_defined kernelStep_shared calls (h.sharedKernel hinit) hcalls
  exact ⟨s', hrun, hshared.sameKernel⟩

/-- Two pages are mapped through a new directory, and one of them is unmapped
through the kernel's. -/
theorem runs_sameKernel_two : ∃ t,
    Memory.blank.memInit bootedLayout (Memory.bootInfo Memory.holeMap) = some t ∧
      ∃ s', run (kernelStep bootedLayout) ⟨t, {bootedLayout.krnlPgdir}⟩ [.memAllocPgdir,
        .virtMap (frameOf (t.memAllocPgdir bootedLayout).1) 0x200000 0x300000 2 true false,
        .virtUnmap bootedLayout.krnlPgdir 0x201000 1] = some s' ∧ s'.SameKernel := by
  obtain ⟨t, hinit⟩ := memInit_holeMap
  refine ⟨t, hinit, runs_sameKernel booted_linked hinit _ ⟨trivial, fun s hs => ?_⟩⟩
  obtain rfl := Option.some.inj hs
  have hnew := memInit_newDir_mem hinit
  refine ⟨⟨hnew, by decide⟩, fun s hs => ?_⟩
  obtain rfl := Option.some.inj hs
  refine ⟨⟨?_, by decide⟩, fun _ _ => trivial⟩
  show bootedLayout.krnlPgdir ∈
    ((⟨t, {bootedLayout.krnlPgdir}⟩ : Spaces).call bootedLayout .memAllocPgdir).dirs
  rw [call, if_neg (memInit_newDir hinit).1]
  exact Finset.mem_insert_of_mem (Finset.mem_singleton_self _)

end Spaces

end StardustOS.Mem
