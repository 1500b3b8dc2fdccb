import StardustOS.Mem.AddressSpace

/-!
# The kernel's tables and user pages

The tables `krnl_pgtbl` are shared by all directories.  `Split` says that they
hold no user page and that no user half leads into them.

An entry is written through `virt_map` in the table that the directory leads to,
or in a new one (`virtMap_succ`).  In the user half that is never one of
`krnl_pgtbl`, so user pages keep `Split` there (`Split.userMap`); in the kernel
half only the pages of the kernel do (`Split.kernelMap`).
-/

namespace StardustOS.Mem

open Lib

/-- The frames of `krnl_pgtbl`. -/
def Layout.tables (L : Layout) : Finset Frame := (Finset.range 256).image L.table

theorem Layout.table_mem (L : Layout) {k : Fin 1024} (hk : KernelHalf k) :
    L.table k.val ∈ L.tables := Finset.mem_image_of_mem _ (Finset.mem_range.mpr hk)

/-- The pages of the kernel half are those below 1 GiB. -/
theorem kernelHalf_pdi_iff (p : Frame) : KernelHalf p.pdi ↔ p.addr < 0x40000000 := by
  rw [KernelHalf, Frame.addr]
  simp only [Frame.pdi, PAGE_SIZE]
  omega

namespace Memory

variable {s : Memory} {L : Layout} {dirs : Finset Frame} {dir : Frame}

/-- No entry of `krnl_pgtbl` is user accessible, and the user halves of the
directories do not lead there.  The tables are used frames. -/
structure Split (L : Layout) (dirs : Finset Frame) (s : Memory) : Prop where
  user : ∀ F ∈ L.tables, ∀ k, (s.ram F k).user = false
  dir : ∀ D ∈ dirs, D ∉ L.tables
  high : ∀ D ∈ dirs, ∀ k, ¬ KernelHalf k → (s.ram D k).present = true →
    (s.ram D k).frame ∉ L.tables
  used : L.tables ⊆ s.phys.used
  place : ∀ F ∈ L.tables, 0 < F.val ∧ F.val < 2 ^ 18

namespace Split

variable (h : Split L dirs s)

include h

/-- An entry that does not lead to `krnl_pgtbl` is written, and in these tables
only a page of the kernel. -/
theorem setEntry {F : Frame} {e : Entry} (k : Fin 1024) (huser : F ∈ L.tables → e.user = false)
    (hframe : e.frame ∉ L.tables) : Split L dirs (s.setEntry F k e) where
  user F' hF' k' := by
    by_cases hsame : F' = F ∧ k' = k
    · obtain ⟨rfl, rfl⟩ := hsame
      rw [setEntry_ram_self]
      exact huser hF'
    · rw [setEntry_ram_of_ne _ _ (not_and_or.mp hsame)]
      exact h.user F' hF' k'
  dir := h.dir
  high D hD k' hk' := by
    by_cases hsame : D = F ∧ k' = k
    · obtain ⟨rfl, rfl⟩ := hsame
      rw [setEntry_ram_self]
      exact fun _ => hframe
    · rw [setEntry_ram_of_ne _ _ (not_and_or.mp hsame)]
      exact h.high D hD k' hk'
  used := h.used
  place := h.place

theorem zeroFrame (F : Frame) : Split L dirs (s.zeroFrame F) where
  user F' hF' k := by
    by_cases hF : F' = F
    · subst hF
      rw [zeroFrame_ram_self]
      rfl
    · rw [zeroFrame_row_of_ne _ hF]
      exact h.user F' hF' k
  dir := h.dir
  high D hD k hk := by
    by_cases hF : D = F
    · subst hF
      rw [zeroFrame_ram_self]
      exact fun hpres => by cases hpres
    · rw [zeroFrame_row_of_ne _ hF]
      exact h.high D hD k hk
  used := h.used
  place := h.place

theorem setPhys {phys : Phys} (hused : L.tables ⊆ phys.used) : Split L dirs (s.setPhys phys) :=
  ⟨h.user, h.dir, h.high, hused, h.place⟩

/-- Frames apart from the tables may be freed, and are no directories then. -/
theorem setfree {addr count : Nat} (hfree : Disjoint (runFrames addr count) L.tables) :
    Split L (dirs \ runFrames addr count) (s.setPhys (s.phys.physSetfree addr count)) where
  user := h.user
  dir D hD := h.dir D (Finset.mem_sdiff.mp hD).1
  high D hD := h.high D (Finset.mem_sdiff.mp hD).1
  used := by
    rw [setPhys_phys, Phys.used_physSetfree, Finset.subset_sdiff]
    exact ⟨h.used, hfree.symm⟩
  place := h.place

/-- A frame that is not used is none of the tables. -/
theorem apart {F : Frame} (hF : F ∉ s.phys.used) : F ∉ L.tables := fun hT => hF (h.used hT)

/-- Neither is the first or a high frame. -/
theorem apart_of_val {F : Frame} (hF : F.val = 0 ∨ 2 ^ 18 ≤ F.val) : F ∉ L.tables := fun hT => by
  have := h.place F hT
  omega

/-- `mem_allocident` returns none of the tables. -/
theorem memAllocident_apart (dir : Frame) (w : Bool) :
    frameOf (s.memAllocident dir 1 w false).1 ∉ L.tables := by
  rw [memAllocident]
  obtain hfail | ⟨i, -, -, hfree, hall⟩ := s.memAllocidentWith_spec
    (fun a s => s.virtMap dir a a 1 w false) dir 1 false
  · rw [hfail]
    exact h.apart_of_val (F := frameOf 0) (.inl (by decide))
  · rw [hall]
    exact h.apart (s.identFree_eq_true.mp (hfree 0 Nat.one_pos)).2

end Split

theorem keeps_split (L : Layout) (dirs : Finset Frame) :
    Keeps (Split L dirs) fun e => e.user = false ∧ e.frame ∉ L.tables where
  used s addr count h := by
    refine h.setPhys ?_
    rw [Phys.used_physSetused]
    exact h.used.trans Finset.subset_union_left
  entry _ _ k _ he h := h.setEntry k (fun _ => he.1) he.2
  zero _ F h := h.zeroFrame F

/-! ## Pages of the kernel -/

namespace Split

variable (h : Split L dirs s) (hdir : dir ∈ dirs)

include h

theorem memset (vaddr count : Nat) : Split L dirs (s.memset vaddr count) :=
  (keeps_split L dirs).memset vaddr count h

include hdir

theorem kernelMap {vaddr paddr count : Nat} {w : Bool}
    (hframes : Disjoint (runFrames paddr count) L.tables) :
    Split L dirs (s.virtMap dir vaddr paddr count w false) := by
  have hown : dir ∉ L.tables := h.dir dir hdir
  refine (keeps_split L dirs).virtMap (fun _ => ⟨rfl, hown⟩)
    (fun t _ f ht _ hf => ⟨rfl, ht.apart hf⟩) ⟨rfl, hown⟩ (fun i hi => ⟨rfl, ?_⟩) h
  exact Finset.disjoint_left.mp hframes (mem_runFrames.mpr ⟨i, hi, rfl⟩)

theorem kernelAlloc (count : Nat) (w : Bool) :
    Split L dirs (s.memAllocident dir count w false).2 := by
  have hown : dir ∉ L.tables := h.dir dir hdir
  exact (keeps_split L dirs).memAllocident (fun _ => ⟨rfl, hown⟩)
    (fun t _ f ht _ hf => ⟨rfl, ht.apart hf⟩) ⟨rfl, hown⟩ (fun f _ hf => ⟨rfl, h.apart hf⟩) h

omit hdir

theorem virtUnmap (dir : Frame) (vaddr count : Nat) : Split L dirs (s.virtUnmap dir vaddr count) :=
  forUpto_inv (P := fun _ t => Split L dirs t) count h fun i t _ ht => by
    rw [virtUnmapPage]
    split
    · exact ht.setEntry _ (fun _ => rfl) (ht.apart_of_val (.inl rfl))
    · exact ht

end Split

/-! ## New directories -/

/-- `mem_alloc_pgdir` clears the new directory: in the loaded one its page leads
to it. -/
def ClearsNew (s : Memory) (L : Layout) : Prop :=
  ∀ a t, s.memAllocident L.krnlPgdir 1 true false = (a, t) → a ≠ 0 →
    t.pageIspresent t.cr3 a = true ∧ frameOf (t.virt2phys t.cr3 a) = frameOf a

/-- A page that leads to a frame clears it. -/
theorem memset_of_page {a : Nat} {f : Frame} (hpres : s.pageIspresent s.cr3 a = true)
    (hf : frameOf (s.virt2phys s.cr3 a) = f) : s.memset a 1 = s.zeroFrame f := by
  have hone : 1 * PAGE_SIZE % 2 ^ 32 / PAGE_SIZE = 1 := by decide
  rw [memset, hone, forUpto_succ, forUpto_zero, Nat.zero_mul, Nat.add_zero, memsetPage, hpres,
    if_pos rfl, hf]

namespace Split

variable (h : Split L dirs s)

include h

/-- The entries of the kernel half of a new directory lead to `krnl_pgtbl`. -/
theorem setKernelEntries {f : Frame} (hf : f ∉ L.tables) (hempty : ∀ k, s.ram f k = Entry.zero) :
    Split L (insert f dirs) (s.setKernelEntries L f) := by
  obtain ⟨hsame, hrow⟩ := setKernelEntries_spec s L f
  have hother : ∀ F, F ≠ f → (s.setKernelEntries L f).ram F = s.ram F :=
    fun F hF => hsame.ram F (Finset.notMem_singleton.mpr hF)
  refine ⟨fun F hF k => ?_, fun D hD => ?_, fun D hD k hk hpres => ?_, ?_, h.place⟩
  · rw [hother F fun heq => hf (heq ▸ hF)]
    exact h.user F hF k
  · obtain rfl | hD := Finset.mem_insert.mp hD
    · exact hf
    · exact h.dir D hD
  · by_cases hDf : D = f
    · rw [hDf, hrow, if_neg hk, hempty] at hpres
      cases hpres
    · rw [hother D hDf] at hpres ⊢
      exact h.high D ((Finset.mem_insert.mp hD).resolve_left hDf) k hk hpres
  · rw [hsame.phys]
    exact h.used

theorem memAllocPgdir (hkrnl : L.krnlPgdir ∈ dirs) (hclear : s.ClearsNew L) :
    Split L (if (s.memAllocPgdir L).1 = 0 then dirs
      else insert (frameOf (s.memAllocPgdir L).1) dirs) (s.memAllocPgdir L).2 := by
  have ht := h.kernelAlloc hkrnl 1 true
  obtain ⟨a, t, hx⟩ : ∃ a t, s.memAllocident L.krnlPgdir 1 true false = (a, t) := ⟨_, _, rfl⟩
  rw [hx] at ht
  rw [memAllocPgdir_eq hx]
  by_cases ha : a = 0
  · rw [if_pos ha, if_pos rfl]
    exact ht
  · simp only [if_neg ha]
    have hf := h.memAllocident_apart L.krnlPgdir true
    rw [hx] at hf
    obtain ⟨hpres, hphys⟩ := hclear a t hx ha
    rw [memset_of_page hpres hphys]
    exact (ht.zeroFrame _).setKernelEntries hf fun k => zeroFrame_ram_self _ _ k

end Split

/-! ## Where an entry is written -/

/-- The frame of the entry that `virt_map` writes for a page: the table that the
directory leads to, or the one that it is given. -/
def entryFrame (s : Memory) (dir : Frame) (vaddr : Nat) (w : Bool) : Frame :=
  let pde := s.ram dir (pdIndex vaddr)
  if pde.present = false then frameOf (s.memAllocident dir 1 w false).1 else pde.frame

/-- `virt_map` gives the directory a table for a page, if it has none. -/
def giveTable (s : Memory) (dir : Frame) (vaddr : Nat) (w u : Bool) : Memory :=
  let pdi := pdIndex vaddr
  if (s.ram dir pdi).present = false then
    (s.memAllocident dir 1 w false).2.setEntry dir pdi ⟨true, w, u, frameOf (pdeAddr dir pdi)⟩
  else s

theorem virtMap_zero (s : Memory) (dir : Frame) (vaddr paddr : Nat) (w u : Bool) :
    s.virtMap dir vaddr paddr 0 w u = s := by
  rw [virtMap_eq, virtMapWith, forUpto_zero]

/-- One more page is mapped. -/
theorem virtMap_succ (s : Memory) (dir : Frame) (vaddr paddr count : Nat) (w u : Bool) :
    s.virtMap dir vaddr paddr (count + 1) w u =
      let t := s.virtMap dir vaddr paddr count w u
      let page := vaddr + count * PAGE_SIZE
      (t.giveTable dir page w u).setEntry (t.entryFrame dir page w) (ptIndex page)
        ⟨true, w, u, frameOf (paddr + count * PAGE_SIZE)⟩ := by
  simp only [virtMap_eq, virtMapWith, forUpto_succ, virtMapPage, giveTable, entryFrame]
  split
  · rfl
  · rfl

/-- In mapping a run of pages, `virt_map` writes the entry of page `p` in frame
`F`. -/
def MapsIn (s : Memory) (dir : Frame) (vaddr paddr count : Nat) (w u : Bool) (p F : Frame) :
    Prop :=
  ∃ i < count, p = frameOf (vaddr + i * PAGE_SIZE) ∧
    F = (s.virtMap dir vaddr paddr i w u).entryFrame dir (vaddr + i * PAGE_SIZE) w

/-! ## Pages of the user half -/

namespace Split

variable (h : Split L dirs s) (hdir : dir ∈ dirs)

include h hdir

theorem giveTable (vaddr : Nat) (w u : Bool) : Split L dirs (s.giveTable dir vaddr w u) := by
  have hown : dir ∉ L.tables := h.dir dir hdir
  rw [Memory.giveTable]
  split
  · refine (h.kernelAlloc hdir 1 w).setEntry _ (fun hT => absurd hT hown) ?_
    rwa [frameOf_pdeAddr]
  · exact h

/-- The table of a page of the user half is none of `krnl_pgtbl`. -/
theorem entryFrame_apart {vaddr : Nat} (w : Bool) (hhigh : 0x40000000 ≤ (frameOf vaddr).addr) :
    s.entryFrame dir vaddr w ∉ L.tables := by
  have hk : ¬ KernelHalf (pdIndex vaddr) := by
    rw [pdIndex_eq, kernelHalf_pdi_iff]
    omega
  rw [entryFrame]
  split
  · exact h.memAllocident_apart dir w
  · rename_i hpres
    exact h.high dir hdir _ hk (by simpa using hpres)

/-- Pages of the user half are mapped to frames that are none of `krnl_pgtbl`. -/
theorem userMap {vaddr paddr count : Nat} (w u : Bool)
    (hhigh : ∀ i < count, 0x40000000 ≤ (frameOf (vaddr + i * PAGE_SIZE)).addr)
    (hframes : Disjoint (runFrames paddr count) L.tables) :
    Split L dirs (s.virtMap dir vaddr paddr count w u) := by
  induction count with
  | zero => rwa [virtMap_zero]
  | succ count ih =>
      rw [runFrames_succ, Finset.disjoint_insert_left] at hframes
      have hbefore : Split L dirs (s.virtMap dir vaddr paddr count w u) :=
        ih (fun i hi => hhigh i (Nat.lt_succ_of_lt hi)) hframes.2
      have hapart := hbefore.entryFrame_apart hdir w (hhigh count (Nat.lt_succ_self count))
      rw [virtMap_succ]
      exact (hbefore.giveTable hdir _ w u).setEntry _ (fun hT => absurd hT hapart) hframes.1

end Split

end Memory

end StardustOS.Mem
