import StardustOS.Mem.Tables

/-!
# The kernel half of the address space

The directory entries 0 to 255 of `krnl_pgdir` are there from `mem_init` on,
and every directory that is loaded shares them.  `KernelTables` is this
standing assumption, with what keeps it true: the frames it rests on are used.

Under it, allocating and freeing kernel pages are updates of one page map and
of the set of used frames, and `memset` clears the new frames and nothing else:
`memAlloc_kernel`, `memAllocident_kernel` and `memFree_kernel`.
-/

namespace StardustOS.Mem

open Lib

/-- The directory entries of the kernel half. -/
def KernelHalf (k : Fin 1024) : Prop := k.val < 256

instance (k : Fin 1024) : Decidable (KernelHalf k) := inferInstanceAs (Decidable (k.val < 256))

theorem kernelHalf_frameOf {i : Nat} (hi : i < 2 ^ 18) :
    KernelHalf (frameOf (i * PAGE_SIZE)).pdi := by
  rw [KernelHalf]
  simp only [Frame.pdi, frameOf_mul (Nat.lt_trans hi (by decide))]
  omega

/-- The tables are one behind another. -/
theorem Layout.table_val {L : Layout} {i : Nat} (hi : i < 256)
    (htop : L.krnlPgtbl.val + 256 ≤ 2 ^ 20) : (L.table i).val = L.krnlPgtbl.val + i := by
  simp only [Layout.table, frameOf, Frame.addr, PAGE_SIZE]
  omega

namespace Memory

variable {s : Memory} {krnl : Frame}

/-- The loop over the kernel half writes that half of one directory. -/
theorem setKernelEntries_spec (s : Memory) (L : Layout) (dir : Frame) :
    SameBut {dir} s (s.setKernelEntries L dir) ∧
      ∀ k, (s.setKernelEntries L dir).ram dir k =
        if KernelHalf k then ⟨true, true, false, L.table k.val⟩ else s.ram dir k := by
  refine forUpto_inv (P := fun i t => SameBut {dir} s t ∧ ∀ k : Fin 1024, t.ram dir k =
    if k.val < i then ⟨true, true, false, L.table k.val⟩ else s.ram dir k) 256
    ⟨⟨rfl, rfl, fun _ _ => rfl⟩, fun k => rfl⟩ ?_
  rintro i t hi ⟨hsame, hrow⟩
  refine ⟨⟨hsame.phys, hsame.cr3, fun F hF => ?_⟩, fun k => ?_⟩
  · rw [setEntry_row_of_ne _ _ _ (Finset.notMem_singleton.mp hF), hsame.ram F hF]
  · have hval : (Fin.ofNat 1024 i).val = i := Nat.mod_eq_of_lt (by omega)
    by_cases hk : k = Fin.ofNat 1024 i
    · rw [hk, setEntry_ram_self, hval, if_pos (Nat.lt_succ_self i)]
    · have hne : k.val ≠ i := fun heq => hk (Fin.ext (heq.trans hval.symm))
      rw [setEntry_ram_of_ne _ _ (Or.inr hk), hrow k]
      simp only [show (k.val < i + 1) = (k.val < i) by
        rw [eq_iff_iff]
        omega]

/-- The kernel tables of `krnl` and of the loaded directory are the same, and
these tables and the two directories are used frames. -/
structure KernelTables (s : Memory) (krnl : Frame) : Prop where
  tables : s.TablesOn krnl KernelHalf
  loaded_tables : s.TablesOn s.cr3 KernelHalf
  loaded_kernel : ∀ k, KernelHalf k → s.ram s.cr3 k = s.ram krnl k
  krnl_used : krnl ∈ s.phys.used
  loaded_used : s.cr3 ∈ s.phys.used
  tables_used : ∀ k, KernelHalf k → (s.ram krnl k).frame ∈ s.phys.used

/-- The frames `S` are neither the two directories nor kernel tables. -/
structure Avoids (s : Memory) (krnl : Frame) (S : Finset Frame) : Prop where
  dir : krnl ∉ S
  loaded : s.cr3 ∉ S
  tables : ∀ k, KernelHalf k → (s.ram krnl k).frame ∉ S

theorem Avoids.setPhys {S : Finset Frame} (hS : s.Avoids krnl S) (phys : Phys) :
    (s.setPhys phys).Avoids krnl S := ⟨hS.dir, hS.loaded, hS.tables⟩

theorem Avoids.insert {F : Frame} {S : Finset Frame} (hF : s.Avoids krnl {F})
    (hS : s.Avoids krnl S) : s.Avoids krnl (insert F S) := by
  refine ⟨fun h => ?_, fun h => ?_, fun k hk h => ?_⟩
  · exact (Finset.mem_insert.mp h).elim (fun h => hF.dir (Finset.mem_singleton.mpr h)) hS.dir
  · exact (Finset.mem_insert.mp h).elim (fun h => hF.loaded (Finset.mem_singleton.mpr h)) hS.loaded
  · exact (Finset.mem_insert.mp h).elim
      (fun h => hF.tables k hk (Finset.mem_singleton.mpr h)) (hS.tables k hk)

/-- The kernel pages that are present. -/
def kernelPages (s : Memory) (krnl : Frame) : Finset Frame :=
  Finset.univ.filter fun p => KernelHalf p.pdi ∧ (s.pte krnl p).present = true

@[simp] theorem mem_kernelPages {p : Frame} :
    p ∈ s.kernelPages krnl ↔ KernelHalf p.pdi ∧ (s.pte krnl p).present = true := by
  simp [kernelPages]

/-- `t` is `s` with the kernel pages read as `f`, and with new contents in the
frames `S`. -/
structure KernelUpdate (S : Finset Frame) (s : Memory) (krnl : Frame) (t : Memory)
    (f : Frame → Entry) : Prop where
  phys : t.phys = s.phys
  cr3 : t.cr3 = s.cr3
  pte : ∀ p : Frame, KernelHalf p.pdi → t.pte krnl p = f p
  other : ∀ F, F ∉ S → (∀ k, KernelHalf k → F ≠ (s.ram krnl k).frame) → t.ram F = s.ram F

/-- Page map writes, then new contents in frames apart from the tables. -/
theorem HasPtes.kernelUpdate {S : Finset Frame} {t t' : Memory} {f : Frame → Entry}
    (hm : HasPtes s krnl KernelHalf t f) (hS : s.Avoids krnl S) (hz : SameBut S t t') :
    KernelUpdate S s krnl t' f := by
  refine ⟨hz.phys.trans hm.phys, hz.cr3.trans hm.cr3, fun p hp => ?_, fun F hF hFt => ?_⟩
  · rw [hz.pte hS.dir, hm.pte p hp]
    rw [hm.row]
    exact hS.tables _ hp
  · rw [hz.ram F hF, hm.other F hFt]

namespace KernelTables

variable (h : s.KernelTables krnl)

include h

/-- Frames may be marked, and frames may be freed that are none of the
directories and tables. -/
theorem setPhys {R : Finset Frame} (hR : s.Avoids krnl R) {phys : Phys}
    (hsub : s.phys.used \ R ⊆ phys.used) : (s.setPhys phys).KernelTables krnl where
  tables := h.tables.of_row rfl
  loaded_tables := h.loaded_tables.of_row rfl
  loaded_kernel := h.loaded_kernel
  krnl_used := hsub (Finset.mem_sdiff.mpr ⟨h.krnl_used, hR.dir⟩)
  loaded_used := hsub (Finset.mem_sdiff.mpr ⟨h.loaded_used, hR.loaded⟩)
  tables_used := fun k hk => hsub (Finset.mem_sdiff.mpr ⟨h.tables_used k hk, hR.tables k hk⟩)

theorem setused (addr count : Nat) :
    (s.setPhys (s.phys.physSetused addr count)).KernelTables krnl := by
  refine h.setPhys (R := ∅) ⟨by simp, by simp, by simp⟩ ?_
  rw [Phys.used_physSetused, Finset.sdiff_empty]
  exact Finset.subset_union_left

theorem setfree {addr count : Nat} (hR : s.Avoids krnl (runFrames addr count)) :
    (s.setPhys (s.phys.physSetfree addr count)).KernelTables krnl :=
  h.setPhys hR (s.phys.used_physSetfree addr count).ge

/-- The loaded directory has the page map of `krnl`. -/
theorem loaded_pte {p : Frame} (hp : KernelHalf p.pdi) : s.pte s.cr3 p = s.pte krnl p := by
  rw [pte, pte, h.loaded_kernel _ hp]

/-- Unused frames are neither directories nor tables. -/
theorem avoids {S : Finset Frame} (hS : Disjoint s.phys.used S) : s.Avoids krnl S where
  dir := Finset.disjoint_left.mp hS h.krnl_used
  loaded := Finset.disjoint_left.mp hS h.loaded_used
  tables := fun k hk => Finset.disjoint_left.mp hS (h.tables_used k hk)

/-- A new frame is marked: the tables stay, and it is none of them. -/
theorem mark {f : Frame} (hf : f ∉ s.phys.used) :
    (s.setPhys (s.phys.physSetused f.addr 1)).KernelTables krnl ∧
      (s.setPhys (s.phys.physSetused f.addr 1)).Avoids krnl {f} :=
  ⟨h.setused f.addr 1, (h.avoids (Finset.disjoint_singleton_right.mpr hf)).setPhys _⟩

/-- Clearing pages clears the frames they lead to. -/
theorem memset {S : Finset Frame} (hS : s.Avoids krnl S) {vaddr count : Nat}
    (hK : ∀ i < count, KernelHalf (frameOf (vaddr + i * PAGE_SIZE)).pdi)
    (hpages : ∀ i < count, (s.pte krnl (frameOf (vaddr + i * PAGE_SIZE))).frame ∈ S) :
    SameBut S s (s.memset vaddr count) := by
  refine memset_sameBut hS.loaded (fun i hi => ?_) fun i hi => ?_
  · rw [h.loaded_kernel _ (hK i hi)]
    exact hS.tables _ (hK i hi)
  · rw [h.loaded_pte (hK i hi)]
    exact hpages i hi

/-- A mapping leaves the directories and the tables in place. -/
theorem of_hasPtes {t : Memory} {f : Frame → Entry} (hm : HasPtes s krnl KernelHalf t f) :
    t.KernelTables krnl ∧ ∀ S, s.Avoids krnl S → t.Avoids krnl S := by
  have hloaded := hm.other s.cr3 fun k hk => by
    rw [← h.loaded_kernel k hk]
    exact (h.loaded_tables.ne_dir k hk).symm
  refine ⟨⟨h.tables.of_row hm.row, ?_, ?_, ?_, ?_, ?_⟩, fun S hS => ⟨hS.dir, ?_, ?_⟩⟩
  · rw [hm.cr3]
    exact h.loaded_tables.of_row hloaded
  · rw [hm.cr3, hloaded, hm.row]
    exact h.loaded_kernel
  · rw [hm.phys]
    exact h.krnl_used
  · rw [hm.phys, hm.cr3]
    exact h.loaded_used
  · rw [hm.phys, hm.row]
    exact h.tables_used
  · rw [hm.cr3]
    exact hS.loaded
  · rw [hm.row]
    exact hS.tables

/-- Pages are mapped to new frames, and cleared. -/
theorem mapCleared {vaddr paddr count : Nat} {w u : Bool} (hc : count ≤ 2 ^ 18)
    (hS : s.Avoids krnl (runFrames paddr count))
    (hK : ∀ i < count, KernelHalf (frameOf (vaddr + i * PAGE_SIZE)).pdi) :
    KernelUpdate (runFrames paddr count) s krnl
      ((s.virtMap krnl vaddr paddr count w u).memset vaddr count)
      (mapPages vaddr paddr count w u (s.pte krnl)) := by
  have hm := virtMap_hasPtes h.tables paddr w u hK
  obtain ⟨ht, hav⟩ := h.of_hasPtes hm
  refine hm.kernelUpdate hS (ht.memset (hav _ hS) hK fun i hi => ?_)
  rw [hm.pte _ (hK i hi), mapPages_inside (by omega) hi]
  exact mem_runFrames.mpr ⟨i, hi, rfl⟩

end KernelTables

/-! ## Updates of the kernel pages -/

namespace KernelUpdate

variable {S R : Finset Frame} {t : Memory} {f : Frame → Entry}

/-- The directories and the tables stay in place. -/
theorem rows (h : s.KernelTables krnl) (hS : s.Avoids krnl S) (hu : KernelUpdate S s krnl t f) :
    t.ram krnl = s.ram krnl ∧ t.ram t.cr3 = s.ram s.cr3 := by
  refine ⟨hu.other _ hS.dir fun k hk => (h.tables.ne_dir k hk).symm, ?_⟩
  rw [hu.cr3]
  refine hu.other _ hS.loaded ?_
  intro k hk
  rw [← h.loaded_kernel k hk]
  exact (h.loaded_tables.ne_dir k hk).symm

/-- More new contents in the same frames. -/
theorem sameBut {t' : Memory} (h : s.KernelTables krnl) (hS : s.Avoids krnl S)
    (hu : KernelUpdate S s krnl t f) (hz : SameBut S t t') : KernelUpdate S s krnl t' f := by
  refine ⟨hz.phys.trans hu.phys, hz.cr3.trans hu.cr3, fun p hp => ?_, fun F hF hFt => ?_⟩
  · rw [hz.pte hS.dir, hu.pte p hp]
    rw [(hu.rows h hS).1]
    exact hS.tables _ hp
  · rw [hz.ram F hF, hu.other F hF hFt]

theorem avoids (h : s.KernelTables krnl) (hS : s.Avoids krnl S) (hu : KernelUpdate S s krnl t f)
    (hR : s.Avoids krnl R) : t.Avoids krnl R where
  dir := hR.dir
  loaded := hu.cr3 ▸ hR.loaded
  tables := (hu.rows h hS).1 ▸ hR.tables

theorem kernelTables (h : s.KernelTables krnl) (hS : s.Avoids krnl S)
    (hu : KernelUpdate S s krnl t f) : t.KernelTables krnl := by
  obtain ⟨hrow, hloaded⟩ := hu.rows h hS
  refine ⟨h.tables.of_row hrow, ?_, ?_, ?_, ?_, ?_⟩
  · rw [hu.cr3] at hloaded ⊢
    exact h.loaded_tables.of_row hloaded
  · rw [hloaded, hrow]
    exact h.loaded_kernel
  · rw [hu.phys]
    exact h.krnl_used
  · rw [hu.cr3, hu.phys]
    exact h.loaded_used
  · rw [hrow, hu.phys]
    exact h.tables_used

theorem kernelPages_mapPages {i j count : Nat} {w u : Bool}
    (hu : KernelUpdate S s krnl t
      (mapPages (j * PAGE_SIZE) (i * PAGE_SIZE) count w u (s.pte krnl)))
    (hj : j + count ≤ 2 ^ 18) :
    t.kernelPages krnl = s.kernelPages krnl ∪ runFrames (j * PAGE_SIZE) count := by
  ext p
  rw [Finset.mem_union, mem_kernelPages, mem_kernelPages, mem_runFrames]
  by_cases hp : ∃ k < count, frameOf (j * PAGE_SIZE + k * PAGE_SIZE) = p
  · obtain ⟨k, hk, rfl⟩ := hp
    have hK : KernelHalf (frameOf (j * PAGE_SIZE + k * PAGE_SIZE)).pdi := by
      rw [← Nat.add_mul]
      exact kernelHalf_frameOf (by omega)
    refine iff_of_true ⟨hK, ?_⟩ (Or.inr ⟨k, hk, rfl⟩)
    rw [hu.pte _ hK, mapPages_inside (by omega) hk]
  · have hout : ∀ k < count, p ≠ frameOf (j * PAGE_SIZE + k * PAGE_SIZE) :=
      fun k hk heq => hp ⟨k, hk, heq.symm⟩
    rw [or_iff_left hp]
    exact and_congr_right fun hK => by rw [hu.pte _ hK, mapPages_outside hout]

theorem kernelPages_unmapPages {vaddr count : Nat}
    (hu : KernelUpdate S s krnl t (unmapPages vaddr count (s.pte krnl))) :
    t.kernelPages krnl = s.kernelPages krnl \ runFrames vaddr count := by
  ext p
  rw [Finset.mem_sdiff, mem_kernelPages, mem_kernelPages, mem_runFrames]
  by_cases hp : ∃ k < count, frameOf (vaddr + k * PAGE_SIZE) = p
  · refine iff_of_false (fun ⟨hK, hpres⟩ => ?_) fun h => h.2 hp
    obtain ⟨k, hk, rfl⟩ := hp
    rw [hu.pte _ hK, unmapPages_inside hk] at hpres
    exact Bool.false_ne_true hpres
  · have hout : ∀ k < count, p ≠ frameOf (vaddr + k * PAGE_SIZE) :=
      fun k hk heq => hp ⟨k, hk, heq.symm⟩
    rw [and_iff_left hp]
    exact and_congr_right fun hK => by rw [hu.pte _ hK, unmapPages_outside hout]

end KernelUpdate

/-! ## Allocating kernel pages -/

/-- A `mem_alloc` whose two searches succeed: it found a run of unused frames
and a run of absent pages, and has mapped one to the other. -/
theorem memAlloc_kernel (h : s.KernelTables krnl) {count : Nat} {w : Bool}
    (hp : (s.phys.physAlloc count).1 ≠ Phys.allocFailed)
    (hv : (s.memAlloc krnl count w false).1 ≠ 0) :
    ∃ i j, i < 2 ^ 20 ∧ 0 < count ∧ j + count ≤ 2 ^ 18 ∧
      Disjoint s.phys.used (runFrames (i * PAGE_SIZE) count) ∧
      (∀ k < count, s.pageIspresent krnl ((j + k) * PAGE_SIZE) = false) ∧
      (s.phys.physAlloc count).1 = i * PAGE_SIZE ∧
      (s.memAlloc krnl count w false).1 = j * PAGE_SIZE ∧
      KernelUpdate (runFrames (i * PAGE_SIZE) count)
        (s.setPhys (s.phys.physSetused (i * PAGE_SIZE) count)) krnl
        (s.memAlloc krnl count w false).2
        (mapPages (j * PAGE_SIZE) (i * PAGE_SIZE) count w false (s.pte krnl)) := by
  obtain ⟨i, hi, hpa, hdis⟩ := s.phys.physAlloc_some hp
  have hc : count ≠ 0 := by
    rintro rfl
    exact hv rfl
  have hi0 : i * PAGE_SIZE ≠ 0 := by
    intro h0
    rw [memAlloc, if_neg hc, hpa] at hv
    simp [h0] at hv
  rw [memAlloc, if_neg hc, hpa] at hv ⊢
  simp only [hi0, ↓reduceIte] at hv ⊢
  obtain hfail | ⟨j, -, hhi, habs, hva⟩ := virtAlloc_spec
    (s.setPhys (s.phys.physSetused (i * PAGE_SIZE) count)) krnl (i * PAGE_SIZE) count w false
  · rw [hfail] at hv
    exact absurd rfl hv
  · rw [hva]
    simp only [Bool.false_eq_true, ↓reduceIte] at hhi
    refine ⟨i, j, hi, by omega, by omega, hdis, habs, rfl, rfl, ?_⟩
    refine (h.setused _ _).mapCleared (by omega) ((h.avoids hdis).setPhys _) ?_
    intro k hk
    rw [← Nat.add_mul]
    exact kernelHalf_frameOf (by omega)

/-- A `mem_allocident` fails and changes nothing, or it maps a run of unused
frames whose pages were absent to itself. -/
theorem memAllocident_kernelRun (h : s.KernelTables krnl) (count : Nat) (w : Bool) :
    s.memAllocident krnl count w false = (0, s) ∨
      ∃ i, i + count ≤ 2 ^ 18 ∧ Disjoint s.phys.used (runFrames (i * PAGE_SIZE) count) ∧
        (s.memAllocident krnl count w false).1 = i * PAGE_SIZE ∧
        KernelUpdate (runFrames (i * PAGE_SIZE) count)
          (s.setPhys (s.phys.physSetused (i * PAGE_SIZE) count)) krnl
          (s.memAllocident krnl count w false).2
          (mapPages (i * PAGE_SIZE) (i * PAGE_SIZE) count w false (s.pte krnl)) := by
  rw [memAllocident]
  obtain hfail | ⟨i, -, hhi, hfree, hok⟩ := s.memAllocidentWith_spec
    (fun a s => s.virtMap krnl a a count w false) krnl count false
  · exact Or.inl hfail
  · simp only [Bool.false_eq_true, ↓reduceIte] at hhi
    have hdis : Disjoint s.phys.used (runFrames (i * PAGE_SIZE) count) := by
      refine Finset.disjoint_right.mpr ?_
      intro f hf
      obtain ⟨k, hk, rfl⟩ := mem_runFrames.mp hf
      rw [← Nat.add_mul]
      exact (s.identFree_eq_true.mp (hfree k hk)).2
    rw [hok]
    refine Or.inr ⟨i, by omega, hdis, rfl, ?_⟩
    refine (h.setused _ _).mapCleared (by omega) ((h.avoids hdis).setPhys _) ?_
    intro k hk
    rw [← Nat.add_mul]
    exact kernelHalf_frameOf (by omega)

/-- A `mem_allocident` for one frame that succeeds: an unused frame whose page
was absent is mapped to itself. -/
theorem memAllocident_kernel (h : s.KernelTables krnl) {w : Bool}
    (hret : (s.memAllocident krnl 1 w false).1 ≠ 0) :
    ∃ f : Frame, KernelHalf f.pdi ∧ f ∉ s.phys.used ∧
      (s.memAllocident krnl 1 w false).1 = f.addr ∧
      KernelUpdate {f} (s.setPhys (s.phys.physSetused f.addr 1)) krnl
        (s.memAllocident krnl 1 w false).2
        (Function.update (s.pte krnl) f ⟨true, w, false, f⟩) := by
  obtain ⟨i, hhi, hdis, hok, hu⟩ := (memAllocident_kernelRun h 1 w).resolve_left fun hfail =>
    hret (congrArg Prod.fst hfail)
  have haddr : (frameOf (i * PAGE_SIZE)).addr = i * PAGE_SIZE := by
    rw [Frame.addr, frameOf_mul (by omega)]
  rw [runFrames_one] at hdis hu
  rw [← haddr, mapPages_one, frameOf_addr] at hu
  exact ⟨frameOf (i * PAGE_SIZE), kernelHalf_frameOf (by omega),
    Finset.disjoint_singleton_right.mp hdis, hok.trans haddr.symm, hu⟩

/-- A `mem_free` of present pages frees as many frames from that of the first
page on, and clears the pages. -/
theorem memFree_kernel (h : s.KernelTables krnl) {vaddr count : Nat}
    (hv : vaddr % PAGE_SIZE = 0)
    (hK : ∀ i < count, KernelHalf (frameOf (vaddr + i * PAGE_SIZE)).pdi)
    (hpres : ∀ i < count, (s.pte krnl (frameOf (vaddr + i * PAGE_SIZE))).present = true) :
    KernelUpdate ∅
      (s.setPhys (s.phys.physSetfree (s.pte krnl (frameOf vaddr)).frame.addr count)) krnl
      (s.memFree krnl vaddr count) (unmapPages vaddr count (s.pte krnl)) := by
  have hall : s.virtIspresent krnl vaddr count = true := by
    rw [virtIspresent, allUpto_eq_true]
    intro i hi
    rw [h.tables.pageIspresent (hK i hi), hpres i hi]
  have hm := virtUnmap_hasPtes (s := s.setPhys
    (s.phys.physSetfree (s.pte krnl (frameOf vaddr)).frame.addr count)) (h.tables.of_row rfl) hK
  simp only [memFree, hall, ↓reduceIte, s.virt2phys_eq krnl hv]
  exact ⟨hm.phys, hm.cr3, hm.pte, fun F _ hF => hm.other F hF⟩

end Memory

/-! ## The state at the start -/

/-- A page of the kernel half leads to the frame of its own number. -/
structure IdentPage (s : Memory) (krnl p : Frame) : Prop where
  kernel : KernelHalf p.pdi
  present : (s.pte krnl p).present = true
  frame : (s.pte krnl p).frame = p

/-- The kernel's address space as `mem_init` sets it up.  The entries of the
kernel half lead to different tables, page 0 leads to frame 0, and the tables
and the frames of all present kernel pages are used.  `krnl` and the loaded
directory, which shares the kernel tables, are themselves reached through
identity pages. -/
structure KernelReady (s : Memory) (krnl : Frame) : Prop where
  tables : s.TablesOn krnl KernelHalf
  tables_used : ∀ k, KernelHalf k → (s.ram krnl k).frame ∈ s.phys.used
  page_zero : IdentPage s krnl 0
  pages_used : ∀ p ∈ s.kernelPages krnl, (s.pte krnl p).frame ∈ s.phys.used
  krnl_page : IdentPage s krnl krnl
  loaded_page : IdentPage s krnl s.cr3
  loaded_tables : s.TablesOn s.cr3 KernelHalf
  loaded_kernel : ∀ k, KernelHalf k → s.ram s.cr3 k = s.ram krnl k

namespace KernelReady

variable {s : Memory} {krnl : Frame} (h : KernelReady s krnl)

include h

/-- The frame of an identity page is used. -/
theorem ident_used {p : Frame} (hp : IdentPage s krnl p) : p ∈ s.phys.used := by
  have := h.pages_used p (Memory.mem_kernelPages.mpr ⟨hp.kernel, hp.present⟩)
  rwa [hp.frame] at this

theorem kernelTables : s.KernelTables krnl where
  tables := h.tables
  loaded_tables := h.loaded_tables
  loaded_kernel := h.loaded_kernel
  krnl_used := h.ident_used h.krnl_page
  loaded_used := h.ident_used h.loaded_page
  tables_used := h.tables_used

end KernelReady

/-! ## A small machine -/

/-- The index of an entry is the number of a frame. -/
theorem entry_lt (k : Fin 1024) : k.val < 2 ^ 20 := by omega

/-- So is the place of a table behind the directory. -/
theorem table_lt (k : Fin 1024) : k.val + 2 < 2 ^ 20 := by omega

/-- The frames 0 to 263 are used.  Frame 1 is the kernel's directory, with its
tables in the frames 2 to 257, and the first two pages are identity pages. -/
def booted : Memory where
  phys := ⟨fun i => if i.val < 33 then 0xFF else 0, 264 * 4096, 16777216⟩
  ram F k :=
    if F = 1 ∧ k.val < 256 then ⟨true, true, false, ⟨k.val + 2, table_lt k⟩⟩
    else if F = 2 ∧ k.val < 2 then ⟨true, true, false, ⟨k.val, entry_lt k⟩⟩
    else Entry.zero
  cr3 := 1

theorem booted_row {k : Fin 1024} (hk : KernelHalf k) :
    booted.ram 1 k = ⟨true, true, false, ⟨k.val + 2, by omega⟩⟩ := by
  rw [KernelHalf] at hk
  simp [booted, hk]

theorem booted_tables : booted.TablesOn 1 KernelHalf := by
  refine ⟨fun k hk => by rw [booted_row hk], fun k hk => ?_, fun k k' hk hk' => ?_⟩
  · rw [booted_row hk]
    simp [Fin.ext_iff]
  · rw [booted_row hk, booted_row hk']
    simp [Fin.ext_iff]

theorem booted_used {f : Frame} (hf : f.val < 264) : f ∈ booted.phys.used := by
  have hword : Bitmap.word 131072 8 f.val = ⟨f.val / 8, by omega⟩ := by
    ext
    simp only [Bitmap.word, Fin.ofNat]
    omega
  rw [Phys.mem_used, Phys.isUsed, Bitmap.testBit_eq, hword]
  have hlt : f.val / 8 < 33 := by omega
  have hall : ∀ i < 8, (0xFF : BitVec 8).getLsbD i = true := by decide
  simpa [booted, hlt] using hall _ (Nat.mod_lt _ (by decide))

theorem booted_pte {p : Frame} (hp : KernelHalf p.pdi) :
    booted.pte 1 p = if p.val < 2 then ⟨true, true, false, p⟩ else Entry.zero := by
  have h1 : ∀ h, (⟨p.pdi.val + 2, h⟩ : Frame) ≠ 1 := fun h heq => by
    have := congrArg Fin.val heq
    simp at this
  have h2 : ∀ h, (⟨p.pdi.val + 2, h⟩ : Frame) = 2 ↔ p.pdi.val = 0 := fun h => by
    rw [Fin.ext_iff]
    exact Nat.add_eq_right
  rw [Memory.pte, booted_row hp]
  simp only [booted, h1, h2, false_and, ↓reduceIte]
  have hiff : p.pdi.val = 0 ∧ p.pti.val < 2 ↔ p.val < 2 := by
    simp only [Frame.pdi, Frame.pti]
    omega
  by_cases h0 : p.val < 2
  · have ht : p.pti.val = p.val := by
      simp only [Frame.pti]
      omega
    rw [if_pos (hiff.mpr h0), if_pos h0]
    simp only [ht]
  · simp only [hiff, h0, ↓reduceIte]

theorem booted_ready : KernelReady booted 1 where
  tables := booted_tables
  tables_used := by
    intro k hk
    rw [booted_row hk]
    refine booted_used ?_
    rw [KernelHalf] at hk
    show k.val + 2 < 264
    omega
  page_zero := ⟨by decide, by decide, by decide⟩
  pages_used := by
    intro p hp
    obtain ⟨hK, hpres⟩ := Memory.mem_kernelPages.mp hp
    rw [booted_pte hK] at hpres ⊢
    split at hpres
    · rw [if_pos ‹_›]
      have hlt : p.val < 264 := by omega
      exact booted_used hlt
    · exact absurd hpres (by decide)
  krnl_page := ⟨by decide, by decide, by decide⟩
  loaded_page := ⟨by decide, by decide, by decide⟩
  loaded_tables := booted_tables
  loaded_kernel := fun _ _ => rfl

end StardustOS.Mem
