import StardustOS.Mem.KernelSpace

/-!
# What a mapping translates to

`MapsRight` is what `virt_map` promises: the pages of the range lead to the
frames asked for with the permissions asked for, and the other pages stay where
they were.

A directory entry that is not present is given a table, but is then pointed at
the frame it lies in itself, which is that of the directory.  So the promise is
kept exactly when there is nothing to give: `virtMap_right_iff` says that every
mapping into a range comes out right if and only if the directory entries of
the range are there, with the permissions asked for.
-/

namespace StardustOS.Mem

open Lib

namespace Memory

variable (s : Memory)

/-- A page directory with well-formed tables: its own frame is allocated, and
its present entries lead to tables of their own. -/
structure WellFormed (dir : Frame) : Prop where
  ne_null : dir ≠ 0
  used : dir ∈ s.phys.used
  tables : s.TablesOn dir fun k => (s.ram dir k).present = true

/-- A page is present, leads to `paddr`, and its directory entry and its table
entry both grant the permissions asked for. -/
structure Reaches (dir : Frame) (vaddr paddr : Nat) (w u : Bool) : Prop where
  present : s.pageIspresent dir vaddr = true
  phys : s.virt2phys dir vaddr = paddr % 2 ^ 32
  write : w = true →
    (s.ram dir (pdIndex vaddr)).write = true ∧ (s.pte dir (frameOf vaddr)).write = true
  user : u = true →
    (s.ram dir (pdIndex vaddr)).user = true ∧ (s.pte dir (frameOf vaddr)).user = true

/-- After `virt_map` the pages of the range lead where they should, and every
other page that was present leads where it did, unless it is the identity page
of a frame that the call allocated. -/
structure MapsRight (dir : Frame) (vaddr paddr count : Nat) (w u : Bool) : Prop where
  inside : ∀ i < count, (s.virtMap dir vaddr paddr count w u).Reaches dir
    (vaddr + i * PAGE_SIZE) (paddr + i * PAGE_SIZE) w u
  outside : ∀ p : Frame, (∀ i < count, p ≠ frameOf (vaddr + i * PAGE_SIZE)) →
    s.pageIspresent dir p.addr = true →
    (p ∉ s.phys.used ∧ p ∈ (s.virtMap dir vaddr paddr count w u).phys.used) ∨
      ((s.virtMap dir vaddr paddr count w u).pageIspresent dir p.addr = true ∧
        (s.virtMap dir vaddr paddr count w u).virt2phys dir p.addr = s.virt2phys dir p.addr)

/-- The directory entries of the range are present and grant the permissions
asked for. -/
def TablesReady (dir : Frame) (vaddr count : Nat) (w u : Bool) : Prop :=
  ∀ i < count, (s.ram dir (pdIndex (vaddr + i * PAGE_SIZE))).present = true ∧
    (w = true → (s.ram dir (pdIndex (vaddr + i * PAGE_SIZE))).write = true) ∧
    (u = true → (s.ram dir (pdIndex (vaddr + i * PAGE_SIZE))).user = true)

variable {s} {dir : Frame}

/-! ## Enough tables -/

/-- A present page of a well-formed directory that the page map keeps. -/
theorem HasPtes.keeps {t : Memory} {f : Frame → Entry} {K : Fin 1024 → Prop}
    (hs : s.TablesOn dir K) (h : HasPtes s dir K t f) {p : Frame} (hp : K p.pdi)
    (hf : f p = s.pte dir p) :
    t.pageIspresent dir p.addr = s.pageIspresent dir p.addr ∧
      t.virt2phys dir p.addr = s.virt2phys dir p.addr := by
  have hK : K (frameOf p.addr).pdi := by rwa [frameOf_addr]
  have hpte : t.pte dir (frameOf p.addr) = s.pte dir (frameOf p.addr) := by
    rw [frameOf_addr, h.pte p hp, hf]
  constructor
  · rw [(hs.of_row h.row).pageIspresent hK, hs.pageIspresent hK, hpte]
  · rw [t.virt2phys_eq dir (addr_aligned p), s.virt2phys_eq dir (addr_aligned p), hpte]

theorem mapsRight_of_ready (hwf : s.WellFormed dir) {vaddr paddr count : Nat} {w u : Bool}
    (hv : vaddr % PAGE_SIZE = 0) (hpa : paddr % PAGE_SIZE = 0) (hc : count ≤ 2 ^ 20)
    (hready : s.TablesReady dir vaddr count w u) : s.MapsRight dir vaddr paddr count w u := by
  have hK : ∀ i < count,
      (s.ram dir (frameOf (vaddr + i * PAGE_SIZE)).pdi).present = true := by
    intro i hi
    rw [← pdIndex_eq]
    exact (hready i hi).1
  have hm := virtMap_hasPtes hwf.tables paddr w u hK
  have ht := hwf.tables.of_row hm.row
  refine ⟨fun i hi => ?_, fun p hp hpres => Or.inr ?_⟩
  · have hpte := (hm.pte _ (hK i hi)).trans (mapPages_inside hc hi)
    refine ⟨?_, ?_, fun hw => ?_, fun hu => ?_⟩
    · rw [ht.pageIspresent (hK i hi), hpte]
    · rw [virt2phys_eq _ dir (step_aligned hv i), hpte, addr_frameOf (step_aligned hpa i)]
    · rw [hm.row, hpte]
      exact ⟨(hready i hi).2.1 hw, hw⟩
    · rw [hm.row, hpte]
      exact ⟨(hready i hi).2.2 hu, hu⟩
  · rw [pageIspresent_eq, frameOf_addr, Bool.and_eq_true] at hpres
    obtain ⟨h1, h2⟩ := hm.keeps hwf.tables hpres.1 (mapPages_outside hp)
    refine ⟨?_, h2⟩
    rw [h1, pageIspresent_eq, frameOf_addr, Bool.and_eq_true]
    exact hpres

/-! ## A table that is not there -/

/-- The frame that `mem_allocident` returns for a table is not the directory. -/
theorem memAllocident_ne_dir (hnull : dir ≠ 0) (hused : dir ∈ s.phys.used) (w : Bool) :
    frameOf (s.memAllocident dir 1 w false).1 ≠ dir := by
  rw [memAllocident]
  obtain h | ⟨i, -, hhi, hfree, h⟩ := s.memAllocidentWith_spec
    (fun a s => s.virtMap dir a a 1 w false) dir 1 false
  · rw [h, show frameOf 0 = 0 from rfl]
    exact hnull.symm
  · rw [h]
    intro heq
    exact (s.identFree_eq_true.mp (hfree 0 Nat.one_pos)).2 (heq ▸ hused)

/-- Entries that do not lead to `T` do not come to lead to `T` when a table is
allocated. -/
theorem keeps_frame_ne {T : Frame} (hT : T ≠ 0) (F : Frame) (k : Fin 1024) :
    Keeps (fun s => (s.ram F k).frame ≠ T) fun e => e.frame ≠ T where
  used := fun _ _ _ h => h
  entry := by
    intro s F' k' e he h
    by_cases hsame : F = F' ∧ k = k'
    · obtain ⟨rfl, rfl⟩ := hsame
      rwa [setEntry_ram_self]
    · rwa [setEntry_ram_of_ne _ _ (by tauto)]
  zero := by
    intro s F' h
    by_cases hsame : F = F'
    · subst hsame
      rw [zeroFrame_ram_self]
      exact hT.symm
    · rwa [zeroFrame_row_of_ne _ hsame]

/-- A page whose directory entry is not present comes to be read out of the
directory itself. -/
theorem virtMapPage_absent (hnull : dir ≠ 0) (hused : dir ∈ s.phys.used) {vaddr paddr : Nat}
    {w u : Bool} {T : Frame} (hpde : (s.ram dir (frameOf vaddr).pdi).present = false)
    (hlow : 2 ^ 18 ≤ T.val) (hdir : dir ≠ T) (hT : (s.ram dir (frameOf vaddr).pti).frame ≠ T) :
    ((s.virtMapPage (fun s => s.memAllocident dir 1 w false) dir vaddr paddr w u).pte dir
      (frameOf vaddr)).frame ≠ T := by
  have hT0 : T ≠ 0 := by
    rintro rfl
    simp at hlow
  have hpt := memAllocident_ne_dir hnull hused w
  have hkept : ((s.memAllocident dir 1 w false).2.ram dir (frameOf vaddr).pti).frame ≠ T := by
    refine (keeps_frame_ne hT0 dir (frameOf vaddr).pti).memAllocident (fun _ => hdir)
      (fun _ _ f _ hf _ => ?_) hdir (fun f hf _ => ?_) hT
    · exact fun h => by simp [← h] at hlow; omega
    · exact fun h => by simp [← h] at hlow hf; omega
  simp only [virtMapPage, pdIndex_eq, ptIndex_eq, hpde, ↓reduceIte, frameOf_pdeAddr]
  rw [pte, setEntry_row_of_ne _ _ _ hpt.symm, setEntry_ram_self]
  rw [setEntry_row_of_ne _ _ _ hpt.symm]
  by_cases hk : (frameOf vaddr).pti = (frameOf vaddr).pdi
  · rw [hk, setEntry_ram_self]
    exact hdir
  · rwa [setEntry_ram_of_ne _ _ (Or.inr hk)]

/-- There is a frame above the kernel half that is not one of two given ones. -/
theorem exists_high_frame (F G : Frame) : ∃ T : Frame, 2 ^ 18 ≤ T.val ∧ F ≠ T ∧ G ≠ T := by
  obtain ⟨t, ht, hF, hG⟩ : ∃ t < 3, F.val ≠ 2 ^ 18 + t ∧ G.val ≠ 2 ^ 18 + t := by
    by_contra h
    push Not at h
    have h0 := h 0
    have h1 := h 1
    have h2 := h 2
    omega
  exact ⟨⟨2 ^ 18 + t, by omega⟩, Nat.le_add_right _ _, fun h => hF (congrArg Fin.val h),
    fun h => hG (congrArg Fin.val h)⟩

/-- A physical address that puts page `i` of a range on a given frame. -/
theorem exists_paddr (T : Frame) {i : Nat} (hi : i ≤ 2 ^ 20) :
    ∃ paddr, paddr % PAGE_SIZE = 0 ∧ frameOf (paddr + i * PAGE_SIZE) = T := by
  refine ⟨(T.val + (2 ^ 20 - i)) * PAGE_SIZE, Nat.mul_mod_left _ _, ?_⟩
  have := T.isLt
  ext
  simp only [frameOf, PAGE_SIZE]
  omega

/-- The frame that a page which reaches an address is read from. -/
theorem Reaches.frame {vaddr paddr : Nat} {w u : Bool} (h : s.Reaches dir vaddr paddr w u)
    (hv : vaddr % PAGE_SIZE = 0) (hpa : paddr % PAGE_SIZE = 0) :
    (s.pte dir (frameOf vaddr)).frame = frameOf paddr := by
  have heq := h.phys
  rw [s.virt2phys_eq dir hv, ← addr_frameOf hpa] at heq
  rw [← frameOf_addr (s.pte dir (frameOf vaddr)).frame, heq, frameOf_addr]

/-- A range whose mappings come out right has no directory entry to be given a
table. -/
theorem present_of_mapsRight (hwf : s.WellFormed dir) {vaddr count : Nat} {w u : Bool}
    (hv : vaddr % PAGE_SIZE = 0) (hc : count ≤ 2 ^ 20)
    (h : ∀ n ≤ count, ∀ paddr, paddr % PAGE_SIZE = 0 → s.MapsRight dir vaddr paddr n w u)
    (i : Nat) (hi : i < count) :
    (s.ram dir (frameOf (vaddr + i * PAGE_SIZE)).pdi).present = true := by
  induction i using Nat.strong_induction_on with
  | _ i ih =>
  by_contra habs
  obtain ⟨T, hlow, hdir, hT⟩ := exists_high_frame dir
    (s.ram dir (frameOf (vaddr + i * PAGE_SIZE)).pti).frame
  obtain ⟨paddr, hpa, hpT⟩ := exists_paddr T (i := i) (by omega)
  -- the pages before `i` find their tables and leave the directory alone
  have hm := virtMapWith_hasPtes hwf.tables (fun s => s.memAllocident dir 1 w false)
    paddr w u fun j hj => ih j hj (by omega)
  have hframe := ((h (i + 1) (by omega) paddr hpa).inside i (Nat.lt_succ_self i)).frame
    (step_aligned hv i) (step_aligned hpa i)
  rw [virtMap_eq, virtMapWith, forUpto_succ, hpT] at hframe
  refine virtMapPage_absent hwf.ne_null ?_ ?_ hlow hdir ?_ hframe
  · exact hm.phys ▸ hwf.used
  · exact (congrFun hm.row _ ▸ Bool.eq_false_iff.mpr habs)
  · exact fun heq => hT (congrFun hm.row _ ▸ heq)

theorem ready_of_mapsRight (hwf : s.WellFormed dir) {vaddr count : Nat} {w u : Bool}
    (hv : vaddr % PAGE_SIZE = 0) (hc : count ≤ 2 ^ 20)
    (h : ∀ n ≤ count, ∀ paddr, paddr % PAGE_SIZE = 0 → s.MapsRight dir vaddr paddr n w u) :
    s.TablesReady dir vaddr count w u := by
  intro i hi
  have hpres := present_of_mapsRight hwf hv hc h
  have hrow := (virtMap_hasPtes hwf.tables 0 w u hpres).row
  have hreach := (h count (Nat.le_refl _) 0 rfl).inside i hi
  rw [← hrow]
  refine ⟨?_, fun hw => (hreach.write hw).1, fun hu => (hreach.user hu).1⟩
  rw [hrow, pdIndex_eq]
  exact hpres i hi

/-- For a well-formed directory and a range of pages: every mapping into the
range, whole or a first part of it and to whatever frames, comes out right if
and only if the directory entries of the range are there with the permissions
asked for. -/
theorem virtMap_right_iff (hwf : s.WellFormed dir) {vaddr count : Nat} {w u : Bool}
    (hv : vaddr % PAGE_SIZE = 0) (hrange : vaddr + count * PAGE_SIZE ≤ 2 ^ 32) :
    (∀ n ≤ count, ∀ paddr, paddr % PAGE_SIZE = 0 → s.MapsRight dir vaddr paddr n w u) ↔
      s.TablesReady dir vaddr count w u := by
  have hc : count ≤ 2 ^ 20 := by
    rw [PAGE_SIZE] at hrange
    omega
  refine ⟨ready_of_mapsRight hwf hv hc, ?_⟩
  intro hready n hn paddr hpa
  exact mapsRight_of_ready hwf hv hpa (by omega) fun i hi => hready i (by omega)

/-! ## The small machine -/

theorem booted_wellFormed : booted.WellFormed 1 := by
  refine ⟨by decide, booted_used (by decide), ?_⟩
  have hK : ∀ k : Fin 1024, (booted.ram 1 k).present = true → KernelHalf k := by
    intro k hk
    by_contra hge
    rw [KernelHalf] at hge
    simp [booted, hge, Entry.zero] at hk
  exact ⟨fun k hk => hk, fun k hk => booted_tables.ne_dir k (hK k hk),
    fun k k' hk hk' => booted_tables.inj k k' (hK k hk) (hK k' hk')⟩

/-- The tables of the kernel half are there, and pages are mapped right in them. -/
theorem virtMap_right_kernel :
    booted.TablesReady 1 0x400000 1024 true false ∧
      booted.MapsRight 1 0x400000 0x800000 1024 true false := by
  have hready : booted.TablesReady 1 0x400000 1024 true false := by
    intro i hi
    have hk : KernelHalf (pdIndex (0x400000 + i * PAGE_SIZE)) := by
      rw [pdIndex_eq, KernelHalf]
      simp only [Frame.pdi, frameOf, PAGE_SIZE]
      omega
    rw [booted_row hk]
    exact ⟨rfl, fun _ => rfl, fun h => absurd h Bool.false_ne_true⟩
  refine ⟨hready, ?_⟩
  exact (virtMap_right_iff booted_wellFormed (by decide) (by decide)).mpr hready 1024
    (Nat.le_refl _) 0x800000 (by decide)

/-- The first user page is asked for at `0x800000`.  A table is found for it,
but the page leads to the first kernel table. -/
theorem virtMap_user_wrong :
    booted.WellFormed 1 ∧ (booted.memAllocident 1 1 true false).1 = 0x108000 ∧
      (booted.virtMap 1 0x40000000 0x800000 1 true true).virt2phys 1 0x40000000 = 0x2000 ∧
      ¬ booted.MapsRight 1 0x40000000 0x800000 1 true true := by
  have hphys : (booted.virtMap 1 0x40000000 0x800000 1 true true).virt2phys 1 0x40000000 =
      0x2000 := by decide +kernel
  refine ⟨booted_wellFormed, by decide +kernel, hphys, ?_⟩
  intro h
  have := (h.inside 0 Nat.one_pos).phys
  rw [Nat.zero_mul, Nat.add_zero, hphys] at this
  exact absurd this (by decide)

end Memory

end StardustOS.Mem
