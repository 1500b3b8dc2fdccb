import StardustOS.Mem.PgDir

/-!
# A destroyed address space gives back its memory

`mem_free_pgdir` walks the user half of a directory to free its pages and its
tables.  Its inner loop tests and counts the variable of the outer loop, so it
looks at entry 0 of the first table only, and ends the walk.

`used_memFreePgdir` says which frames the walk frees.  What a process owned is
all given back exactly when it had at most one page, in entry 0 of its table:
`memFreePgdir_iff`.
-/

namespace StardustOS.Mem

open Lib

variable {s₀ s : Memory} {krnl dir : Frame} {pages : List Frame} {A : Ledger ownedCells}
  {L : Layout}

/-! ## Identity pages -/

/-- Clearing the identity page of a frame clears the frame. -/
theorem IdentPage.memset (h : s.KernelTables krnl) {f : Frame} (hid : IdentPage s krnl f) :
    s.memset f.addr 1 = s.zeroFrame f := by
  have hone : 1 * PAGE_SIZE % 2 ^ 32 / PAGE_SIZE = 1 := by decide
  have hpte : s.pte s.cr3 (frameOf f.addr) = s.pte krnl f := by
    rw [frameOf_addr, h.loaded_pte hid.kernel]
  rw [Memory.memset, hone, forUpto_succ, forUpto_zero, Nat.zero_mul, Nat.add_zero,
    Memory.memsetPage, h.loaded_tables.pageIspresent ((frameOf_addr f).symm ▸ hid.kernel),
    Memory.frameOf_virt2phys, hpte, hid.present, hid.frame, if_pos rfl]

/-- Freeing the identity page of a frame frees the frame, and takes away no
other page. -/
theorem IdentPage.memFree (h : s.KernelTables krnl) {f : Frame} (hid : IdentPage s krnl f) :
    (s.memFree krnl f.addr 1).phys.used = s.phys.used.erase f ∧
      Memory.KernelUpdate ∅ (s.setPhys (s.phys.physSetfree f.addr 1)) krnl
        (s.memFree krnl f.addr 1) (unmapPages f.addr 1 (s.pte krnl)) := by
  have hone : ∀ i < 1, frameOf (f.addr + i * PAGE_SIZE) = f := by
    intro i hi
    obtain rfl : i = 0 := by omega
    rw [Nat.zero_mul, Nat.add_zero, frameOf_addr]
  have hu := Memory.memFree_kernel h (addr_aligned f) (fun i hi => (hone i hi).symm ▸ hid.kernel)
    fun i hi => (hone i hi).symm ▸ hid.present
  rw [frameOf_addr, hid.frame] at hu
  exact ⟨(congrArg Phys.used hu.phys).trans (s.phys.used_physSetfree_frame f), hu⟩

/-! ## A new directory -/

theorem memAllocPgdir_eq {a : Nat} {s₁ : Memory}
    (hx : s.memAllocident L.krnlPgdir 1 true false = (a, s₁)) :
    s.memAllocPgdir L =
      if a = 0 then (0, s₁) else (a, (s₁.memset a 1).setKernelEntries L (frameOf a)) := by
  unfold Memory.memAllocPgdir
  rw [hx]

/-- `mem_alloc_pgdir` takes an unused frame for the directory, gives it an
identity page, and leaves its user half empty. -/
theorem memAllocPgdir_spec (h : s₀.KernelTables L.krnlPgdir) (hret : (s₀.memAllocPgdir L).1 ≠ 0) :
    ∃ f : Frame, KernelHalf f.pdi ∧ f ∉ s₀.phys.used ∧ (s₀.memAllocPgdir L).1 = f.addr ∧
      Memory.KernelUpdate {f} (s₀.setPhys (s₀.phys.physSetused f.addr 1)) L.krnlPgdir
        (s₀.memAllocPgdir L).2
        (Function.update (s₀.pte L.krnlPgdir) f ⟨true, true, false, f⟩) ∧
      ∀ k, (s₀.memAllocPgdir L).2.ram f k =
        if KernelHalf k then ⟨true, true, false, L.table k.val⟩ else Entry.zero := by
  obtain ⟨a, s₁, hx⟩ : ∃ a s₁, s₀.memAllocident L.krnlPgdir 1 true false = (a, s₁) :=
    ⟨_, _, rfl⟩
  have hfound : a ≠ 0 := by
    intro h0
    rw [memAllocPgdir_eq hx, if_pos h0] at hret
    exact hret rfl
  have hfound' : (s₀.memAllocident L.krnlPgdir 1 true false).1 ≠ 0 := by rwa [hx]
  obtain ⟨f, hf, hfu, haddr, hu⟩ := Memory.memAllocident_kernel h hfound'
  rw [hx] at haddr hu
  obtain ⟨hk, hav⟩ := h.mark hfu
  have hid : IdentPage s₁ L.krnlPgdir f := by
    refine ⟨hf, ?_, ?_⟩
    all_goals rw [hu.pte f hf, Function.update_self]
  have heq : s₀.memAllocPgdir L = (f.addr, (s₁.zeroFrame f).setKernelEntries L f) := by
    rw [memAllocPgdir_eq hx, if_neg hfound, show a = f.addr from haddr,
      hid.memset (hu.kernelTables hk hav), frameOf_addr]
  obtain ⟨hsame, hrow⟩ := Memory.setKernelEntries_spec (s₁.zeroFrame f) L f
  refine ⟨f, hf, hfu, by rw [heq], ?_, fun k => ?_⟩
  · rw [heq]
    refine hu.sameBut hk hav ⟨hsame.phys, hsame.cr3, ?_⟩
    intro F hF
    rw [hsame.ram F hF, Memory.zeroFrame_row_of_ne _ (Finset.notMem_singleton.mp hF)]
  · rw [heq, hrow k, Memory.zeroFrame_ram_self]

/-- What `mem_alloc_pgdir` returns owns its own frame and has no user page. -/
theorem memAllocPgdir_userInv (h : s₀.KernelTables L.krnlPgdir)
    (hlayout : ∀ k : Fin 1024, KernelHalf k → (s₀.ram L.krnlPgdir k).frame = L.table k.val)
    (hret : (s₀.memAllocPgdir L).1 ≠ 0) :
    ∃ A, UserInv s₀ L.krnlPgdir (frameOf (s₀.memAllocPgdir L).1) (s₀.memAllocPgdir L).2 [] A ∧
      TablesHavePages A [] := by
  obtain ⟨f, hf, hfu, haddr, hu, hrow⟩ := memAllocPgdir_spec h hret
  rw [haddr, frameOf_addr]
  set t := (s₀.memAllocPgdir L).2
  obtain ⟨hk, hav⟩ := h.mark hfu
  have hkrow := (hu.rows hk hav).1
  have hfree : Disjoint (Ledger.start ownedCells s₀.phys.used).used
      (ownedCells (Owner.dir, f)) := by
    rw [Ledger.used_start]
    exact Finset.disjoint_singleton_right.mpr hfu
  have hempty : ∀ k, ¬ KernelHalf k → (t.ram f k).present = false := by
    intro k hk
    rw [hrow, if_neg hk]
    rfl
  refine ⟨(Ledger.start ownedCells s₀.phys.used).alloc (Owner.dir, f) hfree, ?_, fun k T hT => ?_⟩
  · constructor
    · exact hu.kernelTables hk hav
    · exact fun S hS => hu.avoids hk hav ((h.avoids hS).setPhys _)
    · rfl
    · rw [Ledger.used_alloc, Ledger.used_start, hu.phys]
      have hused := s₀.phys.used_physSetused_frame f
      rw [Finset.insert_eq, Finset.union_comm] at hused
      exact hused
    · intro F
      simp [Ledger.start]
    · intro k hk
      rw [hrow, if_pos hk, hkrow]
      exact (hlayout k hk).symm
    · intro x hx _
      obtain rfl := List.mem_singleton.mp hx
      refine ⟨hf, ?_, ?_⟩
      all_goals rw [hu.pte f hf, Function.update_self]
    · intro k T
      simp only [Ledger.live_alloc, Ledger.start, List.mem_singleton]
      constructor
      · intro h
        cases h
      · rintro ⟨hk, hpres, -⟩
        exact absurd ((hempty k hk).symm.trans hpres) Bool.false_ne_true
    · intro p F
      simp only [Ledger.live_alloc, Ledger.start, List.mem_singleton]
      constructor
      · intro h
        cases h
      · rintro ⟨hk, hpres, -⟩
        exact absurd ((hempty _ hk).symm.trans hpres) Bool.false_ne_true
    · intro p
      simp [Ledger.start]
  · cases List.mem_singleton.mp hT

/-! ## Taking a directory down -/

/-- The frame in entry 0 of a table, if there is one. -/
def firstEntry (s : Memory) (pt : Frame) : Finset Frame :=
  if (s.ram pt 0).present then {(s.ram pt 0).frame} else ∅

/-- However often the inner loop looks at entry 0, it frees that one page. -/
theorem innerLoop_spec (s : Memory) (pt : Frame) {n : Nat} (hn : 0 < n) :
    ∃ phys, forUpto n (fun _ s => s.freePage pt 0) s = s.setPhys phys ∧
      phys.used = s.phys.used \ firstEntry s pt := by
  suffices hinv : ∃ phys, forUpto n (fun _ s => s.freePage pt 0) s = s.setPhys phys ∧
      phys.used = if n = 0 then s.phys.used else s.phys.used \ firstEntry s pt by
    obtain ⟨phys, hphys, hused⟩ := hinv
    exact ⟨phys, hphys, hused.trans (if_neg (by omega))⟩
  refine forUpto_inv (P := fun i t => ∃ phys, t = s.setPhys phys ∧
    phys.used = if i = 0 then s.phys.used else s.phys.used \ firstEntry s pt) n
    ⟨s.phys, rfl, rfl⟩ ?_
  rintro i _ - ⟨phys, rfl, hused⟩
  rw [if_neg (Nat.succ_ne_zero i)]
  by_cases hpres : (s.ram pt 0).present = true
  · refine ⟨phys.physSetfree (s.ram pt 0).frame.addr 1, ?_, ?_⟩
    · simp only [Memory.freePage, Memory.setPhys_ram, hpres, ↓reduceIte]
      rfl
    · rw [Phys.used_physSetfree_frame, hused, firstEntry, if_pos hpres,
        ← Finset.sdiff_singleton_eq_erase]
      split
      · rfl
      · rw [Finset.sdiff_idem]
  · refine ⟨phys, ?_, ?_⟩
    · simp only [Memory.freePage, Memory.setPhys_ram, hpres]
      rfl
    · rw [hused, firstEntry, if_neg hpres, Finset.sdiff_empty, ite_self]

/-- Past the last entry the walk is over. -/
theorem freeTables_done (s : Memory) : ∀ n, Memory.freeTables L dir n (1024 + 1) s = s
  | 0 => rfl
  | _ + 1 => by rw [Memory.freeTables, if_neg (by decide)]

/-- Without a table the walk does nothing. -/
theorem freeTables_none (n : Nat) {i : Nat}
    (h : ∀ k : Fin 1024, i ≤ k.val → (s.ram dir k).present = false) :
    Memory.freeTables L dir n i s = s := by
  induction n generalizing i with
  | zero => rfl
  | succ n ih =>
      rw [Memory.freeTables]
      by_cases hi : i < 1024
      · have habs := h (Fin.ofNat 1024 i) (by simp [Nat.mod_eq_of_lt hi])
        simp only [hi, ↓reduceIte, habs, Bool.false_eq_true]
        exact ih fun k hk => h k (by omega)
      · rw [if_neg hi]

/-- The walk ends with the first table. -/
theorem freeTables_first (n : Nat) {i : Nat} {k : Fin 1024} (hn : k.val < i + n)
    (hik : i ≤ k.val) (hpres : (s.ram dir k).present = true)
    (habs : ∀ j : Fin 1024, i ≤ j.val → j.val < k.val → (s.ram dir j).present = false) :
    Memory.freeTables L dir n i s =
      (forUpto (1024 - k.val) (fun _ t => t.freePage (s.ram dir k).frame 0) s).memFree
        L.krnlPgdir (s.ram dir k).frame.addr 1 := by
  induction n generalizing i with
  | zero => omega
  | succ n ih =>
      have hi : i < 1024 := by omega
      rw [Memory.freeTables, if_pos hi]
      by_cases hk : k.val = i
      · have hidx : Fin.ofNat 1024 i = k := Fin.ext (by simp [Nat.mod_eq_of_lt hi, hk])
        simp only [hidx, hpres, ↓reduceIte, freeTables_done, hk]
      · have hlt : i < k.val := by omega
        have hfirst := habs (Fin.ofNat 1024 i) (by simp [Nat.mod_eq_of_lt hi])
          (by simpa [Nat.mod_eq_of_lt hi] using hlt)
        simp only [hfirst, Bool.false_eq_true, ↓reduceIte]
        exact ih (by omega) (by omega) fun j hj => habs j (by omega)

/-- The first user table, if there is one. -/
theorem first_table (s : Memory) (dir : Frame) :
    (∀ k, ¬ KernelHalf k → (s.ram dir k).present = false) ∨
      ∃ k, ¬ KernelHalf k ∧ (s.ram dir k).present = true ∧
        ∀ j : Fin 1024, ¬ KernelHalf j → j.val < k.val → (s.ram dir j).present = false := by
  classical
  by_cases h : ∃ n, ∃ hn : n < 1024, ¬ KernelHalf ⟨n, hn⟩ ∧ (s.ram dir ⟨n, hn⟩).present = true
  · obtain ⟨hn, hk, hpres⟩ := Nat.find_spec h
    refine Or.inr ⟨⟨Nat.find h, hn⟩, hk, hpres, ?_⟩
    intro j hj hlt
    have := Nat.find_min h hlt
    by_contra habs
    exact this ⟨j.isLt, hj, by simpa using habs⟩
  · refine Or.inl ?_
    intro k hk
    by_contra hpres
    exact h ⟨k.val, k.isLt, hk, by simpa using hpres⟩

/-- The page in entry 0 of a table. -/
def firstPage (k : Fin 1024) : Frame := ⟨k.val * 1024, by omega⟩

theorem firstPage_pdi (k : Fin 1024) : (firstPage k).pdi = k := by
  ext
  simp [firstPage, Frame.pdi]

theorem firstPage_pti (k : Fin 1024) : (firstPage k).pti = 0 := by
  ext
  simp [firstPage, Frame.pti]

namespace UserInv

variable (h : UserInv s₀ L.krnlPgdir dir s pages A)

include h

/-- A page in entry 0 has an owner. -/
theorem firstEntry_owned {k : Fin 1024} (hk : ¬ KernelHalf k) (hpres : (s.ram dir k).present = true)
    (hentry : (s.ram (s.ram dir k).frame 0).present = true) :
    (Owner.page (firstPage k), (s.ram (s.ram dir k).frame 0).frame) ∈ A.live := by
  have hpte : s.pte dir (firstPage k) = s.ram (s.ram dir k).frame 0 := by
    rw [Memory.pte, firstPage_pdi, firstPage_pti]
  rw [h.page, firstPage_pdi, hpte]
  exact ⟨hk, hpres, hentry, rfl⟩

/-- A directory without tables: its frame is freed. -/
theorem used_memFreePgdir_none (hnone : ∀ k, ¬ KernelHalf k → (s.ram dir k).present = false) :
    (s.memFreePgdir L dir).phys.used = s.phys.used.erase dir := by
  have hid := h.ident _ h.owned fun p hp => nomatch hp
  rw [Memory.memFreePgdir, freeTables_none _ fun k hk => hnone k (Nat.not_lt.mpr hk)]
  exact (hid.memFree h.kernel).1

/-- A directory with tables: its frame, the first table and the page in entry 0
of that table are freed. -/
theorem used_memFreePgdir_first {k : Fin 1024} (hk : ¬ KernelHalf k)
    (hpres : (s.ram dir k).present = true)
    (hfirst : ∀ j : Fin 1024, ¬ KernelHalf j → j.val < k.val → (s.ram dir j).present = false) :
    (s.memFreePgdir L dir).phys.used =
      ((s.phys.used \ firstEntry s (s.ram dir k).frame).erase (s.ram dir k).frame).erase dir := by
  have hk256 : 256 ≤ k.val := Nat.not_lt.mp hk
  have hTown : (Owner.table k, (s.ram dir k).frame) ∈ A.live := (h.table _ _).mpr ⟨hk, hpres, rfl⟩
  obtain ⟨phys, hloop, hphys⟩ :=
    innerLoop_spec s (s.ram dir k).frame (n := 1024 - k.val) (by omega)
  rw [Memory.memFreePgdir, freeTables_first _ (by omega) hk256 hpres
    (fun j hj => hfirst j (Nat.not_lt.mpr hj)), hloop]
  -- the page freed first
  have hR : s.Avoids L.krnlPgdir (firstEntry s (s.ram dir k).frame) := by
    rw [firstEntry]
    split
    · exact h.avoids_owned (h.firstEntry_owned hk hpres ‹_›)
    · exact h.kernel.avoids (Finset.disjoint_empty_right _)
  have h₁ : (s.setPhys phys).KernelTables L.krnlPgdir := h.kernel.setPhys hR hphys.ge
  -- then the table
  have hidT := h.ident _ hTown fun p hp => nomatch hp
  have hidT₁ : IdentPage (s.setPhys phys) L.krnlPgdir (s.ram dir k).frame :=
    ⟨hidT.kernel, hidT.present, hidT.frame⟩
  obtain ⟨hused₂, hu⟩ := hidT₁.memFree h₁
  have hT : (s.setPhys phys).Avoids L.krnlPgdir (runFrames (s.ram dir k).frame.addr 1) := by
    rw [runFrames_one, frameOf_addr]
    exact (h.avoids_owned hTown).setPhys _
  have h₂ := hu.kernelTables (h₁.setfree hT) (h₁.setfree hT |>.avoids
    (Finset.disjoint_empty_right _))
  -- then the directory, whose identity page is another one
  have hid := h.ident _ h.owned fun p hp => nomatch hp
  have hne : dir ≠ (s.ram dir k).frame := fun heq =>
    absurd (owner_unique h.owned hTown heq) fun h => nomatch h
  have hid₂ : IdentPage ((s.setPhys phys).memFree L.krnlPgdir (s.ram dir k).frame.addr 1)
      L.krnlPgdir dir := by
    have hpte := hu.pte dir hid.kernel
    rw [unmapPages_outside fun i hi => by
      obtain rfl : i = 0 := by omega
      rwa [Nat.zero_mul, Nat.add_zero, frameOf_addr]] at hpte
    exact ⟨hid.kernel, hpte ▸ hid.present, hpte ▸ hid.frame⟩
  rw [(hid₂.memFree h₂).1, hused₂, Memory.setPhys_phys, hphys]

/-- The used frames are those used before, and the owned ones. -/
theorem mem_used_iff {f : Frame} :
    f ∈ s.phys.used ↔ f ∈ s₀.phys.used ∨ ∃ o, (o, f) ∈ A.live := by
  rw [h.used, Ledger.mem_used, h.base]
  refine or_congr_right ⟨fun ⟨x, hx, hf⟩ => ?_, fun ⟨o, ho⟩ => ?_⟩
  · obtain rfl := Finset.mem_singleton.mp hf
    exact ⟨x.1, hx⟩
  · exact ⟨_, ho, Finset.mem_singleton_self _⟩

/-- A page that the walk does not free stays used. -/
theorem eq_firstPage {k : Fin 1024} (hk : ¬ KernelHalf k) (hpres : (s.ram dir k).present = true)
    (hback : ((s.phys.used \ firstEntry s (s.ram dir k).frame).erase
      (s.ram dir k).frame).erase dir = s₀.phys.used) {p : Frame} (hp : p ∈ pages) :
    p = firstPage k := by
  obtain ⟨F, hF⟩ := (h.pages p).mp hp
  have hTown : (Owner.table k, (s.ram dir k).frame) ∈ A.live := (h.table _ _).mpr ⟨hk, hpres, rfl⟩
  have hgone := h.notMem_base hF
  rw [← hback] at hgone
  by_contra hne
  refine hgone (Finset.mem_erase.mpr ⟨fun heq => ?_, Finset.mem_erase.mpr ⟨fun heq => ?_,
    Finset.mem_sdiff.mpr ⟨h.mem_used hF, fun hmem => ?_⟩⟩⟩)
  · exact absurd (owner_unique hF h.owned heq) fun h => nomatch h
  · exact absurd (owner_unique hF hTown heq) fun h => nomatch h
  · rw [firstEntry] at hmem
    split at hmem
    · have howned := h.firstEntry_owned hk hpres ‹_›
      have := owner_unique hF howned (Finset.mem_singleton.mp hmem)
      simp only [Prod.mk.injEq, Owner.page.injEq] at this
      exact hne this.1
    · exact absurd hmem (Finset.notMem_empty _)

end UserInv

/-- A process that had no page, or one page in entry 0 of its table. -/
def OneFirstPage (pages : List Frame) : Prop :=
  ∀ p ∈ pages, p.pti = 0 ∧ ∀ q ∈ pages, q = p

/-- With one page, in entry 0 of its table, the walk frees all that is owned. -/
theorem UserInv.givesBack_of_onePage (h : UserInv s₀ L.krnlPgdir dir s pages A)
    (htp : TablesHavePages A pages) (hone : OneFirstPage pages) {k : Fin 1024}
    (hk : ¬ KernelHalf k) (hpres : (s.ram dir k).present = true) :
    ((s.phys.used \ firstEntry s (s.ram dir k).frame).erase (s.ram dir k).frame).erase dir =
      s₀.phys.used := by
  have hTown : (Owner.table k, (s.ram dir k).frame) ∈ A.live := (h.table _ _).mpr ⟨hk, hpres, rfl⟩
  obtain ⟨p, hp, hpk⟩ := htp k _ hTown
  obtain ⟨F, hF⟩ := (h.pages p).mp hp
  obtain ⟨-, -, hentry, hframe⟩ := (h.page p F).mp hF
  rw [Memory.pte, hpk, (hone p hp).1] at hentry hframe
  have hfirst : firstEntry s (s.ram dir k).frame = {F} := by
    rw [firstEntry, if_pos hentry, hframe]
  -- the owners are the directory, its only table and its only page
  have howner : ∀ o f, (o, f) ∈ A.live → f = dir ∨ f = (s.ram dir k).frame ∨ f = F := by
    intro o f hof
    cases o with
    | dir => exact Or.inl ((h.self f).mp hof)
    | table j =>
        obtain ⟨q, hq, hqj⟩ := htp j f hof
        obtain rfl : j = k := by rw [← hqj, (hone p hp).2 q hq, hpk]
        exact Or.inr (Or.inl ((h.table j f).mp hof).2.2.symm)
    | page q =>
        obtain rfl := (hone p hp).2 q ((h.pages q).mpr ⟨f, hof⟩)
        rw [← ((h.page q f).mp hof).2.2.2, ← ((h.page q F).mp hF).2.2.2]
        exact Or.inr (Or.inr rfl)
  ext f
  rw [hfirst, Finset.mem_erase, Finset.mem_erase, Finset.mem_sdiff, Finset.mem_singleton,
    h.mem_used_iff]
  constructor
  · rintro ⟨hdir, htab, hf | ⟨o, ho⟩, hpage⟩
    · exact hf
    · obtain hf | hf | hf := howner o f ho
      · exact absurd hf hdir
      · exact absurd hf htab
      · exact absurd hf hpage
  · exact fun hf => ⟨fun heq => h.notMem_base h.owned (heq ▸ hf),
      fun heq => h.notMem_base hTown (heq ▸ hf), Or.inl hf, fun heq => h.notMem_base hF (heq ▸ hf)⟩

/-- What a process owned is given back if and only if it had at most one page,
in entry 0 of its table. -/
theorem UserInv.givesBack_iff (h : UserInv s₀ L.krnlPgdir dir s pages A)
    (htp : TablesHavePages A pages) :
    (s.memFreePgdir L dir).phys.used = s₀.phys.used ↔ OneFirstPage pages := by
  obtain hnone | ⟨k, hk, hpres, hfirst⟩ := first_table s dir
  · -- no table, so no page
    have hempty : ∀ o f, (o, f) ∈ A.live → f = dir := by
      intro o f hof
      cases o with
      | dir => exact (h.self f).mp hof
      | table k =>
          obtain ⟨hk, hpres, -⟩ := (h.table k f).mp hof
          exact absurd (hnone k hk) (by simp [hpres])
      | page p =>
          obtain ⟨hk, hpres, -⟩ := (h.page p f).mp hof
          exact absurd (hnone _ hk) (by simp [hpres])
    refine iff_of_true ?_ fun p hp => ?_
    · rw [h.used_memFreePgdir_none hnone]
      ext f
      rw [Finset.mem_erase, h.mem_used_iff]
      constructor
      · rintro ⟨hne, hf | ⟨o, ho⟩⟩
        · exact hf
        · exact absurd (hempty o f ho) hne
      · exact fun hf => ⟨fun heq => h.notMem_base h.owned (heq ▸ hf), Or.inl hf⟩
    · obtain ⟨F, hF⟩ := (h.pages p).mp hp
      obtain ⟨hp', hpres, -⟩ := (h.page p F).mp hF
      exact absurd (hnone _ hp') (by simp [hpres])
  · rw [h.used_memFreePgdir_first hk hpres hfirst]
    constructor
    · intro hback p hp
      have hall := fun {q} (hq : q ∈ pages) => h.eq_firstPage hk hpres hback hq
      refine ⟨?_, fun q hq => (hall hq).trans (hall hp).symm⟩
      rw [hall hp, firstPage_pti]
    · exact fun hone => h.givesBack_of_onePage htp hone hk hpres

/-- A directory is allocated, any user pages are installed in it with frames and
tables of their own, and it is taken down.  The used frames are then those of
before if and only if there was at most one page, in entry 0 of its table. -/
theorem memFreePgdir_iff (h : KernelReady s₀ L.krnlPgdir)
    (hlayout : ∀ k : Fin 1024, KernelHalf k → (s₀.ram L.krnlPgdir k).frame = L.table k.val)
    (hret : (s₀.memAllocPgdir L).1 ≠ 0)
    (hmaps : Memory.InstallsAll (frameOf (s₀.memAllocPgdir L).1) (s₀.memAllocPgdir L).2 pages s) :
    (s.memFreePgdir L (frameOf (s₀.memAllocPgdir L).1)).phys.used = s₀.phys.used ↔
      OneFirstPage pages := by
  obtain ⟨A, hA, htp⟩ := memAllocPgdir_userInv h.kernelTables hlayout hret
  obtain ⟨A', hA', htp'⟩ := hmaps.userInv hA htp
  exact hA'.givesBack_iff htp'

section Booted

/-- The directory and the tables of the small machine. -/
def bootedLayout : Layout := ⟨1, 2⟩

theorem booted_layout {k : Fin 1024} (hk : KernelHalf k) :
    (booted.ram bootedLayout.krnlPgdir k).frame = bootedLayout.table k.val := by
  rw [show bootedLayout.krnlPgdir = 1 from rfl, booted_row hk]
  ext
  simp only [Layout.table, bootedLayout, Frame.addr, frameOf, PAGE_SIZE, Fin.coe_ofNat_eq_mod]
  omega

/-- A new directory of the small machine, in frame 264. -/
def newDir : Memory := (booted.memAllocPgdir bootedLayout).2

theorem newDir_addr : (booted.memAllocPgdir bootedLayout).1 = 264 * 4096 := by decide +kernel

/-- A page in entry 0 of directory entry 256, in frame 266, with its table in
frame 265. -/
def onePage : Memory :=
  (newDir.installTable 264 256 true true 265).installPage 264 (firstPage 256) true true 266

/-- The next page as well, in frame 267. -/
def twoPages : Memory := onePage.installPage 264 262145 true true 267

theorem onePage_installs : Memory.InstallsAll 264 newDir [firstPage 256] onePage := by
  have hunused : ∀ f : Frame, newDir.phys.isUsed f = false → f ∉ newDir.phys.used := by
    intro f hf
    rw [Phys.mem_used, hf]
    exact Bool.false_ne_true
  exact .cons .nil (.newTable true true (by decide) (by decide +kernel) (by decide)
    (by decide +kernel) (hunused 265 (by decide +kernel)) (hunused 266 (by decide +kernel))
    (by decide))

theorem twoPages_installs :
    Memory.InstallsAll 264 newDir [262145, firstPage 256] twoPages := by
  refine .cons onePage_installs (.inTable true true (by decide) (by decide +kernel)
    (by decide +kernel) ?_)
  rw [Phys.mem_used]
  decide +kernel

/-- One page is given back with its table and its directory. -/
theorem memFreePgdir_onePage :
    (onePage.memFreePgdir bootedLayout 264).phys.used = booted.phys.used := by
  have hret : (booted.memAllocPgdir bootedLayout).1 ≠ 0 := by
    rw [newDir_addr]
    decide
  have hdir : frameOf (booted.memAllocPgdir bootedLayout).1 = 264 := by
    rw [newDir_addr]
    decide
  have hmaps : Memory.InstallsAll (frameOf (booted.memAllocPgdir bootedLayout).1)
      (booted.memAllocPgdir bootedLayout).2 [firstPage 256] onePage := hdir ▸ onePage_installs
  have hiff := memFreePgdir_iff booted_ready (fun k hk => booted_layout hk) hret hmaps
  rw [hdir] at hiff
  exact hiff.mpr (by simp [OneFirstPage, firstPage_pti])

/-- Two pages of one table are not both given back. -/
theorem memFreePgdir_twoPages_wrong :
    KernelReady booted bootedLayout.krnlPgdir ∧
      (booted.memAllocPgdir bootedLayout).1 = 264 * 4096 ∧
      Memory.InstallsAll 264 (booted.memAllocPgdir bootedLayout).2 [262145, firstPage 256]
        twoPages ∧
      (twoPages.memFreePgdir bootedLayout 264).phys.used ≠ booted.phys.used := by
  refine ⟨booted_ready, newDir_addr, twoPages_installs, ?_⟩
  intro hback
  obtain ⟨A, hA, htp⟩ := memAllocPgdir_userInv (L := bootedLayout) booted_ready.kernelTables
    (fun k hk => booted_layout hk) (by rw [newDir_addr]; decide)
  rw [newDir_addr, show frameOf (264 * 4096) = 264 by decide] at hA
  obtain ⟨A', hA', htp'⟩ := twoPages_installs.userInv hA htp
  have hone := (hA'.givesBack_iff htp').mp hback
  exact absurd (hone 262145 (by simp)).1 (by decide)

end Booted

end StardustOS.Mem
