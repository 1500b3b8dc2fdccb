import StardustOS.Mem.ReservedMap
import StardustOS.Mem.UserHalf

/-!
# What boot protects

`mem_init` maps to itself what lies below the end of the kernel and of the
modules, and marks it.  The end of the modules it takes from a chain: the record
behind a module is read at the byte after the end of that module, and not in the
array of the boot loader.

So what is mapped has to do with the modules only through what lies behind
them.  With a chain that ends too low a module is left out.  With one that ends
above 1 GiB the mapping runs on past the kernel half, where `virt_map` takes
`krnl_pgdir` for the missing table and puts page `2 ^ 18 + k` in the place of
directory entry `k` (`Overrun`).

`memInit_protects_iff` says for which layouts everything is protected.
-/

namespace StardustOS.Mem

open Lib
open Dev (record)

/-! ## Running past the kernel half -/

/-- The last page below `m` with the table index `k`. -/
def lastOn (m k : Nat) : Frame := Fin.ofNat (2 ^ 20) ((m - 1 - k) / 1024 * 1024 + k)

theorem lastOn_val {m k : Nat} (hk : k < m) (hm : m ≤ 2 ^ 20) :
    (lastOn m k).val = (m - 1 - k) / 1024 * 1024 + k := by
  rw [lastOn, Fin.val_ofNat]
  exact Nat.mod_eq_of_lt (by omega)

theorem lastOn_self {m : Nat} (hm : m < 2 ^ 20) : (lastOn (m + 1) (m % 1024)).val = m := by
  rw [lastOn_val (by omega) hm]
  omega

theorem lastOn_succ {m k : Nat} (hk : k < m) (hm : m < 2 ^ 20) (hne : k % 1024 ≠ m % 1024) :
    lastOn (m + 1) k = lastOn m k := by
  ext
  rw [lastOn_val (by omega) hm, lastOn_val hk (by omega)]
  omega

namespace Memory

variable {s t : Memory} {krnl : Frame} {m : Nat}

/-- `t` is `s` after the pages from the kernel half on up to `m` are mapped in
`krnl`, which has no table for them. -/
structure Overrun (s : Memory) (krnl : Frame) (m : Nat) (t : Memory) : Prop where
  phys : t.phys = s.phys
  low : ∀ k, KernelHalf k → t.ram krnl k =
    if k.val = 0 ∨ m ≤ 2 ^ 18 + k.val then s.ram krnl k
    else ⟨true, true, false, lastOn m k.val⟩
  high : ∀ k, ¬ KernelHalf k → t.ram krnl k =
    if m ≤ k.val * 1024 then s.ram krnl k
    else if m ≤ k.val * 1024 + k.val then ⟨true, true, false, krnl⟩
    else ⟨true, true, false, lastOn m k.val⟩
  other : ∀ F : Frame, F ≠ 0 → F ≠ krnl → (F.val < 2 ^ 18 ∨ F.val % 1024 < 256) →
    t.ram F = s.ram F

/-- There is no frame for a table, the directory has none for the pages, and is
not in frame 0. -/
structure NoTables (s : Memory) (krnl : Frame) : Prop where
  full : s.freeLow = 0
  absent : ∀ k, ¬ KernelHalf k → (s.ram krnl k).present = false
  pos : krnl ≠ 0

theorem Overrun.start (s : Memory) (krnl : Frame) : Overrun s krnl (2 ^ 18) s where
  phys := rfl
  low := fun k hk => by rw [if_pos (Or.inr (Nat.le_add_right _ _))]
  high := fun k hk => by
    rw [KernelHalf] at hk
    rw [if_pos (by omega)]
  other := fun F _ _ _ => rfl

/-- The write of one word of the directory, at the index of the page. -/
theorem Overrun.dirWord (h : Overrun s krnl m t) (hlo : 2 ^ 18 ≤ m) (hm : m < 2 ^ 20)
    {c : Fin 1024} (hc : c.val = m % 1024) (hpos : c.val ≠ 0) (hle : c.val ≤ m / 1024) :
    Overrun s krnl (m + 1) (t.setEntry krnl c ⟨true, true, false, frameOf (m * PAGE_SIZE)⟩) := by
  have hval := lastOn_self hm
  have hframe : lastOn (m + 1) c.val = frameOf (m * PAGE_SIZE) := by
    rw [hc]
    ext
    rw [hval, frameOf_mul hm]
  refine ⟨h.phys, fun k hk => ?_, fun k hk => ?_, fun F h0 hF hplace => ?_⟩
  · rw [KernelHalf] at hk
    by_cases hkc : k = c
    · subst hkc
      rw [setEntry_ram_self, if_neg (by omega), hframe]
    · have hne : k.val ≠ c.val := fun heq => hkc (Fin.ext heq)
      rw [setEntry_ram_of_ne _ _ (Or.inr hkc), h.low k hk, lastOn_succ (by omega) hm (by omega)]
      refine if_congr ?_ rfl rfl
      omega
  · rw [KernelHalf] at hk
    by_cases hkc : k = c
    · subst hkc
      rw [setEntry_ram_self, if_neg (by omega), if_neg (by omega), hframe]
    · have hne : k.val ≠ c.val := fun heq => hkc (Fin.ext heq)
      rw [setEntry_ram_of_ne _ _ (Or.inr hkc), h.high k hk]
      rw [lastOn_succ (k := k.val) (by omega) hm (by omega)]
      refine if_congr (by omega) rfl (if_congr (by omega) rfl rfl)
  · rw [setEntry_row_of_ne _ _ _ hF, h.other F h0 hF hplace]

/-- The write of a word elsewhere. -/
theorem Overrun.otherWord (h : Overrun s krnl m t) (hlo : 2 ^ 18 ≤ m) (hm : m < 2 ^ 20)
    (hover : m / 1024 < m % 1024) {F : Frame} (hF : F.val = m / 1024 * 1024 + m / 1024)
    (hkrnl : F ≠ krnl) (c : Fin 1024) (e : Entry) :
    Overrun s krnl (m + 1) (t.setEntry F c e) := by
  refine ⟨h.phys, fun k hk => ?_, fun k hk => ?_, fun G h0 hG hplace => ?_⟩
  · rw [KernelHalf] at hk
    rw [setEntry_ram_of_ne _ _ (Or.inl hkrnl.symm), h.low k hk,
      lastOn_succ (by omega) hm (by omega)]
    refine if_congr ?_ rfl rfl
    omega
  · rw [KernelHalf] at hk
    rw [setEntry_ram_of_ne _ _ (Or.inl hkrnl.symm), h.high k hk]
    by_cases hahead : m ≤ k.val * 1024
    · rw [if_pos hahead, if_pos (by omega)]
    · rw [lastOn_succ (by omega) hm (by omega)]
      refine if_congr (by omega) rfl (if_congr (by omega) rfl rfl)
  · have hdiv : (m / 1024 * 1024 + m / 1024) / 1024 = m / 1024 := by omega
    have hne : G ≠ F := by
      rintro rfl
      rw [hF] at hplace
      omega
    rw [setEntry_row_of_ne _ _ _ hne, h.other G h0 hG hplace]

/-- A word of frame 0. -/
theorem Overrun.zeroWord (h : Overrun s krnl m t) (hkrnl : krnl ≠ 0) (c : Fin 1024) (e : Entry) :
    Overrun s krnl m (t.setEntry 0 c e) where
  phys := h.phys
  low := fun k hk => by rw [setEntry_ram_of_ne _ _ (Or.inl hkrnl), h.low k hk]
  high := fun k hk => by rw [setEntry_ram_of_ne _ _ (Or.inl hkrnl), h.high k hk]
  other := fun F h0 hF hplace => by rw [setEntry_row_of_ne _ _ _ h0, h.other F h0 hF hplace]

/-- The first page of a directory entry gets the directory for its table. -/
theorem Overrun.newEntry (h : Overrun s krnl m t) (hlo : 2 ^ 18 ≤ m) (hm : m < 2 ^ 20)
    {j : Fin 1024} (hj : m = j.val * 1024) :
    Overrun s krnl (m + 1) (t.setEntry krnl j ⟨true, true, false, krnl⟩) := by
  refine ⟨h.phys, fun k hk => ?_, fun k hk => ?_, fun F h0 hF hplace => ?_⟩
  · rw [KernelHalf] at hk
    have hkj : k ≠ j := by
      rintro rfl
      omega
    rw [setEntry_ram_of_ne _ _ (Or.inr hkj), h.low k hk]
    by_cases hzero : k.val = 0
    · rw [if_pos (Or.inl hzero), if_pos (Or.inl hzero)]
    · rw [lastOn_succ (by omega) hm (by omega)]
      refine if_congr ?_ rfl rfl
      omega
  · rw [KernelHalf] at hk
    by_cases hkj : k = j
    · subst hkj
      rw [setEntry_ram_self, if_neg (by omega), if_pos (by omega)]
    · have hne : k.val ≠ j.val := fun heq => hkj (Fin.ext heq)
      rw [setEntry_ram_of_ne _ _ (Or.inr hkj), h.high k hk,
        lastOn_succ (by omega) hm (by omega)]
      refine if_congr (by omega) rfl (if_congr (by omega) rfl rfl)
  · rw [setEntry_row_of_ne _ _ _ hF, h.other F h0 hF hplace]

/-- One more page. -/
theorem Overrun.succ (hs : NoTables s krnl) (hlow : krnl.val < 2 ^ 18) (h : Overrun s krnl m t)
    (hlo : 2 ^ 18 ≤ m) (hm : m < 2 ^ 20) :
    Overrun s krnl (m + 1) ((t.giveTable krnl (m * PAGE_SIZE) true false).setEntry
      (t.entryFrame krnl (m * PAGE_SIZE) true) (ptIndex (m * PAGE_SIZE))
      ⟨true, true, false, frameOf (m * PAGE_SIZE)⟩) := by
  have hval := frameOf_mul hm
  have hpdi : (pdIndex (m * PAGE_SIZE)).val = m / 1024 := by
    simp only [pdIndex_eq, Frame.pdi, hval]
  have hpti : (ptIndex (m * PAGE_SIZE)).val = m % 1024 := by
    simp only [ptIndex_eq, Frame.pti, hval]
  have hK : ¬ KernelHalf (pdIndex (m * PAGE_SIZE)) := by
    rw [KernelHalf]
    omega
  have hentry := h.high _ hK
  rw [hpdi] at hentry
  by_cases hfirst : m % 1024 = 0
  · -- the entry is absent, and the search for a table fails
    rw [if_pos (by omega)] at hentry
    have habs : (t.ram krnl (pdIndex (m * PAGE_SIZE))).present = false := by
      rw [hentry]
      exact hs.absent _ hK
    have halloc : t.memAllocident krnl 1 true false = (0, t) := by
      refine t.memAllocidentWith_of_freeLow_eq_zero ?_
      rw [freeLow, h.phys]
      exact Nat.le_of_eq hs.full
    have hzero : frameOf 0 = 0 := rfl
    rw [giveTable, entryFrame, if_pos habs, if_pos habs, halloc, frameOf_pdeAddr]
    simp only [hzero]
    have hj : m = (pdIndex (m * PAGE_SIZE)).val * 1024 := by omega
    exact (h.newEntry hlo hm hj).zeroWord hs.pos _ _
  · rw [if_neg (by omega)] at hentry
    have hpres : (t.ram krnl (pdIndex (m * PAGE_SIZE))).present ≠ false := by
      rw [hentry]
      split
      · exact fun h => by cases h
      · exact fun h => by cases h
    rw [giveTable, entryFrame, if_neg hpres, if_neg hpres, hentry]
    split
    · exact h.dirWord hlo hm hpti (by omega) (by omega)
    · -- the entry was written over with page `m / 1024` of its own
      rename_i hover
      have hF : (lastOn m (m / 1024)).val = m / 1024 * 1024 + m / 1024 := by
        rw [lastOn_val (by omega) (by omega)]
        omega
      refine h.otherWord hlo hm (by omega) hF ?_ _ _
      rintro rfl
      omega

/-- The pages from the kernel half on, up to `n`. -/
theorem virtMap_overrun (hs : NoTables (s.virtMap krnl 0 0 (2 ^ 18) true false) krnl)
    (hlow : krnl.val < 2 ^ 18) {n : Nat} (hlo : 2 ^ 18 ≤ n) (hn : n ≤ 2 ^ 20) :
    Overrun (s.virtMap krnl 0 0 (2 ^ 18) true false) krnl n
      (s.virtMap krnl 0 0 n true false) := by
  induction n, hlo using Nat.le_induction with
  | base => exact Overrun.start _ _
  | succ m hlo ih =>
      have hnext := (ih (by omega)).succ hs hlow hlo (by omega)
      rw [virtMap_succ]
      simpa only [Nat.zero_add] using hnext

/-! ## What is wanted -/

/-- The page leads to the frame of its own number. -/
def LeadsHome (t : Memory) (krnl p : Frame) : Prop :=
  t.pageIspresent krnl p.addr = true ∧ t.virt2phys krnl p.addr = p.addr

theorem leadsHome_iff {p : Frame} : t.LeadsHome krnl p ↔
    (t.ram krnl p.pdi).present = true ∧ (t.pte krnl p).present = true ∧
      (t.pte krnl p).frame = p := by
  have hinj : (t.pte krnl p).frame.addr = p.addr ↔ (t.pte krnl p).frame = p := by
    refine ⟨fun h => ?_, fun h => by rw [h]⟩
    have := congrArg frameOf h
    rwa [frameOf_addr, frameOf_addr] at this
  rw [LeadsHome, pageIspresent_eq, virt2phys_eq _ _ (addr_aligned p), frameOf_addr, hinj,
    Bool.and_eq_true, and_assoc]

/-- The call frees none of these frames. -/
def Spares (s : Memory) (Needed : Frame → Prop) : MemCall → Prop
  | .memFree dir addr count => s.virtIspresent dir addr count = true →
      ∀ f ∈ runFrames (s.virt2phys dir addr) count, ¬ Needed f
  | _ => True

/-- The pages are there and lead to the frames of their own numbers, these are
marked, and no call hands one out as long as none is freed. -/
structure Protects (t : Memory) (krnl : Frame) (Needed : Frame → Prop) : Prop where
  home : ∀ p, Needed p → t.LeadsHome krnl p
  used : ∀ p, Needed p → p ∈ t.phys.used
  kept : ∀ calls, Meets step (fun s => s.Spares Needed) t calls →
    ∃ t', run step t calls = some t' ∧ ∀ c p, Needed p → ¬ t'.HandsOut c p

/-- Marked frames stay marked until they are freed. -/
theorem protects_of_used {Needed : Frame → Prop} (hhome : ∀ p, Needed p → t.LeadsHome krnl p)
    (hused : ∀ p, Needed p → p ∈ t.phys.used) : t.Protects krnl Needed := by
  have hstep : ∀ (s : Memory) c, (∀ p, Needed p → p ∈ s.phys.used) → s.Spares Needed c →
      ∃ s', s.step c = some s' ∧ ∀ p, Needed p → p ∈ s'.phys.used := by
    intro s c hs hc
    refine ⟨s.call c, rfl, fun p hp => ?_⟩
    by_contra hnot
    obtain ⟨dir, addr, count, rfl, hpres, hmem⟩ := used_call (hs p hp) c hnot
    exact hc hpres p hmem hp
  refine ⟨hhome, hused, fun calls hcalls => ?_⟩
  obtain ⟨t', hrun, ht'⟩ := run_defined hstep calls hused hcalls
  exact ⟨t', hrun, fun c p hp hout => hout.1 (ht' p hp)⟩

end Memory

/-- `mem_init` returns, and these pages are protected then. -/
def InitProtects (s : Memory) (L : Layout) (info : BootInfo) (Needed : Frame → Prop) : Prop :=
  ∃ t, s.memInit L info = some t ∧ t.Protects L.krnlPgdir Needed

/-- A page is protected when `n` pages are mapped: it is one of them, and if the
page in the place of its directory entry is one of them too, then the frame of
that page holds the right word by chance. -/
def Covered (s : Memory) (n : Nat) (p : Frame) : Prop :=
  p.val < n ∧ (p.pdi.val = 0 ∨ n ≤ 2 ^ 18 + p.pdi.val ∨
    ((s.ram (lastOn n p.pdi.val) p.pti).present = true ∧
      (s.ram (lastOn n p.pdi.val) p.pti).frame = p))

/-! ## The pages after `mem_init` -/

section Init

variable {L : Layout} {info : BootInfo} {s t : Memory} {p : Frame}

theorem identPages_le (info : BootInfo) : info.identPages ≤ 2 ^ 20 := by
  have hlt : pageAlign info.usedMem < 2 ^ 32 := Nat.mod_lt _ (by decide)
  rw [BootInfo.identPages, PAGE_SIZE]
  omega

/-- Inside the kernel half. -/
theorem leadsHome_image (h : Static L s) (himage : info.identPages ≤ 2 ^ 18)
    (hinit : s.memInit L info = some t) (hp : KernelHalf p.pdi) :
    t.LeadsHome L.krnlPgdir p ↔ p.val < info.identPages := by
  obtain ⟨phys, -, -, hram, -⟩ := memInit_eq hinit
  obtain ⟨hmapped, -⟩ := h.imageMapped info phys
    ((s.loaded L info phys).phys.physSetused 0 info.identPages) himage
  have hrow : t.ram L.krnlPgdir p.pdi = ⟨true, true, false, L.table p.pdi.val⟩ := by
    rw [hram]
    exact (hmapped.row _).trans (if_pos hp)
  have hpte : t.pte L.krnlPgdir p =
      if p.val < info.identPages then ⟨true, true, false, p⟩ else Entry.zero := by
    rw [Memory.pte, hram]
    exact hmapped.pte p hp
  rw [Memory.leadsHome_iff, hrow, hpte]
  split
  · simp [*]
  · simp [*, Entry.zero]

/-- Past the kernel half. -/
theorem leadsHome_overrun (h : Static L s) (hpos : 0 < L.krnlPgdir.val)
    (hdir : L.krnlPgdir.val < 2 ^ 18) (htables : ∀ F ∈ L.tables, 0 < F.val ∧ F.val < 2 ^ 18)
    (hover : 2 ^ 18 < info.identPages) (hinit : s.memInit L info = some t)
    (hp : KernelHalf p.pdi) :
    t.LeadsHome L.krnlPgdir p ↔ Covered s info.identPages p := by
  obtain ⟨phys, -, -, hram, -⟩ := memInit_eq hinit
  have hn := identPages_le info
  set n := info.identPages with hnpages
  obtain ⟨hmapped, hphys⟩ := h.imageMapped info phys
    ((s.loaded L info phys).phys.physSetused 0 n) (Nat.le_refl _)
  set s₁ := ((s.loaded L info phys).setPhys ((s.loaded L info phys).phys.physSetused 0 n)).virtMap
    L.krnlPgdir 0 0 (2 ^ 18) true false with hs₁
  have hne : L.krnlPgdir ≠ 0 := fun h0 => by simp [h0] at hpos
  -- every frame that could become a table is marked
  have hfull : s₁.freeLow = 0 := by
    rw [Memory.freeLow, Finset.card_eq_zero, Finset.sdiff_eq_empty_iff_subset]
    intro f hf
    rw [hphys, Phys.used_physSetused]
    exact Finset.mem_union_right _ (mem_runFrames_image ((Finset.mem_filter.mp hf).2.trans hover))
  have hno : Memory.NoTables s₁ L.krnlPgdir :=
    ⟨hfull, fun k hk => by rw [hmapped.row, if_neg hk]; rfl, hne⟩
  have hov := Memory.virtMap_overrun hno hdir (Nat.le_of_lt hover) hn
  rw [← hs₁] at hov
  rw [Memory.memIdentmap] at hram
  have hlow : p.val < 2 ^ 18 := by
    simp only [KernelHalf, Frame.pdi] at hp
    omega
  have hrow : t.ram L.krnlPgdir p.pdi =
      if p.pdi.val = 0 ∨ n ≤ 2 ^ 18 + p.pdi.val then s₁.ram L.krnlPgdir p.pdi
      else ⟨true, true, false, lastOn n p.pdi.val⟩ := by
    rw [hram]
    exact hov.low _ hp
  rw [Memory.leadsHome_iff, Covered, and_iff_right (hlow.trans hover), ← or_assoc]
  by_cases hkept : p.pdi.val = 0 ∨ n ≤ 2 ^ 18 + p.pdi.val
  · -- the entry leads to the kernel table
    refine iff_of_true ?_ (Or.inl hkept)
    rw [if_pos hkept, hmapped.row, if_pos hp] at hrow
    have hmem := htables _ (L.table_mem hp)
    have htable : t.ram (L.table p.pdi.val) = s₁.ram (L.table p.pdi.val) := by
      rw [hram]
      exact hov.other _ (fun h0 => by simp [h0] at hmem) (h.table_ne hp) (Or.inl hmem.2)
    have hpte := hmapped.pte p hp
    rw [if_pos hlow, Memory.pte, hmapped.row, if_pos hp] at hpte
    rw [Memory.pte, hrow, htable, hpte]
    exact ⟨rfl, rfl, rfl⟩
  · -- the entry leads to a page behind 1 GiB
    rw [if_neg hkept] at hrow
    rw [or_iff_right hkept, hrow, and_iff_right rfl, Memory.pte, hrow]
    have hk : 1 ≤ p.pdi.val ∧ p.pdi.val < 256 := by
      rw [KernelHalf] at hp
      omega
    have hval := lastOn_val (show p.pdi.val < n by omega) hn
    have hplace : 2 ^ 18 ≤ (lastOn n p.pdi.val).val ∧ (lastOn n p.pdi.val).val % 1024 < 256 := by
      omega
    have hnot0 : lastOn n p.pdi.val ≠ 0 := fun h0 => by simp [h0] at hplace
    have hnotdir : lastOn n p.pdi.val ≠ L.krnlPgdir := fun heq => by
      rw [heq] at hplace
      omega
    have hnottab : lastOn n p.pdi.val ∉ L.tables := fun hmem => by
      have := (htables _ hmem).2
      omega
    have hkeep : t.ram (lastOn n p.pdi.val) = s.ram (lastOn n p.pdi.val) := by
      rw [hram]
      exact (hov.other _ hnot0 hnotdir (Or.inr hplace.2)).trans (hmapped.other _ hnotdir hnottab)
    rw [hkeep]

/-- The kernel image, with the static data, ends two pages below 1 GiB. -/
structure Image (L : Layout) (kernelEnd : Nat) (s : Memory) : Prop where
  static : Static L s
  dir_pos : 0 < L.krnlPgdir.val
  dir_le : (L.krnlPgdir.val + 1) * PAGE_SIZE ≤ kernelEnd
  tables_pos : 0 < L.krnlPgtbl.val
  tables_le : (L.krnlPgtbl.val + 256) * PAGE_SIZE ≤ kernelEnd
  low : kernelEnd ≤ 0x40000000 - 2 * PAGE_SIZE

theorem leadsHome_iff_covered {kernelEnd : Nat} (h : Image L kernelEnd s)
    (hinit : s.memInit L info = some t) (hp : KernelHalf p.pdi) :
    t.LeadsHome L.krnlPgdir p ↔ Covered s info.identPages p := by
  obtain ⟨hstatic, hpos, hdir, htpos, htables, hlow⟩ := h
  simp only [PAGE_SIZE] at hdir htables hlow
  by_cases himage : info.identPages ≤ 2 ^ 18
  · rw [leadsHome_image hstatic himage hinit hp, Covered, iff_self_and]
    exact fun _ => Or.inr (Or.inl (by omega))
  · refine leadsHome_overrun hstatic hpos (by omega) ?_ (by omega) hinit hp
    intro F hF
    obtain ⟨i, hi, rfl⟩ := Finset.mem_image.mp hF
    rw [Layout.table_val (Finset.mem_range.mp hi) hstatic.top]
    have := Finset.mem_range.mp hi
    omega

end Init

/-! ## The chain of the modules -/

section Chain

variable (mem : UInt32 → UInt8) (mbi : MultibootInfo) (kernelEnd : Nat)

/-- The pages of the kernel image and of the modules. -/
def BootPage (p : Frame) : Prop :=
  (∃ a < kernelEnd, frameOf a = p) ∨
    ∃ k < mbi.modsCount.toNat, ∃ a, (record mem mbi.modsAddr k).modStart.toNat ≤ a ∧
      a < (record mem mbi.modsAddr k).modEnd.toNat ∧ frameOf a = p

/-- How many pages are mapped for what ends at `m`.  The end is rounded up twice,
to the next page also where it lies at one, and one page is added. -/
def pagesUpTo (m : Nat) : Nat :=
  if m / PAGE_SIZE + 3 ≤ 2 ^ 20 then m / PAGE_SIZE + 3 else m / PAGE_SIZE + 3 - 2 ^ 20

theorem identPages_eq {info : BootInfo} (h : max info.kernelEnd info.modsEnd < 2 ^ 32) :
    info.identPages = pagesUpTo (max info.kernelEnd info.modsEnd) := by
  rw [BootInfo.identPages, BootInfo.usedMem, pagesUpTo]
  generalize max info.kernelEnd info.modsEnd = m at h
  split
  · rename_i hm
    simp only [pageAlign, PAGE_SIZE] at hm ⊢
    omega
  · rename_i hm
    simp only [pageAlign, PAGE_SIZE] at hm ⊢
    omega

/-- The end of the modules is where the pointer of the walk ends up. -/
theorem modsEnd_eq (mmap : List MmapEntry) :
    (mbi.bootInfo mem mmap kernelEnd).modsEnd =
      (Dev.walked mem mbi.modsAddr mbi.modsCount.toNat).toNat := by
  suffices hwalk : ∀ n, forUpto n
      (fun _ mod => ((mbi.bootInfo mem mmap kernelEnd).modEnd mod + 1) % 2 ^ 32)
      mbi.modsAddr.toNat = (Dev.walked mem mbi.modsAddr n).toNat from hwalk _
  intro n
  induction n with
  | zero => rfl
  | succ n ih =>
      rw [forUpto_succ, ih, Dev.walked, Dev.nextModule, UInt32.toNat_add]
      simp only [MultibootInfo.bootInfo, UInt32.ofNat_toNat]
      rfl

variable {mem mbi kernelEnd}

/-- What is to be protected lies in the kernel half. -/
theorem BootPage.kernelHalf {p : Frame} (h : BootPage mem mbi kernelEnd p)
    (hlow : kernelEnd ≤ 0x40000000 - 2 * PAGE_SIZE)
    (hmods : ∀ k < mbi.modsCount.toNat,
      (record mem mbi.modsAddr k).modEnd.toNat ≤ 0x40000000 - 2 * PAGE_SIZE) :
    KernelHalf p.pdi := by
  have hpage : ∀ a < 0x40000000 - 2 * PAGE_SIZE, KernelHalf (frameOf a).pdi := by
    intro a ha
    rw [PAGE_SIZE] at ha
    simp only [KernelHalf, Frame.pdi, frameOf, PAGE_SIZE]
    omega
  obtain ⟨a, ha, rfl⟩ | ⟨k, hk, a, -, ha, rfl⟩ := h
  · exact hpage a (ha.trans_le hlow)
  · exact hpage a (ha.trans_le (hmods k hk))

/-- Boot protects the kernel and the modules if and only if the loops over the
reserved entries of the memory map end, and every page of the kernel and of the
modules is covered by what the chain ends at. -/
theorem memInit_protects_iff {L : Layout} {s : Memory} (h : Image L kernelEnd s)
    (hmods : ∀ k < mbi.modsCount.toNat,
      (record mem mbi.modsAddr k).modEnd.toNat ≤ 0x40000000 - 2 * PAGE_SIZE)
    (mmap : List MmapEntry) :
    InitProtects s L (mbi.bootInfo mem mmap kernelEnd) (BootPage mem mbi kernelEnd) ↔
      (∀ e ∈ mmap, e.Reserved → e.Ends) ∧ ∀ p, BootPage mem mbi kernelEnd p →
        Covered s (pagesUpTo (max kernelEnd
          (Dev.walked mem mbi.modsAddr mbi.modsCount.toNat).toNat)) p := by
  have hlow := h.low
  have hpages : (mbi.bootInfo mem mmap kernelEnd).identPages =
      pagesUpTo (max kernelEnd (Dev.walked mem mbi.modsAddr mbi.modsCount.toNat).toNat) := by
    rw [PAGE_SIZE] at hlow
    have hlt := (Dev.walked mem mbi.modsAddr mbi.modsCount.toNat).toNat_lt
    rw [identPages_eq, modsEnd_eq]
    · rfl
    · rw [modsEnd_eq]
      exact Nat.max_lt.mpr ⟨show kernelEnd < 2 ^ 32 by omega, hlt⟩
  rw [← hpages]
  constructor
  · rintro ⟨t, hinit, hprot⟩
    obtain ⟨phys, hload, -⟩ := memInit_eq hinit
    refine ⟨Phys.loadEntries_ends hload, fun p hp => ?_⟩
    exact (leadsHome_iff_covered h hinit (hp.kernelHalf hlow hmods)).mp (hprot.home p hp)
  · rintro ⟨hends, hcov⟩
    obtain ⟨t, hinit⟩ : ∃ t, s.memInit L (mbi.bootInfo mem mmap kernelEnd) = some t :=
      memInit_isSome s L hends
    refine ⟨t, hinit, Memory.protects_of_used (fun p hp => ?_) fun p hp => ?_⟩
    · exact (leadsHome_iff_covered h hinit (hp.kernelHalf hlow hmods)).mpr (hcov p hp)
    · exact (memInit_marks hinit).1 (mem_runFrames_image (hcov p hp).1)

end Chain

/-! ## Modules of the small machine -/

section Small

open Memory (blank)

/-- The records of the modules, from `0x9000` on, and nothing else. -/
def recordsAt (bytes : List UInt8) (a : UInt32) : UInt8 := bytes.getD (a - 0x9000).toNat 0

theorem small_image : Image bootedLayout 0x103000 blank where
  static := Spaces.booted_linked.static
  dir_pos := by decide
  dir_le := by decide
  tables_pos := by decide
  tables_le := by decide
  low := by decide

/-- One module, from 2 MiB to `0x201000`. -/
def oneModule : List UInt8 := [0, 0, 0x20, 0, 0, 0x10, 0x20, 0, 0, 0, 0, 0, 0, 0, 0, 0]

theorem memInit_protects_one :
    InitProtects blank bootedLayout
      ((⟨⟨1, 0x9000⟩, 0, 0⟩ : MultibootInfo).bootInfo (recordsAt oneModule) [] 0x103000)
      (BootPage (recordsAt oneModule) ⟨⟨1, 0x9000⟩, 0, 0⟩ 0x103000) := by
  have hrecord : record (recordsAt oneModule) 0x9000 0 = ⟨0x200000, 0x201000⟩ := by decide
  have hchain : pagesUpTo (max 0x103000 (Dev.walked (recordsAt oneModule) 0x9000 1).toNat) =
      0x204 := by decide
  refine (memInit_protects_iff small_image ?_ []).mpr ⟨by simp, fun p hp => ?_⟩
  · intro k hk
    obtain rfl : k = 0 := Nat.lt_one_iff.mp hk
    rw [hrecord]
    decide
  · have hlt : p.val < 0x204 := by
      obtain ⟨a, ha, rfl⟩ | ⟨k, hk, a, -, ha, rfl⟩ := hp
      · simp only [frameOf, PAGE_SIZE]
        omega
      · obtain rfl : k = 0 := Nat.lt_one_iff.mp hk
        rw [hrecord] at ha
        have ha' : a < 0x201000 := ha
        simp only [frameOf, PAGE_SIZE]
        omega
    show Covered blank
      (pagesUpTo (max 0x103000 (Dev.walked (recordsAt oneModule) 0x9000 1).toNat)) p
    rw [hchain]
    exact ⟨hlt, Or.inr (Or.inl (by omega))⟩

/-- Two modules of a page, at 2 MiB and at 3 MiB. -/
def twoModules : List UInt8 :=
  [0, 0, 0x20, 0, 0, 0x10, 0x20, 0, 0, 0, 0, 0, 0, 0, 0, 0,
   0, 0, 0x30, 0, 0, 0x10, 0x30, 0, 0, 0, 0, 0, 0, 0, 0, 0]

/-- Behind the first module there are zeros, so the chain ends at 1, and neither
module is mapped. -/
theorem memInit_protects_wrong :
    record (recordsAt twoModules) 0x9000 0 = ⟨0x200000, 0x201000⟩ ∧
      record (recordsAt twoModules) 0x9000 1 = ⟨0x300000, 0x301000⟩ ∧
      Dev.walked (recordsAt twoModules) 0x9000 2 = 1 ∧
      ¬ InitProtects blank bootedLayout
        ((⟨⟨2, 0x9000⟩, 0, 0⟩ : MultibootInfo).bootInfo (recordsAt twoModules) [] 0x103000)
        (BootPage (recordsAt twoModules) ⟨⟨2, 0x9000⟩, 0, 0⟩ 0x103000) := by
  have hfirst : record (recordsAt twoModules) 0x9000 0 = ⟨0x200000, 0x201000⟩ := by decide
  have hsecond : record (recordsAt twoModules) 0x9000 1 = ⟨0x300000, 0x301000⟩ := by decide
  refine ⟨hfirst, hsecond, by decide, ?_⟩
  rintro ⟨t, hinit, hprot⟩
  have hval : (frameOf (0x200 * PAGE_SIZE)).val = 0x200 := frameOf_mul (by decide)
  have hneeded : BootPage (recordsAt twoModules) ⟨⟨2, 0x9000⟩, 0, 0⟩ 0x103000
      (frameOf (0x200 * PAGE_SIZE)) := by
    refine Or.inr ⟨0, Nat.zero_lt_two, 0x200000, ?_, ?_, rfl⟩
    · rw [hfirst]
      exact Nat.le_refl _
    · rw [hfirst]
      decide
  have hpages : ((⟨⟨2, 0x9000⟩, 0, 0⟩ : MultibootInfo).bootInfo (recordsAt twoModules) []
      0x103000).identPages = 0x106 := by
    rw [identPages_eq, modsEnd_eq]
    · decide
    · rw [modsEnd_eq]
      decide
  have hhome := (leadsHome_iff_covered small_image hinit (kernelHalf_frameOf (i := 0x200)
    (by decide))).mp (hprot.home _ hneeded)
  rw [hpages] at hhome
  have hlt := hhome.1
  rw [hval] at hlt
  omega

end Small

end StardustOS.Mem
