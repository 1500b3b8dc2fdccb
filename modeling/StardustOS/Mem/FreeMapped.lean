import StardustOS.Mem.Mapping
import StardustOS.Mem.RealRam

/-!
# What `mem_free` frees

`mem_free` translates the first page of its range and takes the frames of the
others to follow that one.  `mem_map` gives every page whatever frame is free.

`memFree_iff` says when `mem_free` frees what was mapped.  One part of the
condition is about the frames: among the used ones, those that the pages lead to
are those from the first on.  The other is about the tables, as `virt_unmap`
clears words and not pages: a page outside the range must not be reached through
one of the words that are cleared.  A directory with tables of its own meets the
second part (`memFree_own_iff`).
-/

namespace StardustOS.Mem

open Lib

namespace Memory

variable (s : Memory) (dir : Frame)

/-! ## What is wanted -/

/-- Where a page leads, if it is present. -/
def translation (p : Frame) : Option Nat :=
  if s.pageIspresent dir p.addr then some (s.virt2phys dir p.addr) else none

/-- The frames that the pages of a range lead to. -/
def mappedFrames (addr count : Nat) : Finset Frame :=
  (Finset.range count).image fun i => (s.pte dir (frameOf (addr + i * PAGE_SIZE))).frame

/-- The frames of the range become free, and no other; the pages of the range
become absent, and no other. -/
structure FreesMapped (addr count : Nat) (t : Memory) : Prop where
  used : t.phys.used = s.phys.used \ s.mappedFrames dir addr count
  inside : ∀ i < count, t.pageIspresent dir (addr + i * PAGE_SIZE) = false
  outside : ∀ p ∉ runFrames addr count, t.translation dir p = s.translation dir p

/-- What `mem_free` promises. -/
def FreesWhatWasMapped (addr count : Nat) : Prop :=
  if s.virtIspresent dir addr count then s.FreesMapped dir addr count (s.memFree dir addr count)
  else s.memFree dir addr count = s

/-! ## The words of a walk -/

/-- The words that `virt_unmap` goes over in the first pages of a range.  Where
one of them is a directory entry, the entry is gone when its pages come, and the
walk reads on in frame 0. -/
def walkWords (addr : Nat) : Nat → Finset (Frame × Fin 1024)
  | 0 => ∅
  | n + 1 =>
      let words := walkWords addr n
      let p := frameOf (addr + n * PAGE_SIZE)
      insert (if (dir, p.pdi) ∈ words then 0 else (s.ram dir p.pdi).frame, p.pti) words

/-- The words through which a page is reached. -/
def pageWords (p : Frame) : Finset (Frame × Fin 1024) :=
  {(dir, p.pdi), ((s.ram dir p.pdi).frame, p.pti)}

/-- The used frames among those that the pages of the range lead to are those
from the first on, and no other present page is reached through a word that the
walk goes over. -/
structure RunMapped (addr count : Nat) : Prop where
  frames : ∀ f ∈ s.phys.used,
    f ∈ runFrames (s.virt2phys dir addr) count ↔ f ∈ s.mappedFrames dir addr count
  words : ∀ p ∉ runFrames addr count, s.pageIspresent dir p.addr = true →
    Disjoint (s.pageWords dir p) (s.walkWords dir addr count)

variable {s dir}

theorem mem_mappedFrames {addr count : Nat} {f : Frame} :
    f ∈ s.mappedFrames dir addr count ↔
      ∃ i < count, (s.pte dir (frameOf (addr + i * PAGE_SIZE))).frame = f := by
  simp [mappedFrames]

theorem walkWords_setPhys (phys : Phys) (addr n : Nat) :
    (s.setPhys phys).walkWords dir addr n = s.walkWords dir addr n := by
  induction n with
  | zero => rfl
  | succ n ih => rw [walkWords, walkWords, ih, setPhys_ram]

theorem walkWords_mono {addr i n : Nat} (h : i ≤ n) :
    s.walkWords dir addr i ⊆ s.walkWords dir addr n := by
  induction n, h using Nat.le_induction with
  | base => exact Finset.Subset.refl _
  | succ n _ ih => exact ih.trans (Finset.subset_insert _ _)

/-- The walk goes over the table word of a page whose directory entry it has not
cleared. -/
theorem word_mem_walkWords {addr i n : Nat} (hi : i < n)
    (hdir : (dir, (frameOf (addr + i * PAGE_SIZE)).pdi) ∉ s.walkWords dir addr n) :
    ((s.ram dir (frameOf (addr + i * PAGE_SIZE)).pdi).frame,
      (frameOf (addr + i * PAGE_SIZE)).pti) ∈ s.walkWords dir addr n := by
  have hnot := fun h => hdir (walkWords_mono (Nat.le_of_lt hi) h)
  refine walkWords_mono (Nat.succ_le_of_lt hi) ?_
  rw [walkWords, if_neg hnot]
  exact Finset.mem_insert_self _ _

/-! ## What `virt_unmap` writes -/

/-- One page: the present word that the walk reads is cleared. -/
theorem virtUnmapPage_ram (addr : Nat) (F : Frame) (k : Fin 1024) :
    (s.virtUnmapPage dir addr).ram F k =
      if (F, k) = ((s.ram dir (frameOf addr).pdi).frame, (frameOf addr).pti) ∧
        (s.ram F k).present = true then Entry.zero else s.ram F k := by
  rw [virtUnmapPage, pdIndex_eq, ptIndex_eq]
  cases hpg : (s.ram (s.ram dir (frameOf addr).pdi).frame (frameOf addr).pti).present with
  | false =>
      rw [if_neg Bool.false_ne_true, if_neg]
      rintro ⟨hword, hpres⟩
      obtain ⟨rfl, rfl⟩ := Prod.mk.inj hword
      exact Bool.false_ne_true (hpg.symm.trans hpres)
  | true =>
      rw [if_pos rfl]
      by_cases hword : (F, k) = ((s.ram dir (frameOf addr).pdi).frame, (frameOf addr).pti)
      · obtain ⟨rfl, rfl⟩ := Prod.mk.inj hword
        rw [setEntry_ram_self, if_pos ⟨rfl, hpg⟩]
      · rw [if_neg fun h => hword h.1]
        refine setEntry_ram_of_ne _ _ (or_iff_not_imp_left.mpr fun hF hk => ?_)
        exact hword (Prod.ext (not_not.mp hF) hk)

/-- The whole range: the present words of the walk are cleared. -/
theorem virtUnmap_ram {addr n : Nat}
    (hpres : ∀ i < n, (s.ram dir (frameOf (addr + i * PAGE_SIZE)).pdi).present = true)
    (F : Frame) (k : Fin 1024) :
    (s.virtUnmap dir addr n).ram F k =
      if (F, k) ∈ s.walkWords dir addr n ∧ (s.ram F k).present = true then Entry.zero
      else s.ram F k := by
  induction n generalizing F k with
  | zero => simp [virtUnmap, walkWords]
  | succ n ih =>
      have hrest := ih fun i hi => hpres i (by omega)
      set t := s.virtUnmap dir addr n with ht
      set p := frameOf (addr + n * PAGE_SIZE) with hp
      have hentry : (t.ram dir p.pdi).frame =
          if (dir, p.pdi) ∈ s.walkWords dir addr n then 0 else (s.ram dir p.pdi).frame := by
        rw [hrest, hpres n (Nat.lt_succ_self n)]
        split
        · rename_i h
          rw [if_pos h.1]
          rfl
        · rename_i h
          rw [if_neg fun hmem => h ⟨hmem, rfl⟩]
      have hlast : (s.virtUnmap dir addr (n + 1)).ram F k =
          (t.virtUnmapPage dir (addr + n * PAGE_SIZE)).ram F k := rfl
      rw [hlast, virtUnmapPage_ram, ← hp, hentry, hrest, walkWords, ← hp]
      by_cases hz : (F, k) ∈ s.walkWords dir addr n ∧ (s.ram F k).present = true
      · simp [hz.1, hz.2, Entry.zero]
      · rw [if_neg hz]
        by_cases hk : (s.ram F k).present = true
        · have hnot : (F, k) ∉ s.walkWords dir addr n := fun h => hz ⟨h, hk⟩
          simp only [hk, and_true, Finset.mem_insert, hnot, or_false]
        · simp [hk]

/-! ## Pages after the walk -/

section Walked

variable {t : Memory} {W : Finset (Frame × Fin 1024)}

/-- The words of `W` that are present are cleared. -/
def Clears (W : Finset (Frame × Fin 1024)) (s t : Memory) : Prop :=
  ∀ F k, t.ram F k =
    if (F, k) ∈ W ∧ (s.ram F k).present = true then Entry.zero else s.ram F k

theorem Clears.keep (h : Clears W s t) {F : Frame} {k : Fin 1024} (hk : (F, k) ∉ W) :
    t.ram F k = s.ram F k := by
  rw [h, if_neg fun h => hk h.1]

theorem Clears.absent (h : Clears W s t) {F : Frame} {k : Fin 1024}
    (hk : (F, k) ∈ W ∨ (s.ram F k).present = false) : (t.ram F k).present = false := by
  rw [h]
  split
  · rfl
  · rename_i hnot
    cases hpres : (s.ram F k).present with
    | false => rfl
    | true => exact absurd ⟨hk.resolve_right (by simp [hpres]), hpres⟩ hnot

/-- A page whose directory entry or whose own entry is cleared is absent. -/
theorem Clears.page_absent (h : Clears W s t) {p : Frame}
    (hp : (dir, p.pdi) ∈ W ∨ ((s.ram dir p.pdi).frame, p.pti) ∈ W) :
    t.pageIspresent dir p.addr = false := by
  rw [pageIspresent_eq, frameOf_addr, Bool.and_eq_false_iff]
  by_cases hdir : (dir, p.pdi) ∈ W
  · exact Or.inl (h.absent (Or.inl hdir))
  · rw [pte, h.keep hdir]
    exact Or.inr (h.absent (Or.inl (hp.resolve_left hdir)))

/-- An absent page stays absent. -/
theorem Clears.still_absent (h : Clears W s t) {p : Frame}
    (hp : s.pageIspresent dir p.addr = false) : t.pageIspresent dir p.addr = false := by
  rw [pageIspresent_eq, frameOf_addr, Bool.and_eq_false_iff] at hp ⊢
  by_cases hdir : (dir, p.pdi) ∈ W
  · exact Or.inl (h.absent (Or.inl hdir))
  · rw [pte, h.keep hdir]
    exact hp.imp_right fun hpte => h.absent (Or.inr hpte)

/-- A present page leads where it did if and only if none of its words is
cleared. -/
theorem Clears.translation_iff (h : Clears W s t) (p : Frame) :
    t.translation dir p = s.translation dir p ↔
      (s.pageIspresent dir p.addr = true → Disjoint (s.pageWords dir p) W) := by
  have hdisj : Disjoint (s.pageWords dir p) W ↔
      (dir, p.pdi) ∉ W ∧ ((s.ram dir p.pdi).frame, p.pti) ∉ W := by
    rw [pageWords, Finset.disjoint_insert_left, Finset.disjoint_singleton_left]
  cases hp : s.pageIspresent dir p.addr with
  | false =>
      simp [translation, hp, h.still_absent hp]
  | true =>
      rw [hdisj]
      constructor
      · intro heq _
        rw [← not_or]
        intro hcleared
        rw [translation, translation, hp, h.page_absent hcleared, if_pos rfl,
          if_neg Bool.false_ne_true] at heq
        cases heq
      · intro hnone
        obtain ⟨hdir, hpte⟩ := hnone rfl
        have hrow : t.pte dir p = s.pte dir p := by
          rw [pte, h.keep hdir, h.keep hpte, pte]
        have hpres : t.pageIspresent dir p.addr = s.pageIspresent dir p.addr := by
          rw [pageIspresent_eq, pageIspresent_eq, frameOf_addr, hrow, h.keep hdir]
        rw [translation, translation, hpres, virt2phys_eq _ _ (addr_aligned p),
          virt2phys_eq _ _ (addr_aligned p), frameOf_addr, hrow]

end Walked

/-- `mem_free` of present pages. -/
theorem memFree_clears {addr count : Nat} (h : s.virtIspresent dir addr count = true) :
    Clears (s.walkWords dir addr count) s (s.memFree dir addr count) ∧
      (s.memFree dir addr count).phys.used =
        s.phys.used \ runFrames (s.virt2phys dir addr) count := by
  have hpres : ∀ i < count, (s.ram dir (frameOf (addr + i * PAGE_SIZE)).pdi).present = true := by
    intro i hi
    have hpage := allUpto_eq_true.mp h i hi
    rw [pageIspresent_eq, Bool.and_eq_true] at hpage
    exact hpage.1
  rw [memFree, if_pos h]
  refine ⟨fun F k => ?_, ?_⟩
  · have hw := virtUnmap_ram (s := s.setPhys (s.phys.physSetfree (s.virt2phys dir addr) count))
      hpres F k
    rw [walkWords_setPhys] at hw
    exact hw
  · rw [phys_virtUnmap, setPhys_phys, Phys.used_physSetfree]

/-- The pages of the range are absent afterwards. -/
theorem memFree_inside {addr count i : Nat} (h : s.virtIspresent dir addr count = true)
    (hi : i < count) :
    (s.memFree dir addr count).pageIspresent dir (addr + i * PAGE_SIZE) = false := by
  set p := frameOf (addr + i * PAGE_SIZE) with hp
  have hpage : (s.memFree dir addr count).pageIspresent dir p.addr = false := by
    refine (memFree_clears h).1.page_absent ?_
    by_cases hdir : (dir, p.pdi) ∈ s.walkWords dir addr count
    · exact Or.inl hdir
    · exact Or.inr (word_mem_walkWords hi hdir)
  rwa [pageIspresent_eq, frameOf_addr, hp, ← pageIspresent_eq] at hpage

/-- `mem_free` frees what was mapped if and only if, where the pages are there,
their frames follow the first and no other page is reached through their
words. -/
theorem memFree_iff (s : Memory) (dir : Frame) (addr count : Nat) :
    s.FreesWhatWasMapped dir addr count ↔
      (s.virtIspresent dir addr count = true → s.RunMapped dir addr count) := by
  rw [FreesWhatWasMapped]
  cases hpres : s.virtIspresent dir addr count with
  | false =>
      refine iff_of_true ?_ fun h => absurd h Bool.false_ne_true
      rw [if_neg Bool.false_ne_true, memFree, hpres, if_neg Bool.false_ne_true]
  | true =>
      obtain ⟨hclears, hused⟩ := memFree_clears hpres
      rw [if_pos rfl]
      constructor
      · rintro ⟨hfrees, -, hout⟩ -
        refine ⟨fun f hf => ?_, fun p hp => (hclears.translation_iff p).mp (hout p hp)⟩
        have hmem := Finset.ext_iff.mp (hused.symm.trans hfrees) f
        rw [Finset.mem_sdiff, Finset.mem_sdiff, and_iff_right hf, and_iff_right hf] at hmem
        exact not_iff_not.mp hmem
      · intro hrun
        obtain ⟨hframes, hwords⟩ := hrun rfl
        refine ⟨?_, fun i hi => memFree_inside hpres hi,
          fun p hp => (hclears.translation_iff p).mpr (hwords p hp)⟩
        rw [hused]
        ext f
        rw [Finset.mem_sdiff, Finset.mem_sdiff]
        exact and_congr_right fun hf => not_congr (hframes f hf)

/-! ## Directories with tables of their own -/

/-- The walk goes over the words of the pages of the range. -/
theorem walkWords_own (h : s.TablesOn dir fun k => (s.ram dir k).present = true) {addr n : Nat}
    (hpres : ∀ i < n, (s.ram dir (frameOf (addr + i * PAGE_SIZE)).pdi).present = true) :
    ∀ w ∈ s.walkWords dir addr n, ∃ i < n,
      w = ((s.ram dir (frameOf (addr + i * PAGE_SIZE)).pdi).frame,
        (frameOf (addr + i * PAGE_SIZE)).pti) := by
  induction n with
  | zero => simp [walkWords]
  | succ n ih =>
      have hrest := ih fun i hi => hpres i (by omega)
      have hdir : (dir, (frameOf (addr + n * PAGE_SIZE)).pdi) ∉ s.walkWords dir addr n := by
        intro hmem
        obtain ⟨i, hi, hw⟩ := hrest _ hmem
        exact h.ne_dir _ (hpres i (by omega)) (congrArg Prod.fst hw).symm
      intro w hw
      rw [walkWords, if_neg hdir, Finset.mem_insert] at hw
      obtain rfl | hw := hw
      · exact ⟨n, Nat.lt_succ_self n, rfl⟩
      · obtain ⟨i, hi, hw⟩ := hrest w hw
        exact ⟨i, by omega, hw⟩

/-- No other page is reached through the words of the range. -/
theorem pageWords_disjoint (h : s.TablesOn dir fun k => (s.ram dir k).present = true)
    {addr count : Nat} (hpres : s.virtIspresent dir addr count = true) {p : Frame}
    (hp : p ∉ runFrames addr count) (hpage : s.pageIspresent dir p.addr = true) :
    Disjoint (s.pageWords dir p) (s.walkWords dir addr count) := by
  have hentry : ∀ {q : Nat}, s.pageIspresent dir q = true →
      (s.ram dir (frameOf q).pdi).present = true := by
    intro q hq
    rw [pageIspresent_eq, Bool.and_eq_true] at hq
    exact hq.1
  have hrange := fun i hi => hentry (allUpto_eq_true.mp hpres i hi)
  have hown := walkWords_own h hrange
  have hpdi := hentry hpage
  rw [frameOf_addr] at hpdi
  rw [pageWords, Finset.disjoint_insert_left, Finset.disjoint_singleton_left]
  constructor
  · intro hmem
    obtain ⟨i, hi, hw⟩ := hown _ hmem
    exact h.ne_dir _ (hrange i hi) (congrArg Prod.fst hw).symm
  · intro hmem
    obtain ⟨i, hi, hw⟩ := hown _ hmem
    have hsame := h.inj _ _ hpdi (hrange i hi) (congrArg Prod.fst hw)
    exact hp (mem_runFrames.mpr ⟨i, hi, (Frame.eq_of_index hsame (congrArg Prod.snd hw)).symm⟩)

/-- With tables of its own, a directory leaves the frames to look at. -/
theorem memFree_own_iff (h : s.TablesOn dir fun k => (s.ram dir k).present = true)
    (addr count : Nat) :
    s.FreesWhatWasMapped dir addr count ↔
      (s.virtIspresent dir addr count = true → ∀ f ∈ s.phys.used,
        f ∈ runFrames (s.virt2phys dir addr) count ↔ f ∈ s.mappedFrames dir addr count) := by
  rw [memFree_iff]
  refine forall_congr' fun hpres => ?_
  exact ⟨RunMapped.frames, fun hf => ⟨hf, fun p hp => pageWords_disjoint h hpres hp⟩⟩

/-! ## The small machine -/

/-- Frame 265 is used when two pages are mapped, so they get 264 and 266. -/
def scattered : Memory :=
  (booted.setPhys (booted.phys.physSetused (265 * 4096) 1)).memMap 1 (2 * 4096) 2 true false

theorem scattered_pte : (scattered.pte 1 3).frame = 266 := by decide +kernel

theorem scattered_kept : (scattered.memFree 1 (2 * 4096) 2).phys.isUsed 266 = true := by
  decide +kernel

/-- Frame 265 is freed for 266. -/
theorem memFree_scattered_wrong :
    scattered.virtIspresent 1 (2 * 4096) 2 = true ∧
      (scattered.memFree 1 (2 * 4096) 2).phys.isUsed 265 = false ∧
      ¬ scattered.FreesWhatWasMapped 1 (2 * 4096) 2 := by
  have hpres : scattered.virtIspresent 1 (2 * 4096) 2 = true := by decide +kernel
  refine ⟨hpres, by decide +kernel, ?_⟩
  rw [FreesWhatWasMapped, if_pos hpres]
  intro h
  have hgone : 266 ∉ (scattered.memFree 1 (2 * 4096) 2).phys.used := by
    rw [h.used, Finset.mem_sdiff]
    exact fun hf => hf.2 (mem_mappedFrames.mpr ⟨1, Nat.one_lt_two, scattered_pte⟩)
  exact hgone ((Phys.mem_used _).mpr scattered_kept)

end Memory

end StardustOS.Mem
