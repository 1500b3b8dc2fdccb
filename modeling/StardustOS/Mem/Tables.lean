import StardustOS.Mem.PagingRules

/-!
# Directories as page maps

A directory whose entries lead to tables of their own is a map from pages to
entries, and `virt_map` and `virt_unmap` are updates of that map: `mapPages`
and `unmapPages`.  `HasPtes` ties the two levels together, and says that
nothing but entries of the directory's tables is written.

`TablesOn` is all that this takes of a directory: the entries in question are
present, and their tables are different from each other and from the directory.
-/

namespace StardustOS.Mem

open Lib

/-! ## Page maps -/

/-- `count` pages from `vaddr` on become the pages from `paddr` on. -/
def mapPages (vaddr paddr count : Nat) (w u : Bool) (f : Frame → Entry) : Frame → Entry :=
  forUpto count (fun i f =>
    Function.update f (frameOf (vaddr + i * PAGE_SIZE))
      ⟨true, w, u, frameOf (paddr + i * PAGE_SIZE)⟩) f

/-- The present ones of `count` pages from `vaddr` on are cleared. -/
def unmapPages (vaddr count : Nat) (f : Frame → Entry) : Frame → Entry :=
  forUpto count (fun i f =>
    let p := frameOf (vaddr + i * PAGE_SIZE)
    if (f p).present then Function.update f p Entry.zero else f) f

theorem mapPages_outside {vaddr paddr count : Nat} {w u : Bool} {f : Frame → Entry} {p : Frame}
    (h : ∀ i < count, p ≠ frameOf (vaddr + i * PAGE_SIZE)) :
    mapPages vaddr paddr count w u f p = f p := by
  induction count with
  | zero => rfl
  | succ count ih =>
      have hrest := ih fun i hi => h i (Nat.lt_succ_of_lt hi)
      rw [mapPages] at hrest ⊢
      rw [forUpto_succ, Function.update_of_ne (h count (Nat.lt_succ_self count)), hrest]

theorem mapPages_inside {vaddr paddr i count : Nat} {w u : Bool} {f : Frame → Entry}
    (hc : count ≤ 2 ^ 20) (hi : i < count) :
    mapPages vaddr paddr count w u f (frameOf (vaddr + i * PAGE_SIZE)) =
      ⟨true, w, u, frameOf (paddr + i * PAGE_SIZE)⟩ := by
  induction count with
  | zero => cases hi
  | succ count ih =>
      rw [mapPages, forUpto_succ]
      by_cases hlast : i = count
      · rw [hlast, Function.update_self]
      · have hne : frameOf (vaddr + i * PAGE_SIZE) ≠ frameOf (vaddr + count * PAGE_SIZE) :=
          fun h => hlast (frameOf_inj (by omega) (by omega) h)
        rw [Function.update_of_ne hne]
        exact ih (by omega) (by omega)

/-- One page becomes the page of its own number. -/
theorem mapPages_one (p : Frame) (w u : Bool) (f : Frame → Entry) :
    mapPages p.addr p.addr 1 w u f = Function.update f p ⟨true, w, u, p⟩ := by
  rw [mapPages, forUpto_succ, forUpto_zero, Nat.zero_mul, Nat.add_zero, frameOf_addr]

theorem unmapPages_outside {vaddr count : Nat} {f : Frame → Entry} {p : Frame}
    (h : ∀ i < count, p ≠ frameOf (vaddr + i * PAGE_SIZE)) : unmapPages vaddr count f p = f p := by
  induction count with
  | zero => rfl
  | succ count ih =>
      have hrest := ih fun i hi => h i (Nat.lt_succ_of_lt hi)
      have hlast := h count (Nat.lt_succ_self count)
      rw [unmapPages] at hrest ⊢
      rw [forUpto_succ]
      split
      · rw [Function.update_of_ne hlast, hrest]
      · exact hrest

theorem unmapPages_inside {vaddr i count : Nat} {f : Frame → Entry} (hi : i < count) :
    (unmapPages vaddr count f (frameOf (vaddr + i * PAGE_SIZE))).present = false := by
  induction count with
  | zero => cases hi
  | succ count ih =>
      rw [unmapPages, forUpto_succ]
      by_cases hsame : frameOf (vaddr + i * PAGE_SIZE) = frameOf (vaddr + count * PAGE_SIZE)
      · rw [hsame]
        split
        · rw [Function.update_self]
          rfl
        · exact Bool.eq_false_iff.mpr ‹_›
      · have hlt : i < count := by
          have : i ≠ count := fun h => hsame (h ▸ rfl)
          omega
        have hrest := ih hlt
        rw [unmapPages] at hrest
        split
        · rw [Function.update_of_ne hsame]
          exact hrest
        · exact hrest

namespace Memory

variable (s : Memory)

/-! ## Walks -/

/-- The entry of a page in its table. -/
def pte (dir p : Frame) : Entry := s.ram (s.ram dir p.pdi).frame p.pti

theorem pageIspresent_eq (dir : Frame) (vaddr : Nat) :
    s.pageIspresent dir vaddr =
      ((s.ram dir (frameOf vaddr).pdi).present && (s.pte dir (frameOf vaddr)).present) := by
  rw [pageIspresent, pdIndex_eq, ptIndex_eq]
  cases h : (s.ram dir (frameOf vaddr).pdi).present
  · simp
  · simp [pte]

theorem virt2phys_eq (dir : Frame) {vaddr : Nat} (h : vaddr % PAGE_SIZE = 0) :
    s.virt2phys dir vaddr = (s.pte dir (frameOf vaddr)).frame.addr := by
  have hoff : vaddr &&& 0xfff = 0 := by
    rw [← h, PAGE_SIZE]
    exact Nat.and_two_pow_sub_one_eq_mod vaddr 12
  simp only [virt2phys, pdIndex_eq, ptIndex_eq, hoff, Nat.add_zero, pte]

theorem frameOf_virt2phys (dir : Frame) (vaddr : Nat) :
    frameOf (s.virt2phys dir vaddr) = (s.pte dir (frameOf vaddr)).frame := by
  have hlt : vaddr &&& 0xfff < PAGE_SIZE :=
    Nat.lt_of_le_of_lt Nat.and_le_right (by decide)
  simp only [virt2phys, pdIndex_eq, ptIndex_eq, pte]
  rw [PAGE_SIZE] at hlt
  ext
  simp only [frameOf, Frame.addr, PAGE_SIZE]
  omega

/-! ## Directories whose tables are their own -/

/-- The directory entries in `K` are present and lead to different tables, none
of them the directory itself. -/
structure TablesOn (dir : Frame) (K : Fin 1024 → Prop) : Prop where
  present : ∀ k, K k → (s.ram dir k).present = true
  ne_dir : ∀ k, K k → (s.ram dir k).frame ≠ dir
  inj : ∀ k k', K k → K k' → (s.ram dir k).frame = (s.ram dir k').frame → k = k'

variable {s} {dir : Frame} {K : Fin 1024 → Prop}

theorem TablesOn.of_row {t : Memory} (h : s.TablesOn dir K) (hrow : t.ram dir = s.ram dir) :
    t.TablesOn dir K where
  present := by
    rw [hrow]
    exact h.present
  ne_dir := by
    rw [hrow]
    exact h.ne_dir
  inj := by
    rw [hrow]
    exact h.inj

theorem TablesOn.pageIspresent (h : s.TablesOn dir K) {vaddr : Nat} (hk : K (frameOf vaddr).pdi) :
    s.pageIspresent dir vaddr = (s.pte dir (frameOf vaddr)).present := by
  rw [pageIspresent_eq, h.present _ hk, Bool.true_and]

/-- `t` differs from `s` in entries of the tables in `K` only, and there the
pages read as `f`. -/
structure HasPtes (s : Memory) (dir : Frame) (K : Fin 1024 → Prop) (t : Memory)
    (f : Frame → Entry) : Prop where
  phys : t.phys = s.phys
  cr3 : t.cr3 = s.cr3
  row : t.ram dir = s.ram dir
  pte : ∀ p : Frame, K p.pdi → t.pte dir p = f p
  other : ∀ F, (∀ k, K k → F ≠ (s.ram dir k).frame) → t.ram F = s.ram F

theorem HasPtes.refl (s : Memory) (dir : Frame) (K : Fin 1024 → Prop) :
    HasPtes s dir K s (s.pte dir) where
  phys := rfl
  cr3 := rfl
  row := rfl
  pte := fun _ _ => rfl
  other := fun _ _ => rfl

/-- The entry of one page is written. -/
theorem HasPtes.setEntry (hs : s.TablesOn dir K) {t : Memory} {f : Frame → Entry}
    (h : HasPtes s dir K t f) {p : Frame} (hp : K p.pdi) (e : Entry) :
    HasPtes s dir K (t.setEntry (t.ram dir p.pdi).frame p.pti e) (Function.update f p e) := by
  have hne := hs.ne_dir _ hp
  have hrow : (t.setEntry (t.ram dir p.pdi).frame p.pti e).ram dir = s.ram dir := by
    rw [h.row, t.setEntry_row_of_ne _ _ hne.symm, h.row]
  refine ⟨h.phys, h.cr3, hrow, fun q hq => ?_, fun F hF => ?_⟩
  · rw [Memory.pte, hrow, h.row]
    by_cases hqp : q = p
    · rw [hqp, Function.update_self, t.setEntry_ram_self]
    · rw [Function.update_of_ne hqp, ← h.pte q hq, Memory.pte, h.row]
      -- another page has another table or another index
      refine t.setEntry_ram_of_ne e ?_
      by_contra hsame
      push Not at hsame
      exact hqp (Frame.eq_of_index (hs.inj _ _ hq hp hsame.1) hsame.2)
  · rw [h.row, t.setEntry_row_of_ne _ _ (hF _ hp), h.other F hF]

/-- `virt_map` in tables that are there is an update of the page map. -/
theorem virtMapWith_hasPtes (hs : s.TablesOn dir K) (alloc : Memory → Nat × Memory)
    {vaddr count : Nat} (paddr : Nat) (w u : Bool)
    (hK : ∀ i < count, K (frameOf (vaddr + i * PAGE_SIZE)).pdi) :
    HasPtes s dir K (s.virtMapWith alloc dir vaddr paddr count w u)
      (mapPages vaddr paddr count w u (s.pte dir)) := by
  refine forUpto_sim (R := fun t f => HasPtes s dir K t f) (.refl s dir K) count ?_
  intro i t f hi h
  have hpde := (hs.of_row h.row).present _ (hK i hi)
  simp only [virtMapPage, pdIndex_eq, ptIndex_eq, hpde, Bool.true_eq_false, ↓reduceIte]
  exact h.setEntry hs (hK i hi) _

theorem virtMap_hasPtes (hs : s.TablesOn dir K) {vaddr count : Nat} (paddr : Nat) (w u : Bool)
    (hK : ∀ i < count, K (frameOf (vaddr + i * PAGE_SIZE)).pdi) :
    HasPtes s dir K (s.virtMap dir vaddr paddr count w u)
      (mapPages vaddr paddr count w u (s.pte dir)) := by
  rw [virtMap_eq]
  exact virtMapWith_hasPtes hs _ paddr w u hK

/-- `virt_unmap` is an update of the page map. -/
theorem virtUnmap_hasPtes (hs : s.TablesOn dir K) {vaddr count : Nat}
    (hK : ∀ i < count, K (frameOf (vaddr + i * PAGE_SIZE)).pdi) :
    HasPtes s dir K (s.virtUnmap dir vaddr count) (unmapPages vaddr count (s.pte dir)) := by
  refine forUpto_sim (R := fun t f => HasPtes s dir K t f) (.refl s dir K) count ?_
  intro i t f hi h
  have hpte := h.pte _ (hK i hi)
  rw [Memory.pte] at hpte
  simp only [virtUnmapPage, pdIndex_eq, ptIndex_eq, hpte]
  split
  · exact h.setEntry hs (hK i hi) _
  · exact h

/-! ## Clearing pages -/

/-- `t` differs from `s` in the contents of the frames in `S` only. -/
structure SameBut (S : Finset Frame) (s t : Memory) : Prop where
  phys : t.phys = s.phys
  cr3 : t.cr3 = s.cr3
  ram : ∀ F, F ∉ S → t.ram F = s.ram F

/-- Walks whose directory and table are outside `S` find the same entry. -/
theorem SameBut.pte {S : Finset Frame} {t : Memory} (h : SameBut S s t) {p : Frame}
    (hdir : dir ∉ S) (htab : (s.ram dir p.pdi).frame ∉ S) : t.pte dir p = s.pte dir p := by
  rw [Memory.pte, Memory.pte, h.ram _ hdir, h.ram _ htab]

/-- `memset` reaches the frames that its pages lead to in the loaded directory,
if neither that directory nor its tables are among them. -/
theorem memset_sameBut {S : Finset Frame} {vaddr count : Nat} (hcr3 : s.cr3 ∉ S)
    (htab : ∀ i < count, (s.ram s.cr3 (frameOf (vaddr + i * PAGE_SIZE)).pdi).frame ∉ S)
    (hS : ∀ i < count, (s.pte s.cr3 (frameOf (vaddr + i * PAGE_SIZE))).frame ∈ S) :
    SameBut S s (s.memset vaddr count) := by
  refine forUpto_inv (P := fun _ t => SameBut S s t) _ ⟨rfl, rfl, fun _ _ => rfl⟩ ?_
  intro i t hi h
  have hi' : i < count := by
    rw [PAGE_SIZE] at hi
    omega
  rw [memsetPage]
  split
  · refine ⟨h.phys, h.cr3, ?_⟩
    intro F hF
    have hpte := h.pte (p := frameOf (vaddr + i * PAGE_SIZE)) hcr3 (htab i hi')
    have hne : F ≠ frameOf (t.virt2phys t.cr3 (vaddr + i * PAGE_SIZE)) := by
      rintro rfl
      rw [h.cr3, frameOf_virt2phys, hpte] at hF
      exact hF (hS i hi')
    rw [t.zeroFrame_row_of_ne hne, h.ram F hF]
  · exact h

end Memory

end StardustOS.Mem
