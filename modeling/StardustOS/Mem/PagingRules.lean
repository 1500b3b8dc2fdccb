import StardustOS.Mem.Paging

/-!
# Rules for `virt_map` and `mem_allocident`

`Keeps` is the rule for properties that no write of the memory manager breaks:
it carries such a property through `virt_map` and `mem_allocident`, however
deep their calls of each other go.  Its first use is the depth itself:
`freeLow` counts the frames that are left for tables, and `virtMap_eq` says
that the depth allowed by `virtMap` is never used up.
-/

namespace StardustOS.Mem

open Lib

namespace Memory

variable (s : Memory)

/-! ## Searches -/

theorem identFree_eq_true {dir : Frame} {i : Nat} :
    s.identFree dir i = true ↔
      s.pageIspresent dir (i * PAGE_SIZE) = false ∧ frameOf (i * PAGE_SIZE) ∉ s.phys.used := by
  rw [identFree, Bool.not_eq_true', Bool.or_eq_false_iff, Phys.physIsused_eq_false,
    runFrames_one, Finset.disjoint_singleton_right]

/-- What the search of `mem_allocident` finds. -/
theorem identScan_some {dir : Frame} {count i : Nat} {isuser : Bool}
    (h : scanRun (s.identFree dir) count
      ((if isuser then 1024 else 256) * 1024 - (if isuser then 256 else 0))
      (if isuser then 256 else 0) 0 0 = some i) :
    (if isuser then 256 else 0) ≤ i ∧ i + count ≤ (if isuser then 1024 else 256) * 1024 ∧
      ∀ k < count, s.identFree dir (i + k) = true := by
  obtain ⟨hlo, hhi, hfree⟩ := scanRun_zero_some h
  refine ⟨hlo, ?_, hfree⟩
  cases isuser <;> simp at hhi ⊢ <;> omega

/-- `mem_allocident` fails and changes nothing, or it marks, maps and clears a
run of free pages of the half that it searches. -/
theorem memAllocidentWith_spec (map : Nat → Memory → Memory) (dir : Frame) (count : Nat)
    (isuser : Bool) :
    s.memAllocidentWith map dir count isuser = (0, s) ∨
      ∃ i, (if isuser then 256 else 0) ≤ i ∧ i + count ≤ (if isuser then 1024 else 256) * 1024 ∧
        (∀ k < count, s.identFree dir (i + k) = true) ∧
        s.memAllocidentWith map dir count isuser =
          (i * PAGE_SIZE,
            (map (i * PAGE_SIZE) (s.setPhys (s.phys.physSetused (i * PAGE_SIZE) count))).memset
              (i * PAGE_SIZE) count) := by
  by_cases hc : count = 0
  · exact Or.inl (by rw [memAllocidentWith, if_pos hc])
  rw [memAllocidentWith, if_neg hc]
  cases h : scanRun (s.identFree dir) count
      ((if isuser then 1024 else 256) * 1024 - (if isuser then 256 else 0))
      (if isuser then 256 else 0) 0 0 with
  | none => exact Or.inl (by simp only [h])
  | some i =>
      obtain ⟨hlo, hhi, hfree⟩ := s.identScan_some h
      exact Or.inr ⟨i, hlo, hhi, hfree, by simp only [h]⟩

/-- `virt_alloc` fails and changes nothing, or it maps a run of absent pages of
the half that it searches. -/
theorem virtAlloc_spec (dir : Frame) (paddr count : Nat) (w u : Bool) :
    s.virtAlloc dir paddr count w u = (0, s) ∨
      ∃ j, (if u then 256 else 0) * 1024 ≤ j ∧ j + count ≤ (if u then 1024 else 256) * 1024 ∧
        (∀ k < count, s.pageIspresent dir ((j + k) * PAGE_SIZE) = false) ∧
        s.virtAlloc dir paddr count w u =
          (j * PAGE_SIZE, s.virtMap dir (j * PAGE_SIZE) paddr count w u) := by
  by_cases hc : count = 0
  · exact Or.inl (by rw [virtAlloc, if_pos hc])
  rw [virtAlloc, if_neg hc]
  cases h : scanRun (fun i => !s.pageIspresent dir (i * PAGE_SIZE)) count
      ((if u then 1024 else 256) * 1024 - (if u then 256 else 0) * 1024)
      ((if u then 256 else 0) * 1024) 0 0 with
  | none => exact Or.inl (by simp only [h])
  | some j =>
      obtain ⟨hlo, hhi, hfree⟩ := scanRun_zero_some h
      refine Or.inr ⟨j, hlo, ?_, fun k hk => by simpa using hfree k hk, by simp only [h]⟩
      cases u <;> simp at hhi ⊢ <;> omega

/-! ## Properties that are kept -/

/-- `I` is kept by marking frames, by clearing frames and by writing entries of
the kind `E`. -/
structure Keeps (I : Memory → Prop) (E : Entry → Prop) : Prop where
  used : ∀ s addr count, I s → I (s.setPhys (s.phys.physSetused addr count))
  entry : ∀ s F k e, E e → I s → I (s.setEntry F k e)
  zero : ∀ s F, I s → I (s.zeroFrame F)

namespace Keeps

variable {I : Memory → Prop} {E : Entry → Prop} (hI : Keeps I E) {dir : Frame} {s : Memory}

include hI

theorem memset (vaddr count : Nat) (hs : I s) : I (s.memset vaddr count) :=
  forUpto_inv (P := fun _ t => I t) _ hs fun i t _ ht => by
    rw [memsetPage]
    split
    · exact hI.zero t _ ht
    · exact ht

/-- The frames that are mapped were not used. -/
theorem memAllocidentWith {map : Nat → Memory → Memory} {count : Nat} {isuser : Bool}
    (hmap : ∀ i t, i + count ≤ (if isuser then 1024 else 256) * 1024 →
      (∀ k < count, frameOf ((i + k) * PAGE_SIZE) ∉ s.phys.used) → I t → I (map (i * PAGE_SIZE) t))
    (hs : I s) : I (s.memAllocidentWith map dir count isuser).2 := by
  obtain h | ⟨i, -, hhi, hfree, h⟩ := s.memAllocidentWith_spec map dir count isuser
  · rwa [h]
  · rw [h]
    refine hI.memset _ _ (hmap i _ hhi (fun k hk => ?_) (hI.used s _ _ hs))
    exact (s.identFree_eq_true.mp (hfree k hk)).2

theorem virtMapPage {alloc : Memory → Nat × Memory} {vaddr paddr : Nat} {iswrite isuser : Bool}
    (halloc : ∀ t, I t → I (alloc t).2) (hdir : E ⟨true, iswrite, isuser, dir⟩)
    (hpage : E ⟨true, iswrite, isuser, frameOf paddr⟩) (hs : I s) :
    I (s.virtMapPage alloc dir vaddr paddr iswrite isuser) := by
  rw [Memory.virtMapPage]
  split
  · refine hI.entry _ _ _ _ hpage (hI.entry _ _ _ _ ?_ (halloc s hs))
    rwa [frameOf_pdeAddr]
  · exact hI.entry _ _ _ _ hpage hs

theorem virtMapWith {alloc : Memory → Nat × Memory} {vaddr paddr count : Nat}
    {iswrite isuser : Bool} (halloc : ∀ t, I t → I (alloc t).2)
    (hdir : E ⟨true, iswrite, isuser, dir⟩)
    (hpage : ∀ i < count, E ⟨true, iswrite, isuser, frameOf (paddr + i * PAGE_SIZE)⟩)
    (hs : I s) : I (s.virtMapWith alloc dir vaddr paddr count iswrite isuser) :=
  forUpto_inv (P := fun _ t => I t) _ hs fun i _ hi ht =>
    hI.virtMapPage halloc hdir (hpage i hi) ht

/-- A depth of nested allocations at a time: their entries are not user
accessible, and point to the directory or to an unused frame below `2^18`. -/
theorem virtMapFuel (hdir : ∀ w, E ⟨true, w, false, dir⟩)
    (hident : ∀ t w (f : Frame), I t → f.val < 2 ^ 18 → f ∉ t.phys.used → E ⟨true, w, false, f⟩) :
    ∀ (depth : Nat) {vaddr paddr count : Nat} {iswrite isuser : Bool} {s : Memory},
      E ⟨true, iswrite, isuser, dir⟩ →
      (∀ i < count, E ⟨true, iswrite, isuser, frameOf (paddr + i * PAGE_SIZE)⟩) → I s →
      I (Memory.virtMapFuel depth dir vaddr paddr count iswrite isuser s)
  | 0, _, _, _, _, _, _, hown, hpage, hs => hI.virtMapWith (fun _ ht => ht) hown hpage hs
  | depth + 1, _, _, _, w, _, _, hown, hpage, hs => by
      refine hI.virtMapWith (fun t ht => hI.memAllocidentWith (fun a t' ha hfree ht' => ?_) ht)
        hown hpage hs
      refine virtMapFuel hdir hident depth (hdir w) (fun i hi => ?_) ht'
      obtain rfl : i = 0 := by omega
      rw [Nat.zero_mul, Nat.add_zero]
      refine hident t w _ ht ?_ (hfree 0 hi)
      simp only [Bool.false_eq_true, ↓reduceIte] at ha
      rw [frameOf_mul (by omega)]
      omega

theorem virtMap (hdir : ∀ w, E ⟨true, w, false, dir⟩)
    (hident : ∀ t w (f : Frame), I t → f.val < 2 ^ 18 → f ∉ t.phys.used → E ⟨true, w, false, f⟩)
    {vaddr paddr count : Nat} {iswrite isuser : Bool} (hown : E ⟨true, iswrite, isuser, dir⟩)
    (hpage : ∀ i < count, E ⟨true, iswrite, isuser, frameOf (paddr + i * PAGE_SIZE)⟩)
    (hs : I s) : I (s.virtMap dir vaddr paddr count iswrite isuser) :=
  hI.virtMapFuel hdir hident _ hown hpage hs

end Keeps

/-! ## The depth of nested allocations -/

/-- The frames that `mem_allocident` may still take for a table. -/
def freeLow : Nat := ((Finset.univ.filter fun f : Frame => f.val < 2 ^ 18) \ s.phys.used).card

theorem freeLow_le : s.freeLow ≤ 2 ^ 18 := by
  have hsub : ((Finset.univ.filter fun f : Frame => f.val < 2 ^ 18) \ s.phys.used).card ≤
      (Finset.range (2 ^ 18)).card := by
    refine Finset.card_le_card_of_injOn Fin.val (fun f hf => ?_) Fin.val_injective.injOn
    have hlow := (Finset.mem_filter.mp (Finset.mem_sdiff.mp hf).1).2
    exact Finset.mem_coe.mpr (Finset.mem_range.mpr hlow)
  rwa [Finset.card_range] at hsub

theorem freeLow_setused_le (addr count : Nat) :
    (s.setPhys (s.phys.physSetused addr count)).freeLow ≤ s.freeLow := by
  refine Finset.card_le_card (Finset.sdiff_subset_sdiff (Finset.Subset.refl _) ?_)
  rw [setPhys_phys, Phys.used_physSetused]
  exact Finset.subset_union_left

theorem freeLow_setused_lt {i : Nat} (hi : i < 2 ^ 18)
    (hfree : frameOf (i * PAGE_SIZE) ∉ s.phys.used) :
    (s.setPhys (s.phys.physSetused (i * PAGE_SIZE) 1)).freeLow < s.freeLow := by
  refine Finset.card_lt_card ((Finset.ssubset_iff_of_subset ?_).mpr
    ⟨frameOf (i * PAGE_SIZE), ?_, ?_⟩)
  · refine Finset.sdiff_subset_sdiff (Finset.Subset.refl _) ?_
    rw [setPhys_phys, Phys.used_physSetused]
    exact Finset.subset_union_left
  · have hlow : (frameOf (i * PAGE_SIZE)).val < 2 ^ 18 := by
      rw [frameOf_mul (by omega)]
      exact hi
    exact Finset.mem_sdiff.mpr ⟨Finset.mem_filter.mpr ⟨Finset.mem_univ _, hlow⟩, hfree⟩
  · rw [Finset.mem_sdiff, setPhys_phys, Phys.used_physSetused, runFrames_one]
    exact fun h => h.2 (Finset.mem_union_right _ (Finset.mem_singleton_self _))

theorem keeps_freeLow (n : Nat) : Keeps (fun s => s.freeLow ≤ n) fun _ => True where
  used := fun s _ _ h => (s.freeLow_setused_le _ _).trans h
  entry := fun _ _ _ _ _ h => h
  zero := fun _ _ h => h

theorem virtMapPage_congr {alloc alloc' : Memory → Nat × Memory} (h : alloc s = alloc' s)
    (dir : Frame) (vaddr paddr : Nat) (w u : Bool) :
    s.virtMapPage alloc dir vaddr paddr w u = s.virtMapPage alloc' dir vaddr paddr w u := by
  rw [virtMapPage, virtMapPage, h]

/-- Marking the frame that a search for one found leaves one frame less. -/
theorem freeLow_identFree_lt {dir : Frame} {i : Nat} (hi : i + 1 ≤ 256 * 1024)
    (hfree : s.identFree dir i = true) :
    (s.setPhys (s.phys.physSetused (i * PAGE_SIZE) 1)).freeLow < s.freeLow :=
  s.freeLow_setused_lt (by omega) (s.identFree_eq_true.mp hfree).2

/-- With no frame left for a table the search for one fails. -/
theorem memAllocidentWith_of_freeLow_eq_zero {map : Nat → Memory → Memory} {dir : Frame}
    (hs : s.freeLow ≤ 0) : s.memAllocidentWith map dir 1 false = (0, s) := by
  obtain h | ⟨i, -, hhi, hfree, -⟩ := s.memAllocidentWith_spec map dir 1 false
  · exact h
  · have := s.freeLow_identFree_lt hhi (hfree 0 Nat.one_pos)
    omega

/-- A search for one frame leaves one frame less to what maps it. -/
theorem memAllocidentWith_congr {map map' : Nat → Memory → Memory} {dir : Frame} {n : Nat}
    (hs : s.freeLow ≤ n + 1) (heq : ∀ a t, t.freeLow ≤ n → map a t = map' a t) :
    s.memAllocidentWith map dir 1 false = s.memAllocidentWith map' dir 1 false := by
  rw [memAllocidentWith, memAllocidentWith]
  cases h : scanRun (s.identFree dir) 1 ((if false then 1024 else 256) * 1024 -
      (if false then 256 else 0)) (if false then 256 else 0) 0 0 with
  | none => simp only [h]
  | some i =>
      obtain ⟨-, hhi, hfree⟩ := s.identScan_some h
      have := s.freeLow_identFree_lt hhi (hfree 0 Nat.one_pos)
      simp only [h]
      rw [heq _ _ (by omega)]

/-- A depth that covers the frames left for tables is deep enough. -/
theorem virtMapFuel_succ (depth : Nat) {dir : Frame} {vaddr paddr count : Nat} {w u : Bool}
    {s : Memory} (hs : s.freeLow ≤ depth) :
    virtMapFuel (depth + 1) dir vaddr paddr count w u s =
      virtMapFuel depth dir vaddr paddr count w u s := by
  induction depth generalizing vaddr paddr count u s with
  | zero =>
      rw [virtMapFuel, virtMapFuel, virtMapWith, virtMapWith]
      refine (forUpto_congr (P := fun t : Memory => t.freeLow ≤ 0) hs
        (fun i t ht => t.virtMapPage_congr ?_ _ _ _ _ _) (fun i t ht => ?_) count).1
      · exact t.memAllocidentWith_of_freeLow_eq_zero ht
      · exact (keeps_freeLow 0).virtMapPage (fun _ h => h) trivial trivial ht
  | succ depth ih =>
      rw [virtMapFuel, virtMapFuel, virtMapWith, virtMapWith]
      refine (forUpto_congr (P := fun t : Memory => t.freeLow ≤ depth + 1) hs
        (fun i t ht => t.virtMapPage_congr ?_ _ _ _ _ _) (fun i t ht => ?_) count).1
      · exact t.memAllocidentWith_congr ht fun a t ht => ih ht
      · have hI := keeps_freeLow (depth + 1)
        refine hI.virtMapPage (fun t ht => ?_) trivial trivial ht
        refine hI.memAllocidentWith (fun i t _ _ ht => ?_) ht
        exact hI.virtMapFuel (fun _ => trivial) (fun _ _ _ _ _ _ => trivial) depth
          trivial (fun _ _ => trivial) ht

/-- `virt_map` and `mem_allocident` call each other as in the source: what runs
out before the depth does is memory. -/
theorem virtMap_eq (dir : Frame) (vaddr paddr count : Nat) (w u : Bool) :
    s.virtMap dir vaddr paddr count w u =
      s.virtMapWith (fun s => s.memAllocident dir 1 w false) dir vaddr paddr count w u := by
  rw [virtMap, ← virtMapFuel_succ (2 ^ 18) s.freeLow_le, virtMapFuel]
  rfl

theorem Keeps.memAllocident {I : Memory → Prop} {E : Entry → Prop} (hI : Keeps I E) {dir : Frame}
    (hdir : ∀ w, E ⟨true, w, false, dir⟩)
    (hident : ∀ t w (f : Frame), I t → f.val < 2 ^ 18 → f ∉ t.phys.used → E ⟨true, w, false, f⟩)
    {count : Nat} {w isuser : Bool} {s : Memory} (hown : E ⟨true, w, isuser, dir⟩)
    (hpage : ∀ f : Frame, f.val < (if isuser then 1024 else 256) * 1024 → f ∉ s.phys.used →
      E ⟨true, w, isuser, f⟩)
    (hs : I s) : I (s.memAllocident dir count w isuser).2 := by
  refine hI.memAllocidentWith (fun i t hi hfree ht => ?_) hs
  refine hI.virtMap hdir hident hown (fun k hk => ?_) ht
  have hlt : i + k < (if isuser then 1024 else 256) * 1024 := by omega
  rw [← Nat.add_mul]
  refine hpage _ ?_ (hfree k hk)
  rw [frameOf_mul (by split at hlt <;> omega)]
  exact hlt

/-! ## Used frames stay used -/

/-- No write of the memory manager but `phys_setfree` takes a frame off the used
ones. -/
theorem keeps_used (U : Finset Frame) : Keeps (fun s => U ⊆ s.phys.used) fun _ => True where
  used := by
    intro s addr count h
    rw [setPhys_phys, Phys.used_physSetused]
    exact h.trans Finset.subset_union_left
  entry := fun _ _ _ _ _ h => h
  zero := fun _ _ h => h

theorem used_subset_virtMap (dir : Frame) (vaddr paddr count : Nat) (w u : Bool) :
    s.phys.used ⊆ (s.virtMap dir vaddr paddr count w u).phys.used :=
  (keeps_used _).virtMap (fun _ => trivial) (fun _ _ _ _ _ _ => trivial) trivial
    (fun _ _ => trivial) (Finset.Subset.refl _)

theorem used_memIdentmap (dir : Frame) (addr count : Nat) :
    s.phys.used ∪ runFrames addr count ⊆ (s.memIdentmap dir addr count).phys.used := by
  rw [← Phys.used_physSetused, memIdentmap]
  exact used_subset_virtMap (s.setPhys (s.phys.physSetused addr count)) dir addr addr count _ _

theorem used_subset_memAllocident (dir : Frame) (count : Nat) (w u : Bool) :
    s.phys.used ⊆ (s.memAllocident dir count w u).2.phys.used :=
  (keeps_used _).memAllocident (fun _ => trivial) (fun _ _ _ _ _ _ => trivial) trivial
    (fun _ _ _ => trivial) (Finset.Subset.refl _)

theorem used_subset_physAlloc (count : Nat) : s.phys.used ⊆ (s.phys.physAlloc count).2.used := by
  obtain h | ⟨i, -, h, -⟩ := s.phys.physAlloc_spec count
  · rw [h]
  · rw [h, Phys.used_physSetused]
    exact Finset.subset_union_left

/-- What `phys_alloc` marks for `mem_alloc` stays marked. -/
theorem used_physAlloc_subset (dir : Frame) {count : Nat} (hc : count ≠ 0) (w u : Bool) :
    (s.phys.physAlloc count).2.used ⊆ (s.memAlloc dir count w u).2.phys.used := by
  rw [memAlloc, if_neg hc]
  by_cases hz : (s.phys.physAlloc count).1 = 0
  · simp only [hz, ↓reduceIte]
    exact Finset.Subset.refl _
  · simp only [hz, ↓reduceIte]
    refine (keeps_used _).memset _ _ ?_
    obtain h | ⟨j, -, -, -, h⟩ := (s.setPhys (s.phys.physAlloc count).2).virtAlloc_spec dir
      (s.phys.physAlloc count).1 count w u
    · rw [h]
      rfl
    · rw [h]
      exact used_subset_virtMap (s.setPhys _) _ _ _ _ _ _

theorem used_subset_memAlloc (dir : Frame) (count : Nat) (w u : Bool) :
    s.phys.used ⊆ (s.memAlloc dir count w u).2.phys.used := by
  by_cases hc : count = 0
  · rw [memAlloc, if_pos hc]
  · exact (s.used_subset_physAlloc count).trans (s.used_physAlloc_subset dir hc w u)

theorem used_subset_memMap (dir : Frame) (addr count : Nat) (w u : Bool) :
    s.phys.used ⊆ (s.memMap dir addr count w u).phys.used :=
  forUpto_inv (P := fun _ (t : Memory) => s.phys.used ⊆ t.phys.used) count (Finset.Subset.refl _)
    fun i t _ ht => by
      rw [memMapPage]
      split
      · exact (ht.trans (t.used_subset_physAlloc 1)).trans
          (used_subset_virtMap (t.setPhys _) _ _ _ _ _ _)
      · exact ht

end Memory

end StardustOS.Mem
