import StardustOS.Mem.KernelSpace

/-!
# Nested calls of `virt_map`

`virt_map` calls `mem_allocident` for a table, on the directory that it is changing, and
that calls `virt_map` for the page of the table.  `Calls` is this relation between calls.
`after_eq` says that there are no others.

A nested call is for a page of the kernel half.  It finds its table as long as the entries
of that half are there.  Nothing that is written takes them away, and of what is cleared
only the frame of the directory matters: the new table is cleared through the directory
that is loaded, which may be another one (`Clears`).
-/

namespace StardustOS.Mem

open Lib

/-- A call of `virt_map`, with the memory in which it is made. -/
structure MapCall where
  state : Memory
  vaddr : Nat
  paddr : Nat
  count : Nat
  iswrite : Bool
  isuser : Bool

namespace MapCall

section Definitions

variable (dir : Frame) (c : MapCall)

/-- The memory before the turn `i` of the loop. -/
def before (i : Nat) : Memory := c.state.virtMap dir c.vaddr c.paddr i c.iswrite c.isuser

/-- The memory when the call returns. -/
def after : Memory := c.before dir c.count

/-- The directory index of the turn `i`. -/
def pdi (i : Nat) : Fin 1024 := pdIndex (c.vaddr + i * PAGE_SIZE)

/-- In the turn `i` there is no table, and `mem_allocident` finds the frame of number `a`. -/
structure Allocates (i a : Nat) : Prop where
  turn : i < c.count
  absent : ((c.before dir i).ram dir (c.pdi i)).present = false
  found : scanRun ((c.before dir i).identFree dir) 1 (256 * 1024) 0 0 0 = some a

/-- What `mem_allocident` calls then. -/
def nested (i a : Nat) : MapCall where
  state := (c.before dir i).setPhys ((c.before dir i).phys.physSetused (a * PAGE_SIZE) 1)
  vaddr := a * PAGE_SIZE
  paddr := a * PAGE_SIZE
  count := 1
  iswrite := c.iswrite
  isuser := false

/-- The call `c` makes the call `c'`. -/
def Calls (c c' : MapCall) : Prop := ∃ i a, c.Allocates dir i a ∧ c' = c.nested dir i a

/-- The `memset` of the new table clears the directory. -/
def Clears : Prop :=
  (c.after dir).pageIspresent (c.after dir).cr3 c.vaddr = true ∧
    frameOf ((c.after dir).virt2phys (c.after dir).cr3 c.vaddr) = dir

/-- The directory entries that are not present. -/
def absentEntries (s : Memory) : Finset (Fin 1024) :=
  Finset.univ.filter fun k => (s.ram dir k).present = false

end Definitions

variable {dir : Frame} {c c' : MapCall}

/-! ## The turns of the loop -/

theorem before_zero : c.before dir 0 = c.state := by
  rw [before, Memory.virtMap_eq]
  rfl

theorem before_succ (i : Nat) :
    c.before dir (i + 1) = (c.before dir i).virtMapPage
      (fun s => s.memAllocident dir 1 c.iswrite false) dir (c.vaddr + i * PAGE_SIZE)
      (c.paddr + i * PAGE_SIZE) c.iswrite c.isuser := by
  rw [before, before, Memory.virtMap_eq, Memory.virtMap_eq]
  rfl

/-- `mem_allocident` with a frame that was found. -/
theorem memAllocidentWith_found {s : Memory} {a : Nat} (map : Nat → Memory → Memory)
    (h : scanRun (s.identFree dir) 1 (256 * 1024) 0 0 0 = some a) :
    s.memAllocidentWith map dir 1 false =
      (a * PAGE_SIZE, (map (a * PAGE_SIZE)
        (s.setPhys (s.phys.physSetused (a * PAGE_SIZE) 1))).memset (a * PAGE_SIZE) 1) := by
  rw [Memory.memAllocidentWith, if_neg one_ne_zero]
  simp only [Bool.false_eq_true, ↓reduceIte, Nat.sub_zero, h]

theorem memAllocidentWith_none {s : Memory} (map : Nat → Memory → Memory)
    (h : scanRun (s.identFree dir) 1 (256 * 1024) 0 0 0 = none) :
    s.memAllocidentWith map dir 1 false = (0, s) := by
  rw [Memory.memAllocidentWith, if_neg one_ne_zero]
  simp only [Bool.false_eq_true, ↓reduceIte, Nat.sub_zero, h]

/-- The entry that a turn writes for its page. -/
def page (c : MapCall) (i : Nat) : Entry :=
  ⟨true, c.iswrite, c.isuser, frameOf (c.paddr + i * PAGE_SIZE)⟩

/-- A turn without a table: what `mem_allocident` returns is taken for one. -/
theorem before_succ_absent {i : Nat} (h : ((c.before dir i).ram dir (c.pdi i)).present = false) :
    c.before dir (i + 1) =
      (((c.before dir i).memAllocident dir 1 c.iswrite false).2.setEntry dir (c.pdi i)
        ⟨true, c.iswrite, c.isuser, dir⟩).setEntry
        (frameOf ((c.before dir i).memAllocident dir 1 c.iswrite false).1)
        (ptIndex (c.vaddr + i * PAGE_SIZE)) (c.page i) := by
  rw [before_succ, Memory.virtMapPage]
  simp only [pdi] at h
  simp only [h, ↓reduceIte, frameOf_pdeAddr]
  rfl

/-- A turn with a table. -/
theorem before_succ_present {i : Nat} (h : ((c.before dir i).ram dir (c.pdi i)).present = true) :
    c.before dir (i + 1) =
      (c.before dir i).setEntry ((c.before dir i).ram dir (c.pdi i)).frame
        (ptIndex (c.vaddr + i * PAGE_SIZE)) (c.page i) := by
  rw [before_succ, Memory.virtMapPage]
  simp only [pdi] at h
  simp only [h, Bool.true_eq_false, ↓reduceIte]
  rfl

/-! ## What stays -/

/-- From `s` to `t` no entry of the directory and no used frame was taken away. -/
structure Grows (dir : Frame) (s t : Memory) : Prop where
  present : ∀ k, (s.ram dir k).present = true → (t.ram dir k).present = true
  used : s.phys.used ⊆ t.phys.used
  cr3 : t.cr3 = s.cr3

/-- The kernel entries of the directory are there, and its own frame is used. -/
structure Stands (dir : Frame) (s : Memory) : Prop where
  kernel : ∀ k, KernelHalf k → (s.ram dir k).present = true
  used : dir ∈ s.phys.used

namespace Grows

variable {s t u : Memory}

theorem refl (s : Memory) : Grows dir s s := ⟨fun _ h => h, Finset.Subset.refl _, rfl⟩

theorem trans (h : Grows dir s t) (h' : Grows dir t u) : Grows dir s u where
  present k hk := h'.present k (h.present k hk)
  used := h.used.trans h'.used
  cr3 := h'.cr3.trans h.cr3

theorem setused (s : Memory) (addr count : Nat) :
    Grows dir s (s.setPhys (s.phys.physSetused addr count)) where
  present _ hk := hk
  used := by
    rw [Memory.setPhys_phys, Phys.used_physSetused]
    exact Finset.subset_union_left
  cr3 := rfl

/-- Every entry that is written is present. -/
theorem setEntry (s : Memory) (F : Frame) (k : Fin 1024) {e : Entry} (he : e.present = true) :
    Grows dir s (s.setEntry F k e) where
  present j hj := by
    by_cases h : dir = F ∧ j = k
    · obtain ⟨rfl, rfl⟩ := h
      rwa [s.setEntry_ram_self]
    · rw [not_and_or] at h
      rwa [s.setEntry_ram_of_ne e h]
  used := Finset.Subset.refl _
  cr3 := rfl

/-- A frame is cleared that is not the directory. -/
theorem zeroFrame (s : Memory) {F : Frame} (h : F ≠ dir) : Grows dir s (s.zeroFrame F) where
  present k hk := by rwa [s.zeroFrame_row_of_ne h.symm]
  used := Finset.Subset.refl _
  cr3 := rfl

/-- What is not present was not present before. -/
theorem absent (h : Grows dir s t) {k : Fin 1024} (hk : (t.ram dir k).present = false) :
    (s.ram dir k).present = false := by
  by_contra hpresent
  have hstill := h.present k (Bool.not_eq_false _ ▸ hpresent)
  rw [hk] at hstill
  cases hstill

theorem absentEntries_subset (h : Grows dir s t) : absentEntries dir t ⊆ absentEntries dir s := by
  intro k hk
  rw [absentEntries, Finset.mem_filter] at hk ⊢
  exact ⟨hk.1, h.absent hk.2⟩

theorem stands (h : Grows dir s t) (hs : Stands dir s) : Stands dir t where
  kernel k hk := h.present k (hs.kernel k hk)
  used := h.used hs.used

end Grows

/-! ## A nested call -/

/-- The call of `mem_allocident` for the frame that it found. -/
theorem map_nested (i a : Nat) :
    ((c.before dir i).setPhys ((c.before dir i).phys.physSetused (a * PAGE_SIZE) 1)).virtMap
      dir (a * PAGE_SIZE) (a * PAGE_SIZE) 1 c.iswrite false = (c.nested dir i a).after dir := by
  simp only [after, before, nested]

/-- What was found is a page of the kernel half that is not present, and a frame that is
not used. -/
theorem Allocates.free {i a : Nat} (h : c.Allocates dir i a) :
    a < 2 ^ 18 ∧ (c.before dir i).pageIspresent dir (a * PAGE_SIZE) = false ∧
      frameOf (a * PAGE_SIZE) ∉ (c.before dir i).phys.used := by
  obtain ⟨ha, hfree⟩ := of_scanRun_one h.found
  exact ⟨ha, (c.before dir i).identFree_eq_true.mp hfree⟩

/-- Its directory entry is there. -/
theorem Allocates.entry {i a : Nat} (h : c.Allocates dir i a) (hs : Stands dir (c.before dir i)) :
    ((c.before dir i).ram dir (pdIndex (a * PAGE_SIZE))).present = true := by
  rw [pdIndex_eq]
  exact hs.kernel _ (kernelHalf_frameOf h.free.1)

/-- So no table is needed for it. -/
theorem nested_entry {i a : Nat} (h : c.Allocates dir i a) (hs : Stands dir (c.before dir i)) :
    (((c.nested dir i a).before dir 0).ram dir ((c.nested dir i a).pdi 0)).present = true := by
  rw [before_zero, pdi, Nat.zero_mul, Nat.add_zero]
  exact h.entry hs

theorem nested_after {i a : Nat} (h : c.Allocates dir i a) (hs : Stands dir (c.before dir i)) :
    (c.nested dir i a).after dir =
      (c.nested dir i a).state.setEntry
        ((c.before dir i).ram dir (pdIndex (a * PAGE_SIZE))).frame (ptIndex (a * PAGE_SIZE))
        ⟨true, c.iswrite, false, frameOf (a * PAGE_SIZE)⟩ := by
  have hturn := before_succ_present (nested_entry h hs)
  rw [before_zero, page, pdi, Nat.zero_mul, Nat.add_zero, Nat.add_zero] at hturn
  have hcount : (c.nested dir i a).count = 0 + 1 := rfl
  rw [after, hcount, hturn]
  simp only [nested, Memory.setPhys_ram, Nat.add_zero]

/-- A nested call makes no further one. -/
theorem nested_calls {i a : Nat} (h : c.Allocates dir i a) (hs : Stands dir (c.before dir i))
    (c'' : MapCall) : ¬ Calls dir (c.nested dir i a) c'' := by
  rintro ⟨j, b, hj, -⟩
  obtain rfl : j = 0 := Nat.lt_one_iff.mp hj.turn
  have habsent := hj.absent
  rw [nested_entry h hs] at habsent
  cases habsent

/-- Through the directory itself its page shows the new table. -/
theorem not_clears_of_loaded {i a : Nat} (h : c.Allocates dir i a)
    (hs : Stands dir (c.before dir i)) (hcr3 : (c.before dir i).cr3 = dir) :
    ¬ Clears dir (c.nested dir i a) := by
  obtain ⟨ha, habsent, hunused⟩ := h.free
  have hentry := h.entry hs
  -- the page is not present, so its entry is not the one of its table
  have hne : dir ≠ ((c.before dir i).ram dir (pdIndex (a * PAGE_SIZE))).frame ∨
      pdIndex (a * PAGE_SIZE) ≠ ptIndex (a * PAGE_SIZE) := by
    by_contra hsame
    push Not at hsame
    rw [Memory.pageIspresent] at habsent
    simp only [hentry, Bool.true_eq_false, ↓reduceIte, ← hsame.1, ← hsame.2] at habsent
  have hrow : ((c.nested dir i a).after dir).ram dir (pdIndex (a * PAGE_SIZE)) =
      (c.before dir i).ram dir (pdIndex (a * PAGE_SIZE)) := by
    rw [nested_after h hs, Memory.setEntry_ram_of_ne _ _ hne]
    simp only [nested, Memory.setPhys_ram]
  rintro ⟨-, hframe⟩
  have hloaded : ((c.nested dir i a).after dir).cr3 = dir := by
    rw [nested_after h hs]
    exact hcr3
  have hvaddr : (c.nested dir i a).vaddr = a * PAGE_SIZE := by rw [nested]
  rw [hloaded, hvaddr, Memory.frameOf_virt2phys, Memory.pte, ← pdIndex_eq, ← ptIndex_eq, hrow,
    nested_after h hs, Memory.setEntry_ram_self] at hframe
  simp only at hframe
  rw [hframe] at hunused
  exact hunused hs.used

/-- The new table is cleared, which takes nothing away. -/
theorem memset_grows {s : Memory} {vaddr : Nat}
    (h : ¬ (s.pageIspresent s.cr3 vaddr = true ∧ frameOf (s.virt2phys s.cr3 vaddr) = dir)) :
    Grows dir s (s.memset vaddr 1) ∧ (s.memset vaddr 1).phys = s.phys := by
  have hone : 1 * PAGE_SIZE % 2 ^ 32 / PAGE_SIZE = 1 := by decide
  rw [Memory.memset, hone, forUpto_succ, forUpto_zero, Nat.zero_mul, Nat.add_zero,
    Memory.memsetPage]
  split
  · rename_i hpres
    exact ⟨.zeroFrame s fun hF => h ⟨hpres, hF⟩, rfl⟩
  · exact ⟨.refl s, rfl⟩

/-! ## A whole call -/

/-- The directory is loaded, or no new table that is cleared is its own frame. -/
def Spares (dir : Frame) (c : MapCall) : Prop :=
  c.state.cr3 = dir ∨ ∀ c', Calls dir c c' → ¬ Clears dir c'

section Run

variable (hs : Stands dir c.state) (hspares : Spares dir c)

include hs hspares

/-- `mem_allocident` takes at most one frame for a table. -/
theorem table_grows {i : Nat} (hi : i < c.count) (hg : Grows dir c.state (c.before dir i))
    (habsent : ((c.before dir i).ram dir (c.pdi i)).present = false) :
    Grows dir (c.before dir i) ((c.before dir i).memAllocident dir 1 c.iswrite false).2 ∧
      ∃ f, ((c.before dir i).memAllocident dir 1 c.iswrite false).2.phys.used ⊆
        insert f (c.before dir i).phys.used := by
  rw [Memory.memAllocident]
  cases hscan : scanRun ((c.before dir i).identFree dir) 1 (256 * 1024) 0 0 0 with
  | none =>
      rw [memAllocidentWith_none _ hscan]
      exact ⟨.refl _, dir, Finset.subset_insert _ _⟩
  | some a =>
      have hstands := hg.stands hs
      have halloc : c.Allocates dir i a := ⟨hi, habsent, hscan⟩
      have hclear : ¬ Clears dir (c.nested dir i a) := by
        rcases hspares with hcr3 | hspares
        · exact not_clears_of_loaded halloc hstands (hg.cr3.trans hcr3)
        · exact hspares _ ⟨i, a, halloc, rfl⟩
      have hvaddr : (c.nested dir i a).vaddr = a * PAGE_SIZE := by rw [nested]
      obtain ⟨hmemset, hphys⟩ := memset_grows hclear
      rw [hvaddr] at hmemset hphys
      rw [memAllocidentWith_found _ hscan, map_nested]
      refine ⟨Grows.trans ?_ hmemset, frameOf (a * PAGE_SIZE), ?_⟩
      · rw [nested_after halloc hstands]
        exact (Grows.setused _ _ _).trans (.setEntry _ _ _ rfl)
      · rw [hphys, nested_after halloc hstands]
        show ((c.before dir i).phys.physSetused (a * PAGE_SIZE) 1).used ⊆ _
        rw [Phys.used_physSetused, runFrames_one, Finset.union_comm, ← Finset.insert_eq]

/-- A turn takes nothing away, and after it there is an entry for its page.  Where there
was none, at most one frame was taken. -/
theorem turn_grows {i : Nat} (hi : i < c.count) (hg : Grows dir c.state (c.before dir i)) :
    Grows dir (c.before dir i) (c.before dir (i + 1)) ∧
      ((c.before dir (i + 1)).ram dir (c.pdi i)).present = true ∧
        (((c.before dir i).ram dir (c.pdi i)).present = true ∧
            (c.before dir (i + 1)).phys.used = (c.before dir i).phys.used ∨
          ((c.before dir i).ram dir (c.pdi i)).present = false ∧
            ∃ f, (c.before dir (i + 1)).phys.used ⊆ insert f (c.before dir i).phys.used) := by
  cases hentry : ((c.before dir i).ram dir (c.pdi i)).present with
  | true =>
      have hgrows : Grows dir (c.before dir i) (c.before dir (i + 1)) := by
        rw [before_succ_present hentry]
        exact .setEntry _ _ _ rfl
      refine ⟨hgrows, hgrows.present _ hentry, .inl ⟨rfl, ?_⟩⟩
      rw [before_succ_present hentry]
      rfl
  | false =>
      obtain ⟨htable, hused⟩ := table_grows hs hspares hi hg hentry
      rw [before_succ_absent hentry]
      refine ⟨(htable.trans (.setEntry _ _ _ rfl)).trans (.setEntry _ _ _ rfl), ?_,
        .inr ⟨rfl, hused⟩⟩
      refine (Grows.setEntry _ _ _ rfl).present _ ?_
      rw [Memory.setEntry_ram_self]

/-- So the turns before take nothing away. -/
theorem before_grows {i j : Nat} (hij : i ≤ j) (hj : j ≤ c.count) :
    Grows dir (c.before dir i) (c.before dir j) := by
  have hstart : ∀ n ≤ c.count, Grows dir c.state (c.before dir n) := by
    intro n hn
    induction n with
    | zero =>
        rw [before_zero]
        exact .refl _
    | succ n ih => exact (ih (by omega)).trans (turn_grows hs hspares hn (ih (by omega))).1
  induction hij with
  | refl => exact .refl _
  | @step j hij ih =>
      exact (ih (by omega)).trans (turn_grows hs hspares hj (hstart j (by omega))).1

theorem grows_before {i : Nat} (hi : i ≤ c.count) : Grows dir c.state (c.before dir i) := by
  have hg := before_grows hs hspares (Nat.zero_le i) hi
  rwa [before_zero] at hg

theorem stands_before {i : Nat} (hi : i ≤ c.count) : Stands dir (c.before dir i) :=
  (grows_before hs hspares hi).stands hs

/-- A table is allocated only for an entry that was not present before the call. -/
theorem Allocates.was_absent {i a : Nat} (h : c.Allocates dir i a) :
    (c.state.ram dir (c.pdi i)).present = false :=
  (grows_before hs hspares h.turn.le).absent h.absent

/-- No two tables are allocated for one entry. -/
theorem Allocates.once {i j a b : Nat} (h : c.Allocates dir i a) (h' : c.Allocates dir j b)
    (hpdi : c.pdi i = c.pdi j) : i = j := by
  have hlt : ∀ {i j a b : Nat}, c.Allocates dir i a → c.Allocates dir j b → c.pdi i = c.pdi j →
      ¬ i < j := by
    intro i j a b h h' hpdi hij
    have hg := grows_before hs hspares h.turn.le
    have hthere := (turn_grows hs hspares h.turn hg).2.1
    have hstill := (before_grows hs hspares hij h'.turn.le).present _ hthere
    rw [hpdi, h'.absent] at hstill
    cases hstill
  have hij := hlt h h' hpdi
  have hji := hlt h' h hpdi.symm
  omega

/-- The frames that were taken and the entries that are still not present. -/
theorem card_used {n : Nat} (hn : n ≤ c.count) :
    ((c.before dir n).phys.used \ c.state.phys.used).card +
      (absentEntries dir (c.before dir n)).card ≤ (absentEntries dir c.state).card := by
  induction n with
  | zero => simp [before_zero]
  | succ n ih =>
      have hg := grows_before hs hspares (Nat.le_of_succ_le hn)
      obtain ⟨hturn, hpresent, hcases⟩ := turn_grows hs hspares hn hg
      have hsub := hturn.absentEntries_subset
      have ih := ih (Nat.le_of_succ_le hn)
      obtain ⟨-, hused⟩ | ⟨habsent, f, hused⟩ := hcases
      · rw [hused]
        exact (Nat.add_le_add_left (Finset.card_le_card hsub) _).trans ih
      · have hless : (absentEntries dir (c.before dir (n + 1))).card <
            (absentEntries dir (c.before dir n)).card := by
          refine Finset.card_lt_card ((Finset.ssubset_iff_of_subset hsub).mpr ⟨c.pdi n, ?_, ?_⟩)
          · exact Finset.mem_filter.mpr ⟨Finset.mem_univ _, habsent⟩
          · rw [absentEntries, Finset.mem_filter, hpresent]
            simp
        have hmore : ((c.before dir (n + 1)).phys.used \ c.state.phys.used).card ≤
            ((c.before dir n).phys.used \ c.state.phys.used).card + 1 := by
          refine (Finset.card_le_card ?_).trans (Finset.card_insert_le f _)
          intro g hg
          obtain ⟨hin, hout⟩ := Finset.mem_sdiff.mp hg
          rw [Finset.mem_insert, Finset.mem_sdiff]
          exact (Finset.mem_insert.mp (hused hin)).imp_right fun hg => ⟨hg, hout⟩
        omega

end Run

/-! ## The recursion -/

/-- A call leaves a frame less to the calls that it makes. -/
theorem calls_freeLow (h : Calls dir c c') : c'.state.freeLow < c.state.freeLow := by
  obtain ⟨i, a, halloc, rfl⟩ := h
  have hbefore : (c.before dir i).freeLow ≤ c.state.freeLow :=
    (Memory.keeps_freeLow _).virtMap (fun _ => trivial) (fun _ _ _ _ _ _ => trivial) trivial
      (fun _ _ => trivial) (Nat.le_refl _)
  obtain ⟨ha, hfree⟩ := of_scanRun_one halloc.found
  exact (Memory.freeLow_identFree_lt _ ha hfree).trans_le hbefore

/-- Whatever the directory holds, the calls come to an end. -/
theorem calls_wf (dir : Frame) : WellFounded fun c' c => Calls dir c c' :=
  Subrelation.wf (fun h => calls_freeLow h) (measure fun c : MapCall => c.state.freeLow).wf

/-- In a turn without a table `mem_allocident` asks for a call that is made, and for
nothing else. -/
theorem memAllocidentWith_calls {map : Nat → Memory → Memory}
    (h : ∀ c', Calls dir c c' → map c'.vaddr c'.state = c'.after dir) {i : Nat} (hi : i < c.count)
    (habsent : ((c.before dir i).ram dir (c.pdi i)).present = false) :
    (c.before dir i).memAllocidentWith map dir 1 false =
      (c.before dir i).memAllocident dir 1 c.iswrite false := by
  rw [Memory.memAllocident]
  cases hscan : scanRun ((c.before dir i).identFree dir) 1 (256 * 1024) 0 0 0 with
  | none => rw [memAllocidentWith_none _ hscan, memAllocidentWith_none _ hscan]
  | some a =>
      have hcall := h _ ⟨i, a, ⟨hi, habsent, hscan⟩, rfl⟩
      rw [← map_nested] at hcall
      simp only [nested] at hcall
      rw [memAllocidentWith_found _ hscan, memAllocidentWith_found _ hscan, hcall]

/-- A call does what its loop does with what the calls that it makes do, and asks for
nothing else. -/
theorem after_eq {map : Nat → Memory → Memory}
    (h : ∀ c', Calls dir c c' → map c'.vaddr c'.state = c'.after dir) :
    c.state.virtMapWith (fun s => s.memAllocidentWith map dir 1 false) dir c.vaddr c.paddr
      c.count c.iswrite c.isuser = c.after dir := by
  have hturns : ∀ n ≤ c.count, c.state.virtMapWith (fun s => s.memAllocidentWith map dir 1 false)
      dir c.vaddr c.paddr n c.iswrite c.isuser = c.before dir n := by
    intro n hn
    induction n with
    | zero => exact before_zero.symm
    | succ n ih =>
        rw [before_succ, Memory.virtMapWith, forUpto_succ, ← Memory.virtMapWith, ih (by omega)]
        cases hentry : ((c.before dir n).ram dir (c.pdi n)).present with
        | true =>
            simp only [pdi] at hentry
            simp only [Memory.virtMapPage, hentry, Bool.true_eq_false, ↓reduceIte]
        | false => exact Memory.virtMapPage_congr _ (memAllocidentWith_calls h hn hentry) _ _ _ _ _
  exact hturns c.count (Nat.le_refl _)

/-- Page-table creation does not recurse forever.  The calls come to an end; a nested one is
for a page of the kernel half and makes no further one; and a table is allocated once for
an entry that was not present, so no more frames are taken than there were such entries. -/
theorem virtMap_nested (hs : Stands dir c.state) (hspares : Spares dir c) :
    (WellFounded fun c' c => Calls dir c c') ∧
      (∀ c', Calls dir c c' → c'.count = 1 ∧ c'.vaddr < 0x40000000 ∧
        ∀ c'', ¬ Calls dir c' c'') ∧
      (∀ i a, c.Allocates dir i a → (c.state.ram dir (c.pdi i)).present = false ∧
        ∀ j b, c.Allocates dir j b → c.pdi i = c.pdi j → i = j) ∧
      ((c.after dir).phys.used \ c.state.phys.used).card ≤ (absentEntries dir c.state).card := by
  refine ⟨calls_wf dir, ?_, ?_, ?_⟩
  · rintro c' ⟨i, a, halloc, rfl⟩
    have hstands := stands_before hs hspares halloc.turn.le
    refine ⟨rfl, ?_, nested_calls halloc hstands⟩
    have ha := halloc.free.1
    show a * PAGE_SIZE < 0x40000000
    rw [PAGE_SIZE]
    omega
  · intro i a halloc
    exact ⟨halloc.was_absent hs hspares, fun j b h' hpdi => halloc.once hs hspares h' hpdi⟩
  · exact (Nat.le_add_right _ _).trans (card_used hs hspares (Nat.le_refl _))

/-- Two user pages of the machine of `mem_init`, in the loaded directory. -/
theorem virtMap_nested_booted :
    (∃ c', Calls 1 ⟨booted, 0x40000000, 0x300000, 2, true, true⟩ c') ∧
      ∀ c', Calls 1 ⟨booted, 0x40000000, 0x300000, 2, true, true⟩ c' →
        c'.count = 1 ∧ c'.vaddr < 0x40000000 ∧ ∀ c'', ¬ Calls 1 c' c'' := by
  have hstands : Stands 1 booted := by
    refine ⟨fun k hk => ?_, booted_used (by decide)⟩
    rw [booted_row hk]
  refine ⟨⟨_, 0, 264, ⟨by decide, ?_, ?_⟩, rfl⟩,
    (virtMap_nested (c := ⟨booted, 0x40000000, 0x300000, 2, true, true⟩) hstands (.inl rfl)).2.1⟩
  · decide +kernel
  · decide +kernel

/-- The machine of `mem_init` with two directories as `mem_alloc_pgdir` makes them, of which
the first is loaded.  The frames 0 to 1023 are used. -/
def twoDirs : Memory where
  phys := ⟨fun i => if i.val < 128 then 0xFF else 0, 1024 * 4096, 16777216⟩
  ram F k :=
    if (F = 1 ∨ F = 264 ∨ F = 268) ∧ k.val < 256 then
      ⟨true, true, false, ⟨k.val + 2, table_lt k⟩⟩
    else if F = 2 ∧ (k.val ≤ 264 ∨ k.val = 268) then ⟨true, true, false, ⟨k.val, entry_lt k⟩⟩
    else Entry.zero
  cr3 := 264

/-- Two user pages are mapped in the loaded directory.  The entry of their table leads to the
directory, and so the second page gets the place of the kernel entry 1.  The program writes a
word in that page. -/
def strayed : Memory :=
  (twoDirs.virtMap 264 0x40000000 (265 * PAGE_SIZE) 2 true true).setEntry 266 1
    ⟨true, true, true, 268⟩

/-- The last page of one table and the first of the next, in the other directory. -/
def strayedCall : MapCall := ⟨strayed, 0x403ff000, 0x300000, 2, true, true⟩

example : strayed.ram strayed.cr3 1 = ⟨true, true, true, 266⟩ := by decide +kernel

/-- The first new table is the page 1025, which is absent in the directory that is changed.
It is cleared through the loaded one, where the page leads to that directory.  So there is no
entry for the second table, and the call for it calls again. -/
theorem strayed_calls :
    (∀ k, KernelHalf k → (strayed.ram 268 k).present = true) ∧ 268 ∈ strayed.phys.used ∧
      (∀ k, (strayed.ram 268 k).present = true → (strayed.ram 268 k).frame ∈ strayed.phys.used) ∧
        (∀ k, KernelHalf k → (strayed.ram strayed.cr3 k).present = true) ∧
          (∀ i < 264, strayed.pageIspresent strayed.cr3 (i * PAGE_SIZE) = true ∧
            strayed.virt2phys strayed.cr3 (i * PAGE_SIZE) = i * PAGE_SIZE) ∧
            ∃ c' c'', Calls 268 strayedCall c' ∧ Calls 268 c' c'' := by
  refine ⟨by decide +kernel, ?_, ?_, by decide +kernel, by decide +kernel,
    strayedCall.nested 268 1 1026, _, ⟨1, 1026, ⟨by decide, ?_, ?_⟩, rfl⟩,
    ⟨0, 1027, ⟨by decide, ?_, ?_⟩, rfl⟩⟩
  · rw [Phys.mem_used]
    decide +kernel
  · simp only [Phys.mem_used]
    decide +kernel
  · decide +kernel
  · decide +kernel
  · decide +kernel
  · decide +kernel

end MapCall

end StardustOS.Mem
