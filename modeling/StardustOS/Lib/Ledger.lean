import Mathlib.Data.Finset.Card
import Mathlib.Data.List.Pairwise

/-!
# Ledgers of live allocations

A ledger says which cells of a resource are held, and by whom: some cells from
the start (`base`), and those of each live run.  No cell has two holders, and
that is part of the type: `alloc` asks for a run of cells nobody holds.

An allocator is right when its own record of the used cells is always the
`used` set of a ledger that its callers' calls move by `alloc` and `free`.
-/

namespace StardustOS.Lib

variable {ι α : Type*} [DecidableEq α]

/-- Who holds what: `base` from the start, and the cells of each live run. -/
structure Ledger (cells : ι → Finset α) where
  base : Finset α
  live : List ι
  base_disjoint : ∀ r ∈ live, Disjoint base (cells r)
  pairwise : live.Pairwise fun r r' => Disjoint (cells r) (cells r')

namespace Ledger

variable {cells : ι → Finset α} (L : Ledger cells)

/-- The cells of the live runs. -/
def held : Finset α := L.live.foldr (fun r t => cells r ∪ t) ∅

/-- All cells that are held. -/
def used : Finset α := L.base ∪ L.held

/-- The ledger with no live run. -/
def start (cells : ι → Finset α) (base : Finset α) : Ledger cells :=
  ⟨base, [], by simp, .nil⟩

theorem mem_held {a : α} : a ∈ L.held ↔ ∃ r ∈ L.live, a ∈ cells r := by
  rw [held]
  induction L.live with
  | nil => simp
  | cons r live ih => simp [ih]

theorem mem_used {a : α} : a ∈ L.used ↔ a ∈ L.base ∨ ∃ r ∈ L.live, a ∈ cells r := by
  rw [used, Finset.mem_union, mem_held]

@[simp] theorem used_start (base : Finset α) : (start cells base).used = base := by
  simp [used, held, start]

theorem used_of_live_eq_nil (h : L.live = []) : L.used = L.base := by
  simp [used, held, h]

theorem cells_subset_used {r : ι} (hr : r ∈ L.live) : cells r ⊆ L.used :=
  fun _ ha => L.mem_used.mpr (Or.inr ⟨r, hr, ha⟩)

theorem base_subset_used : L.base ⊆ L.used := Finset.subset_union_left

theorem disjoint_base_held : Disjoint L.base L.held := by
  rw [Finset.disjoint_left]
  intro a ha hh
  obtain ⟨r, hr, har⟩ := L.mem_held.mp hh
  exact Finset.disjoint_left.mp (L.base_disjoint r hr) ha har

omit [DecidableEq α] in
/-- Different live runs share no cell. -/
theorem disjoint_live {r r' : ι} (hr : r ∈ L.live) (hr' : r' ∈ L.live) (hne : r ≠ r') :
    Disjoint (cells r) (cells r') := by
  have : Std.Symm fun r r' => Disjoint (cells r) (cells r') := ⟨fun _ _ h => h.symm⟩
  exact L.pairwise.forall hr hr' hne

/-- Base cells and live cells are counted apart. -/
theorem card_used : L.used.card = L.base.card + L.held.card :=
  Finset.card_union_of_disjoint L.disjoint_base_held

/-- A run of cells nobody holds becomes live. -/
def alloc (r : ι) (h : Disjoint L.used (cells r)) : Ledger cells where
  base := L.base
  live := r :: L.live
  base_disjoint := by
    intro r' hr'
    obtain rfl | hr' := List.mem_cons.mp hr'
    · exact Finset.disjoint_of_subset_left L.base_subset_used h
    · exact L.base_disjoint r' hr'
  pairwise := by
    refine List.pairwise_cons.mpr ⟨fun r' hr' => ?_, L.pairwise⟩
    exact (Finset.disjoint_of_subset_left (L.cells_subset_used hr') h).symm

@[simp] theorem base_alloc {r : ι} (h : Disjoint L.used (cells r)) :
    (L.alloc r h).base = L.base := rfl

@[simp] theorem live_alloc {r : ι} (h : Disjoint L.used (cells r)) :
    (L.alloc r h).live = r :: L.live := rfl

theorem used_alloc {r : ι} (h : Disjoint L.used (cells r)) :
    (L.alloc r h).used = L.used ∪ cells r := by
  ext a
  simp only [mem_used, base_alloc, live_alloc, Finset.mem_union, List.exists_mem_cons_iff]
  rw [or_assoc]
  exact or_congr_right or_comm

variable [DecidableEq ι]

/-- A live run is given back. -/
def free (r : ι) : Ledger cells where
  base := L.base
  live := L.live.erase r
  base_disjoint := fun r' hr' => L.base_disjoint r' (List.mem_of_mem_erase hr')
  pairwise := L.pairwise.sublist List.erase_sublist

omit [DecidableEq α] in
@[simp] theorem live_free (r : ι) : (L.free r).live = L.live.erase r := rfl

omit [DecidableEq α] in
/-- A live run and the runs that stay live after it is given back share no
cell. -/
theorem disjoint_free {r : ι} (hr : r ∈ L.live) :
    ∀ r' ∈ L.live.erase r, Disjoint (cells r) (cells r') := by
  have hperm : (r :: L.live.erase r).Pairwise fun r r' => Disjoint (cells r) (cells r') :=
    (List.perm_cons_erase hr).pairwise L.pairwise fun h => h.symm
  exact (List.pairwise_cons.mp hperm).1

theorem used_free {r : ι} (hr : r ∈ L.live) : (L.free r).used = L.used \ cells r := by
  ext a
  rw [Finset.mem_sdiff, mem_used, mem_used]
  constructor
  · rintro (ha | ⟨r', hr', ha⟩)
    · exact ⟨Or.inl ha, Finset.disjoint_left.mp (L.base_disjoint r hr) ha⟩
    · exact ⟨Or.inr ⟨r', List.mem_of_mem_erase hr', ha⟩,
        Finset.disjoint_right.mp (L.disjoint_free hr r' hr') ha⟩
  · rintro ⟨ha | ⟨r', hr', ha⟩, hnot⟩
    · exact Or.inl ha
    · refine Or.inr ⟨r', ?_, ha⟩
      have hne : r' ≠ r := fun h => hnot (h ▸ ha)
      exact (List.mem_erase_of_ne hne).mpr hr'

end Ledger

end StardustOS.Lib
