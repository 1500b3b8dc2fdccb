import StardustOS.Lib.Run

/-!
# Traces of a heap

What a program does with the blocks of a heap, in order: it is given a block, it
uses one, it gives one back.  A block is named by the allocation it comes from,
so memory that is handed out again is another block.

`heapStep` keeps the live blocks, and is undefined where a block that is not live
is used or given back.  A trace that ends where it began (`run heapStep live t =
some live`) therefore frees every block it was given exactly once, and uses none
of them afterwards.
-/

namespace StardustOS.Lib

variable {β : Type*}

/-- What is done with a block. -/
inductive HeapEvent (β : Type*) where
  | alloc (b : β)
  | use (b : β)
  | free (b : β)
deriving DecidableEq

variable [DecidableEq β]

/-- The live blocks after an event. -/
def heapStep (live : List β) : HeapEvent β → Option (List β)
  | .alloc b => if b ∈ live then none else some (b :: live)
  | .use b => if b ∈ live then some live else none
  | .free b => if b ∈ live then some (live.erase b) else none

theorem heapStep_use {live : List β} {b : β} (h : b ∈ live) :
    heapStep live (.use b) = some live := if_pos h

/-- One event takes away no block but the one it gives back. -/
theorem mem_of_heapStep {live live' : List β} {e : HeapEvent β} {b : β}
    (h : heapStep live e = some live') (hfree : e ≠ .free b)
    (hb : b ∈ live ∨ e = .alloc b) : b ∈ live' := by
  cases e with
  | alloc c =>
      obtain ⟨-, h⟩ := Option.ite_none_left_eq_some.mp h
      cases h
      obtain hb | hb := hb
      · exact List.mem_cons_of_mem c hb
      · cases hb
        exact List.mem_cons_self
  | use c =>
      obtain ⟨-, h⟩ := Option.ite_none_right_eq_some.mp h
      cases h
      obtain hb | hb := hb
      · exact hb
      · cases hb
  | free c =>
      obtain ⟨-, h⟩ := Option.ite_none_right_eq_some.mp h
      cases h
      obtain hb | hb := hb
      · have hne : b ≠ c := by
          rintro rfl
          exact hfree rfl
        exact (List.mem_erase_of_ne hne).mpr hb
      · cases hb

/-- A block that is live or handed out, and not given back, is live at the end. -/
theorem mem_of_run {t : List (HeapEvent β)} {live live' : List β} {b : β}
    (h : run heapStep live t = some live') (hfree : .free b ∉ t)
    (hb : b ∈ live ∨ .alloc b ∈ t) : b ∈ live' := by
  induction t generalizing live with
  | nil =>
      cases h
      simpa using hb
  | cons e t ih =>
      obtain ⟨mid, hstep, hrun⟩ := run_cons.mp h
      rw [List.mem_cons, not_or] at hfree
      rw [List.mem_cons] at hb
      obtain hb | rfl | hb := hb
      · exact ih hrun hfree.2 (Or.inl (mem_of_heapStep hstep (Ne.symm hfree.1) (Or.inl hb)))
      · exact ih hrun hfree.2 (Or.inl (mem_of_heapStep hstep (Ne.symm hfree.1) (Or.inr rfl)))
      · exact ih hrun hfree.2 (Or.inr hb)

/-- A trace that leaves nothing live has given back every block it was given. -/
theorem free_mem_of_run {t : List (HeapEvent β)} {b : β} (h : run heapStep [] t = some [])
    (hb : .alloc b ∈ t) : .free b ∈ t := by
  refine Decidable.byContradiction ?_
  intro hfree
  exact List.not_mem_nil (mem_of_run h hfree (Or.inr hb))

/-! ## Blocks that were given back -/

theorem nodup_of_heapStep {live live' : List β} {e : HeapEvent β}
    (h : heapStep live e = some live') (hlive : live.Nodup) : live'.Nodup := by
  cases e with
  | alloc c =>
      obtain ⟨hc, h⟩ := Option.ite_none_left_eq_some.mp h
      cases h
      exact List.nodup_cons.mpr ⟨hc, hlive⟩
  | use c =>
      obtain ⟨-, h⟩ := Option.ite_none_right_eq_some.mp h
      cases h
      exact hlive
  | free c =>
      obtain ⟨-, h⟩ := Option.ite_none_right_eq_some.mp h
      cases h
      exact hlive.erase c

/-- A block that is not live becomes so only when it is handed out. -/
theorem notMem_of_heapStep {live live' : List β} {e : HeapEvent β} {b : β}
    (h : heapStep live e = some live') (halloc : e ≠ .alloc b) (hb : b ∉ live) : b ∉ live' := by
  cases e with
  | alloc c =>
      obtain ⟨-, h⟩ := Option.ite_none_left_eq_some.mp h
      cases h
      rw [List.mem_cons, not_or]
      exact ⟨fun hbc => halloc (hbc ▸ rfl), hb⟩
  | use c =>
      obtain ⟨-, h⟩ := Option.ite_none_right_eq_some.mp h
      cases h
      exact hb
  | free c =>
      obtain ⟨-, h⟩ := Option.ite_none_right_eq_some.mp h
      cases h
      exact fun hmem => hb (List.mem_of_mem_erase hmem)

theorem notMem_of_run {t : List (HeapEvent β)} {live live' : List β} {b : β}
    (h : run heapStep live t = some live') (halloc : .alloc b ∉ t) (hb : b ∉ live) :
    b ∉ live' := by
  induction t generalizing live with
  | nil =>
      cases h
      exact hb
  | cons e t ih =>
      obtain ⟨mid, hstep, hrun⟩ := run_cons.mp h
      rw [List.mem_cons, not_or] at halloc
      exact ih hrun halloc.2 (notMem_of_heapStep hstep (Ne.symm halloc.1) hb)

/-- A block that is used after it was given back makes a trace undefined, unless it
is handed out again in between. -/
theorem run_use_after_free (t₁ : List (HeapEvent β)) {t₂ : List (HeapEvent β)}
    (t₃ : List (HeapEvent β)) {live : List β} {b : β} (hlive : live.Nodup)
    (halloc : .alloc b ∉ t₂) :
    run heapStep live (t₁ ++ .free b :: (t₂ ++ .use b :: t₃)) = none := by
  rw [Option.eq_none_iff_forall_ne_some]
  intro last h
  rw [run_append, Option.bind_eq_some_iff] at h
  obtain ⟨live₁, h₁, h⟩ := h
  obtain ⟨live₂, hfree, h⟩ := run_cons.mp h
  rw [run_append, Option.bind_eq_some_iff] at h
  obtain ⟨live₃, h₂, h⟩ := h
  obtain ⟨live₄, huse, -⟩ := run_cons.mp h
  have hnodup : live₁.Nodup :=
    run_invariant (I := List.Nodup) (C := fun _ _ => True)
      (fun _ _ _ hl _ hs => nodup_of_heapStep hs hl) t₁ hlive (meets_true t₁) h₁
  have hgone : b ∉ live₂ := by
    obtain ⟨-, h⟩ := Option.ite_none_right_eq_some.mp hfree
    cases h
    exact hnodup.not_mem_erase
  have hstill := notMem_of_run h₂ halloc hgone
  obtain ⟨hmem, -⟩ := Option.ite_none_right_eq_some.mp huse
  exact hstill hmem

/-- Blocks that are live may be used. -/
theorem run_uses {bs live : List β} (h : ∀ b ∈ bs, b ∈ live) :
    run heapStep live (bs.map .use) = some live := by
  induction bs with
  | nil => rfl
  | cons b bs ih =>
      rw [List.forall_mem_cons] at h
      exact run_cons.mpr ⟨live, heapStep_use h.1, ih h.2⟩

/-- Blocks that are live may be given back, each once. -/
theorem run_frees {bs live : List β} (h : live.Perm bs) :
    run heapStep live (bs.flatMap fun b => [.use b, .free b]) = some [] := by
  induction bs generalizing live with
  | nil =>
      rw [List.perm_nil.mp h]
      rfl
  | cons b bs ih =>
      have hmem : b ∈ live := h.mem_iff.mpr List.mem_cons_self
      have hrest : (live.erase b).Perm bs := by
        have herase := h.erase b
        rwa [List.erase_cons_head] at herase
      rw [List.flatMap_cons]
      exact run_cons.mpr ⟨live, heapStep_use hmem,
        run_cons.mpr ⟨live.erase b, if_pos hmem, ih hrest⟩⟩

end StardustOS.Lib
