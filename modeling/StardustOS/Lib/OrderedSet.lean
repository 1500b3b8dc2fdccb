import Mathlib.Data.List.Induction
import Mathlib.Data.List.Nodup
import Mathlib.Tactic.Common

/-!
# Ordered sets

A set of values to which values are added and from which they are removed.  It has an
order: a value that is added comes first, and one that is there already stays where it
is.

`held` is the set after a history of calls.  `mem_held` says which values are in it, and
`pair_held` which of two comes first, each by the calls of the history.

A list of records with distinct keys keeps such a set, with more about each value.
-/

namespace StardustOS.Lib

variable {ν : Type*}

/-- A call that changes the set. -/
inductive SetCall (ν : Type*)
  | add (v : ν)
  | remove (v : ν)
  deriving DecidableEq

/-- The value was added, and not removed since. -/
def Stays (cs : List (SetCall ν)) (v : ν) : Prop :=
  ∃ pre post, cs = pre ++ .add v :: post ∧ .remove v ∉ post

variable {cs : List (SetCall ν)} {c : SetCall ν} {u v w : ν}

/-! ## The last call of a history -/

/-- A call of a history with one more is the last one, or one of those before. -/
theorem snoc_eq_append {d : SetCall ν} {pre post : List (SetCall ν)} :
    cs ++ [c] = pre ++ d :: post ↔
      (post = [] ∧ cs = pre ∧ c = d) ∨ ∃ post', post = post' ++ [c] ∧ cs = pre ++ d :: post' := by
  rcases List.eq_nil_or_concat post with rfl | ⟨post', e, rfl⟩
  · simp
  · have hpost : pre ++ d :: (post' ++ [e]) = (pre ++ d :: post') ++ [e] := by simp
    rw [List.concat_eq_append, hpost, List.append_singleton_inj]
    constructor
    · rintro ⟨hcs, rfl⟩
      exact .inr ⟨post', rfl, hcs⟩
    · rintro (⟨h, -⟩ | ⟨post'', h, hcs⟩)
      · simp at h
      · obtain ⟨rfl, rfl⟩ := List.append_singleton_inj.mp h
        exact ⟨hcs, rfl⟩

theorem stays_snoc :
    Stays (cs ++ [c]) v ↔ c = .add v ∨ c ≠ .remove v ∧ Stays cs v := by
  constructor
  · rintro ⟨pre, post, hcs, hpost⟩
    rcases snoc_eq_append.mp hcs with ⟨-, -, rfl⟩ | ⟨post', rfl, rfl⟩
    · exact .inl rfl
    · rw [List.mem_append, List.mem_singleton, not_or] at hpost
      exact .inr ⟨fun h => hpost.2 h.symm, pre, post', rfl, hpost.1⟩
  · rintro (rfl | ⟨hc, pre, post, rfl, hpost⟩)
    · exact ⟨cs, [], rfl, List.not_mem_nil⟩
    · refine ⟨pre, post ++ [c], by simp, ?_⟩
      rw [List.mem_append, List.mem_singleton, not_or]
      exact ⟨hpost, fun h => hc h.symm⟩

/-- Two values of which the first comes before the second. -/
theorem pair_cons {l : List ν} : [v, u].Sublist (w :: l) ↔ [v, u].Sublist l ∨ v = w ∧ u ∈ l := by
  rw [List.sublist_cons_iff]
  simp [and_comm, eq_comm]

/-! ## The values after a history -/

variable [DecidableEq ν]

/-- What a call does with the values. -/
def SetCall.next (l : List ν) : SetCall ν → List ν
  | .add v => if v ∈ l then l else v :: l
  | .remove v => l.erase v

/-- The values after a history of calls on the empty set. -/
def held (cs : List (SetCall ν)) : List ν := cs.foldl SetCall.next []

theorem held_snoc (cs : List (SetCall ν)) (c : SetCall ν) :
    held (cs ++ [c]) = c.next (held cs) := by
  simp [held]

/-- There are no more values than calls. -/
theorem length_held_le (cs : List (SetCall ν)) : (held cs).length ≤ cs.length := by
  induction cs using List.reverseRecOn with
  | nil => exact Nat.le_refl _
  | append_singleton cs c ih =>
      rw [held_snoc, List.length_append, List.length_singleton]
      cases c with
      | add v =>
          rw [SetCall.next]
          split
          · exact Nat.le_succ_of_le ih
          · exact Nat.succ_le_succ ih
      | remove v => exact Nat.le_succ_of_le (Nat.le_trans List.length_erase_le ih)

/-- No value is there twice. -/
theorem held_nodup (cs : List (SetCall ν)) : (held cs).Nodup := by
  induction cs using List.reverseRecOn with
  | nil => exact List.nodup_nil
  | append_singleton cs c ih =>
      rw [held_snoc]
      cases c with
      | add v =>
          rw [SetCall.next]
          split
          · exact ih
          · rename_i hv
            exact List.nodup_cons.mpr ⟨hv, ih⟩
      | remove v => exact ih.erase v

/-- The set holds the values that were added and not removed since. -/
theorem mem_held : v ∈ held cs ↔ Stays cs v := by
  induction cs using List.reverseRecOn with
  | nil => simp [held, Stays]
  | append_singleton cs c ih =>
      rw [held_snoc, stays_snoc, ← ih]
      cases c with
      | add w =>
          rw [SetCall.next]
          split <;> grind
      | remove w =>
          rw [SetCall.next, (held_nodup cs).mem_erase_iff]
          grind

/-! ## The order of two values -/

/-- `v` was added when `u` was there and `v` was not, and both stayed. -/
def AddedAfter (cs : List (SetCall ν)) (v u : ν) : Prop :=
  ∃ pre post, cs = pre ++ .add v :: post ∧ v ∉ held pre ∧ u ∈ held pre ∧
    .remove v ∉ post ∧ .remove u ∉ post

theorem addedAfter_snoc :
    AddedAfter (cs ++ [c]) v u ↔
      (c = .add v ∧ v ∉ held cs ∧ u ∈ held cs) ∨
        (c ≠ .remove v ∧ c ≠ .remove u ∧ AddedAfter cs v u) := by
  constructor
  · rintro ⟨pre, post, hcs, hv, hu, hpv, hpu⟩
    rcases snoc_eq_append.mp hcs with ⟨-, rfl, rfl⟩ | ⟨post', rfl, rfl⟩
    · exact .inl ⟨rfl, hv, hu⟩
    · rw [List.mem_append, List.mem_singleton, not_or] at hpv hpu
      exact .inr ⟨fun h => hpv.2 h.symm, fun h => hpu.2 h.symm, pre, post', rfl, hv, hu, hpv.1,
        hpu.1⟩
  · rintro (⟨rfl, hv, hu⟩ | ⟨hcv, hcu, pre, post, rfl, hv, hu, hpv, hpu⟩)
    · exact ⟨cs, [], rfl, hv, hu, List.not_mem_nil, List.not_mem_nil⟩
    · refine ⟨pre, post ++ [c], by simp, hv, hu, ?_, ?_⟩ <;>
        rw [List.mem_append, List.mem_singleton, not_or]
      · exact ⟨hpv, fun h => hcv h.symm⟩
      · exact ⟨hpu, fun h => hcu h.symm⟩

theorem pair_erase {l : List ν} (h : l.Nodup) :
    [v, u].Sublist (l.erase w) ↔ w ≠ v ∧ w ≠ u ∧ [v, u].Sublist l := by
  rw [h.erase_eq_filter]
  constructor
  · intro hs
    have hv := (List.mem_filter.mp (hs.subset List.mem_cons_self)).2
    have hu := (List.mem_filter.mp (hs.subset (List.mem_cons_of_mem _ List.mem_cons_self))).2
    exact ⟨by grind, by grind, hs.trans List.filter_sublist⟩
  · rintro ⟨hv, hu, hs⟩
    have hkept : [v, u].filter (fun x => x != w) = [v, u] := by grind
    exact hkept ▸ hs.filter _

/-- Of two values the one that was added when the other was there comes first. -/
theorem pair_held : [v, u].Sublist (held cs) ↔ AddedAfter cs v u := by
  induction cs using List.reverseRecOn with
  | nil => simp [held, AddedAfter]
  | append_singleton cs c ih =>
      rw [held_snoc, addedAfter_snoc, ← ih]
      cases c with
      | add w =>
          rw [SetCall.next]
          split
          · grind
          · rw [pair_cons]
            grind
      | remove w =>
          rw [SetCall.next, pair_erase (held_nodup cs)]
          simp

/-! ## Records with keys -/

section Records

variable {ρ : Type*} {key : ρ → ν} {l : List ρ} {x : ρ}

/-- To remove the record of a key is to remove the key. -/
theorem map_eraseP_key (key : ρ → ν) (v : ν) (l : List ρ) :
    (l.eraseP fun x => key x = v).map key = (l.map key).erase v := by
  rw [List.erase_eq_eraseP, List.eraseP_map]
  refine congrArg (fun p => (l.eraseP p).map key) (funext fun x => ?_)
  simp [beq_eq_decide, eq_comm]

/-- The other records stay. -/
theorem mem_eraseP_key (h : (l.map key).Nodup) :
    x ∈ l.eraseP (fun x => key x = v) ↔ x ∈ l ∧ key x ≠ v := by
  induction l with
  | nil => simp
  | cons y l ih =>
      obtain ⟨hy, hrest⟩ := List.nodup_cons.mp h
      by_cases hv : key y = v
      · rw [List.eraseP_cons_of_pos (by simpa using hv), List.mem_cons]
        constructor
        · intro hx
          exact ⟨Or.inr hx, fun hxv => hy (hv.trans hxv.symm ▸ List.mem_map_of_mem hx)⟩
        · rintro ⟨rfl | hx, hne⟩
          · exact absurd hv hne
          · exact hx
      · rw [List.eraseP_cons_of_neg (by simpa using hv), List.mem_cons, List.mem_cons, ih hrest]
        constructor
        · rintro (rfl | ⟨hx, hne⟩)
          · exact ⟨Or.inl rfl, hv⟩
          · exact ⟨Or.inr hx, hne⟩
        · rintro ⟨rfl | hx, hne⟩
          · exact Or.inl rfl
          · exact Or.inr ⟨hx, hne⟩

/-- The record of a key is found. -/
theorem find?_key (h : (l.map key).Nodup) :
    l.find? (fun x => key x = v) = some x ↔ x ∈ l ∧ key x = v := by
  constructor
  · intro hx
    exact ⟨List.mem_of_find?_eq_some hx, by simpa using List.find?_some hx⟩
  · rintro ⟨hx, rfl⟩
    have hsome : (l.find? fun y => key y = key x).isSome := by
      rw [List.find?_isSome]
      exact ⟨x, hx, decide_eq_true rfl⟩
    obtain ⟨y, hy⟩ := Option.isSome_iff_exists.mp hsome
    have hkey : key y = key x := by simpa using List.find?_some hy
    rw [hy, List.inj_on_of_nodup_map h (List.mem_of_find?_eq_some hy) hx hkey]

end Records

end StardustOS.Lib
