import Mathlib.Tactic.TypeStar

/-!
# Runs of a system whose calls may be undefined

A system is a step function `σ → ι → Option σ`: `σ` is the state, `ι` the type
of calls, and `none` says that the call has no defined meaning in that state (a
caller broke the contract, or the code follows a pointer it may not follow).

A condition on calls is a relation between a state and the call made in it.
`Meets` says that every call of a run meets a condition in the state it is made
in.  Two rules of this file carry an invariant from one call to whole runs:
`run_invariant` for runs that are known to be defined, `run_defined` for runs
that the condition makes defined.  `Until` is about what lies between: it says
that something lasts along a run until something else happens, and
`until_of_step` is its rule.  `yield` is what the calls of a run let be seen of them,
with the rules `yield_append`,
`yield_queue` and `count_yield`.
-/

namespace StardustOS.Lib

variable {σ ι : Type*} (step : σ → ι → Option σ)

/-- A whole run: the calls are made in turn, and an undefined call ends it. -/
def run : σ → List ι → Option σ
  | s, [] => some s
  | s, i :: is => (step s i).bind fun s' => run s' is

/-- Every call of the run meets `Cond` in the state it is made in. -/
def Meets (Cond : σ → ι → Prop) : σ → List ι → Prop
  | _, [] => True
  | s, i :: is => Cond s i ∧ ∀ s', step s i = some s' → Meets Cond s' is

/-- `A` holds in every state, and every call is made as `G` says, up to a state
in which `B` holds, if the run reaches one. -/
def Until (A B : σ → Prop) (G : σ → ι → Prop) : σ → List ι → Prop
  | s, [] => A s
  | s, i :: is => A s ∧ G s i ∧ ∀ s', step s i = some s' → B s' ∨ Until A B G s' is

variable {step}

theorem run_cons {s s' : σ} {i : ι} {is : List ι} :
    run step s (i :: is) = some s' ↔ ∃ t, step s i = some t ∧ run step t is = some s' := by
  simp [run, Option.bind_eq_some_iff]

theorem run_singleton (s : σ) (i : ι) : run step s [i] = step s i :=
  Option.bind_fun_some _

theorem run_append (is js : List ι) (s : σ) :
    run step s (is ++ js) = (run step s is).bind fun t => run step t js := by
  induction is generalizing s with
  | nil => rfl
  | cons i is ih =>
      rw [List.cons_append, run, run, Option.bind_assoc]
      exact congrArg _ (funext ih)

/-- A system that is another one with something recorded beside it makes the runs
of that one. -/
theorem run_map {τ : Type*} {step' : τ → ι → Option τ} {f : σ → τ}
    (hstep : ∀ s i, (step s i).map f = step' (f s) i) (is : List ι) (s : σ) :
    (run step s is).map f = run step' (f s) is := by
  induction is generalizing s with
  | nil => rfl
  | cons i is ih =>
      rw [run, run, ← hstep, Option.map_bind, Option.bind_map]
      exact congrArg _ (funext ih)

/-- Every run of the one is the run of the other with the record left out. -/
theorem exists_run_of_map {τ : Type*} {step' : τ → ι → Option τ} {f : σ → τ}
    (hstep : ∀ s i, (step s i).map f = step' (f s) i) (is : List ι) {s : σ} {t : τ}
    (h : run step' (f s) is = some t) : ∃ s', run step s is = some s' ∧ f s' = t :=
  Option.map_eq_some_iff.mp ((run_map hstep is s).trans h)

/-- Whether a run meets a condition is found by making it. -/
instance Meets.decidable {Cond : σ → ι → Prop} [∀ s i, Decidable (Cond s i)] :
    ∀ (s : σ) (is : List ι), Decidable (Meets step Cond s is)
  | _, [] => inferInstanceAs (Decidable True)
  | s, i :: is =>
      match h : step s i with
      | none => decidable_of_iff (Cond s i) (by simp [Meets, h])
      | some t =>
          have : Decidable (Meets step Cond t is) := Meets.decidable t is
          decidable_of_iff (Cond s i ∧ Meets step Cond t is) (by simp [Meets, h])

/-- A system that is another one with something more in its state meets the
conditions that the other one meets. -/
theorem meets_map {τ : Type*} {step' : τ → ι → Option τ} {f : σ → τ} {C : τ → ι → Prop}
    (hstep : ∀ s i, (step s i).map f = step' (f s) i) (is : List ι) (s : σ) :
    Meets step (fun s i => C (f s) i) s is ↔ Meets step' C (f s) is := by
  induction is generalizing s with
  | nil => exact Iff.rfl
  | cons i is ih =>
      rw [Meets, Meets, ← hstep]
      refine and_congr_right fun _ => ?_
      cases step s i with
      | none => simp
      | some t => simpa using ih t

/-- Every run meets a condition that every call meets. -/
theorem meets_of_forall {C : σ → ι → Prop} (h : ∀ s i, C s i) (is : List ι) {s : σ} :
    Meets step C s is := by
  induction is generalizing s with
  | nil => trivial
  | cons i is ih =>
      exact ⟨h s i, fun _ _ => ih⟩

/-- Every run meets the condition that asks for nothing. -/
theorem meets_true (is : List ι) {s : σ} : Meets step (fun _ _ => True) s is :=
  meets_of_forall (fun _ _ => trivial) is

/-- A property that every call meeting the condition keeps holds at the end of
every defined run whose calls all meet it. -/
theorem run_invariant {I : σ → Prop} {C : σ → ι → Prop}
    (hstep : ∀ s i s', I s → C s i → step s i = some s' → I s') (is : List ι) {s s' : σ}
    (hs : I s) (hm : Meets step C s is) (h : run step s is = some s') : I s' := by
  induction is generalizing s with
  | nil =>
      cases h
      exact hs
  | cons i is ih =>
      obtain ⟨t, ht, hrun⟩ := run_cons.mp h
      exact ih (hstep s i t hs hm.1 ht) (hm.2 t ht) hrun

/-- Every run meets a condition that says of each of its calls what is known. -/
theorem meets_of_mem {Q : ι → Prop} (is : List ι) {s : σ} (h : ∀ i ∈ is, Q i) :
    Meets step (fun _ => Q) s is := by
  induction is generalizing s with
  | nil => trivial
  | cons i is ih =>
      exact ⟨h i List.mem_cons_self, fun _ _ => ih fun j hj => h j (List.mem_cons_of_mem _ hj)⟩

/-- When every call that meets the one condition in a state of the invariant meets
the other one and keeps the invariant, so does every run. -/
theorem meets_of_step {I : σ → Prop} {C C' : σ → ι → Prop}
    (hstep : ∀ s i, I s → C s i → C' s i ∧ ∀ s', step s i = some s' → I s') (is : List ι) {s : σ}
    (hs : I s) (hm : Meets step C s is) : Meets step C' s is := by
  induction is generalizing s with
  | nil => trivial
  | cons i is ih =>
      obtain ⟨hc, hnext⟩ := hstep s i hs hm.1
      exact ⟨hc, fun s' hs' => ih (hnext s' hs') (hm.2 s' hs')⟩

/-- Two conditions that say the same of the calls made in states of an invariant
that they keep say the same of runs, as far as the runs stay within `D`. -/
theorem meets_congr_within {I : σ → Prop} {C C' D : σ → ι → Prop}
    (hiff : ∀ s i, I s → D s i → (C s i ↔ C' s i))
    (hstep : ∀ s i s', I s → D s i → C s i → step s i = some s' → I s') (is : List ι) {s : σ}
    (hs : I s) (hd : Meets step D s is) : Meets step C s is ↔ Meets step C' s is := by
  induction is generalizing s with
  | nil => exact Iff.rfl
  | cons i is ih =>
      rw [Meets, Meets, ← hiff s i hs hd.1]
      refine and_congr_right fun hc => forall_congr' fun t => imp_congr_right ?_
      intro ht
      exact ih (hstep s i t hs hd.1 hc ht) (hd.2 t ht)

/-- The same with what is known of each call. -/
theorem meets_congr {I : σ → Prop} {C C' : σ → ι → Prop} {Q : ι → Prop}
    (hiff : ∀ s i, I s → Q i → (C s i ↔ C' s i))
    (hstep : ∀ s i s', I s → Q i → C s i → step s i = some s' → I s') (is : List ι) {s : σ}
    (hs : I s) (hq : ∀ i ∈ is, Q i) : Meets step C s is ↔ Meets step C' s is :=
  meets_congr_within hiff hstep is hs (meets_of_mem is hq)

/-- When every call that meets the condition is defined and keeps the
invariant, a run whose calls all meet it is defined and ends in the invariant. -/
theorem run_defined {I : σ → Prop} {C : σ → ι → Prop}
    (hstep : ∀ s i, I s → C s i → ∃ s', step s i = some s' ∧ I s') (is : List ι) {s : σ}
    (hs : I s) (hm : Meets step C s is) : ∃ s', run step s is = some s' ∧ I s' := by
  induction is generalizing s with
  | nil => exact ⟨s, rfl, hs⟩
  | cons i is ih =>
      obtain ⟨t, ht, hti⟩ := hstep s i hs hm.1
      obtain ⟨s', hrun, hs'⟩ := ih hti (hm.2 t ht)
      exact ⟨s', run_cons.mpr ⟨t, ht, hrun⟩, hs'⟩

/-- When every call that meets the condition is made as `G` says and keeps `A`
or leads to `B`, a run from `A` whose calls all meet it keeps `A` until `B`. -/
theorem until_of_step {A B : σ → Prop} {G Cond : σ → ι → Prop}
    (hstep : ∀ s i, A s → Cond s i → G s i ∧ ∀ s', step s i = some s' → B s' ∨ A s')
    (is : List ι) {s : σ} (hs : A s) (hm : Meets step Cond s is) : Until step A B G s is := by
  induction is generalizing s with
  | nil => exact hs
  | cons i is ih =>
      obtain ⟨hg, hnext⟩ := hstep s i hs hm.1
      refine ⟨hs, hg, ?_⟩
      intro s' hs'
      obtain hb | ha := hnext s' hs'
      · exact Or.inl hb
      · exact Or.inr (ih ha (hm.2 s' hs'))

/-! ## What a run yields -/

section Yield

variable {β : Type*} {out : σ → ι → List β} {I : σ → Prop} {C : σ → ι → Prop}

/-- What the calls of a run yield, in turn. -/
def yield (step : σ → ι → Option σ) (out : σ → ι → List β) : σ → List ι → List β
  | _, [] => []
  | s, i :: is => out s i ++ (step s i).elim [] fun s' => yield step out s' is

theorem yield_cons {s s' : σ} {i : ι} (h : step s i = some s') (is : List ι) :
    yield step out s (i :: is) = out s i ++ yield step out s' is := by
  rw [yield, h]
  rfl

/-- A list of what is due, of which every call yields the beginning. -/
theorem yield_append {due : σ → List β}
    (hstep : ∀ s i s', I s → C s i → step s i = some s' → I s' ∧ out s i ++ due s' = due s)
    (is : List ι) {s s' : σ} (hs : I s) (hm : Meets step C s is) (h : run step s is = some s') :
    yield step out s is ++ due s' = due s := by
  induction is generalizing s with
  | nil =>
      cases h
      rfl
  | cons i is ih =>
      obtain ⟨t, ht, hrun⟩ := run_cons.mp h
      obtain ⟨hi, hdue⟩ := hstep s i t hs hm.1 ht
      rw [yield_cons ht, List.append_assoc, ih hi (hm.2 t ht) hrun, hdue]

/-- A queue: what was in it and what enters is what leaves and what is in it, in this order. -/
theorem yield_queue {γ : Type*} {queue : σ → List γ} {enter leave : β → List γ}
    (hstep : ∀ s i s', I s → C s i → step s i = some s' → I s' ∧
      queue s ++ (out s i).flatMap enter = (out s i).flatMap leave ++ queue s')
    (is : List ι) {s s' : σ} (hs : I s) (hm : Meets step C s is) (h : run step s is = some s') :
    queue s ++ (yield step out s is).flatMap enter =
      (yield step out s is).flatMap leave ++ queue s' := by
  induction is generalizing s with
  | nil =>
      cases h
      simp only [yield, List.flatMap_nil, List.append_nil, List.nil_append]
  | cons i is ih =>
      obtain ⟨t, ht, hrun⟩ := run_cons.mp h
      obtain ⟨hi, hone⟩ := hstep s i t hs hm.1 ht
      rw [yield_cons ht, List.flatMap_append, List.flatMap_append, ← List.append_assoc, hone,
        List.append_assoc, ih hi (hm.2 t ht) hrun, List.append_assoc]

/-- An account that every call keeps: what comes in and what was there is there or goes out,
in one of two ways. -/
theorem count_yield [DecidableEq β] {held : σ → Nat} {gain loss loss' : β}
    (hstep : ∀ s i s', I s → step s i = some s' → I s' ∧
      (out s i).count gain + held s = held s' + ((out s i).count loss + (out s i).count loss'))
    (is : List ι) {s s' : σ} (hs : I s) (h : run step s is = some s') :
    (yield step out s is).count gain + held s = held s' +
      ((yield step out s is).count loss + (yield step out s is).count loss') := by
  induction is generalizing s with
  | nil =>
      cases h
      simp only [yield, List.count_nil, Nat.zero_add, Nat.add_zero]
  | cons i is ih =>
      obtain ⟨t, ht, hrun⟩ := run_cons.mp h
      obtain ⟨hi, hone⟩ := hstep s i t hs ht
      have hrest := ih hi hrun
      rw [yield_cons ht]
      simp only [List.count_append]
      omega

end Yield

end StardustOS.Lib
