import StardustOS.Kmod.Init
import StardustOS.Lib.Loop
import Mathlib.Logic.Relation
import Mathlib.Order.WellFoundedSet

/-!
# Dependencies come first

Whenever an init function is called, the modules its module depends on are
installed, and their init functions were called before and succeeded
(`DepsFirst`).  The invariant `Sound` relates the links of the loaded list to
the calls: a module with a link was initialised.  The link of the last module of
the list is NULL, so this is not an equivalence, but it is all that this needs.

The calls of `module_init` end since they follow a dependency relation without
cycles on finitely many modules.
-/

namespace StardustOS.Kmod

open Relation

variable {init : List (Id × Int) → Id → Int} {installed : List Modinfo}

/-! ## The property -/

/-- A call is of an installed module, after successful calls of its
dependencies, which are installed too.  A call that fails is the last. -/
structure DepsFirst (installed : List Modinfo) (calls : List (Id × Int)) : Prop where
  deps : ∀ pre id r post, calls = pre ++ (id, r) :: post →
    ∃ m ∈ installed, m.id = id ∧ ∀ d ∈ m.depIds,
      (∃ m' ∈ installed, m'.id = d) ∧ ∃ r', 0 ≤ r' ∧ (d, r') ∈ pre
  last : ∀ pre id r post, calls = pre ++ (id, r) :: post → r < 0 → post = []

theorem DepsFirst.nil : DepsFirst installed [] := ⟨by simp, by simp⟩

/-- One call more. -/
theorem DepsFirst.snoc {calls : List (Id × Int)} {m : Modinfo} {r : Int}
    (h : DepsFirst installed calls) (hok : ∀ c ∈ calls, 0 ≤ c.2) (hm : m ∈ installed)
    (hdeps : ∀ d ∈ m.depIds, (∃ m' ∈ installed, m'.id = d) ∧ ∃ r', 0 ≤ r' ∧ (d, r') ∈ calls) :
    DepsFirst installed (calls ++ [(m.id, r)]) := by
  have hsplit : ∀ pre id r' post, calls ++ [(m.id, r)] = pre ++ (id, r') :: post →
      (pre = calls ∧ id = m.id ∧ post = []) ∨ ∃ post', calls = pre ++ (id, r') :: post' := by
    intro pre id r' post heq
    rcases List.eq_nil_or_concat post with rfl | ⟨post', c, rfl⟩
    · obtain ⟨h1, h2⟩ := List.append_inj' heq rfl
      simp only [List.cons.injEq, Prod.mk.injEq, and_true] at h2
      exact Or.inl ⟨h1.symm, h2.1.symm, rfl⟩
    · have heq' : calls ++ [(m.id, r)] = (pre ++ (id, r') :: post') ++ [c] := by simpa using heq
      exact Or.inr ⟨post', (List.append_inj' heq' rfl).1⟩
  constructor
  · intro pre id r' post heq
    rcases hsplit pre id r' post heq with ⟨rfl, rfl, -⟩ | ⟨post', hcalls⟩
    · exact ⟨m, hm, rfl, hdeps⟩
    · exact h.deps pre id r' post' hcalls
  · intro pre id r' post heq hr
    rcases hsplit pre id r' post heq with ⟨-, -, hpost⟩ | ⟨post', hcalls⟩
    · exact hpost
    · have := hok (id, r') (by simp [hcalls])
      omega

/-! ## The invariant -/

/-- No call has failed, dependencies came first, and a module with a link was
initialised. -/
structure Sound (installed : List Modinfo) (s : Loaded) : Prop where
  ok : ∀ c ∈ s.calls, 0 ≤ c.2
  depsFirst : DepsFirst installed s.calls
  linked : ∀ id, s.next id ≠ none → ∃ r, (id, r) ∈ s.calls

theorem fresh_sound : Sound installed .fresh :=
  ⟨by simp [Loaded.fresh], .nil, by simp [Loaded.fresh]⟩

/-- The calls up to an error: it is that of the last call if a call failed. -/
structure Failed (installed : List Modinfo) (r : Int) (s : Loaded) : Prop where
  error : r < 0
  depsFirst : DepsFirst installed s.calls
  result : ∀ c ∈ s.calls, c.2 < 0 → r = c.2

/-- A successful `module_init` of the modules `ids`. -/
structure Initialised (installed : List Modinfo) (ids : List Id) (s s' : Loaded) : Prop where
  sound : Sound installed s'
  grows : s.calls ⊆ s'.calls
  called : ∀ id ∈ ids, (∃ m ∈ installed, m.id = id) ∧ ∃ r, (id, r) ∈ s'.calls

theorem Sound.failed {s : Loaded} (h : Sound installed s) {r : Int} (hr : r < 0) :
    Failed installed r s :=
  ⟨hr, h.depsFirst, fun c hc hlt => absurd hlt (Int.not_lt.mpr (h.ok c hc))⟩

/-- The init function of a module fails. -/
theorem Sound.called_failed {s : Loaded} {m : Modinfo} {r : Int} (h : Sound installed s)
    (hm : m ∈ installed)
    (hdeps : ∀ d ∈ m.depIds, (∃ m' ∈ installed, m'.id = d) ∧ ∃ r', 0 ≤ r' ∧ (d, r') ∈ s.calls)
    (hr : r < 0) : Failed installed r (s.called m.id r) := by
  refine ⟨hr, h.depsFirst.snoc h.ok hm hdeps, ?_⟩
  intro c hc hlt
  rcases List.mem_append.mp hc with hc | hc
  · exact absurd hlt (Int.not_lt.mpr (h.ok c hc))
  · rw [List.mem_singleton.mp hc]

/-- A module is initialised and becomes the head of the loaded list. -/
theorem Sound.loaded {s : Loaded} {m : Modinfo} {r : Int} (h : Sound installed s)
    (hm : m ∈ installed)
    (hdeps : ∀ d ∈ m.depIds, (∃ m' ∈ installed, m'.id = d) ∧ ∃ r', 0 ≤ r' ∧ (d, r') ∈ s.calls)
    (hr : 0 ≤ r) : Sound installed ((s.called m.id r).insertHead m.id) where
  ok c hc := by
    rcases List.mem_append.mp hc with hc | hc
    · exact h.ok c hc
    · rw [List.mem_singleton.mp hc]
      exact hr
  depsFirst := h.depsFirst.snoc h.ok hm hdeps
  linked id hid := by
    by_cases heq : id = m.id
    · exact ⟨r, List.mem_append_right _ (by simp [heq])⟩
    · obtain ⟨r', hr'⟩ := h.linked id (by simpa [Loaded.insertHead, Loaded.called, heq] using hid)
      exact ⟨r', List.mem_append_left _ hr'⟩

theorem initDeps_sound {f : Id → Loaded → Option (Int × Loaded)}
    (hf : ∀ {id s r s'}, Sound installed s → f id s = some (r, s') →
      (0 ≤ r ∧ Initialised installed [id] s s') ∨ Failed installed r s')
    {ids : List Id} {s s' : Loaded} {r : Int} (hs : Sound installed s)
    (h : initDeps f ids s = some (r, s')) :
    (0 ≤ r ∧ Initialised installed ids s s') ∨ Failed installed r s' := by
  induction ids generalizing s with
  | nil =>
      obtain ⟨rfl, rfl⟩ := Prod.mk.inj (Option.some.inj h)
      exact Or.inl ⟨le_rfl, hs, List.Subset.refl _, by simp⟩
  | cons id ids ih =>
      rcases initDeps_cons_cases h with ⟨hid, hneg⟩ | ⟨r₁, t, hid, hpos, hids⟩
      · rcases hf hs hid with ⟨hr, -⟩ | hfail
        · exact absurd hneg (Int.not_lt.mpr hr)
        · exact Or.inr hfail
      · rcases hf hs hid with ⟨-, hinit⟩ | hfail
        · rcases ih hinit.sound hids with ⟨hr', hrest⟩ | hfail
          · refine Or.inl ⟨hr', hrest.sound, List.Subset.trans hinit.grows hrest.grows, ?_⟩
            intro d hd
            rcases List.mem_cons.mp hd with rfl | hd
            · obtain ⟨hm, r', hr'⟩ := hinit.called d List.mem_cons_self
              exact ⟨hm, r', hrest.grows hr'⟩
            · exact hrest.called d hd
          · exact Or.inr hfail
        · exact absurd hfail.error (Int.not_lt.mpr hpos)

/-- A loop over the dependencies that did not fail has called them all. -/
theorem initialised_of_ok {ids : List Id} {s s' : Loaded} {r : Int}
    (h : (0 ≤ r ∧ Initialised installed ids s s') ∨ Failed installed r s') (hr : 0 ≤ r) :
    Initialised installed ids s s' := by
  rcases h with ⟨-, hdeps⟩ | hfail
  · exact hdeps
  · exact absurd hfail.error (Int.not_lt.mpr hr)

theorem Initialised.called_ok {ids : List Id} {s s' : Loaded} (h : Initialised installed ids s s') :
    ∀ d ∈ ids, (∃ m ∈ installed, m.id = d) ∧ ∃ r, 0 ≤ r ∧ (d, r) ∈ s'.calls := by
  intro d hd
  obtain ⟨hinst, r, hr⟩ := h.called d hd
  exact ⟨hinst, r, h.sound.ok _ hr, hr⟩

theorem mem_of_moduleFromid {id : Id} {m : Modinfo} (h : moduleFromid installed id = some m) :
    m ∈ installed ∧ m.id = id :=
  ⟨List.mem_of_find?_eq_some h, by simpa using List.find?_some h⟩

theorem moduleInit_sound (depth : Nat) {id : Id} {s s' : Loaded} {r : Int}
    (hs : Sound installed s) (h : moduleInit init installed depth id s = some (r, s')) :
    (0 ≤ r ∧ Initialised installed [id] s s') ∨ Failed installed r s' := by
  induction depth generalizing id s s' r with
  | zero => cases h
  | succ depth ih =>
      cases moduleInit_cases h with
      | missing found => exact Or.inr (hs.failed (by decide))
      | linked found next =>
          obtain ⟨hmem, rfl⟩ := mem_of_moduleFromid found
          refine Or.inl ⟨le_rfl, hs, List.Subset.refl _, ?_⟩
          intro d hd
          obtain rfl := List.mem_singleton.mp hd
          exact ⟨⟨_, hmem, rfl⟩, hs.linked _ next⟩
      | depFails found next deps error =>
          rcases initDeps_sound ih hs deps with ⟨hr, -⟩ | hfail
          · exact absurd error (Int.not_lt.mpr hr)
          · exact Or.inr hfail
      | initFails found next deps ok error =>
          obtain ⟨hmem, rfl⟩ := mem_of_moduleFromid found
          have hdeps := initialised_of_ok (initDeps_sound ih hs deps) ok
          exact Or.inr (hdeps.sound.called_failed hmem hdeps.called_ok error)
      | loads found next deps ok done =>
          obtain ⟨hmem, rfl⟩ := mem_of_moduleFromid found
          have hdeps := initialised_of_ok (initDeps_sound ih hs deps) ok
          refine Or.inl ⟨done, hdeps.sound.loaded hmem hdeps.called_ok done,
            List.Subset.trans hdeps.grows (List.subset_append_left _ _), ?_⟩
          intro d hd
          obtain rfl := List.mem_singleton.mp hd
          exact ⟨⟨_, hmem, rfl⟩, _, List.mem_append_right _ List.mem_cons_self⟩

/-! ## Termination -/

/-- The module `a` depends on `b`. -/
def Dep (installed : List Modinfo) (a b : Id) : Prop := ∃ m ∈ installed, m.id = a ∧ b ∈ m.depIds

/-- No module depends on itself, directly or through others. -/
def Acyclic (installed : List Modinfo) : Prop := ∀ a, ¬ TransGen (Dep installed) a a

/-- Without cycles, the dependencies of an installed module are below it in a
well-founded order. -/
theorem Acyclic.wellFoundedOn (h : Acyclic installed) :
    {id | id ∈ installed.map Modinfo.id}.WellFoundedOn fun a b => TransGen (Dep installed) b a := by
  have : IsStrictOrder Id fun a b => TransGen (Dep installed) b a :=
    { irrefl := h
      trans := fun _ _ _ hab hbc => hbc.trans hab }
  exact (List.finite_toSet _).wellFoundedOn

theorem initDeps_returns {f : Id → Loaded → Option (Int × Loaded)} {ids : List Id}
    (hf : ∀ id ∈ ids, ∀ s, ∃ x, f id s = some x) (s : Loaded) : ∃ x, initDeps f ids s = some x := by
  induction ids generalizing s with
  | nil => exact ⟨_, rfl⟩
  | cons id ids ih =>
      obtain ⟨⟨r, t⟩, ht⟩ := hf id List.mem_cons_self s
      simp only [initDeps, ht]
      split
      · exact ⟨_, rfl⟩
      · exact ih (fun d hd => hf d (List.mem_cons_of_mem _ hd)) t

/-- A call returns when the calls for the dependencies do. -/
theorem moduleInit_returns_of_found {depth : Nat} {id : Id}
    (h : ∀ m, moduleFromid installed id = some m → ∀ d ∈ m.depIds, ∀ s,
      ∃ x, moduleInit init installed depth d s = some x) (s : Loaded) :
    ∃ x, moduleInit init installed (depth + 1) id s = some x := by
  cases hm : moduleFromid installed id with
  | none => exact ⟨_, by simp only [moduleInit, hm]; rfl⟩
  | some m =>
      simp only [moduleInit, hm]
      split
      · exact ⟨_, rfl⟩
      · obtain ⟨⟨r, t⟩, ht⟩ := initDeps_returns (h m hm) s
        simp only [ht]
        split
        · exact ⟨_, rfl⟩
        · split
          · exact ⟨_, rfl⟩
          · exact ⟨_, rfl⟩

theorem moduleInit_returns_of_deps {depth : Nat} {id : Id}
    (h : ∀ m ∈ installed, m.id = id → ∀ d ∈ m.depIds, ∀ s,
      ∃ x, moduleInit init installed depth d s = some x) (s : Loaded) :
    ∃ x, moduleInit init installed (depth + 1) id s = some x :=
  moduleInit_returns_of_found
    (fun m hm => h m (mem_of_moduleFromid hm).1 (mem_of_moduleFromid hm).2) s

/-- `module_init` of any id returns. -/
theorem moduleInit_returns (init : List (Id × Int) → Id → Int) (h : Acyclic installed) (id : Id) :
    ∃ n, ∀ depth ≥ n, ∀ s, ∃ x, moduleInit init installed depth id s = some x := by
  have hother : ∀ id, id ∉ installed.map Modinfo.id →
      ∃ n, ∀ depth ≥ n, ∀ s, ∃ x, moduleInit init installed depth id s = some x := by
    intro id hid
    refine ⟨1, ?_⟩
    intro depth hdepth s
    obtain ⟨depth, rfl⟩ := Nat.exists_eq_add_of_le' hdepth
    exact moduleInit_returns_of_deps
      (fun m hm hmid => absurd (List.mem_map.mpr ⟨m, hm, hmid⟩) hid) s
  by_cases hid : id ∈ installed.map Modinfo.id
  · refine h.wellFoundedOn.induction (P := fun id => ∃ n, ∀ depth ≥ n, ∀ s,
      ∃ x, moduleInit init installed depth id s = some x) hid fun a _ ih => ?_
    have hdeps : ∀ d ∈ installed.flatMap fun m => if m.id = a then m.depIds else [],
        ∃ n, ∀ depth ≥ n, ∀ s, ∃ x, moduleInit init installed depth d s = some x := by
      intro d hd
      obtain ⟨m, hm, hmd⟩ := List.mem_flatMap.mp hd
      split at hmd
      · rename_i hma
        by_cases hinst : d ∈ installed.map Modinfo.id
        · exact ih d hinst (.single ⟨m, hm, hma, hmd⟩)
        · exact hother d hinst
      · cases hmd
    obtain ⟨n, hn⟩ := Lib.exists_common hdeps
    refine ⟨n + 1, ?_⟩
    intro depth hdepth s
    obtain ⟨k, rfl⟩ := Nat.exists_eq_add_of_le' (Nat.le_of_add_left_le hdepth)
    refine moduleInit_returns_of_deps (fun m hm hma d hd => ?_) s
    exact hn d (List.mem_flatMap.mpr ⟨m, hm, by rwa [if_pos hma]⟩) k (by omega)
  · exact hother id hid

/-! ## `modules_init` -/

/-- The loop of `modules_init` is the loop over the ids. -/
theorem initAll_eq (depth : Nat) (ms : List Modinfo) (s : Loaded) :
    initAll init installed depth ms s =
      initDeps (moduleInit init installed depth) (ms.map Modinfo.id) s := by
  induction ms generalizing s with
  | nil => rfl
  | cons m ms ih =>
      simp only [initAll, List.map_cons, initDeps]
      cases moduleInit init installed depth m.id s with
      | none => rfl
      | some x => simp only [ih]

/-- Installing loads nothing. -/
theorem installAll_loaded (mods : List Modinfo) {s : Modules} (h : s.loaded = .fresh) :
    (s.installAll mods).2.loaded = .fresh := by
  induction mods generalizing s with
  | nil => exact h
  | cons m ms ih =>
      have hm : (s.moduleInstall m).2.loaded = .fresh := by
        cases hid : moduleFromid s.installed m.id with
        | some m' =>
            rw [Modules.moduleInstall, hid]
            exact h
        | none =>
            simp only [Modules.moduleInstall, hid, h]
            simp [Loaded.fresh]
      simp only [Modules.installAll]
      split
      · exact hm
      · exact ih hm

/-- `modules_init` returns.  Dependencies came first, and a call that failed was
the last one and gave the result. -/
theorem modulesInit_depsFirst (init : List (Id × Int) → Id → Int) (mods : List Modinfo)
    (s : Modules) (hs : s.loaded = .fresh) (hacyclic : Acyclic (s.installAll mods).2.installed) :
    ∃ n, ∀ depth ≥ n, ∃ r s', modulesInit init depth mods s = some (r, s') ∧
      DepsFirst s'.installed s'.loaded.calls ∧ ∀ c ∈ s'.loaded.calls, c.2 < 0 → r = c.2 := by
  have hloaded := installAll_loaded mods hs
  cases h : s.installAll mods with
  | mk r₀ t =>
  rw [h] at hacyclic hloaded
  by_cases hr₀ : r₀ < 0
  · refine ⟨0, fun depth _ => ⟨r₀, t, by rw [modulesInit, h]; exact if_pos hr₀, ?_⟩⟩
    rw [hloaded]
    exact ⟨.nil, by simp [Loaded.fresh]⟩
  · obtain ⟨n, hn⟩ := Lib.exists_common fun id (_ : id ∈ t.installed.map Modinfo.id) =>
      moduleInit_returns init hacyclic id
    refine ⟨n, ?_⟩
    intro depth hdepth
    obtain ⟨⟨r, l⟩, hl⟩ := initDeps_returns (fun id hid => hn id hid depth hdepth) t.loaded
    refine ⟨r, { t with loaded := l }, ?_, ?_⟩
    · simp only [modulesInit, h, hr₀, ↓reduceIte, initAll_eq, hl, Option.map_some]
    · have hsound : Sound t.installed t.loaded := hloaded ▸ fresh_sound
      rcases initDeps_sound (fun hs h => moduleInit_sound depth hs h) hsound hl with
        ⟨hr, hinit⟩ | hfail
      · refine ⟨hinit.sound.depsFirst, ?_⟩
        intro c hc hlt
        exact absurd hlt (Int.not_lt.mpr (hinit.sound.ok c hc))
      · exact ⟨hfail.depsFirst, hfail.result⟩

/-! ## Two modules -/

/-- Dependencies that go down in rank have no cycle. -/
theorem acyclic_of_rank (rank : Id → Nat)
    (h : ∀ m ∈ installed, ∀ d ∈ m.depIds, rank d < rank m.id) : Acyclic installed := by
  have hdep : ∀ a b, TransGen (Dep installed) a b → rank b < rank a := by
    intro a b hab
    induction hab with
    | single hab =>
        obtain ⟨m, hm, rfl, hd⟩ := hab
        exact h m hm _ hd
    | tail _ hbc ih =>
        obtain ⟨m, hm, rfl, hd⟩ := hbc
        exact (h m hm _ hd).trans ih
  intro a haa
  exact lt_irrefl _ (hdep a a haa)

/-- The module `a` depends on `b`. -/
def twoModules : List Modinfo := [⟨[97], some [[98]]⟩, ⟨[98], none⟩]

/-- The second call of an init function fails. -/
def failsSecond (calls : List (Id × Int)) (_ : Id) : Int := if calls.length = 1 then -5 else 0

theorem modulesInit_depsFirst_two :
    ∃ n, ∀ depth ≥ n, ∃ r s', modulesInit failsSecond depth twoModules .boot = some (r, s') ∧
      DepsFirst s'.installed s'.loaded.calls ∧ ∀ c ∈ s'.loaded.calls, c.2 < 0 → r = c.2 :=
  modulesInit_depsFirst failsSecond twoModules .boot rfl
    (acyclic_of_rank (fun id => if id = [97] then 1 else 0) (by decide))

end StardustOS.Kmod
