import StardustOS.Kmod.DepsFirst

/-!
# Loading ends

`module_init` goes through the dependencies in the order in which they are listed,
and calls itself for each.  A module is known to be loaded only when its init
function has returned, so nothing stops a walk that comes back to a module it is in
the middle of.

Two kinds of ids end the walk whatever the init functions do.  An id `Loads` when
all that it depends on does; it `Fails` when the walk comes to an id that is not
installed, and only to ids that load before.  For every other id the walk goes on
for ever once no init function fails (`moduleInit_none`).  So loading ends exactly
when each installed module is of the two kinds (`loadingEnds_iff`).
-/

namespace StardustOS.Kmod

open Relation

variable {init : List (Id × Int) → Id → Int} {installed : List Modinfo}

/-! ## The property -/

/-- The module with the id `a` lists `b`. -/
def Needs (installed : List Modinfo) (a b : Id) : Prop :=
  ∃ m, moduleFromid installed a = some m ∧ b ∈ m.depIds

/-- What a module depends on has a cycle or is not all installed. -/
def Defective (installed : List Modinfo) (id : Id) : Prop :=
  ∃ d, ReflTransGen (Needs installed) id d ∧
    (moduleFromid installed d = none ∨ TransGen (Needs installed) d d)

/-- The loaded modules after any number of calls of `module_init`, from when none is
loaded. -/
inductive Reachable (init : List (Id × Int) → Id → Int) (installed : List Modinfo) :
    Loaded → Prop
  | fresh : Reachable init installed .fresh
  | call {s s' : Loaded} {depth : Nat} {id : Id} {r : Int} (h : Reachable init installed s)
      (hcall : moduleInit init installed depth id s = some (r, s')) : Reachable init installed s'

/-- `modules_init` returns whatever the init functions do.  On a defective module
`module_init` returns an error code, and does not call its init function. -/
def LoadingEnds (mods : List Modinfo) : Prop :=
  let installed := (Modules.boot.installAll mods).2.installed
  (∀ init, ∃ n, ∀ depth ≥ n, ∃ x, modulesInit init depth mods .boot = some x) ∧
    ∀ init id s, Defective installed id → Reachable init installed s →
      ∃ n, ∀ depth ≥ n, ∃ r s', moduleInit init installed depth id s = some (r, s') ∧ r < 0 ∧
        ∃ calls, s'.calls = s.calls ++ calls ∧ ∀ c ∈ calls, c.1 ≠ id

/-! ## The two kinds of ids -/

/-- All that the module depends on is installed, without cycles. -/
inductive Loads (installed : List Modinfo) : Id → Prop
  | intro {id : Id} {m : Modinfo} (hm : moduleFromid installed id = some m)
      (h : ∀ d ∈ m.depIds, Loads installed d) : Loads installed id

/-- In the order of the dependencies an id that is not installed comes first. -/
inductive Fails (installed : List Modinfo) : Id → Prop
  | missing {id : Id} (h : moduleFromid installed id = none) : Fails installed id
  | dep {id : Id} {m : Modinfo} {pre post : List Id} {d : Id}
      (hm : moduleFromid installed id = some m) (hdeps : m.depIds = pre ++ d :: post)
      (hpre : ∀ p ∈ pre, Loads installed p) (hd : Fails installed d) : Fails installed id

theorem Loads.deps {id : Id} {m : Modinfo} (h : Loads installed id)
    (hm : moduleFromid installed id = some m) : ∀ d ∈ m.depIds, Loads installed d := by
  cases h with
  | intro hm' h =>
      obtain rfl := Option.some.inj (hm.symm.trans hm')
      exact h

theorem Fails.not_loads {id : Id} (h : Fails installed id) : ¬ Loads installed id := by
  induction h with
  | missing hm =>
      rintro ⟨hm', -⟩
      cases hm.symm.trans hm'
  | @dep id m pre post d hm hdeps _ _ ih =>
      intro h
      exact ih (h.deps hm d (by simp [hdeps]))

theorem Loads.needs {a b : Id} (h : Loads installed a) (hab : Needs installed a b) :
    Loads installed b := by
  obtain ⟨m, hm, hb⟩ := hab
  exact h.deps hm b hb

theorem Loads.not_cycle {a : Id} (h : Loads installed a) : ¬ TransGen (Needs installed) a a := by
  induction h with
  | @intro a m hm _ ih =>
      intro hcycle
      -- the cycle goes through a dependency, which is then on a cycle itself
      obtain ⟨b, hab, hba⟩ := TransGen.head'_iff.mp hcycle
      obtain ⟨m', hm', hb⟩ := id hab
      obtain rfl := Option.some.inj (hm.symm.trans hm')
      exact ih b hb (TransGen.tail' hba hab)

theorem Loads.reaches {a b : Id} (h : Loads installed a)
    (hab : ReflTransGen (Needs installed) a b) : Loads installed b := by
  induction hab with
  | refl => exact h
  | tail _ hbc ih => exact ih.needs hbc

theorem Loads.not_defective {id : Id} (h : Loads installed id) : ¬ Defective installed id := by
  rintro ⟨d, hreach, hdefect⟩
  have hd := h.reaches hreach
  rcases hdefect with hmissing | hcycle
  · cases hd with
    | intro hm _ => cases hmissing.symm.trans hm
  · exact hd.not_cycle hcycle

/-- What an id without defect depends on is below it in a well-founded order. -/
theorem wellFoundedOn_of_not_defective {id : Id} (h : ¬ Defective installed id) :
    {a | a ∈ installed.map Modinfo.id}.WellFoundedOn fun a b =>
      TransGen (fun c d => ReflTransGen (Needs installed) id c ∧ Needs installed c d) b a := by
  have : IsStrictOrder Id fun a b =>
      TransGen (fun c d => ReflTransGen (Needs installed) id c ∧ Needs installed c d) b a :=
    { irrefl := by
        intro a haa
        obtain ⟨b, hab, -⟩ := TransGen.head'_iff.mp haa
        exact h ⟨a, hab.1, Or.inr (TransGen.mono (fun _ _ hcd => hcd.2) _ _ haa)⟩
      trans := fun _ _ _ hab hbc => hbc.trans hab }
  exact (List.finite_toSet _).wellFoundedOn

theorem loads_of_not_defective {id : Id} (h : ¬ Defective installed id) : Loads installed id := by
  have hfound : ∀ a, ReflTransGen (Needs installed) id a →
      ∃ m, moduleFromid installed a = some m ∧ a ∈ installed.map Modinfo.id := by
    intro a ha
    cases hm : moduleFromid installed a with
    | none => exact absurd ⟨a, ha, Or.inl hm⟩ h
    | some m =>
        obtain ⟨hmem, rfl⟩ := mem_of_moduleFromid hm
        exact ⟨m, rfl, List.mem_map_of_mem hmem⟩
  have hall : ∀ a ∈ {a | a ∈ installed.map Modinfo.id},
      ReflTransGen (Needs installed) id a → Loads installed a := by
    intro a ha
    refine (wellFoundedOn_of_not_defective h).induction
      (P := fun a => ReflTransGen (Needs installed) id a → Loads installed a) ha ?_
    intro b _ ih hb
    obtain ⟨m, hm, -⟩ := hfound b hb
    refine .intro hm fun d hd => ?_
    have hbd : Needs installed b d := ⟨m, hm, hd⟩
    obtain ⟨-, -, hmem⟩ := hfound d (hb.tail hbd)
    exact ih d hmem (.single ⟨hb, hbd⟩) (hb.tail hbd)
  obtain ⟨-, -, hmem⟩ := hfound id .refl
  exact hall id hmem .refl

/-! ## What a call does -/

/-- Only modules that load are linked into the loaded list. -/
def Trusted (installed : List Modinfo) (s : Loaded) : Prop :=
  ∀ id, s.next id ≠ none → Loads installed id

/-- What a call of `module_init` for each of the ids in turn does. -/
structure Tried (installed : List Modinfo) (ids : List Id) (s : Loaded) (r : Int) (s' : Loaded) :
    Prop where
  trusted : Trusted installed s'
  loads : 0 ≤ r → ∀ id ∈ ids, Loads installed id
  calls : ∃ calls, s'.calls = s.calls ++ calls ∧ ∀ c ∈ calls, Loads installed c.1

theorem Trusted.tried {s : Loaded} {ids : List Id} {r : Int} (h : Trusted installed s)
    (hr : 0 ≤ r → ∀ id ∈ ids, Loads installed id) : Tried installed ids s r s :=
  ⟨h, hr, [], by simp, by simp⟩

theorem initDeps_tried {f : Id → Loaded → Option (Int × Loaded)}
    (hf : ∀ {id s r s'}, Trusted installed s → f id s = some (r, s') → Tried installed [id] s r s')
    {ids : List Id} {s s' : Loaded} {r : Int} (hs : Trusted installed s)
    (h : initDeps f ids s = some (r, s')) : Tried installed ids s r s' := by
  induction ids generalizing s with
  | nil =>
      obtain ⟨rfl, rfl⟩ := Prod.mk.inj (Option.some.inj h)
      exact hs.tried (by simp)
  | cons id ids ih =>
      rcases initDeps_cons_cases h with ⟨hid, hneg⟩ | ⟨r₁, t, hid, hpos, hids⟩
      · have hone := hf hs hid
        exact ⟨hone.trusted, fun hr => absurd hneg (Int.not_lt.mpr hr), hone.calls⟩
      · have hone := hf hs hid
        have hrest := ih hone.trusted hids
        obtain ⟨calls, hcalls, hload⟩ := hone.calls
        obtain ⟨calls', hcalls', hload'⟩ := hrest.calls
        refine ⟨hrest.trusted, fun hr => ?_, calls ++ calls', ?_, ?_⟩
        · exact List.forall_mem_cons.mpr
            ⟨hone.loads hpos id List.mem_cons_self, hrest.loads hr⟩
        · rw [hcalls', hcalls, List.append_assoc]
        · exact List.forall_mem_append.mpr ⟨hload, hload'⟩

/-- The init function of a module is called when its dependencies were found to load. -/
theorem Tried.called {m : Modinfo} {s t : Loaded} {r r' : Int}
    (h : Tried installed m.depIds s r t) (hm : moduleFromid installed m.id = some m)
    (hr : 0 ≤ r) : Tried installed [m.id] s r' (t.called m.id r') := by
  have hid : Loads installed m.id := .intro hm (h.loads hr)
  obtain ⟨calls, hcalls, hload⟩ := h.calls
  refine ⟨h.trusted, fun _ => List.forall_mem_singleton.mpr hid, calls ++ [(m.id, r')], ?_, ?_⟩
  · rw [Loaded.called, hcalls, List.append_assoc]
  · exact List.forall_mem_append.mpr ⟨hload, List.forall_mem_singleton.mpr hid⟩

/-- A module that loads may be linked. -/
theorem Tried.insertHead {id : Id} {s t : Loaded} {r : Int} (h : Tried installed [id] s r t)
    (hr : 0 ≤ r) : Tried installed [id] s r (t.insertHead id) where
  trusted a ha := by
    by_cases heq : a = id
    · exact heq ▸ h.loads hr id List.mem_cons_self
    · exact h.trusted a (by simpa [Loaded.insertHead, heq] using ha)
  loads := h.loads
  calls := h.calls

theorem moduleInit_tried (depth : Nat) {id : Id} {s s' : Loaded} {r : Int}
    (hs : Trusted installed s) (h : moduleInit init installed depth id s = some (r, s')) :
    Tried installed [id] s r s' := by
  induction depth generalizing id s s' r with
  | zero => cases h
  | succ depth ih =>
      cases moduleInit_cases h with
      | missing found => exact hs.tried fun hr => absurd hr (by decide)
      | linked found next =>
          obtain ⟨-, rfl⟩ := mem_of_moduleFromid found
          exact hs.tried fun _ => by simpa using hs _ next
      | depFails found next deps error =>
          have hdeps := initDeps_tried ih hs deps
          exact ⟨hdeps.trusted, fun hr => absurd error (Int.not_lt.mpr hr), hdeps.calls⟩
      | initFails found next deps ok error =>
          obtain ⟨-, rfl⟩ := mem_of_moduleFromid found
          exact (initDeps_tried ih hs deps).called found ok
      | loads found next deps ok done =>
          obtain ⟨-, rfl⟩ := mem_of_moduleFromid found
          exact ((initDeps_tried ih hs deps).called found ok).insertHead done

theorem Reachable.trusted {s : Loaded} (h : Reachable init installed s) : Trusted installed s := by
  induction h with
  | fresh => exact fun id hid => absurd rfl hid
  | call _ hcall ih => exact (moduleInit_tried _ ih hcall).trusted

/-! ## Which calls return -/

theorem Loads.returns (init : List (Id × Int) → Id → Int) {id : Id} (h : Loads installed id) :
    ∃ n, ∀ depth ≥ n, ∀ s, ∃ x, moduleInit init installed depth id s = some x := by
  induction h with
  | @intro id m hm _ ih =>
      obtain ⟨n, hn⟩ := Lib.exists_common ih
      refine ⟨n + 1, ?_⟩
      intro depth hdepth s
      obtain ⟨k, rfl⟩ := Nat.exists_eq_add_of_le' (Nat.le_of_add_left_le hdepth)
      refine moduleInit_returns_of_found (fun m' hm' d hd => ?_) s
      obtain rfl := Option.some.inj (hm.symm.trans hm')
      exact hn d hd k (by omega)

/-- The loop over the dependencies ends with an error at one that fails. -/
theorem initDeps_fails {f : Id → Loaded → Option (Int × Loaded)} (post : List Id)
    (hf : ∀ {id s r s'}, Trusted installed s → f id s = some (r, s') → Tried installed [id] s r s')
    {pre : List Id} {d : Id} (hpre : ∀ p ∈ pre, ∀ s, ∃ x, f p s = some x)
    (hd : ∀ s, Trusted installed s → ∃ r s', f d s = some (r, s') ∧ r < 0) {s : Loaded}
    (hs : Trusted installed s) :
    ∃ r s', initDeps f (pre ++ d :: post) s = some (r, s') ∧ r < 0 := by
  induction pre generalizing s with
  | nil =>
      obtain ⟨r, s', h, hr⟩ := hd s hs
      exact ⟨r, s', by simp only [List.nil_append, initDeps, h, hr, ↓reduceIte], hr⟩
  | cons p pre ih =>
      obtain ⟨⟨r, t⟩, ht⟩ := hpre p List.mem_cons_self s
      by_cases hr : r < 0
      · exact ⟨r, t, by simp only [List.cons_append, initDeps, ht, hr, ↓reduceIte], hr⟩
      · obtain ⟨r', s', h, hr'⟩ :=
          ih (fun q hq => hpre q (List.mem_cons_of_mem p hq)) (hf hs ht).trusted
        exact ⟨r', s', by simp only [List.cons_append, initDeps, ht, hr, ↓reduceIte, h], hr'⟩

theorem Fails.returns (init : List (Id × Int) → Id → Int) {id : Id} (h : Fails installed id) :
    ∃ n, ∀ depth ≥ n, ∀ s, Trusted installed s →
      ∃ r s', moduleInit init installed depth id s = some (r, s') ∧ r < 0 := by
  induction h with
  | missing hm =>
      refine ⟨1, ?_⟩
      intro depth hdepth s _
      obtain ⟨k, rfl⟩ := Nat.exists_eq_add_of_le' hdepth
      exact ⟨-ENOENT, s, by simp only [moduleInit, hm], by decide⟩
  | @dep id m pre post d hm hdeps hpre hd ih =>
      obtain ⟨n, hn⟩ := ih
      obtain ⟨n', hn'⟩ := Lib.exists_common fun p hp => (hpre p hp).returns init
      refine ⟨max n n' + 1, ?_⟩
      intro depth hdepth s hs
      obtain ⟨k, rfl⟩ := Nat.exists_eq_add_of_le' (Nat.le_of_add_left_le hdepth)
      obtain ⟨r, t, ht, hr⟩ := initDeps_fails post (fun hs h => moduleInit_tried k hs h)
        (fun p hp s => hn' p hp k (by omega) s) (fun s hs => hn k (by omega) s hs) hs
      rw [← hdeps] at ht
      -- a module that fails is not linked
      have hid : m.id = id := (mem_of_moduleFromid hm).2
      have hnext : s.next m.id = none := by
        by_contra hlink
        exact (Fails.dep hm hdeps hpre hd).not_loads (hid ▸ hs _ hlink)
      exact ⟨r, t, by simp only [moduleInit, hm, hnext, ht, hr, ne_eq, not_true_eq_false,
        ↓reduceIte], hr⟩

/-! ## Which calls do not -/

/-- An init function that does not fail. -/
def succeeds (_ : List (Id × Int)) (_ : Id) : Int := 0

theorem initDeps_ok {f : Id → Loaded → Option (Int × Loaded)} {ids : List Id} {s s' : Loaded}
    {r : Int} (hf : ∀ id ∈ ids, ∀ {s r s'}, f id s = some (r, s') → 0 ≤ r)
    (h : initDeps f ids s = some (r, s')) : 0 ≤ r := by
  induction ids generalizing s with
  | nil =>
      obtain ⟨rfl, -⟩ := Prod.mk.inj (Option.some.inj h)
      exact le_rfl
  | cons id ids ih =>
      rcases initDeps_cons_cases h with ⟨hid, hneg⟩ | ⟨r₁, t, -, -, hids⟩
      · exact absurd hneg (Int.not_lt.mpr (hf id List.mem_cons_self hid))
      · exact ih (fun d hd => hf d (List.mem_cons_of_mem _ hd)) hids

/-- A module that loads is loaded if no init function fails. -/
theorem Loads.ok {id : Id} (h : Loads installed id) {depth : Nat} {s s' : Loaded} {r : Int}
    (hcall : moduleInit succeeds installed depth id s = some (r, s')) : 0 ≤ r := by
  induction h generalizing depth s s' r with
  | @intro id m hm _ ih =>
      cases depth with
      | zero => cases hcall
      | succ depth =>
          cases moduleInit_cases hcall with
          | missing found => cases hm.symm.trans found
          | linked found next => exact le_rfl
          | depFails found next deps error =>
              cases hm.symm.trans found
              exact initDeps_ok (fun d hd => ih d hd) deps
          | initFails found next deps ok error => exact le_rfl
          | loads found next deps ok done => exact done

/-- The loop over the dependencies does not get past one that does not return. -/
theorem initDeps_none {f : Id → Loaded → Option (Int × Loaded)} (post : List Id)
    (hf : ∀ {id s r s'}, Trusted installed s → f id s = some (r, s') → Tried installed [id] s r s')
    {pre : List Id} {d : Id} (hpre : ∀ p ∈ pre, ∀ {s r s'}, f p s = some (r, s') → 0 ≤ r)
    (hd : ∀ s, Trusted installed s → f d s = none) {s : Loaded} (hs : Trusted installed s) :
    initDeps f (pre ++ d :: post) s = none := by
  induction pre generalizing s with
  | nil => simp only [List.nil_append, initDeps, hd s hs]
  | cons p pre ih =>
      cases hp : f p s with
      | none => simp only [List.cons_append, initDeps, hp]
      | some rt =>
          obtain ⟨r, t⟩ := rt
          have hr := hpre p List.mem_cons_self hp
          simp only [List.cons_append, initDeps, hp, if_neg (Int.not_lt.mpr hr)]
          exact ih (fun q hq => hpre q (List.mem_cons_of_mem p hq)) (hf hs hp).trusted

/-- The first dependency that does not load. -/
theorem exists_first_not_loads {ids : List Id} (h : ¬ ∀ d ∈ ids, Loads installed d) :
    ∃ pre d post, ids = pre ++ d :: post ∧ (∀ p ∈ pre, Loads installed p) ∧
      ¬ Loads installed d := by
  induction ids with
  | nil => exact absurd (by simp) h
  | cons id ids ih =>
      by_cases hid : Loads installed id
      · obtain ⟨pre, d, post, rfl, hpre, hd⟩ :=
          ih fun hall => h (List.forall_mem_cons.mpr ⟨hid, hall⟩)
        exact ⟨id :: pre, d, post, rfl, List.forall_mem_cons.mpr ⟨hid, hpre⟩, hd⟩
      · exact ⟨[], id, ids, rfl, by simp, hid⟩

/-- For an id of neither kind `module_init` never returns. -/
theorem moduleInit_none {id : Id} (hload : ¬ Loads installed id) (hfail : ¬ Fails installed id)
    (depth : Nat) {s : Loaded} (hs : Trusted installed s) :
    moduleInit succeeds installed depth id s = none := by
  induction depth generalizing id s with
  | zero => rfl
  | succ depth ih =>
      cases hm : moduleFromid installed id with
      | none => exact absurd (.missing hm) hfail
      | some m =>
          obtain ⟨pre, d, post, hdeps, hpre, hd⟩ :=
            exists_first_not_loads fun hall => hload (.intro hm hall)
          have hid : m.id = id := (mem_of_moduleFromid hm).2
          have hnext : s.next m.id = none := by
            by_contra hlink
            exact hload (hid ▸ hs _ hlink)
          have hnone := initDeps_none post (fun hs h => moduleInit_tried depth hs h)
            (fun p hp => (hpre p hp).ok)
            (fun s hs => ih hd (fun hdfail => hfail (.dep hm hdeps hpre hdfail)) hs) hs
          rw [← hdeps] at hnone
          simp only [moduleInit, hm, hnext, hnone, ne_eq, not_true_eq_false, ↓reduceIte]

/-! ## Loading -/

/-- A call for an id of one of the two kinds returns. -/
theorem returns_of_kind (init : List (Id × Int) → Id → Int) {id : Id}
    (h : Loads installed id ∨ Fails installed id) :
    ∃ n, ∀ depth ≥ n, ∀ s, Trusted installed s →
      ∃ x, moduleInit init installed depth id s = some x := by
  rcases h with hload | hfail
  · obtain ⟨n, hn⟩ := hload.returns init
    exact ⟨n, fun depth hdepth s _ => hn depth hdepth s⟩
  · obtain ⟨n, hn⟩ := hfail.returns init
    refine ⟨n, fun depth hdepth s hs => ?_⟩
    obtain ⟨r, s', h, -⟩ := hn depth hdepth s hs
    exact ⟨_, h⟩

theorem initDeps_returns_trusted {f : Id → Loaded → Option (Int × Loaded)}
    (hf : ∀ {id s r s'}, Trusted installed s → f id s = some (r, s') → Tried installed [id] s r s')
    {ids : List Id} (hret : ∀ id ∈ ids, ∀ s, Trusted installed s → ∃ x, f id s = some x)
    {s : Loaded} (hs : Trusted installed s) : ∃ x, initDeps f ids s = some x := by
  induction ids generalizing s with
  | nil => exact ⟨_, rfl⟩
  | cons id ids ih =>
      obtain ⟨⟨r, t⟩, ht⟩ := hret id List.mem_cons_self s hs
      simp only [initDeps, ht]
      split
      · exact ⟨_, rfl⟩
      · exact ih (fun d hd => hret d (List.mem_cons_of_mem _ hd)) (hf hs ht).trusted

/-- Loading ends exactly when every installed module either has all that it needs,
without cycles, or comes to a missing id before it comes to a cycle. -/
theorem loadingEnds_iff (mods : List Modinfo) :
    LoadingEnds mods ↔ ∀ m ∈ (Modules.boot.installAll mods).2.installed,
      Loads (Modules.boot.installAll mods).2.installed m.id ∨
        Fails (Modules.boot.installAll mods).2.installed m.id := by
  have hloaded := installAll_loaded mods (s := .boot) rfl
  rw [LoadingEnds]
  generalize hall : Modules.boot.installAll mods = inst at hloaded ⊢
  obtain ⟨r₀, t⟩ := inst
  constructor
  · rintro ⟨-, hcalls⟩ m -
    by_contra hkind
    rw [not_or] at hkind
    have hdefect : Defective t.installed m.id := by
      by_contra hok
      exact hkind.1 (loads_of_not_defective hok)
    obtain ⟨n, hn⟩ := hcalls succeeds m.id .fresh hdefect .fresh
    obtain ⟨r, s', h, -⟩ := hn n le_rfl
    rw [moduleInit_none hkind.1 hkind.2 n fun id hid => absurd rfl hid] at h
    cases h
  · intro hkind
    refine ⟨fun init => ?_, fun init id s hdefect hs => ?_⟩
    · by_cases hr₀ : r₀ < 0
      · exact ⟨0, fun depth _ => ⟨(r₀, t), by rw [modulesInit, hall]; exact if_pos hr₀⟩⟩
      · have hret : ∀ id ∈ t.installed.map Modinfo.id, ∃ n, ∀ depth ≥ n, ∀ s,
            Trusted t.installed s → ∃ x, moduleInit init t.installed depth id s = some x := by
          intro id hid
          obtain ⟨m, hm, rfl⟩ := List.mem_map.mp hid
          exact returns_of_kind init (hkind m hm)
        obtain ⟨n, hn⟩ := Lib.exists_common hret
        refine ⟨n, fun depth hdepth => ?_⟩
        have htrusted : Trusted t.installed t.loaded := by
          rw [hloaded]
          exact fun id hid => absurd rfl hid
        obtain ⟨x, hx⟩ := initDeps_returns_trusted
          (f := moduleInit init t.installed depth) (fun hs h => moduleInit_tried depth hs h)
          (fun id hid s hs => hn id hid depth hdepth s hs) htrusted
        refine ⟨(x.1, { t with loaded := x.2 }), ?_⟩
        simp only [modulesInit, hall, hr₀, ↓reduceIte, initAll_eq, hx, Option.map_some]
    · have hnot : ¬ Loads t.installed id := fun hload => hload.not_defective hdefect
      have hfail : Fails t.installed id := by
        cases hm : moduleFromid t.installed id with
        | none => exact .missing hm
        | some m =>
            obtain ⟨hmem, rfl⟩ := mem_of_moduleFromid hm
            exact (hkind m hmem).resolve_left hnot
      obtain ⟨n, hn⟩ := hfail.returns init
      refine ⟨n, fun depth hdepth => ?_⟩
      obtain ⟨r, s', h, hr⟩ := hn depth hdepth s hs.trusted
      obtain ⟨calls, hcalls, hload⟩ := (moduleInit_tried depth hs.trusted h).calls
      exact ⟨r, s', h, hr, calls, hcalls, fun c hc heq => hnot (heq ▸ hload c hc)⟩

/-! ## One module -/

/-- A module that depends on itself. -/
def selfModule : List Modinfo := [⟨[97], some [[97]]⟩]

theorem selfModule_needs : Needs selfModule [97] [97] :=
  ⟨⟨[97], some [[97]]⟩, rfl, List.mem_singleton_self _⟩

theorem selfModule_none (depth : Nat) :
    moduleInit succeeds selfModule depth [97] .fresh = none := by
  induction depth with
  | zero => rfl
  | succ depth ih =>
      have hfound : moduleFromid selfModule [97] = some ⟨[97], some [[97]]⟩ := rfl
      have hdeps : initDeps (moduleInit succeeds selfModule depth) [[97]] .fresh = none := by
        rw [initDeps, ih]
      have hnext : Loaded.fresh.next [97] = none := rfl
      simp only [moduleInit, hfound, hnext, Modinfo.depIds, Option.getD_some, hdeps, ne_eq,
        not_true_eq_false, ↓reduceIte]

theorem not_loadingEnds : ¬ ∀ mods, LoadingEnds mods := by
  intro h
  have hdefect : Defective selfModule [97] := ⟨[97], .refl, Or.inr (.single selfModule_needs)⟩
  obtain ⟨n, hn⟩ := (h selfModule).2 succeeds [97] .fresh hdefect .fresh
  obtain ⟨r, s', hcall, -⟩ := hn n le_rfl
  cases (selfModule_none n).symm.trans hcall

end StardustOS.Kmod
