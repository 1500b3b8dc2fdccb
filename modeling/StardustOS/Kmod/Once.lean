import StardustOS.Kmod.DepsFirst
import Mathlib.Data.List.Count
import Mathlib.Data.List.Perm.Lattice

/-!
# Modules that are initialised once

A module counts as loaded when its link is not NULL.  The link of the module
that was loaded first is NULL, so that module is initialised again when it is
asked for once more: the modules that count as loaded are those that were
initialised at another time than the first (`Linked`).

So every module is initialised once exactly when no one asks for the first
module again (`HeadAlone`): it is the first of the list that `modules_init` goes
through, and no module depends on it.
-/

namespace StardustOS.Kmod

open Relation

variable {init : List (Id × Int) → Id → Int} {installed : List Modinfo}

/-! ## The property and the condition -/

/-- The modules whose init functions were called, in order. -/
def Loaded.ids (s : Loaded) : List Id := s.calls.map Prod.fst

/-- The list from a pointer on, along the links. -/
def Chain (next : Id → Option Id) : Option Id → List Id → Prop
  | p, [] => p = none
  | p, id :: ids => p = some id ∧ Chain next (next id) ids

/-- `modules_init` returned 0, called each init function once, and left a list of
all modules. -/
structure InitOnce (installed : List Modinfo) (r : Int) (s : Loaded) : Prop where
  result : r = 0
  once : ∀ m ∈ installed, s.ids.count m.id = 1
  list : ∃ l, Chain s.next s.first l ∧ l.Perm (installed.map Modinfo.id)

/-- The head of the list has no dependencies, and no module depends on it. -/
def HeadAlone (installed : List Modinfo) : Prop :=
  ∀ h ∈ installed.head?, h.depIds = [] ∧ ∀ m ∈ installed, h.id ∉ m.depIds

instance : Decidable (HeadAlone installed) :=
  inferInstanceAs
    (Decidable (∀ h ∈ installed.head?, h.depIds = [] ∧ ∀ m ∈ installed, h.id ∉ m.depIds))

/-- Every dependency is installed. -/
def Closed (installed : List Modinfo) : Prop :=
  ∀ m ∈ installed, ∀ d ∈ m.depIds, ∃ m' ∈ installed, m'.id = d

/-! ## The links -/

/-- A module has a link when it was initialised at another time than the first,
and the links form the list of the modules as long as none was initialised
twice. -/
structure Linked (s : Loaded) : Prop where
  first : s.first = none ↔ s.ids = []
  next : ∀ id, s.next id ≠ none ↔ id ∈ s.ids.tail
  chain : s.ids.Nodup → Chain s.next s.first s.ids.reverse

theorem fresh_linked : Linked .fresh :=
  ⟨by simp [Loaded.fresh, Loaded.ids], by simp [Loaded.fresh, Loaded.ids], fun _ => rfl⟩

/-- A list does not notice a link of a module that is not in it. -/
theorem Chain.congr {next next' : Id → Option Id} {l : List Id} {p : Option Id}
    (heq : ∀ id ∈ l, next' id = next id) (h : Chain next p l) : Chain next' p l := by
  induction l generalizing p with
  | nil => exact h
  | cons id ids ih =>
      refine ⟨h.1, ?_⟩
      rw [heq id List.mem_cons_self]
      exact ih (fun d hd => heq d (List.mem_cons_of_mem _ hd)) h.2

@[simp] theorem ids_loaded (s : Loaded) (id : Id) (r : Int) :
    ((s.called id r).insertHead id).ids = s.ids ++ [id] := by
  simp [Loaded.ids, Loaded.called, Loaded.insertHead]

/-- The list after one more module. -/
theorem Linked.loaded {s : Loaded} (h : Linked s) (id : Id) (r : Int) :
    Linked ((s.called id r).insertHead id) where
  first := by
    rw [ids_loaded]
    simp [Loaded.insertHead]
  next d := by
    rw [ids_loaded]
    cases hids : s.ids with
    | nil =>
        have hnone := h.next d
        rw [hids] at hnone
        have hfirst := h.first.mpr hids
        by_cases hd : d = id
        · simp [Loaded.insertHead, Loaded.called, hd, hfirst]
        · simpa [Loaded.insertHead, Loaded.called, hd] using hnone
    | cons a ids =>
        have hnone := h.next d
        rw [hids] at hnone
        have hfirst : s.first ≠ none := fun hf => by simp [h.first.mp hf] at hids
        by_cases hd : d = id
        · simp [Loaded.insertHead, Loaded.called, hd, hfirst]
        · simpa [Loaded.insertHead, Loaded.called, hd] using hnone
  chain hnodup := by
    rw [ids_loaded] at hnodup ⊢
    rw [List.reverse_append, List.reverse_singleton]
    obtain ⟨hs, -, hdis⟩ := List.nodup_append.mp hnodup
    refine ⟨rfl, ?_⟩
    have hself : ((s.called id r).insertHead id).next id = s.first := by
      simp [Loaded.insertHead, Loaded.called]
    rw [hself]
    refine (h.chain hs).congr ?_
    intro d hd
    have hne : d ≠ id := hdis d (List.mem_reverse.mp hd) id List.mem_cons_self
    simp [Loaded.insertHead, Loaded.called, hne]

/-! ## Successful calls -/

/-- What `module_init` does for the modules `ds`.  When a module was initialised
before, it asks for none of them in vain: each is initialised at another time
than the first.  It initialises none of them twice if that never happened before
and they do not ask for the first module. -/
structure Visited (installed : List Modinfo) (ds : List Id) (s s' : Loaded) : Prop where
  linked : Linked s'
  grows : ∃ ext, s'.ids = s.ids ++ ext ∧ ∀ x ∈ ext, ∃ d ∈ ds, ReflTransGen (Dep installed) d x
  mem : ∀ d ∈ ds, d ∈ s'.ids
  tail : s.ids ≠ [] → ∀ d ∈ ds, d ∈ s'.ids.tail
  deps : s.ids ≠ [] → ∀ m ∈ installed, m.id ∈ s'.ids → m.id ∈ s.ids ∨
    ∀ d ∈ m.depIds, d ∈ s'.ids.tail
  nodup : ∀ h ∈ s.ids.head?, (∀ m ∈ installed, h ∉ m.depIds) → h ∉ ds → s.ids.Nodup → s'.ids.Nodup

namespace Visited

variable {s t s' : Loaded} {ds ds' : List Id}

theorem tail_append {l l' : List Id} {x : Id} (h : x ∈ l.tail) : x ∈ (l ++ l').tail := by
  cases l with
  | nil => cases h
  | cons a l => exact List.mem_append_left _ h

theorem mem_tail_append {l l' : List Id} {x : Id} (hl : l ≠ []) (h : x ∈ l') :
    x ∈ (l ++ l').tail := by
  cases l with
  | nil => exact absurd rfl hl
  | cons a l => exact List.mem_append_right _ h

/-- Where no module is initialised twice, the first one is not asked for again. -/
theorem head_not_mem (h : Visited installed ds s t) (hs : s.ids ≠ []) {a : Id} {ids : List Id}
    (hcons : t.ids = a :: ids) (hn : (a :: ids).Nodup) : a ∉ ds := by
  intro hd
  have htail := h.tail hs a hd
  rw [hcons] at htail
  exact (List.nodup_cons.mp hn).1 htail

/-- Nor by a module that was initialised meanwhile. -/
theorem head_not_dep (h : Visited installed ds s t) (hs : s.ids ≠ []) {a : Id} {ids : List Id}
    (hcons : t.ids = a :: ids) (hn : (a :: ids).Nodup) {m : Modinfo} (hm : m ∈ installed)
    (hmem : m.id ∈ t.ids) (hnew : m.id ∉ s.ids) : a ∉ m.depIds := by
  intro hd
  have htail := (h.deps hs m hm hmem).resolve_left hnew a hd
  rw [hcons] at htail
  exact (List.nodup_cons.mp hn).1 htail

theorem head?_grows (h : Visited installed ds s t) {x : Id} (hx : x ∈ s.ids.head?) :
    x ∈ t.ids.head? := by
  obtain ⟨ext, hext, -⟩ := h.grows
  rw [hext, List.head?_append, Option.mem_def.mp hx]
  rfl

theorem ne_nil (h : Visited installed ds s t) (hs : s.ids ≠ []) : t.ids ≠ [] := by
  obtain ⟨ext, hext, -⟩ := h.grows
  rw [hext]
  exact List.append_ne_nil_of_left_ne_nil hs ext

theorem refl (h : Linked s) : Visited installed [] s s where
  linked := h
  grows := ⟨[], by simp, by simp⟩
  mem := by simp
  tail := by simp
  deps _ m _ hm := Or.inl hm
  nodup _ _ _ _ hn := hn

/-- A module that counts as loaded. -/
theorem known (h : Linked s) {id : Id} (hid : s.next id ≠ none) : Visited installed [id] s s where
  linked := h
  grows := ⟨[], by simp, by simp⟩
  mem d hd := by
    obtain rfl := List.mem_singleton.mp hd
    exact List.mem_of_mem_tail ((h.next d).mp hid)
  tail _ d hd := by
    obtain rfl := List.mem_singleton.mp hd
    exact (h.next d).mp hid
  deps _ m _ hm := Or.inl hm
  nodup _ _ _ _ hn := hn

theorem trans (h : Visited installed ds s t) (h' : Visited installed ds' t s') :
    Visited installed (ds ++ ds') s s' := by
  obtain ⟨ext, hext, hreach⟩ := h.grows
  obtain ⟨ext', hext', hreach'⟩ := h'.grows
  refine ⟨h'.linked, ⟨ext ++ ext', by rw [hext', hext, List.append_assoc], ?_⟩, ?_, ?_, ?_, ?_⟩
  · intro x hx
    rcases List.mem_append.mp hx with hx | hx
    · obtain ⟨d, hd, hdx⟩ := hreach x hx
      exact ⟨d, List.mem_append_left _ hd, hdx⟩
    · obtain ⟨d, hd, hdx⟩ := hreach' x hx
      exact ⟨d, List.mem_append_right _ hd, hdx⟩
  · intro d hd
    rcases List.mem_append.mp hd with hd | hd
    · rw [hext']
      exact List.mem_append_left _ (h.mem d hd)
    · exact h'.mem d hd
  · intro hs d hd
    rcases List.mem_append.mp hd with hd | hd
    · rw [hext']
      exact tail_append (h.tail hs d hd)
    · exact h'.tail (h.ne_nil hs) d hd
  · intro hs m hm hmid
    rcases h'.deps (h.ne_nil hs) m hm hmid with hmid | hdeps
    · refine (h.deps hs m hm hmid).imp_right ?_
      intro hdeps d hd
      rw [hext']
      exact tail_append (hdeps d hd)
    · exact Or.inr hdeps
  · intro a ha hnone hds hn
    rw [List.mem_append, not_or] at hds
    exact h'.nodup a (h.head?_grows ha) hnone hds.2 (h.nodup a ha hnone hds.1 hn)

/-- After its dependencies, a module that did not count as loaded is
initialised. -/
theorem loaded {m : Modinfo} (hids : (installed.map Modinfo.id).Nodup)
    (hacyclic : Acyclic installed) (hm : m ∈ installed) (hs : Linked s)
    (hnext : s.next m.id = none) (h : Visited installed m.depIds s t) (r : Int) :
    Visited installed [m.id] s ((t.called m.id r).insertHead m.id) := by
  obtain ⟨ext, hext, hreach⟩ := h.grows
  have hdep : ∀ d ∈ m.depIds, Dep installed m.id d := fun d hd => ⟨m, hm, rfl, hd⟩
  refine ⟨h.linked.loaded m.id r, ⟨ext ++ [m.id], ?_, ?_⟩, ?_, ?_, ?_, ?_⟩
  · rw [ids_loaded, hext, List.append_assoc]
  · intro x hx
    refine ⟨m.id, List.mem_singleton_self _, ?_⟩
    rcases List.mem_append.mp hx with hx | hx
    · obtain ⟨d, hd, hdx⟩ := hreach x hx
      exact .head (hdep d hd) hdx
    · rw [List.mem_singleton.mp hx]
  · intro d hd
    rw [ids_loaded]
    exact List.mem_append_right _ hd
  · intro hne d hd
    rw [ids_loaded]
    exact mem_tail_append (h.ne_nil hne) hd
  · intro hne m' hm' hmid
    rw [ids_loaded] at hmid ⊢
    rcases List.mem_append.mp hmid with hmid | hmid
    · exact (h.deps hne m' hm' hmid).imp_right fun hdeps d hd => tail_append (hdeps d hd)
    · obtain rfl : m' = m :=
        List.inj_on_of_nodup_map hids hm' hm (List.mem_singleton.mp hmid)
      exact Or.inr fun d hd => tail_append (h.tail hne d hd)
  · intro a ha hnone hne hn
    rw [ids_loaded]
    refine List.nodup_append.mpr
      ⟨h.nodup a ha hnone (hnone m hm) hn, List.nodup_singleton _, ?_⟩
    rintro x hx y hy rfl
    obtain rfl := List.mem_singleton.mp hy
    rw [hext] at hx
    rcases List.mem_append.mp hx with hx | hx
    · -- It was initialised before, at the first time, since it does not count as loaded.
      have htail : m.id ∉ s.ids.tail := fun ht => (hs.next m.id).mpr ht hnext
      obtain ⟨b, ids, hcons⟩ := List.exists_cons_of_ne_nil (List.ne_nil_of_mem hx)
      rw [hcons] at hx ha htail
      rcases List.mem_cons.mp hx with heq | hx
      · exact hne (List.mem_singleton.mpr ((Option.some.inj ha).symm.trans heq.symm))
      · exact htail hx
    · -- It depends on itself.
      obtain ⟨d, hd, hdx⟩ := hreach m.id hx
      exact hacyclic m.id (.head' (hdep d hd) hdx)

end Visited

theorem initDeps_visited {f : Id → Loaded → Option (Int × Loaded)} {P : Id → Prop}
    (hf : ∀ {id s r s'}, P id → Linked s → f id s = some (r, s') →
      0 ≤ r ∧ Visited installed [id] s s')
    {ids : List Id} {s s' : Loaded} {r : Int} (hP : ∀ id ∈ ids, P id) (hs : Linked s)
    (h : initDeps f ids s = some (r, s')) : r = 0 ∧ Visited installed ids s s' := by
  induction ids generalizing s with
  | nil =>
      obtain ⟨rfl, rfl⟩ := Prod.mk.inj (Option.some.inj h)
      exact ⟨rfl, .refl hs⟩
  | cons id ids ih =>
      rcases initDeps_cons_cases h with ⟨hid, hneg⟩ | ⟨r₁, t, hid, -, hids⟩
      · exact absurd hneg (Int.not_lt.mpr (hf (hP id List.mem_cons_self) hs hid).1)
      · obtain ⟨-, hvisit⟩ := hf (hP id List.mem_cons_self) hs hid
        obtain ⟨hr, hrest⟩ :=
          ih (fun d hd => hP d (List.mem_cons_of_mem _ hd)) hvisit.linked hids
        exact ⟨hr, hvisit.trans hrest⟩

section Success

variable (hinit : ∀ calls id, 0 ≤ init calls id) (hids : (installed.map Modinfo.id).Nodup)
  (hacyclic : Acyclic installed) (hclosed : Closed installed)

include hids in
/-- An installed module is found by its id. -/
theorem moduleFromid_eq {m : Modinfo} (hm : m ∈ installed) :
    moduleFromid installed m.id = some m := by
  cases h : moduleFromid installed m.id with
  | none =>
      have := List.find?_eq_none.mp h m hm
      simp at this
  | some m' =>
      obtain ⟨hm', hid⟩ := mem_of_moduleFromid h
      rw [List.inj_on_of_nodup_map hids hm' hm hid]

include hinit hids hacyclic hclosed

theorem moduleInit_visited (depth : Nat) {id : Id} {s s' : Loaded} {r : Int}
    (hid : ∃ m ∈ installed, m.id = id) (hs : Linked s)
    (h : moduleInit init installed depth id s = some (r, s')) :
    0 ≤ r ∧ Visited installed [id] s s' := by
  induction depth generalizing id s s' r with
  | zero => cases h
  | succ depth ih =>
      obtain ⟨m, hm, rfl⟩ := hid
      have hfound := moduleFromid_eq hids hm
      cases moduleInit_cases h with
      | missing found => cases hfound.symm.trans found
      | linked found next =>
          cases hfound.symm.trans found
          exact ⟨le_rfl, .known hs next⟩
      | depFails found next deps error =>
          cases hfound.symm.trans found
          obtain ⟨rfl, -⟩ := initDeps_visited ih (hclosed m hm) hs deps
          exact absurd error (lt_irrefl 0)
      | initFails found next deps ok error => exact absurd error (Int.not_lt.mpr (hinit _ _))
      | loads found next deps ok done =>
          cases hfound.symm.trans found
          obtain ⟨-, hdeps⟩ := initDeps_visited ih (hclosed m hm) hs deps
          exact ⟨done, hdeps.loaded hids hacyclic hm hs next _⟩

/-! ## All modules -/

section Run

variable {depth : Nat} {l : Loaded} {r : Int}
  (h : initDeps (moduleInit init installed depth) (installed.map Modinfo.id) .fresh = some (r, l))

include h

theorem run_visited : r = 0 ∧ Visited installed (installed.map Modinfo.id) .fresh l :=
  initDeps_visited
    (fun hid hs h => moduleInit_visited hinit hids hacyclic hclosed depth hid hs h)
    (fun _ hid => List.mem_map.mp hid) fresh_linked h

theorem run_depsFirst : DepsFirst installed l.calls := by
  obtain ⟨rfl, -⟩ := run_visited hinit hids hacyclic hclosed h
  rcases initDeps_sound (fun hs h => moduleInit_sound depth hs h) fresh_sound h with
    ⟨-, hok⟩ | hfail
  · exact hok.sound.depsFirst
  · exact absurd hfail.error (lt_irrefl _)

/-- The modules that were initialised are the installed ones. -/
theorem mem_ids_iff (id : Id) : id ∈ l.ids ↔ id ∈ installed.map Modinfo.id := by
  constructor
  · intro hid
    obtain ⟨⟨_, r'⟩, hc, rfl⟩ := List.mem_map.mp hid
    obtain ⟨pre, post, heq⟩ := List.append_of_mem hc
    obtain ⟨m, hm, hmid, -⟩ :=
      (run_depsFirst hinit hids hacyclic hclosed h).deps pre _ r' post heq
    exact List.mem_map.mpr ⟨m, hm, hmid⟩
  · exact (run_visited hinit hids hacyclic hclosed h).2.mem id

/-- All is well when no module was initialised twice. -/
theorem initOnce_iff_nodup : InitOnce installed r l ↔ l.ids.Nodup := by
  have hmem := mem_ids_iff hinit hids hacyclic hclosed h
  obtain ⟨hr, hvisit⟩ := run_visited hinit hids hacyclic hclosed h
  constructor
  · intro honce
    refine List.nodup_iff_count_le_one.mpr ?_
    intro id
    by_cases hid : id ∈ l.ids
    · obtain ⟨m, hm, rfl⟩ := List.mem_map.mp ((hmem id).mp hid)
      exact (honce.once m hm).le
    · rw [List.count_eq_zero_of_not_mem hid]
      exact Nat.zero_le 1
  · intro hnodup
    refine ⟨hr, fun m hm => ?_, l.ids.reverse, hvisit.linked.chain hnodup, ?_⟩
    · exact List.count_eq_one_of_mem hnodup ((hmem m.id).mpr (List.mem_map_of_mem hm))
    · exact (List.reverse_perm _).trans ((List.perm_ext_iff_of_nodup hnodup hids).mpr hmem)

end Run

end Success

/-- A module without dependencies is initialised at once. -/
theorem moduleInit_leaf (hids : (installed.map Modinfo.id).Nodup) {h : Modinfo}
    (hh : h ∈ installed) (hdeps : h.depIds = []) (hinit : ∀ calls id, 0 ≤ init calls id)
    {depth : Nat} {t : Loaded} {r : Int}
    (ht : moduleInit init installed depth h.id .fresh = some (r, t)) : t.ids = [h.id] := by
  cases depth with
  | zero => cases ht
  | succ depth =>
      have hr := hinit Loaded.fresh.calls h.id
      simp only [moduleInit, moduleFromid_eq hids hh, hdeps, initDeps] at ht
      rw [if_neg (by simp [Loaded.fresh]), if_neg (lt_irrefl _), if_neg (Int.not_lt.mpr hr)] at ht
      obtain ⟨-, rfl⟩ := Prod.mk.inj (Option.some.inj ht)
      simp [Loaded.fresh, Loaded.ids, Loaded.called, Loaded.insertHead]

/-- The first call of an init function is of a module without dependencies. -/
theorem DepsFirst.head {calls : List (Id × Int)} (h : DepsFirst installed calls)
    (hids : (installed.map Modinfo.id).Nodup) {m : Modinfo} (hm : m ∈ installed) {ids : List Id}
    (hcalls : calls.map Prod.fst = m.id :: ids) : m.depIds = [] := by
  obtain ⟨⟨_, r⟩, post, rfl, rfl, -⟩ := List.map_eq_cons_iff.mp hcalls
  obtain ⟨m', hm', hid, hdeps⟩ := h.deps [] _ r post rfl
  obtain rfl : m' = m := List.inj_on_of_nodup_map hids hm' hm hid
  refine List.eq_nil_iff_forall_not_mem.mpr ?_
  intro d hd
  obtain ⟨-, _, -, hmem⟩ := hdeps d hd
  cases hmem

/-- No module is initialised twice exactly when no one asks for the first one
again. -/
theorem nodup_iff_headAlone (hinit : ∀ calls id, 0 ≤ init calls id)
    (hids : (installed.map Modinfo.id).Nodup) (hacyclic : Acyclic installed)
    (hclosed : Closed installed) {depth : Nat} {l : Loaded} {r : Int}
    (hrun : initDeps (moduleInit init installed depth) (installed.map Modinfo.id) .fresh =
      some (r, l)) :
    l.ids.Nodup ↔ HeadAlone installed := by
  have hdepsFirst := run_depsFirst hinit hids hacyclic hclosed hrun
  have hmem := mem_ids_iff hinit hids hacyclic hclosed hrun
  cases hinst : installed with
  | nil =>
      rw [hinst] at hrun
      obtain ⟨-, rfl⟩ := Prod.mk.inj (Option.some.inj hrun)
      simp [Loaded.fresh, Loaded.ids, HeadAlone]
  | cons h rest =>
      subst hinst
      rw [List.map_cons, List.nodup_cons] at hids
      have hids' : ((h :: rest).map Modinfo.id).Nodup := List.nodup_cons.mpr hids
      simp only [List.map_cons, initDeps] at hrun
      cases ht : moduleInit init (h :: rest) depth h.id .fresh with
      | none => simp [ht] at hrun
      | some rt =>
          obtain ⟨r₁, t⟩ := rt
          obtain ⟨hr₁, hfirst⟩ := moduleInit_visited hinit hids' hacyclic hclosed depth
            ⟨h, List.mem_cons_self, rfl⟩ fresh_linked ht
          simp only [ht, if_neg (Int.not_lt.mpr hr₁)] at hrun
          have hrest := (initDeps_visited
            (fun hid hs h => moduleInit_visited hinit hids' hacyclic hclosed depth hid hs h)
            (fun id hid => List.mem_map.mp (List.mem_cons_of_mem _ hid)) hfirst.linked hrun).2
          have hne : t.ids ≠ [] := List.ne_nil_of_mem (hfirst.mem h.id (List.mem_singleton_self _))
          constructor
          · rintro hn _ ⟨⟩
            obtain ⟨x, ids, hcons⟩ :=
              List.exists_cons_of_ne_nil (List.ne_nil_of_mem ((hmem h.id).mpr List.mem_cons_self))
            rw [hcons] at hn
            -- The first module is not asked for again, so it is the head.
            obtain rfl : x = h.id := by
              have hx : x ∈ (h :: rest).map Modinfo.id := (hmem x).mp (hcons ▸ List.mem_cons_self)
              exact (List.mem_cons.mp hx).resolve_right (hrest.head_not_mem hne hcons hn)
            have hdeps : h.depIds = [] := hdepsFirst.head hids' List.mem_cons_self hcons
            refine ⟨hdeps, ?_⟩
            intro m hm
            have hids_t := moduleInit_leaf hids' List.mem_cons_self hdeps hinit ht
            by_cases hmid : m.id = h.id
            · obtain rfl : m = h := List.inj_on_of_nodup_map hids' hm List.mem_cons_self hmid
              simp [hdeps]
            · exact hrest.head_not_dep hne hcons hn hm
                ((hmem m.id).mpr (List.mem_map_of_mem hm)) (by simpa [hids_t] using hmid)
          · intro halone
            obtain ⟨hdeps, hnone⟩ := halone h rfl
            have hids_t := moduleInit_leaf hids' List.mem_cons_self hdeps hinit ht
            exact hrest.nodup h.id (by rw [hids_t]; rfl) hnone hids.1
              (hids_t ▸ List.nodup_singleton _)

/-! ## `modules_init` -/

/-- Modules with distinct ids are installed, newest first. -/
theorem installAll_eq (mods : List Modinfo) {s : Modules} (hs : s.loaded = .fresh)
    (hids : ((mods.reverse ++ s.installed).map Modinfo.id).Nodup) :
    s.installAll mods = (0, ⟨mods.reverse ++ s.installed, .fresh⟩) := by
  induction mods generalizing s with
  | nil =>
      cases s
      simp_all [Modules.installAll]
  | cons m ms ih =>
      rw [List.reverse_cons, List.append_assoc, List.singleton_append] at hids
      have hnew : moduleFromid s.installed m.id = none := by
        refine List.find?_eq_none.mpr fun m' hm' heq => ?_
        rw [List.map_append, List.nodup_append, List.map_cons, List.nodup_cons] at hids
        exact hids.2.1.1 (List.mem_map.mpr ⟨m', hm', by simpa using heq⟩)
      have hinstall : s.moduleInstall m = (0, ⟨m :: s.installed, .fresh⟩) := by
        simp only [Modules.moduleInstall, hnew, hs]
        simp [Loaded.fresh]
      rw [Modules.installAll, hinstall]
      simp only [lt_irrefl, ↓reduceIte]
      rw [ih rfl hids, List.reverse_cons, List.append_assoc, List.singleton_append]

/-- For installed modules with distinct ids, an acyclic dependency relation and
init functions that succeed: `modules_init` initialises each module once exactly
when the head of the list is alone. -/
theorem modulesInit_once_iff (init : List (Id × Int) → Id → Int)
    (hinit : ∀ calls id, 0 ≤ init calls id) (mods : List Modinfo) (s : Modules)
    (hs : s.loaded = .fresh) (hids : ((mods.reverse ++ s.installed).map Modinfo.id).Nodup)
    (hacyclic : Acyclic (mods.reverse ++ s.installed))
    (hclosed : Closed (mods.reverse ++ s.installed)) :
    (∃ n, ∀ depth ≥ n, ∃ r s', modulesInit init depth mods s = some (r, s') ∧
      InitOnce s'.installed r s'.loaded) ↔ HeadAlone (mods.reverse ++ s.installed) := by
  have hinstall := installAll_eq mods hs hids
  generalize mods.reverse ++ s.installed = installed at *
  have heq : ∀ depth, modulesInit init depth mods s =
      (initDeps (moduleInit init installed depth) (installed.map Modinfo.id) .fresh).map
        fun x => (x.1, ⟨installed, x.2⟩) := by
    intro depth
    simp only [modulesInit, hinstall, lt_irrefl, ↓reduceIte, initAll_eq]
  obtain ⟨n, hn⟩ := Lib.exists_common fun id (_ : id ∈ installed.map Modinfo.id) =>
    moduleInit_returns init hacyclic id
  have hiff : ∀ {depth r l},
      initDeps (moduleInit init installed depth) (installed.map Modinfo.id) .fresh = some (r, l) →
        (InitOnce installed r l ↔ HeadAlone installed) := fun hrun =>
    (initOnce_iff_nodup hinit hids hacyclic hclosed hrun).trans
      (nodup_iff_headAlone hinit hids hacyclic hclosed hrun)
  constructor
  · rintro ⟨n', hn'⟩
    obtain ⟨r, s', hrun, honce⟩ := hn' n' le_rfl
    rw [heq] at hrun
    obtain ⟨⟨r', l⟩, hl, hs'⟩ := Option.map_eq_some_iff.mp hrun
    obtain ⟨rfl, rfl⟩ := Prod.mk.inj hs'
    exact (hiff hl).mp honce
  · intro halone
    refine ⟨n, ?_⟩
    intro depth hdepth
    obtain ⟨⟨r, l⟩, hl⟩ := initDeps_returns (fun id hid => hn id hid depth hdepth) .fresh
    exact ⟨r, ⟨installed, l⟩, by rw [heq, hl, Option.map_some], (hiff hl).mpr halone⟩

/-- The module `b` is alone at the head of the list. -/
def loneHead : List Modinfo :=
  [⟨[99], none⟩, ⟨[97], some [[99]]⟩, ⟨[98], none⟩]

/-- Three modules, of which the last of the binary is alone. -/
theorem modulesInit_once_lone :
    ∃ n, ∀ depth ≥ n, ∃ r s', modulesInit (fun _ _ => 0) depth loneHead .boot = some (r, s') ∧
      InitOnce s'.installed r s'.loaded :=
  (modulesInit_once_iff (fun _ _ => 0) (fun _ _ => le_rfl) loneHead .boot rfl (by decide)
    (acyclic_of_rank (fun id => if id = [97] then 1 else 0) (by decide))
    (by unfold Closed; decide)).mpr (by decide)

/-- The module `a` depends on `b`, and `b` is the last of the binary: `b` is
initialised first, its link stays NULL, and it is initialised again for `a`, so
that its link then leads to itself. -/
theorem modulesInit_once_twice :
    (twoModules.map Modinfo.id).Nodup ∧ Acyclic twoModules ∧ Closed twoModules ∧
      ∃ s', modulesInit (fun _ _ => 0) 3 twoModules .boot = some (0, s') ∧
        s'.loaded.ids = [[98], [98], [97]] ∧ s'.loaded.next [98] = some [98] ∧
        ¬ InitOnce s'.installed 0 s'.loaded := by
  refine ⟨by decide, ?_, by unfold Closed; decide, _, rfl, by decide, by decide, fun h => ?_⟩
  · exact acyclic_of_rank (fun id => if id = [97] then 1 else 0) (by decide)
  · have := h.once ⟨[98], none⟩ (by decide)
    revert this
    decide

end StardustOS.Kmod
