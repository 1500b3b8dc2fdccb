import Mathlib.Data.Fintype.Card
import Mathlib.Data.List.Nodup
import Mathlib.Data.Set.Finite.Basic
import Mathlib.Logic.Relation
import Mathlib.Tactic.Common
import StardustOS.Lib.Loop

/-!
# Depth-first walks without marks

A walk over a graph that goes into a node as often as it is led there.  A node has
items, and an item may link to a node.  From each root on, the walk takes the items of
a node in turn and goes into the node that an item links to before it takes the next.

`trace` lists what the walk takes, items and roots, with a bound on its depth.  A way
into a node is a root or an item that links to it.  The walk ends and takes no item twice
exactly when no node with items has two ways in (`oneWay_iff`).

* In the trace, a way into a node is followed by the trace of the node
  (`infix_of_wayIn`), so in a trace without repetition the ways into a node are one.
* With one way into each node there are no cycles (`OneWay.acyclic`), so the walk ends
  (`OneWay.exists_trace`), and what is below two nodes is below one of them
  (`OneWay.below_or`), so what it takes below them is not the same.
-/

namespace StardustOS.Lib

open Relation

/-! ## Lists of traces -/

section Each

variable {ι β : Type*}

/-- The traces for the elements of a list, one after the other. -/
def each (f : ι → Option (List β)) : List ι → Option (List β)
  | [] => some []
  | i :: is => do
      let t ← f i
      let ts ← each f is
      some (t ++ ts)

theorem each_eq_some {f : ι → Option (List β)} {l : List ι} {t : List β} :
    each f l = some t ↔ (∀ i ∈ l, (f i).isSome) ∧ t = l.flatMap fun i => (f i).getD [] := by
  induction l generalizing t with
  | nil =>
      rw [each, Option.some.injEq]
      exact ⟨fun h => ⟨by simp, h.symm⟩, fun h => h.2.symm⟩
  | cons i l ih =>
      rw [each]
      cases hi : f i with
      | none => simp [hi]
      | some u =>
          cases hl : each f l with
          | none =>
              simp only [Option.bind_eq_bind, Option.bind_some, Option.bind_none, reduceCtorEq,
                false_iff]
              rintro ⟨hall, -⟩
              have hsome := ih.mpr ⟨fun j hj => hall j (List.mem_cons_of_mem _ hj), rfl⟩
              rw [hl] at hsome
              cases hsome
          | some ts =>
              obtain ⟨hall, rfl⟩ := ih.mp hl
              simp only [Option.bind_eq_bind, Option.bind_some, Option.some.injEq,
                List.flatMap_cons, hi, Option.getD_some]
              constructor
              · rintro rfl
                refine ⟨?_, rfl⟩
                intro j hj
                rcases List.mem_cons.mp hj with rfl | hj
                · rw [hi]
                  rfl
                · exact hall j hj
              · rintro ⟨-, rfl⟩
                rfl

theorem each_isSome {f : ι → Option (List β)} {l : List ι} (h : ∀ i ∈ l, (f i).isSome) :
    ∃ t, each f l = some t :=
  ⟨_, each_eq_some.mpr ⟨h, rfl⟩⟩

theorem each_congr {f g : ι → Option (List β)} {l : List ι} {t : List β}
    (h : ∀ i ∈ l, ∀ u, f i = some u → g i = some u) (ht : each f l = some t) :
    each g l = some t := by
  obtain ⟨hall, rfl⟩ := each_eq_some.mp ht
  have hfg : ∀ i ∈ l, g i = f i := by
    intro i hi
    obtain ⟨u, hu⟩ := Option.isSome_iff_exists.mp (hall i hi)
    rw [hu, h i hi u hu]
  refine each_eq_some.mpr ⟨fun i hi => hfg i hi ▸ hall i hi, ?_⟩
  refine List.flatMap_congr fun i hi => ?_
  rw [hfg i hi]

/-- The trace for an element stands in the whole. -/
theorem infix_of_each {f : ι → Option (List β)} {l : List ι} {t u : List β}
    (ht : each f l = some t) {i : ι} (hi : i ∈ l) (hu : f i = some u) : u <:+: t := by
  obtain ⟨-, rfl⟩ := each_eq_some.mp ht
  obtain ⟨pre, post, rfl⟩ := List.append_of_mem hi
  refine ⟨pre.flatMap fun i => (f i).getD [], post.flatMap fun i => (f i).getD [], ?_⟩
  rw [List.flatMap_append, List.flatMap_cons, hu, Option.getD_some, List.append_assoc]

end Each

/-! ## Walks -/

/-- A graph of nodes whose items may link to nodes. -/
structure LinkGraph (N A : Type*) where
  items : N → List A
  owner : A → N
  link : A → Option N
  roots : List N
  owner_of_mem : ∀ {n a}, a ∈ items n → owner a = n
  nodup_items : ∀ n, (items n).Nodup
  nodup_roots : roots.Nodup

/-- What leads into a node. -/
inductive Way (N A : Type*)
  | root (n : N)
  | item (a : A)

namespace LinkGraph

variable {N A : Type*} (G : LinkGraph N A)

/-- The walk at an item, given the walks from the nodes. -/
def atItem (walk : N → Option (List (Way N A))) (a : A) : Option (List (Way N A)) :=
  match G.link a with
  | none => some [.item a]
  | some m => (walk m).map (.item a :: ·)

/-- The walk from a node, to a depth. -/
def trace : Nat → N → Option (List (Way N A))
  | 0, _ => none
  | depth + 1, n => each (G.atItem (trace depth)) (G.items n)

/-- The walk from all roots. -/
def fullTrace (depth : Nat) : Option (List (Way N A)) :=
  each (fun r => (G.trace depth r).map (.root r :: ·)) G.roots

/-- The items of a trace. -/
def taken (t : List (Way N A)) : List A :=
  t.filterMap fun
    | .root _ => none
    | .item a => some a

/-- The roots of a trace. -/
def started (t : List (Way N A)) : List N :=
  t.filterMap fun
    | .root r => some r
    | .item _ => none

/-- A way into a node that the walk comes to. -/
inductive WayIn : Way N A → N → Prop
  | root {n : N} (mem : n ∈ G.roots) : WayIn (.root n) n
  | item {w : Way N A} {n m : N} {a : A} (from_ : WayIn w n) (mem : a ∈ G.items n)
      (link : G.link a = some m) : WayIn (.item a) m

/-- A node with items has no more than one way in. -/
def OneWay : Prop :=
  ∀ n, G.items n ≠ [] → ∀ w w', G.WayIn w n → G.WayIn w' n → w = w'

variable {G}

/-! ## Traces -/

theorem atItem_none {walk : N → Option (List (Way N A))} {a : A} (h : G.link a = none) :
    G.atItem walk a = some [.item a] := by
  rw [atItem, h]

theorem atItem_some {walk : N → Option (List (Way N A))} {a : A} {m : N}
    (h : G.link a = some m) : G.atItem walk a = (walk m).map (.item a :: ·) := by
  rw [atItem, h]

theorem trace_succ {depth : Nat} {n : N} {t : List (Way N A)} (h : G.trace depth n = some t) :
    G.trace (depth + 1) n = some t := by
  induction depth generalizing n t with
  | zero => cases h
  | succ depth ih =>
      rw [trace] at h ⊢
      refine each_congr ?_ h
      intro a _ u hu
      cases hlink : G.link a with
      | none => rwa [atItem_none hlink] at hu ⊢
      | some m =>
          rw [atItem_some hlink] at hu ⊢
          obtain ⟨v, hv, rfl⟩ := Option.map_eq_some_iff.mp hu
          rw [ih hv, Option.map_some]

theorem trace_le {depth depth' : Nat} {n : N} {t : List (Way N A)} (hle : depth ≤ depth')
    (h : G.trace depth n = some t) : G.trace depth' n = some t := by
  induction hle with
  | refl => exact h
  | step _ ih => exact trace_succ ih

theorem trace_unique {depth depth' : Nat} {n : N} {t t' : List (Way N A)}
    (h : G.trace depth n = some t) (h' : G.trace depth' n = some t') : t = t' := by
  have hmax := trace_le (le_max_left depth depth') h
  rw [trace_le (le_max_right depth depth') h'] at hmax
  exact (Option.some.inj hmax).symm

/-- The trace of a node has its items, each followed by the trace of what it links to. -/
theorem infix_of_item {depth : Nat} {n m : N} {a : A} {t : List (Way N A)}
    (h : G.trace depth n = some t) (ha : a ∈ G.items n) (hlink : G.link a = some m) :
    ∃ depth' u, G.trace depth' m = some u ∧ .item a :: u <:+: t := by
  cases depth with
  | zero => cases h
  | succ depth =>
      rw [trace] at h
      obtain ⟨hall, -⟩ := each_eq_some.mp h
      obtain ⟨v, hv⟩ := Option.isSome_iff_exists.mp (hall a ha)
      have hinfix := infix_of_each h ha hv
      rw [atItem_some hlink] at hv
      obtain ⟨u, hu, rfl⟩ := Option.map_eq_some_iff.mp hv
      exact ⟨depth, u, hu, hinfix⟩

theorem trace_ne_nil {depth : Nat} {n : N} {t : List (Way N A)} (h : G.trace depth n = some t)
    (hn : G.items n ≠ []) : t ≠ [] := by
  cases depth with
  | zero => cases h
  | succ depth =>
      obtain ⟨a, ha⟩ := List.exists_mem_of_ne_nil _ hn
      rw [trace] at h
      obtain ⟨hall, -⟩ := each_eq_some.mp h
      obtain ⟨v, hv⟩ := Option.isSome_iff_exists.mp (hall a ha)
      have hinfix := infix_of_each h ha hv
      rintro rfl
      obtain rfl := List.infix_nil.mp hinfix
      cases hlink : G.link a with
      | none =>
          rw [atItem_none hlink] at hv
          cases hv
      | some m =>
          rw [atItem_some hlink] at hv
          obtain ⟨u, -, hu⟩ := Option.map_eq_some_iff.mp hv
          cases hu

/-- A way into a node is followed by the trace of the node. -/
theorem infix_of_wayIn {depth : Nat} {t : List (Way N A)} (h : G.fullTrace depth = some t)
    {w : Way N A} {n : N} (hw : G.WayIn w n) :
    ∃ depth' u, G.trace depth' n = some u ∧ w :: u <:+: t := by
  induction hw with
  | @root n mem =>
      obtain ⟨hall, -⟩ := each_eq_some.mp h
      obtain ⟨v, hv⟩ := Option.isSome_iff_exists.mp (hall n mem)
      have hinfix := infix_of_each h mem hv
      obtain ⟨u, hu, rfl⟩ := Option.map_eq_some_iff.mp hv
      exact ⟨depth, u, hu, hinfix⟩
  | item _ mem link ih =>
      obtain ⟨depth', u, hu, hinfix⟩ := ih
      obtain ⟨depth'', v, hv, hitem⟩ := infix_of_item hu mem link
      exact ⟨depth'', v, hv, hitem.trans ((List.suffix_cons _ _).isInfix.trans hinfix)⟩

/-- In a list without repetition an element has one before it. -/
theorem eq_of_infix {β : Type*} {t u u' : List β} {x y h : β} (ht : t.Nodup)
    (hx : x :: h :: u <:+: t) (hy : y :: h :: u' <:+: t) : x = y := by
  obtain ⟨p, q, hp⟩ := hx
  obtain ⟨p', q', hp'⟩ := hy
  have hget : t[p.length]? = some x ∧ t[p.length + 1]? = some h := by
    rw [← hp]
    simp
  have hget' : t[p'.length]? = some y ∧ t[p'.length + 1]? = some h := by
    rw [← hp']
    simp
  have hlt : p.length + 1 < t.length := (List.getElem?_eq_some_iff.mp hget.2).1
  have hindex := (List.getElem?_inj hlt ht).mp (hget.2.trans hget'.2.symm)
  rw [Nat.add_right_cancel hindex, hget'.1] at hget
  exact (Option.some.inj hget.1).symm

/-- In a trace without repetition each node with items has one way in. -/
theorem oneWay_of_nodup {depth : Nat} {t : List (Way N A)} (h : G.fullTrace depth = some t)
    (ht : t.Nodup) : G.OneWay := by
  intro n hn w w' hw hw'
  obtain ⟨_, u, hu, hinfix⟩ := infix_of_wayIn h hw
  obtain ⟨_, u', hu', hinfix'⟩ := infix_of_wayIn h hw'
  obtain rfl := trace_unique hu hu'
  cases u with
  | nil => exact absurd rfl (trace_ne_nil hu hn)
  | cons x u => exact eq_of_infix ht hinfix hinfix'

/-! ## One way into each node -/

/-- An item of a node that the walk comes to links to a node. -/
def Edge (G : LinkGraph N A) (n m : N) : Prop :=
  ∃ w a, G.WayIn w n ∧ a ∈ G.items n ∧ G.link a = some m

/-- The walk comes from the node `n` to `m`. -/
def Below (G : LinkGraph N A) : N → N → Prop := ReflTransGen G.Edge

/-- An item of a node to which the walk comes through the link of the item `a`. -/
def UnderItem (G : LinkGraph N A) (a : A) (x : Way N A) : Prop :=
  ∃ m b k, G.link a = some m ∧ x = .item b ∧ G.Below m k ∧ b ∈ G.items k

theorem Edge.items_ne_nil {n m : N} (h : G.Edge n m) : G.items n ≠ [] := by
  obtain ⟨_, a, -, ha, -⟩ := h
  exact List.ne_nil_of_mem ha

theorem Edge.wayIn {n m : N} (h : G.Edge n m) :
    ∃ a ∈ G.items n, G.link a = some m ∧ G.WayIn (.item a) m := by
  obtain ⟨w, a, hw, ha, hlink⟩ := h
  exact ⟨a, ha, hlink, .item hw ha hlink⟩

/-- What has a node with items below it has items. -/
theorem Below.items_ne_nil {n m : N} (h : G.Below n m) (hm : G.items m ≠ []) : G.items n ≠ [] := by
  cases h.cases_head with
  | inl heq => rwa [heq]
  | inr hstep =>
      obtain ⟨_, hedge, -⟩ := hstep
      exact hedge.items_ne_nil

namespace OneWay

variable (h : G.OneWay)

include h

/-- The node before a node with items is the only one. -/
theorem edge_unique {n n' m : N} (hm : G.items m ≠ []) (hn : G.Edge n m) (hn' : G.Edge n' m) :
    n = n' := by
  obtain ⟨a, ha, -, hway⟩ := hn.wayIn
  obtain ⟨a', ha', -, hway'⟩ := hn'.wayIn
  have heq := h m hm _ _ hway hway'
  cases heq
  rw [← G.owner_of_mem ha, G.owner_of_mem ha']

/-- Nothing links to a root with items. -/
theorem not_edge_root {n r : N} (hr : r ∈ G.roots) (hitems : G.items r ≠ []) : ¬ G.Edge n r := by
  intro hedge
  obtain ⟨a, -, -, hway⟩ := hedge.wayIn
  cases h r hitems _ _ (.root hr) hway

theorem acyclic_of_wayIn {w : Way N A} {n : N} (hw : G.WayIn w n) : ¬ TransGen G.Edge n n := by
  induction hw with
  | root mem =>
      intro hcycle
      obtain ⟨m, hfirst, -⟩ := TransGen.head'_iff.mp hcycle
      obtain ⟨m', -, hlast⟩ := TransGen.tail'_iff.mp hcycle
      exact h.not_edge_root mem hfirst.items_ne_nil hlast
  | @item w n m a from_ mem link ih =>
      intro hcycle
      obtain ⟨x, hfirst, -⟩ := TransGen.head'_iff.mp hcycle
      obtain ⟨y, hpath, hlast⟩ := TransGen.tail'_iff.mp hcycle
      have hedge : G.Edge n m := ⟨w, a, from_, mem, link⟩
      -- the last node of the cycle is the one that it was entered from
      obtain rfl := h.edge_unique hfirst.items_ne_nil hlast hedge
      exact ih (TransGen.head' hedge hpath)

theorem acyclic (n : N) : ¬ TransGen G.Edge n n := by
  intro hcycle
  obtain ⟨m, ⟨w, a, hw, -⟩, -⟩ := TransGen.head'_iff.mp hcycle
  exact h.acyclic_of_wayIn hw hcycle

/-- The walk from every node that it comes to ends. -/
theorem exists_trace [Finite N] {w : Way N A} {n : N} (hw : G.WayIn w n) :
    ∃ depth t, G.trace depth n = some t := by
  have : IsTrans N fun m n => TransGen G.Edge n m := ⟨fun _ _ _ hab hbc => hbc.trans hab⟩
  have : Std.Irrefl fun m n => TransGen G.Edge n m := ⟨h.acyclic⟩
  have hwf := Finite.wellFounded_of_trans_of_irrefl fun m n => TransGen G.Edge n m
  induction n using hwf.induction generalizing w with
  | _ n ih =>
      have hends : ∀ a ∈ G.items n, ∃ depth, ∀ depth' ≥ depth,
          (G.atItem (G.trace depth') a).isSome := by
        intro a ha
        cases hlink : G.link a with
        | none => exact ⟨0, fun _ _ => by rw [atItem_none hlink]; rfl⟩
        | some m =>
            obtain ⟨depth, t, ht⟩ := ih m (.single ⟨w, a, hw, ha, hlink⟩) (.item hw ha hlink)
            refine ⟨depth, ?_⟩
            intro depth' hle
            rw [atItem_some hlink, trace_le hle ht]
            rfl
      obtain ⟨depth, hall⟩ := exists_common hends
      obtain ⟨t, ht⟩ := each_isSome fun a ha => hall a ha depth le_rfl
      exact ⟨depth + 1, t, ht⟩

/-- What is below two nodes is below one of them. -/
theorem below_or {n n' x : N} (hx : G.items x ≠ []) (hn : G.Below n x) (hn' : G.Below n' x) :
    G.Below n n' ∨ G.Below n' n := by
  induction hn with
  | refl => exact Or.inr hn'
  | @tail y x hny hedge ih =>
      cases hn'.cases_tail with
      | inl heq => exact Or.inl (heq ▸ hny.tail hedge)
      | inr hstep =>
          obtain ⟨y', hn'y, hedge'⟩ := hstep
          obtain rfl := h.edge_unique hx hedge hedge'
          exact ih hedge.items_ne_nil hn'y

/-- No node with items is below two items of a node. -/
theorem eq_of_below {w : Way N A} {n m m' x : N} {a a' : A} (hw : G.WayIn w n)
    (ha : a ∈ G.items n) (ha' : a' ∈ G.items n) (hlink : G.link a = some m)
    (hlink' : G.link a' = some m') (hx : G.items x ≠ []) (hm : G.Below m x)
    (hm' : G.Below m' x) : a = a' := by
  have key : ∀ {m m' : N} {a a' : A}, a ∈ G.items n → a' ∈ G.items n → G.link a = some m →
      G.link a' = some m' → G.items m' ≠ [] → G.Below m m' → a = a' := by
    intro m m' a a' ha ha' hlink hlink' hitems hbelow
    cases hbelow.cases_tail with
    | inl heq =>
        subst heq
        cases h _ hitems _ _ (.item hw ha hlink) (.item hw ha' hlink')
        rfl
    | inr hstep =>
        obtain ⟨y, hmy, hedge⟩ := hstep
        obtain rfl := h.edge_unique hitems hedge ⟨w, a', hw, ha', hlink'⟩
        exact absurd (TransGen.head' ⟨w, a, hw, ha, hlink⟩ hmy) (h.acyclic _)
  rcases h.below_or hx hm hm' with hbelow | hbelow
  · exact key ha ha' hlink hlink' (hm'.items_ne_nil hx) hbelow
  · exact (key ha' ha hlink' hlink (hm.items_ne_nil hx) hbelow).symm

/-- No node with items is below two roots. -/
theorem eq_of_below_roots {r r' x : N} (hr : r ∈ G.roots) (hr' : r' ∈ G.roots)
    (hx : G.items x ≠ []) (hbelow : G.Below r x) (hbelow' : G.Below r' x) : r = r' := by
  have key : ∀ {r r' : N}, r' ∈ G.roots → G.items r' ≠ [] → G.Below r r' → r = r' := by
    intro r r' hr' hitems hbelow
    cases hbelow.cases_tail with
    | inl heq => exact heq.symm
    | inr hstep =>
        obtain ⟨y, -, hedge⟩ := hstep
        exact absurd hedge (h.not_edge_root hr' hitems)
  rcases h.below_or hx hbelow hbelow' with hb | hb
  · exact key hr' (hbelow'.items_ne_nil hx) hb
  · exact (key hr (hbelow.items_ne_nil hx) hb).symm

/-- No item of a node is below an item of it. -/
theorem not_underItem {w : Way N A} {n : N} {a a' : A} (hw : G.WayIn w n) (ha : a ∈ G.items n)
    (ha' : a' ∈ G.items n) : ¬ G.UnderItem a' (.item a) := by
  rintro ⟨m, b, k, hlink, hb, hbelow, hmem⟩
  cases hb
  obtain rfl : k = n := (G.owner_of_mem hmem).symm.trans (G.owner_of_mem ha)
  exact h.acyclic _ (TransGen.head' ⟨w, a', hw, ha', hlink⟩ hbelow)

/-- Nothing is below two items of a node. -/
theorem underItem_unique {w : Way N A} {n : N} {a a' : A} {x : Way N A} (hw : G.WayIn w n)
    (ha : a ∈ G.items n) (ha' : a' ∈ G.items n) (hx : G.UnderItem a x)
    (hx' : G.UnderItem a' x) : a = a' := by
  obtain ⟨m, b, k, hlink, rfl, hk, hbk⟩ := hx
  obtain ⟨m', b', k', hlink', hb', hk', hbk'⟩ := hx'
  cases hb'
  obtain rfl : k = k' := (G.owner_of_mem hbk).symm.trans (G.owner_of_mem hbk')
  exact h.eq_of_below hw ha ha' hlink hlink' (List.ne_nil_of_mem hbk) hk hk'

/-- The trace of an item: the item, and what is below it. -/
theorem trace_nodup {depth : Nat} {w : Way N A} {n : N} {t : List (Way N A)} (hw : G.WayIn w n)
    (ht : G.trace depth n = some t) :
    t.Nodup ∧ ∀ x ∈ t, ∃ a m, x = .item a ∧ G.Below n m ∧ a ∈ G.items m := by
  induction depth generalizing w n t with
  | zero => cases ht
  | succ depth ih =>
      rw [trace] at ht
      obtain ⟨hall, rfl⟩ := each_eq_some.mp ht
      -- the part for an item begins with it, and has what is below its link
      have hpart : ∀ a ∈ G.items n, ∃ v : List (Way N A),
          (G.atItem (G.trace depth) a).getD [] = .item a :: v ∧ v.Nodup ∧
            ∀ x ∈ v, G.UnderItem a x := by
        intro a ha
        have hsome := hall a ha
        cases hlink : G.link a with
        | none =>
            rw [atItem_none hlink]
            exact ⟨[], rfl, .nil, by simp⟩
        | some m =>
            rw [atItem_some hlink, Option.isSome_map] at hsome
            obtain ⟨v, hv⟩ := Option.isSome_iff_exists.mp hsome
            obtain ⟨hnodup, hbelow⟩ := ih (.item hw ha hlink) hv
            rw [atItem_some hlink, hv]
            refine ⟨v, rfl, hnodup, ?_⟩
            intro x hx
            obtain ⟨b, k, hb, hk, hmem⟩ := hbelow x hx
            exact ⟨m, b, k, hlink, hb, hk, hmem⟩
      constructor
      · refine List.nodup_flatMap.mpr ⟨?_, ?_⟩
        · intro a ha
          obtain ⟨v, hv, hnodup, hunder⟩ := hpart a ha
          rw [hv, List.nodup_cons]
          exact ⟨fun hmem => h.not_underItem hw ha ha (hunder _ hmem), hnodup⟩
        · refine (G.nodup_items n).imp_of_mem ?_
          intro a a' ha ha' hne
          obtain ⟨v, hv, -, hunder⟩ := hpart a ha
          obtain ⟨v', hv', -, hunder'⟩ := hpart a' ha'
          simp only [Function.onFun, hv, hv']
          intro x hx hx'
          rcases List.mem_cons.mp hx with rfl | hx
          · rcases List.mem_cons.mp hx' with heq | hx'
            · cases heq
              exact hne rfl
            · exact h.not_underItem hw ha ha' (hunder' _ hx')
          · rcases List.mem_cons.mp hx' with rfl | hx'
            · exact h.not_underItem hw ha' ha (hunder _ hx)
            · exact hne (h.underItem_unique hw ha ha' (hunder _ hx) (hunder' _ hx'))
      · intro x hx
        obtain ⟨a, ha, hx⟩ := List.mem_flatMap.mp hx
        obtain ⟨v, hv, -, hunder⟩ := hpart a ha
        rw [hv] at hx
        rcases List.mem_cons.mp hx with rfl | hx
        · exact ⟨a, n, rfl, .refl, ha⟩
        · obtain ⟨m, b, k, hlink, rfl, hk, hbk⟩ := hunder x hx
          exact ⟨b, k, rfl, ReflTransGen.head ⟨w, a, hw, ha, hlink⟩ hk, hbk⟩

/-- The walk ends and repeats nothing. -/
theorem exists_fullTrace [Finite N] : ∃ depth t, G.fullTrace depth = some t ∧ t.Nodup := by
  have hends : ∀ r ∈ G.roots, ∃ depth, ∀ depth' ≥ depth,
      ((G.trace depth' r).map (.root r :: ·)).isSome := by
    intro r hr
    obtain ⟨depth, t, ht⟩ := h.exists_trace (.root hr)
    refine ⟨depth, ?_⟩
    intro depth' hle
    rw [trace_le hle ht]
    rfl
  obtain ⟨depth, hbound⟩ := exists_common hends
  have hall : ∀ r ∈ G.roots, (G.trace depth r).isSome := by
    intro r hr
    have hsome := hbound r hr depth le_rfl
    rwa [Option.isSome_map] at hsome
  obtain ⟨t, ht⟩ := each_isSome fun r hr => hbound r hr depth le_rfl
  refine ⟨depth, t, ht, ?_⟩
  obtain ⟨-, rfl⟩ := each_eq_some.mp ht
  have hpart : ∀ r ∈ G.roots, ∃ v : List (Way N A),
      ((G.trace depth r).map (.root r :: ·)).getD [] = .root r :: v ∧ v.Nodup ∧
        ∀ x ∈ v, ∃ a m, x = .item a ∧ G.Below r m ∧ a ∈ G.items m := by
    intro r hr
    obtain ⟨v, hv⟩ := Option.isSome_iff_exists.mp (hall r hr)
    obtain ⟨hnodup, hbelow⟩ := h.trace_nodup (.root hr) hv
    exact ⟨v, by rw [hv]; rfl, hnodup, hbelow⟩
  refine List.nodup_flatMap.mpr ⟨?_, ?_⟩
  · intro r hr
    obtain ⟨v, hv, hnodup, hbelow⟩ := hpart r hr
    rw [hv, List.nodup_cons]
    refine ⟨?_, hnodup⟩
    intro hmem
    obtain ⟨_, _, heq, -⟩ := hbelow _ hmem
    cases heq
  · refine G.nodup_roots.imp_of_mem ?_
    intro r r' hr hr' hne
    obtain ⟨v, hv, -, hbelow⟩ := hpart r hr
    obtain ⟨v', hv', -, hbelow'⟩ := hpart r' hr'
    simp only [Function.onFun, hv, hv']
    intro x hx hx'
    rcases List.mem_cons.mp hx with rfl | hx
    · rcases List.mem_cons.mp hx' with heq | hx'
      · cases heq
        exact hne rfl
      · obtain ⟨_, _, heq, -⟩ := hbelow' _ hx'
        cases heq
    · obtain ⟨a, m, rfl, hm, ha⟩ := hbelow _ hx
      rcases List.mem_cons.mp hx' with heq | hx'
      · cases heq
      · obtain ⟨a', m', heq, hm', ha'⟩ := hbelow' _ hx'
        cases heq
        obtain rfl : m = m' := (G.owner_of_mem ha).symm.trans (G.owner_of_mem ha')
        exact hne (h.eq_of_below_roots hr hr' (List.ne_nil_of_mem ha) hm hm')

end OneWay

/-! ## What is taken -/

/-- Below a root there are items only. -/
theorem started_trace {depth : Nat} {n : N} {t : List (Way N A)} (h : G.trace depth n = some t) :
    started t = [] := by
  induction depth generalizing n t with
  | zero => cases h
  | succ depth ih =>
      rw [trace] at h
      obtain ⟨hall, rfl⟩ := each_eq_some.mp h
      rw [started, List.filterMap_flatMap, List.flatMap_eq_nil_iff]
      intro a ha
      have hsome := hall a ha
      cases hlink : G.link a with
      | none =>
          rw [atItem_none hlink]
          rfl
      | some m =>
          rw [atItem_some hlink, Option.isSome_map] at hsome
          obtain ⟨v, hv⟩ := Option.isSome_iff_exists.mp hsome
          have hv' := ih hv
          rw [started] at hv'
          simp only [atItem_some hlink, hv, Option.map_some, Option.getD_some,
            List.filterMap_cons, hv']

theorem started_fullTrace {depth : Nat} {t : List (Way N A)} (h : G.fullTrace depth = some t) :
    started t = G.roots := by
  obtain ⟨hall, rfl⟩ := each_eq_some.mp h
  have hone : ∀ r ∈ G.roots,
      started (((G.trace depth r).map (.root r :: ·)).getD []) = [r] := by
    intro r hr
    have hsome := hall r hr
    rw [Option.isSome_map] at hsome
    obtain ⟨v, hv⟩ := Option.isSome_iff_exists.mp hsome
    have hv' := started_trace hv
    rw [started] at hv' ⊢
    simp only [hv, Option.map_some, Option.getD_some, List.filterMap_cons, hv']
  rw [started, List.filterMap_flatMap]
  exact (List.flatMap_congr hone).trans (List.flatMap_singleton' _)

/-- A trace repeats nothing when neither its items nor its roots are repeated. -/
theorem nodup_of_parts {t : List (Way N A)} (hitems : (taken t).Nodup)
    (hroots : (started t).Nodup) : t.Nodup := by
  induction t with
  | nil => exact .nil
  | cons x t ih =>
      cases x with
      | root r =>
          obtain ⟨hr, hroots⟩ := List.nodup_cons.mp (show (r :: started t).Nodup from hroots)
          refine List.nodup_cons.mpr ⟨?_, ih hitems hroots⟩
          exact fun hmem => hr (List.mem_filterMap.mpr ⟨_, hmem, rfl⟩)
      | item a =>
          obtain ⟨ha, hitems⟩ := List.nodup_cons.mp (show (a :: taken t).Nodup from hitems)
          refine List.nodup_cons.mpr ⟨?_, ih hitems hroots⟩
          exact fun hmem => ha (List.mem_filterMap.mpr ⟨_, hmem, rfl⟩)

theorem taken_nodup {t : List (Way N A)} (h : t.Nodup) : (taken t).Nodup := by
  refine h.filterMap ?_
  intro x y b hx hy
  cases x with
  | root r => cases hx
  | item a =>
      cases y with
      | root r => cases hy
      | item a' =>
          cases hx
          cases hy
          rfl

/-- The walk ends and takes no item twice exactly when no node with items has two ways
in. -/
theorem oneWay_iff [Finite N] :
    G.OneWay ↔ ∃ depth t, G.fullTrace depth = some t ∧ (taken t).Nodup := by
  constructor
  · intro h
    obtain ⟨depth, t, ht, hnodup⟩ := h.exists_fullTrace
    exact ⟨depth, t, ht, taken_nodup hnodup⟩
  · rintro ⟨depth, t, ht, hnodup⟩
    refine oneWay_of_nodup ht (nodup_of_parts hnodup ?_)
    rw [started_fullTrace ht]
    exact G.nodup_roots

end LinkGraph

end StardustOS.Lib
