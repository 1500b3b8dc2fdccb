import Mathlib.Data.Fintype.EquivFin
import StardustOS.Errno
import StardustOS.Lib.OrderedSet
import StardustOS.Lib.SListMem

/-!
# liblist

A list of pointers, as nodes that are linked in memory.  A value is a `void*`, with
`none` for NULL.  `size_t` has `w` bits: 32 in the kernel, 64 on the host of nvk.

The loops follow links, so each function has a number of turns; what it `Returns` is
what it comes to with enough of them.  `malloc` is what the allocation gives, and `left`
what `free` leaves in a block.

`Reached` is the list after a history of calls.  It is the ordered set that the history
makes (`liblist_ordered`).
-/

namespace StardustOS.Liblist

open Lib

variable {ν : Type*}

/-- A list in memory: a link and a value in each node. -/
abbrev ListMem (ν : Type*) := SListMem (Option ν)

section Functions

variable [DecidableEq ν] (w : Nat) (left : Nat → Option Nat × Option ν → Option Nat × Option ν)

/-- `liblist_indexof`. -/
def liblistIndexof (m : ListMem ν) (value : Option ν) (budget : Nat) :
    Option (BitVec w × ListMem ν) :=
  (m.countFrom (fun _ x => x = value) budget m.first 0).map fun (node, i, m) =>
    match node with
    | some _ => (i, m)
    | none => (-1, m)

/-- `liblist_length`. -/
def liblistLength (m : ListMem ν) (budget : Nat) : Option (BitVec w × ListMem ν) :=
  (m.countFrom (fun _ _ => false) budget m.first 0).map fun (_, i, m) => (i, m)

variable {w} in
/-- `liblist_get`. -/
def liblistGet (m : ListMem ν) (i : BitVec w) (budget : Nat) : Option (Option ν × ListMem ν) :=
  (m.countFrom (fun index _ => index = i) budget m.first 0).map fun (node, _, m) =>
    match node with
    | some a => (m.content a, m)
    | none => (none, m)

/-- `liblist_add`. -/
def liblistAdd (m : ListMem ν) (malloc : Option Nat) (value : Option ν) (budget : Nat) :
    Option (Int × ListMem ν) :=
  (liblistIndexof w m value budget).map fun (i, m) =>
    if i ≠ -1 then (-EEXIST, m)
    else
      match malloc with
      | none => (-ENOMEM, m)
      | some node => (0, m.insertHead node value)

/-- `liblist_remove`. -/
def liblistRemove (m : ListMem ν) (value : Option ν) (budget : Nat) : Option (ListMem ν) :=
  match m.findFrom (fun x => x = value) budget m.first with
  | none => none
  | some (none, m) => some m
  | some (some node, m) => (m.unlink budget node).map fun m => m.free left node

end Functions

/-! ## Histories -/

/-- The nodes in memory hold the values, in their order. -/
def Shows (m : ListMem ν) (l : List ν) : Prop :=
  ∃ s : SList (Option ν), m.Holds s ∧ s.contents = l.map some

/-- The block at `a` is not a node of the list. -/
def Fresh (m : ListMem ν) (a : Nat) : Prop := ∀ s : SList (Option ν), m.Holds s → a ∉ s.addrs

/-- The function returns `x`, and the list is as it was. -/
def Answers {β : Type*} (f : Nat → Option (β × ListMem ν)) (m : ListMem ν) (x : β) : Prop :=
  ∃ t, Returns f (x, { m with trace := t })

section Histories

variable [DecidableEq ν] (w : Nat) (left : Nat → Option Nat × Option ν → Option Nat × Option ν)

/-- From the empty list a history of calls leads here.  `malloc` gives blocks that are
not nodes of the list. -/
inductive Reached : List (SetCall ν) → ListMem ν → Prop
  | start {m : ListMem ν} (hm : m.first = none) : Reached [] m
  | add {cs : List (SetCall ν)} {m m' : ListMem ν} {node : Nat} {v : ν} {r : Int}
      (h : Reached cs m) (hnode : Fresh m node)
      (hr : Returns (liblistAdd w m (some node) (some v)) (r, m')) : Reached (cs ++ [.add v]) m'
  | remove {cs : List (SetCall ν)} {m m' : ListMem ν} {v : ν} (h : Reached cs m)
      (hr : Returns (liblistRemove left m (some v)) m') : Reached (cs ++ [.remove v]) m'

/-- What the functions do with a list that is the ordered set `l`. -/
structure IsOrderedSet (m : ListMem ν) (l : List ν) : Prop where
  shows : Shows m l
  length : ∃ n : BitVec w, n.toNat = l.length ∧ Answers (liblistLength w m) m n
  get : ∀ i : BitVec w, ∃ x, Answers (liblistGet m i) m x ∧ x = l[i.toNat]? ∧
    (x ≠ none ↔ i.toNat < l.length)
  indexof : ∀ v, ∃ i, Answers (liblistIndexof w m (some v)) m i ∧ (i ≠ -1 ↔ v ∈ l)
  inverse : ∀ i v, Answers (liblistGet m i) m (some v) ↔
    i ≠ -1 ∧ Answers (liblistIndexof w m (some v)) m i
  present : ∀ node v, Answers (liblistAdd w m (some node) (some v)) m (-EEXIST) ↔ v ∈ l
  add : ∀ node v, Fresh m node → v ∉ l →
    ∃ m', Returns (liblistAdd w m (some node) (some v)) (0, m') ∧ Shows m' (v :: l)
  absent : ∀ v, v ∉ l → ∃ t, Returns (liblistRemove left m (some v)) { m with trace := t }
  remove : ∀ v ∈ l, ∃ m', Returns (liblistRemove left m (some v)) m' ∧ Shows m' (l.erase v)

end Histories

variable {w : Nat} {left : Nat → Option Nat × Option ν → Option Nat × Option ν} {m m' : ListMem ν}
  {l : List ν} {s : SList (Option ν)}

theorem Shows.traced (hm : Shows m l) (t : List (HeapEvent Nat)) :
    Shows { m with trace := t } l := by
  obtain ⟨s, hs, hsl⟩ := hm
  exact ⟨s, hs.congr (fun _ _ => rfl) fun _ _ => rfl, hsl⟩

theorem Shows.insertHead (hm : Shows m l) {node : Nat} (hnode : Fresh m node) (v : ν)
    (t : List (HeapEvent Nat)) :
    Shows (SListMem.insertHead { m with trace := t } node (some v)) (v :: l) := by
  obtain ⟨s, hs, hsl⟩ := hm
  have hs' : SListMem.Holds { m with trace := t } s := hs.congr (fun _ _ => rfl) fun _ _ => rfl
  refine ⟨s.insertHead node (some v) (hnode s hs), hs'.insertHead (hnode s hs) (some v), ?_⟩
  rw [SList.contents_insertHead, hsl, List.map_cons]

/-- There is a block that is not a node of the list. -/
theorem exists_fresh (hm : Shows m l) : ∃ a, Fresh m a := by
  obtain ⟨s, hs, -⟩ := hm
  obtain ⟨a, ha⟩ := Infinite.exists_notMem_finset s.addrs.toFinset
  refine ⟨a, ?_⟩
  intro s' hs'
  rw [SList.addrs, hs'.unique hs]
  exact fun h => ha (List.mem_toFinset.mpr h)

/-! ## The loops on a list that shows its values -/

theorem length_nodes (hs : s.contents = l.map some) : s.nodes.length = l.length := by
  rw [← List.length_map Prod.snd, ← SList.contents, hs, List.length_map]

theorem value_at (hs : s.contents = l.map some) {j : Nat} (hj : j < s.nodes.length)
    (hj' : j < l.length) : s.nodes[j].2 = some l[j] := by
  have h : s.contents[j]? = (l.map some)[j]? := by rw [hs]
  simpa [SList.contents, List.getElem?_eq_getElem, hj, hj'] using h

/-- A loop with a counter that no value stops. -/
theorem scan_ends {p : BitVec w → Option ν → Bool} (hm : m.Holds s) (hs : s.contents = l.map some)
    (hp : ∀ j (hj : j < l.length), p (BitVec.ofNat w j) (some l[j]) = false) :
    ∃ t, Returns (fun budget => m.countFrom p budget m.first 0)
      (none, BitVec.ofNat w l.length, { m with trace := t }) := by
  have hcaught : SListMem.Uncaught p 0 s.nodes := by
    intro j hj
    have hj' : j < l.length := length_nodes hs ▸ hj
    rw [Nat.zero_add, value_at hs hj hj']
    exact hp j hj'
  obtain ⟨t, ht⟩ := SListMem.countFrom_ends hm hcaught (Nat.lt_succ_self _)
  rw [Nat.zero_add, length_nodes hs] at ht
  exact ⟨t, returns_of_succ (fun n _ => SListMem.countFrom_succ n) ht⟩

/-- A loop with a counter that the value at `k` stops. -/
theorem scan_stops {p : BitVec w → Option ν → Bool} (hm : m.Holds s) (hs : s.contents = l.map some)
    {k : Nat} (hk : k < l.length)
    (hp : ∀ j (hj : j < l.length), j < k → p (BitVec.ofNat w j) (some l[j]) = false)
    (hx : p (BitVec.ofNat w k) (some l[k]) = true) :
    ∃ a t, Returns (fun budget => m.countFrom p budget m.first 0)
        (some a, BitVec.ofNat w k, { m with trace := t }) ∧ m.content a = some l[k] := by
  have hk' : k < s.nodes.length := (length_nodes hs).symm ▸ hk
  have hnodes : s.nodes = s.nodes.take k ++ s.nodes[k] :: s.nodes.drop (k + 1) := by
    rw [← List.drop_eq_getElem_cons hk', List.take_append_drop]
  have hlen : (s.nodes.take k).length = k := by
    rw [List.length_take]
    omega
  have hcaught : SListMem.Uncaught p 0 (s.nodes.take k) := by
    intro j hj
    have hjk : j < k := hlen ▸ hj
    rw [Nat.zero_add, List.getElem_take, value_at hs (hjk.trans hk') (hjk.trans hk)]
    exact hp j (hjk.trans hk) hjk
  have hchain : m.Chain m.first (s.nodes.take k ++ s.nodes[k] :: s.nodes.drop (k + 1)) :=
    hnodes ▸ hm
  have hstop : p (BitVec.ofNat w (0 + (s.nodes.take k).length)) s.nodes[k].2 = true := by
    rw [hlen, Nat.zero_add, value_at hs hk' hk]
    exact hx
  obtain ⟨t, ht⟩ := SListMem.countFrom_stops hchain hcaught hstop (Nat.lt_succ_self _)
  rw [Nat.zero_add, hlen] at ht
  refine ⟨s.nodes[k].1, t, returns_of_succ (fun n _ => SListMem.countFrom_succ n) ht, ?_⟩
  rw [hm.content s.nodes[k] (List.getElem_mem hk'), value_at hs hk' hk]

theorem find_shows (hs : m.Holds s) (p : Option ν → Bool) :
    ∃ t, Returns (fun budget => m.findFrom p budget m.first)
      ((s.find? p).map Prod.fst, { m with trace := t }) := by
  obtain ⟨t, ht⟩ := SListMem.findFrom_chain (p := p) hs (Nat.lt_succ_self _)
  exact ⟨t, returns_of_succ (fun n _ => SListMem.findFrom_succ n) ht⟩

/-! ## What the functions return -/

theorem Answers.unique {β : Type*} {f : Nat → Option (β × ListMem ν)} {x y : β}
    (h : Answers f m x) (h' : Answers f m y) : x = y := by
  obtain ⟨t, ht⟩ := h
  obtain ⟨t', ht'⟩ := h'
  exact congrArg Prod.fst (ht.unique ht')

theorem ofNat_eq_iff {j : Nat} {i : BitVec w} (hj : j < 2 ^ w) :
    BitVec.ofNat w j = i ↔ j = i.toNat := by
  rw [← BitVec.toNat_inj, BitVec.toNat_ofNat, Nat.mod_eq_of_lt hj]

/-- The index of a value is no error. -/
theorem ofNat_ne_neg_one {k : Nat} (hk : k < 2 ^ w - 1) : BitVec.ofNat w k ≠ -1 := by
  have hneg : (-1 : BitVec w) = BitVec.allOnes w := BitVec.neg_one_eq_allOnes
  rw [Ne, ofNat_eq_iff (by omega), hneg, BitVec.toNat_allOnes]
  omega

theorem liblistLength_shows (hm : Shows m l) :
    Answers (liblistLength w m) m (BitVec.ofNat w l.length) := by
  obtain ⟨s, hs, hl⟩ := hm
  obtain ⟨t, ht⟩ := scan_ends (p := fun (_ : BitVec w) _ => false) hs hl fun _ _ => rfl
  exact ⟨t, ht.map _⟩

theorem liblistGet_shows (hm : Shows m l) (hl : l.length < 2 ^ w) (i : BitVec w) :
    Answers (liblistGet m i) m l[i.toNat]? := by
  obtain ⟨s, hs, hsl⟩ := hm
  let p : BitVec w → Option ν → Bool := fun index _ => index = i
  have hp : ∀ j (hj : j < l.length), j ≠ i.toNat → p (BitVec.ofNat w j) (some l[j]) = false := by
    intro j hj hji
    rw [decide_eq_false_iff_not, ofNat_eq_iff (hj.trans hl)]
    exact hji
  by_cases hi : i.toNat < l.length
  · have hx : p (BitVec.ofNat w i.toNat) (some l[i.toNat]) = true := by
      rw [decide_eq_true_eq, ofNat_eq_iff i.isLt]
    obtain ⟨a, t, ht, ha⟩ := scan_stops hs hsl hi (fun j hj hji => hp j hj hji.ne) hx
    refine ⟨t, ?_⟩
    rw [List.getElem?_eq_getElem hi, ← ha]
    exact ht.map _
  · obtain ⟨t, ht⟩ := scan_ends hs hsl fun j hj => hp j hj (by omega)
    refine ⟨t, ?_⟩
    rw [List.getElem?_eq_none (Nat.le_of_not_lt hi)]
    exact ht.map _

variable [DecidableEq ν]

/-- A value that is there has its index. -/
theorem liblistIndexof_shows (hm : Shows m l) (hd : l.Nodup) {k : Nat} (hk : k < l.length) :
    Answers (liblistIndexof w m (some l[k])) m (BitVec.ofNat w k) := by
  obtain ⟨s, hs, hsl⟩ := hm
  let p : BitVec w → Option ν → Bool := fun _ x => x = some l[k]
  have hp : ∀ j (hj : j < l.length), j < k → p (BitVec.ofNat w j) (some l[j]) = false := by
    intro j hj hjk
    rw [decide_eq_false_iff_not, Option.some_inj, hd.getElem_inj_iff]
    exact hjk.ne
  obtain ⟨a, t, ht, -⟩ := scan_stops hs hsl hk hp (decide_eq_true rfl)
  exact ⟨t, ht.map _⟩

/-- A value that is not there has none. -/
theorem liblistIndexof_absent (hm : Shows m l) {v : ν} (hv : v ∉ l) :
    Answers (liblistIndexof w m (some v)) m (-1) := by
  obtain ⟨s, hs, hsl⟩ := hm
  let p : BitVec w → Option ν → Bool := fun _ x => x = some v
  have hp : ∀ j (hj : j < l.length), p (BitVec.ofNat w j) (some l[j]) = false := by
    intro j hj
    rw [decide_eq_false_iff_not, Option.some_inj]
    rintro rfl
    exact hv (List.getElem_mem hj)
  obtain ⟨t, ht⟩ := scan_ends hs hsl hp
  exact ⟨t, ht.map _⟩

/-- `liblist_add` of a value that is there. -/
theorem liblistAdd_present (hm : Shows m l) (hd : l.Nodup) (hl : l.length < 2 ^ w - 1)
    (malloc : Option Nat) {v : ν} (hv : v ∈ l) :
    Answers (liblistAdd w m malloc (some v)) m (-EEXIST) := by
  obtain ⟨k, hk, rfl⟩ := List.mem_iff_getElem.mp hv
  obtain ⟨t, ht⟩ := liblistIndexof_shows (w := w) hm hd hk
  have hr := ht.map fun r : BitVec w × ListMem ν =>
    if r.1 ≠ -1 then (-EEXIST, r.2)
    else match malloc with
      | none => (-ENOMEM, r.2)
      | some node => (0, r.2.insertHead node (some l[k]))
  rw [if_pos (ofNat_ne_neg_one (hk.trans hl))] at hr
  exact ⟨t, hr⟩

/-- `liblist_add` of a value that is not there. -/
theorem liblistAdd_absent (hm : Shows m l) {v : ν} (hv : v ∉ l) (node : Nat) :
    ∃ t, Returns (liblistAdd w m (some node) (some v))
      (0, SListMem.insertHead { m with trace := t } node (some v)) := by
  obtain ⟨t, ht⟩ := liblistIndexof_absent (w := w) hm hv
  have hr := ht.map fun r : BitVec w × ListMem ν =>
    if r.1 ≠ -1 then (-EEXIST, r.2) else (0, r.2.insertHead node (some v))
  rw [if_neg (not_not.mpr rfl)] at hr
  exact ⟨t, hr⟩

/-- `liblist_remove` of a value that is not there. -/
theorem liblistRemove_absent (hm : Shows m l) {v : ν} (hv : v ∉ l)
    (left : Nat → Option Nat × Option ν → Option Nat × Option ν) :
    ∃ t, Returns (liblistRemove left m (some v)) { m with trace := t } := by
  obtain ⟨s, hs, hsl⟩ := hm
  obtain ⟨t, n, hfind⟩ := find_shows hs fun x => decide (x = some v)
  have hnone : (s.find? fun x => decide (x = some v)) = none := by
    rw [SList.find?_eq_none]
    intro b hb
    rw [decide_eq_false_iff_not]
    intro hbv
    have hmem : b.2 ∈ s.contents := SList.mem_contents.mpr ⟨b.1, hb⟩
    rw [hbv, hsl, List.mem_map_of_injective (Option.some_injective ν)] at hmem
    exact hv hmem
  rw [hnone, Option.map_none] at hfind
  refine ⟨t, n, ?_⟩
  intro budget hbudget
  simp only [liblistRemove, hfind budget hbudget]

/-- `liblist_remove` of a value that is there. -/
theorem liblistRemove_present (hm : Shows m l) {v : ν} (hv : v ∈ l)
    (left : Nat → Option Nat × Option ν → Option Nat × Option ν) :
    ∃ m', Returns (liblistRemove left m (some v)) m' ∧ Shows m' (l.erase v) := by
  obtain ⟨s, hs, hsl⟩ := hm
  obtain ⟨t, n, hfind⟩ := find_shows hs fun x => decide (x = some v)
  cases hnode : s.find? fun x => decide (x = some v) with
  | none =>
      have hmem : some v ∈ s.contents := hsl ▸ List.mem_map_of_mem hv
      obtain ⟨a, ha⟩ := SList.mem_contents.mp hmem
      simpa using SList.find?_eq_none.mp hnode _ ha
  | some b =>
      obtain ⟨a, x⟩ := b
      rw [hnode, Option.map_some] at hfind
      obtain ⟨pre, post, hnodes⟩ := List.append_of_mem (SList.find?_mem hnode).1
      have hs' : SListMem.Holds { m with trace := t } s := hs.congr (fun _ _ => rfl) fun _ _ => rfl
      rw [SListMem.Holds, hnodes] at hs'
      have hd : ((pre ++ (a, x) :: post).map Prod.fst).Nodup := hnodes ▸ s.distinct
      obtain ⟨m', hunlink, hchain, -, -⟩ := SListMem.unlink_chain hs' hd (Nat.le_refl _)
      obtain ⟨n', hn'⟩ : Returns (fun budget => SListMem.unlink budget a _) m' :=
        returns_of_succ (fun _ _ h => SListMem.unlink_succ h) hunlink
      refine ⟨m'.free left a, ⟨max n n', ?_⟩, s.remove a, ?_, ?_⟩
      · intro budget hbudget
        have hn := Nat.lt_of_le_of_lt (Nat.le_max_left n n') hbudget
        have hn'' := Nat.lt_of_le_of_lt (Nat.le_max_right n n') hbudget
        simp only [liblistRemove, hfind budget hn, hn' budget hn'', Option.map_some]
      · rw [← SList.remove_middle hnodes] at hchain
        exact hchain.free fun b hb => (SList.mem_remove.mp hb).2
      · rw [SList.contents_remove hnode, hsl, List.erase_eq_eraseP, List.eraseP_map]
        refine congrArg (List.map some) (congrArg (fun p => l.eraseP p) (funext fun y => ?_))
        simp [eq_comm, beq_eq_decide]

/-! ## Every history -/

/-- After a history the list shows what the history leaves. -/
theorem Reached.shows {cs : List (SetCall ν)} (h : Reached w left cs m)
    (hfew : ∀ pre, pre <+: cs → (held pre).length < 2 ^ w - 1) : Shows m (held cs) := by
  induction h with
  | start hm => exact ⟨SList.empty, hm, rfl⟩
  | @add cs m m' node v r h hnode hr ih =>
      have hm := ih fun pre hpre => hfew pre (hpre.trans (List.prefix_append _ _))
      rw [held_snoc, SetCall.next]
      split
      · rename_i hv
        obtain ⟨t, ht⟩ := liblistAdd_present hm (held_nodup cs)
          (hfew cs (List.prefix_append _ _)) (some node) hv
        obtain rfl : m' = { m with trace := t } := congrArg Prod.snd (hr.unique ht)
        exact hm.traced t
      · rename_i hv
        obtain ⟨t, ht⟩ := liblistAdd_absent (w := w) hm hv node
        obtain rfl : m' = SListMem.insertHead { m with trace := t } node (some v) :=
          congrArg Prod.snd (hr.unique ht)
        exact hm.insertHead hnode v t
  | @remove cs m m' v h hr ih =>
      have hm := ih fun pre hpre => hfew pre (hpre.trans (List.prefix_append _ _))
      rw [held_snoc, SetCall.next]
      by_cases hv : v ∈ held cs
      · obtain ⟨u, hu, hshows⟩ := liblistRemove_present hm hv left
        obtain rfl := hr.unique hu
        exact hshows
      · obtain ⟨t, ht⟩ := liblistRemove_absent hm hv left
        obtain rfl := hr.unique ht
        rw [List.erase_of_not_mem hv]
        exact hm.traced t

/-- `liblist_get` and `liblist_indexof` are inverse to each other. -/
theorem get_iff_indexof (hm : Shows m l) (hd : l.Nodup) (hl : l.length < 2 ^ w - 1)
    (i : BitVec w) (v : ν) :
    Answers (liblistGet m i) m (some v) ↔ i ≠ -1 ∧ Answers (liblistIndexof w m (some v)) m i := by
  have hlt : l.length < 2 ^ w := by omega
  have hget := liblistGet_shows hm hlt
  constructor
  · intro h
    obtain ⟨hi, hv⟩ := List.getElem?_eq_some_iff.mp ((hget i).unique h)
    have hii : BitVec.ofNat w i.toNat = i := (ofNat_eq_iff i.isLt).mpr rfl
    have hindex := liblistIndexof_shows (w := w) hm hd hi
    rw [hii, hv] at hindex
    exact ⟨hii ▸ ofNat_ne_neg_one (hi.trans hl), hindex⟩
  · rintro ⟨hi, h⟩
    by_cases hv : v ∈ l
    · obtain ⟨k, hk, rfl⟩ := List.mem_iff_getElem.mp hv
      have hki := (liblistIndexof_shows hm hd hk).unique h
      have hk' := hget i
      rwa [← (ofNat_eq_iff (hk.trans hlt)).mp hki, List.getElem?_eq_getElem hk] at hk'
    · exact absurd (h.unique (liblistIndexof_absent hm hv)) hi

/-- `liblist_add` refuses what is there, and nothing else. -/
theorem liblistAdd_refuses_iff (hm : Shows m l) (hd : l.Nodup) (hl : l.length < 2 ^ w - 1)
    (node : Nat) (v : ν) :
    Answers (liblistAdd w m (some node) (some v)) m (-EEXIST) ↔ v ∈ l := by
  constructor
  · intro h
    by_contra hv
    obtain ⟨t, ht⟩ := h
    obtain ⟨t', ht'⟩ := liblistAdd_absent (w := w) hm hv node
    have hr : -EEXIST = 0 := congrArg Prod.fst (ht.unique ht')
    exact absurd hr (by decide)
  · exact liblistAdd_present hm hd hl (some node)

/-- A list that shows values, each once, is their ordered set. -/
theorem Shows.isOrderedSet (hm : Shows m l) (hd : l.Nodup) (hl : l.length < 2 ^ w - 1)
    (left : Nat → Option Nat × Option ν → Option Nat × Option ν) :
    IsOrderedSet w left m l where
  shows := hm
  length := by
    have hlt : l.length < 2 ^ w := by omega
    exact ⟨_, by rw [BitVec.toNat_ofNat, Nat.mod_eq_of_lt hlt], liblistLength_shows hm⟩
  get i := ⟨_, liblistGet_shows hm (by omega) i, rfl, by simp⟩
  indexof v := by
    by_cases hv : v ∈ l
    · obtain ⟨k, hk, rfl⟩ := List.mem_iff_getElem.mp hv
      exact ⟨_, liblistIndexof_shows hm hd hk, iff_of_true (ofNat_ne_neg_one (hk.trans hl)) hv⟩
    · exact ⟨-1, liblistIndexof_absent hm hv, iff_of_false (not_not.mpr rfl) hv⟩
  inverse := get_iff_indexof hm hd hl
  present := liblistAdd_refuses_iff hm hd hl
  add node v hnode hv := by
    obtain ⟨t, ht⟩ := liblistAdd_absent (w := w) hm hv node
    exact ⟨_, ht, hm.insertHead hnode v t⟩
  absent _ hv := liblistRemove_absent hm hv left
  remove _ hv := liblistRemove_present hm hv left

/-- Every history of a list that stays short is reached: the calls return. -/
theorem exists_reached (w : Nat) (left : Nat → Option Nat × Option ν → Option Nat × Option ν)
    {cs : List (SetCall ν)} (hfew : ∀ pre, pre <+: cs → (held pre).length < 2 ^ w - 1) :
    ∃ m : ListMem ν, Reached w left cs m := by
  induction cs using List.reverseRecOn with
  | nil => exact ⟨⟨none, fun _ => none, fun _ => none, []⟩, .start rfl⟩
  | append_singleton cs c ih =>
      have hfew' : ∀ pre, pre <+: cs → (held pre).length < 2 ^ w - 1 := by
        intro pre hpre
        exact hfew pre (hpre.trans (List.prefix_append _ _))
      obtain ⟨m, hm⟩ := ih hfew'
      have hset := (hm.shows hfew').isOrderedSet (held_nodup cs) (hfew' cs List.prefix_rfl) left
      cases c with
      | add v =>
          by_cases hv : v ∈ held cs
          · obtain ⟨node, hnode⟩ := exists_fresh hset.shows
            obtain ⟨t, ht⟩ := (hset.present node v).mpr hv
            exact ⟨_, hm.add hnode ht⟩
          · obtain ⟨node, hnode⟩ := exists_fresh hset.shows
            obtain ⟨m', hm', -⟩ := hset.add node v hnode hv
            exact ⟨m', hm.add hnode hm'⟩
      | remove v =>
          by_cases hv : v ∈ held cs
          · obtain ⟨m', hm', -⟩ := hset.remove v hv
            exact ⟨m', hm.remove hm'⟩
          · obtain ⟨t, ht⟩ := hset.absent v hv
            exact ⟨_, hm.remove ht⟩

/-- liblist is an ordered set.  After every history of calls the list is the ordered set
that the history makes. -/
theorem liblist_ordered {cs : List (SetCall ν)} (h : Reached w left cs m)
    (hfew : ∀ pre, pre <+: cs → (held pre).length < 2 ^ w - 1) :
    IsOrderedSet w left m (held cs) ∧ (held cs).Nodup ∧ (∀ v, v ∈ held cs ↔ Stays cs v) ∧
      ∀ v u, [v, u].Sublist (held cs) ↔ AddedAfter cs v u :=
  ⟨(h.shows hfew).isOrderedSet (held_nodup cs) (hfew cs List.prefix_rfl) left, held_nodup cs,
    fun _ => mem_held, fun _ _ => pair_held⟩

theorem liblist_ordered_short : ∃ m : ListMem Nat,
    Reached 32 (fun _ c => c) [.add 0x5000, .add 0x6000, .add 0x5000, .remove 0x5000] m ∧
      IsOrderedSet 32 (fun _ c => c) m [0x6000] := by
  have hfew : ∀ pre, pre <+: [.add 0x5000, .add 0x6000, .add 0x5000, .remove 0x5000] →
      (held pre).length < 2 ^ 32 - 1 := by
    intro pre hpre
    have hlen := (length_held_le pre).trans hpre.length_le
    exact Nat.lt_of_le_of_lt hlen (by decide)
  obtain ⟨m, hm⟩ := exists_reached 32 (fun _ c => c) hfew
  exact ⟨m, hm, (liblist_ordered hm hfew).1⟩

end StardustOS.Liblist
