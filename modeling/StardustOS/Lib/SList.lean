import Mathlib.Data.List.Nodup
import Mathlib.Tactic.Common

/-!
# Singly linked lists of blocks

An intrusive list links blocks of memory by a pointer each of them holds.
`SList` is the sequence of its blocks, head first, each with its address and
its content.  No block is linked twice: that is the field `distinct`, so the
address of a block determines its content (`SList.unique`).

The operations are those of a list with a head pointer: insertion at the head,
removal of a block, a change of one block in place, the block after another,
and the first block that passes a test.
-/

namespace StardustOS.Lib

/-- The blocks of a list, head first, by address and content. -/
structure SList (α : Type*) where
  nodes : List (Nat × α)
  distinct : (nodes.map Prod.fst).Nodup

namespace SList

variable {α β : Type*}

/-- The list without blocks. -/
def empty : SList α := ⟨[], List.nodup_nil⟩

variable (l : SList α)

/-- The addresses of the blocks. -/
def addrs : List Nat := l.nodes.map Prod.fst

/-- The contents of the blocks. -/
def contents : List α := l.nodes.map Prod.snd

/-- The content of the block at `a`. -/
def get? (a : Nat) : Option α := (l.nodes.find? fun n => n.1 = a).map Prod.snd

/-- The first block that passes `p`. -/
def find? (p : α → Bool) : Option (Nat × α) := l.nodes.find? fun n => p n.2

/-- The block at a position, counted from the head. -/
def nth? (i : Nat) : Option (Nat × α) := l.nodes[i]?

/-- The head. -/
def first? : Option (Nat × α) := l.nodes.head?

/-- The block that the block at `a` points to. -/
def next? (a : Nat) : Option (Nat × α) := (l.nodes.dropWhile fun n => n.1 ≠ a).tail.head?

/-- A new block becomes the head. -/
def insertHead (a : Nat) (x : α) (h : a ∉ l.addrs) : SList α :=
  ⟨(a, x) :: l.nodes, List.nodup_cons.mpr ⟨h, l.distinct⟩⟩

/-- The block at `a` is unlinked. -/
def remove (a : Nat) : SList α :=
  ⟨l.nodes.filter fun n => n.1 ≠ a, l.distinct.sublist (List.filter_sublist.map _)⟩

/-- The content of the block at `a` is changed in place. -/
def update (a : Nat) (f : α → α) : SList α where
  nodes := l.nodes.map fun n => (n.1, if n.1 = a then f n.2 else n.2)
  distinct := by
    rw [List.map_map]
    exact l.distinct

variable {l}

/-! ## Blocks and addresses -/

/-- A list is its blocks. -/
theorem eq_of_nodes {l l' : SList α} (h : l.nodes = l'.nodes) : l = l' := by
  cases l
  cases h
  rfl

theorem mem_addrs {a : Nat} {x : α} (h : (a, x) ∈ l.nodes) : a ∈ l.addrs :=
  List.mem_map.mpr ⟨_, h, rfl⟩

theorem mem_contents {x : α} : x ∈ l.contents ↔ ∃ a, (a, x) ∈ l.nodes := by
  simp [contents]

/-- A block has one content. -/
theorem unique {a : Nat} {x y : α} (hx : (a, x) ∈ l.nodes) (hy : (a, y) ∈ l.nodes) : x = y :=
  (Prod.ext_iff.mp (List.inj_on_of_nodup_map l.distinct hx hy rfl)).2

theorem get?_eq_some {a : Nat} {x : α} : l.get? a = some x ↔ (a, x) ∈ l.nodes := by
  constructor
  · intro h
    obtain ⟨n, hn, rfl⟩ := Option.map_eq_some_iff.mp h
    obtain rfl : n.1 = a := by simpa using List.find?_some hn
    exact List.mem_of_find?_eq_some hn
  · intro h
    have hsome : (l.nodes.find? fun n => n.1 = a).isSome := by
      rw [List.find?_isSome]
      exact ⟨_, h, by simp⟩
    obtain ⟨n, hn⟩ := Option.isSome_iff_exists.mp hsome
    obtain rfl : n.1 = a := by simpa using List.find?_some hn
    rw [get?, hn, Option.map_some, unique (List.mem_of_find?_eq_some hn) h]

theorem find?_mem {p : α → Bool} {n : Nat × α} (h : l.find? p = some n) :
    n ∈ l.nodes ∧ p n.2 = true :=
  ⟨List.mem_of_find?_eq_some h, by simpa using List.find?_some h⟩

theorem find?_eq_none {p : α → Bool} : l.find? p = none ↔ ∀ n ∈ l.nodes, p n.2 = false := by
  simp [find?]

/-- A test that one content passes finds its block. -/
theorem find?_eq_some {p : α → Bool} {a : Nat} {x : α} (hx : (a, x) ∈ l.nodes) (hp : p x = true)
    (huniq : ∀ n ∈ l.nodes, p n.2 = true → n = (a, x)) : l.find? p = some (a, x) := by
  cases h : l.find? p with
  | none => simp [find?_eq_none.mp h (a, x) hx] at hp
  | some n =>
      obtain ⟨hn, hpn⟩ := find?_mem h
      rw [huniq n hn hpn]

theorem nth?_isSome {i : Nat} : (l.nth? i).isSome ↔ i < l.nodes.length := by
  simp [nth?]

theorem first?_mem {n : Nat × α} (h : l.first? = some n) : n ∈ l.nodes :=
  List.mem_of_head? h

theorem first?_isSome (h : l.nodes ≠ []) : l.first?.isSome := by
  rw [first?, List.isSome_head?]
  exact h

theorem next?_mem {a : Nat} {n : Nat × α} (h : l.next? a = some n) : n ∈ l.nodes :=
  ((List.tail_sublist _).trans (List.dropWhile_sublist _)).mem (List.mem_of_head? h)

/-- The block after one in the middle of the list. -/
theorem next?_middle {pre post : List (Nat × α)} {a : Nat} {x : α}
    (h : l.nodes = pre ++ (a, x) :: post) : l.next? a = post.head? := by
  have hd := l.distinct
  rw [h, List.map_append, List.map_cons, List.nodup_middle, List.nodup_cons, List.mem_append,
    not_or] at hd
  have hpre : ∀ n ∈ pre, decide (n.1 ≠ a) = true := by
    intro n hn
    rw [decide_eq_true_eq]
    rintro rfl
    exact hd.1.1 (List.mem_map.mpr ⟨n, hn, rfl⟩)
  rw [next?, h, List.dropWhile_append_of_pos hpre, List.dropWhile_cons_of_neg (by simp),
    List.tail_cons]

/-! ## Insertion -/

section Insert

variable {a : Nat} {x : α} (h : a ∉ l.addrs)

@[simp] theorem contents_insertHead : (l.insertHead a x h).contents = x :: l.contents := rfl

theorem get?_insertHead : (l.insertHead a x h).get? a = some x :=
  get?_eq_some.mpr List.mem_cons_self

theorem get?_insertHead_ne {b : Nat} (hne : b ≠ a) : (l.insertHead a x h).get? b = l.get? b := by
  rw [get?, insertHead, List.find?_cons_of_neg (by simpa using Ne.symm hne), get?]

theorem find?_insertHead (p : α → Bool) :
    (l.insertHead a x h).find? p = if p x then some (a, x) else l.find? p := by
  rw [find?, insertHead, List.find?_cons]
  cases p x with
  | true => rfl
  | false => rfl

end Insert

/-! ## Removal -/

theorem mem_remove {a : Nat} {n : Nat × α} : n ∈ (l.remove a).nodes ↔ n ∈ l.nodes ∧ n.1 ≠ a := by
  simp [remove]

theorem addrs_remove_subset {a b : Nat} (h : b ∈ (l.remove a).addrs) : b ∈ l.addrs := by
  obtain ⟨n, hn, rfl⟩ := List.mem_map.mp h
  exact mem_addrs (mem_remove.mp hn).1

/-- What is left when a block in the middle of the list is unlinked. -/
theorem remove_middle {pre post : List (Nat × α)} {a : Nat} {x : α}
    (h : l.nodes = pre ++ (a, x) :: post) : (l.remove a).nodes = pre ++ post := by
  have hd := l.distinct
  simp only [h, List.map_append, List.map_cons, List.nodup_middle, List.nodup_cons] at hd
  have hne : ∀ n ∈ pre ++ post, decide (n.1 ≠ a) = true := by
    intro n hn
    rw [decide_eq_true_eq]
    rintro rfl
    refine hd.1 ?_
    rw [← List.map_append]
    exact List.mem_map_of_mem hn
  show l.nodes.filter _ = _
  rw [h, List.filter_append, List.filter_cons_of_neg (by simp), ← List.filter_append]
  exact List.filter_eq_self.mpr hne

/-- The block at `a` and the others are the whole list. -/
theorem perm_remove {a : Nat} {x : α} (h : (a, x) ∈ l.nodes) :
    l.nodes.Perm ((a, x) :: (l.remove a).nodes) := by
  obtain ⟨pre, post, hl⟩ := List.append_of_mem h
  rw [remove_middle hl, hl]
  exact List.perm_middle

theorem perm_contents_remove {a : Nat} {x : α} (h : (a, x) ∈ l.nodes) :
    l.contents.Perm (x :: (l.remove a).contents) :=
  (perm_remove h).map Prod.snd

/-- To remove the first block that passes a test is to remove the first such
content. -/
theorem contents_remove {p : α → Bool} {a : Nat} {x : α} (h : l.find? p = some (a, x)) :
    (l.remove a).contents = l.contents.eraseP p := by
  obtain ⟨hp, pre, post, hl, hpre⟩ := List.find?_eq_some_iff_append.mp h
  have hskip : ∀ y ∈ pre.map Prod.snd, ¬ p y = true := by
    intro y hy
    obtain ⟨n, hn, rfl⟩ := List.mem_map.mp hy
    simpa using hpre n hn
  rw [contents, contents, remove_middle hl, hl, List.map_append, List.map_append, List.map_cons,
    List.eraseP_append_right _ hskip, List.eraseP_cons_of_pos hp]

/-- To remove the head is to undo its insertion. -/
theorem remove_insertHead {a : Nat} {x : α} (h : a ∉ l.addrs) :
    (l.insertHead a x h).remove a = l := by
  have hrest : l.nodes.filter (fun n => n.1 ≠ a) = l.nodes := by
    rw [List.filter_eq_self]
    intro n hn
    rw [decide_eq_true_eq]
    rintro rfl
    exact h (mem_addrs hn)
  refine eq_of_nodes ?_
  simp only [remove, insertHead, hrest, List.filter_cons, ne_eq, not_true_eq_false, decide_false,
    Bool.false_eq_true, ↓reduceIte]

/-! ## Changes in place -/

theorem mem_update {a b : Nat} {f : α → α} {y : α} :
    (b, y) ∈ (l.update a f).nodes ↔ ∃ x, (b, x) ∈ l.nodes ∧ y = if b = a then f x else x := by
  simp only [update, List.mem_map, Prod.mk.injEq, Prod.exists]
  constructor
  · rintro ⟨c, x, hx, rfl, rfl⟩
    exact ⟨x, hx, rfl⟩
  · rintro ⟨x, hx, rfl⟩
    exact ⟨b, x, hx, rfl, rfl⟩

/-- A change keeps the other blocks. -/
theorem mem_update_ne {a b : Nat} {f : α → α} {y : α} (h : b ≠ a) :
    (b, y) ∈ (l.update a f).nodes ↔ (b, y) ∈ l.nodes := by
  simp [mem_update, h]

theorem mem_update_self {a : Nat} {f : α → α} {y : α} :
    (a, y) ∈ (l.update a f).nodes ↔ ∃ x, (a, x) ∈ l.nodes ∧ y = f x := by
  simp [mem_update]

/-- What is found at an address after a change. -/
theorem get?_update {a b : Nat} {f : α → α} {x : α} (hx : (b, x) ∈ l.nodes) :
    (l.update a f).get? b = some (if b = a then f x else x) :=
  get?_eq_some.mpr (mem_update.mpr ⟨x, hx, rfl⟩)

theorem get?_update_self {a : Nat} {f : α → α} {x : α} (h : l.get? a = some x) :
    (l.update a f).get? a = some (f x) := by
  rw [get?_update (get?_eq_some.mp h), if_pos rfl]

theorem get?_update_ne {a b : Nat} {f : α → α} (h : b ≠ a) :
    (l.update a f).get? b = l.get? b := by
  refine Option.ext ?_
  intro x
  rw [get?_eq_some, get?_eq_some, mem_update_ne h]

@[simp] theorem addrs_update (a : Nat) (f : α → α) : (l.update a f).addrs = l.addrs := by
  simp [addrs, update]

/-- Two changes of a block are one. -/
theorem update_update (l : SList α) (a : Nat) (f g : α → α) :
    (l.update a f).update a g = l.update a (g ∘ f) := by
  refine eq_of_nodes ?_
  simp only [update, List.map_map]
  refine List.map_congr_left ?_
  rintro ⟨b, x⟩ -
  by_cases hb : b = a
  · simp [hb]
  · simp [hb]

/-- Only what a change does to its block matters. -/
theorem update_congr {a : Nat} {f g : α → α} (h : ∀ x, (a, x) ∈ l.nodes → f x = g x) :
    l.update a f = l.update a g := by
  refine eq_of_nodes (List.map_congr_left ?_)
  rintro ⟨b, x⟩ hx
  by_cases hb : b = a
  · subst hb
    simp [h x hx]
  · simp [hb]

theorem update_id (l : SList α) (a : Nat) : l.update a id = l := by
  refine eq_of_nodes ?_
  simp [update]

/-- A change of the head. -/
theorem update_insertHead {a : Nat} {x : α} (h : a ∉ l.addrs) (f : α → α) :
    (l.insertHead a x h).update a f = l.insertHead a (f x) h := by
  refine eq_of_nodes ?_
  have hrest : l.nodes.map (fun n => (n.1, if n.1 = a then f n.2 else n.2)) = l.nodes.map id := by
    refine List.map_congr_left ?_
    intro n hn
    have hne : n.1 ≠ a := by
      rintro rfl
      exact h (mem_addrs hn)
    rw [if_neg hne, id]
  rw [List.map_id] at hrest
  simp [update, insertHead, hrest]

/-- A change of another block. -/
theorem update_insertHead_ne {a b : Nat} {x : α} (h : a ∉ l.addrs) (hne : a ≠ b) (f : α → α) :
    (l.insertHead a x h).update b f = (l.update b f).insertHead a x (by rwa [addrs_update]) := by
  refine eq_of_nodes ?_
  simp [update, insertHead, hne]

/-- A change that a test does not notice does not change what it finds. -/
theorem find?_update {p : α → Bool} {a : Nat} {f : α → α} (hp : ∀ x, p (f x) = p x) :
    (l.update a f).find? p =
      (l.find? p).map fun n => (n.1, if n.1 = a then f n.2 else n.2) := by
  rw [find?, find?, update, List.find?_map]
  congr 2
  funext n
  show p (if n.1 = a then f n.2 else n.2) = p n.2
  split
  · exact hp n.2
  · rfl

/-- What a change keeps of every block it keeps of the whole list. -/
theorem map_nodes_update {f : α → α} {g : Nat × α → β} (hg : ∀ b x, g (b, f x) = g (b, x))
    (a : Nat) : (l.update a f).nodes.map g = l.nodes.map g := by
  simp only [update, List.map_map]
  refine List.map_congr_left ?_
  rintro ⟨b, x⟩ -
  show g (b, if b = a then f x else x) = g (b, x)
  split
  · exact hg b x
  · rfl

theorem map_contents_update {f : α → α} {g : α → β} (hg : ∀ x, g (f x) = g x) (a : Nat) :
    (l.update a f).contents.map g = l.contents.map g := by
  rw [contents, contents, List.map_map, List.map_map]
  exact map_nodes_update (fun _ x => hg x) a

end SList

end StardustOS.Lib
