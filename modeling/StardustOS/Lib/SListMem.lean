import StardustOS.Lib.HeapTrace
import StardustOS.Lib.Loop
import StardustOS.Lib.SList

/-!
# Linked lists in memory

`SListMem` is a singly linked list as it is in memory: a head pointer, and a link and
a content at each address.  `Chain` says which blocks are found from a pointer on,
and so connects it with `SList`.

The loops follow links as they are, so they may go round for ever, or come to NULL
where they do not expect it.  `none` is both: the fuel is the number of turns.

Each link that is read and each block that is given back is recorded.  A block that
was given back keeps its place in memory, with a content of any kind.
-/

namespace StardustOS.Lib

/-- The head pointer, the link and the content at each address, and what was done
with the blocks so far. -/
structure SListMem (α : Type*) where
  first : Option Nat
  next : Nat → Option Nat
  content : Nat → α
  trace : List (HeapEvent Nat)

namespace SListMem

variable {α : Type*}

section Operations

variable (m : SListMem α)

/-- The link of the block at `a` is read. -/
def readNext (a : Nat) : Option Nat × SListMem α :=
  (m.next a, { m with trace := m.trace ++ [.use a] })

/-- The block at `a` gets a content, and becomes the head. -/
def insertHead (a : Nat) (x : α) : SListMem α :=
  { m with
    first := some a
    next := Function.update m.next a m.first
    content := Function.update m.content a x }

/-- The content of the block at `a` is changed in place. -/
def write (a : Nat) (f : α → α) : SListMem α :=
  { m with content := Function.update m.content a (f (m.content a)) }

/-- The block at `a` is given back.  `left` is what is left in it of its link and its
content. -/
def free (left : Nat → Option Nat × α → Option Nat × α) (a : Nat) : SListMem α :=
  let (link, x) := left a (m.next a, m.content a)
  { m with
    next := Function.update m.next a link
    content := Function.update m.content a x
    trace := m.trace ++ [.free a] }

end Operations

/-- A loop over the links from a pointer on, up to the first block that passes a
test. -/
def findFrom (p : α → Bool) : Nat → Option Nat → SListMem α → Option (Option Nat × SListMem α)
  | 0, _, _ => none
  | _ + 1, none, m => some (none, m)
  | fuel + 1, some a, m =>
      if p (m.content a) then some (some a, m)
      else
        let (n, m) := m.readNext a
        findFrom p fuel n m

/-- The same loop with a counter, which the test may ask for. -/
def countFrom {w : Nat} (p : BitVec w → α → Bool) :
    Nat → Option Nat → BitVec w → SListMem α → Option (Option Nat × BitVec w × SListMem α)
  | 0, _, _, _ => none
  | _ + 1, none, i, m => some (none, i, m)
  | fuel + 1, some a, i, m =>
      if p i (m.content a) then some (some a, i, m)
      else
        let (n, m) := m.readNext a
        countFrom p fuel n (i + 1) m

/-- A loop up to the block whose link is `a`.  Its link becomes that of `a`. -/
def unlinkFrom (a : Nat) : Nat → Option Nat → SListMem α → Option (SListMem α)
  | 0, _, _ => none
  | _ + 1, none, _ => none
  | fuel + 1, some c, m =>
      let (n, m) := m.readNext c
      if n = some a then
        -- the link of `c` is read again, and then that of `a`
        let (_, m) := m.readNext c
        let (n, m) := m.readNext a
        some { m with next := Function.update m.next c n }
      else
        let (n, m) := m.readNext c
        unlinkFrom a fuel n m

/-- The block at `a` is unlinked. -/
def unlink (fuel a : Nat) (m : SListMem α) : Option (SListMem α) :=
  if m.first = some a then
    let (n, m) := m.readNext a
    some { m with first := n }
  else unlinkFrom a fuel m.first m

variable {m m' : SListMem α}

/-! ## More turns change nothing -/

theorem findFrom_succ {p : α → Bool} (fuel : Nat) {ptr : Option Nat} {m : SListMem α}
    {r : Option Nat × SListMem α} (h : findFrom p fuel ptr m = some r) :
    findFrom p (fuel + 1) ptr m = some r := by
  induction fuel generalizing ptr m with
  | zero => cases h
  | succ fuel ih =>
      cases ptr with
      | none => exact h
      | some a =>
          rw [findFrom] at h ⊢
          split at h
          · rwa [if_pos ‹_›]
          · rw [if_neg ‹_›]
            exact ih h

theorem countFrom_succ {w : Nat} {p : BitVec w → α → Bool} (fuel : Nat) {ptr : Option Nat}
    {i : BitVec w} {m : SListMem α} {r : Option Nat × BitVec w × SListMem α}
    (h : countFrom p fuel ptr i m = some r) : countFrom p (fuel + 1) ptr i m = some r := by
  induction fuel generalizing ptr i m with
  | zero => cases h
  | succ fuel ih =>
      cases ptr with
      | none => exact h
      | some a =>
          rw [countFrom] at h ⊢
          split at h
          · rwa [if_pos ‹_›]
          · rw [if_neg ‹_›]
            exact ih h

theorem unlinkFrom_succ {a : Nat} (fuel : Nat) {ptr : Option Nat} {m : SListMem α}
    (h : unlinkFrom a fuel ptr m = some m') : unlinkFrom a (fuel + 1) ptr m = some m' := by
  induction fuel generalizing ptr m with
  | zero => cases h
  | succ fuel ih =>
      cases ptr with
      | none => cases h
      | some c =>
          simp only [unlinkFrom] at h ⊢
          split at h
          · rwa [if_pos ‹_›]
          · rw [if_neg ‹_›]
            exact ih h

theorem unlink_succ {fuel a : Nat} (h : unlink fuel a m = some m') :
    unlink (fuel + 1) a m = some m' := by
  rw [unlink] at h ⊢
  split at h
  · rwa [if_pos ‹_›]
  · rw [if_neg ‹_›]
    exact unlinkFrom_succ fuel h

/-! ## What is done with the blocks -/

/-- From `m` to `m'` links were read, and nothing else was done with the blocks. -/
def Reads (m m' : SListMem α) : Prop :=
  ∃ bs : List Nat, m'.trace = m.trace ++ bs.map .use

theorem Reads.refl (m : SListMem α) : Reads m m := ⟨[], (List.append_nil _).symm⟩

theorem Reads.trans {m₁ m₂ m₃ : SListMem α} (h : Reads m₁ m₂) (h' : Reads m₂ m₃) :
    Reads m₁ m₃ := by
  obtain ⟨bs, hbs⟩ := h
  obtain ⟨cs, hcs⟩ := h'
  exact ⟨bs ++ cs, by rw [hcs, hbs, List.map_append, List.append_assoc]⟩

theorem reads_readNext (m : SListMem α) (a : Nat) : Reads m (m.readNext a).2 := ⟨[a], rfl⟩

theorem findFrom_reads {p : α → Bool} (fuel : Nat) {ptr r : Option Nat} {m : SListMem α}
    (h : findFrom p fuel ptr m = some (r, m')) : Reads m m' := by
  induction fuel generalizing ptr m with
  | zero => cases h
  | succ fuel ih =>
      cases ptr with
      | none =>
          cases h
          exact .refl _
      | some a =>
          rw [findFrom] at h
          split at h
          · cases h
            exact .refl _
          · exact (reads_readNext m a).trans (ih h)

theorem countFrom_reads {w : Nat} {p : BitVec w → α → Bool} (fuel : Nat) {ptr r : Option Nat}
    {i j : BitVec w} {m : SListMem α} (h : countFrom p fuel ptr i m = some (r, j, m')) :
    Reads m m' := by
  induction fuel generalizing ptr i m with
  | zero => cases h
  | succ fuel ih =>
      cases ptr with
      | none =>
          cases h
          exact .refl _
      | some a =>
          rw [countFrom] at h
          split at h
          · cases h
            exact .refl _
          · exact (reads_readNext m a).trans (ih h)

/-- The link of a block that is unlinked is the last one to be read. -/
theorem unlinkFrom_reads {a : Nat} (fuel : Nat) {ptr : Option Nat} {m : SListMem α}
    (h : unlinkFrom a fuel ptr m = some m') :
    ∃ u, Reads m u ∧ m'.trace = u.trace ++ [.use a] := by
  induction fuel generalizing ptr m with
  | zero => cases h
  | succ fuel ih =>
      cases ptr with
      | none => cases h
      | some c =>
          have htwice : Reads m ((m.readNext c).2.readNext c).2 :=
            (reads_readNext m c).trans (reads_readNext _ c)
          simp only [unlinkFrom] at h
          split at h
          · cases h
            exact ⟨_, htwice, rfl⟩
          · obtain ⟨u, hu, htrace⟩ := ih h
            exact ⟨u, htwice.trans hu, htrace⟩

theorem unlink_reads {fuel a : Nat} (h : unlink fuel a m = some m') :
    ∃ u, Reads m u ∧ m'.trace = u.trace ++ [.use a] := by
  rw [unlink] at h
  split at h
  · cases h
    exact ⟨m, .refl m, rfl⟩
  · exact unlinkFrom_reads fuel h

/-! ## The blocks from a pointer on -/

/-- The links from a pointer on lead through the blocks of a list to NULL. -/
def Chain (m : SListMem α) : Option Nat → List (Nat × α) → Prop
  | ptr, [] => ptr = none
  | ptr, (a, x) :: l => ptr = some a ∧ m.content a = x ∧ Chain m (m.next a) l

/-- The list in memory is `l`. -/
def Holds (m : SListMem α) (l : SList α) : Prop := Chain m m.first l.nodes

/-- Only the links and contents of the blocks matter. -/
theorem Chain.congr {l : List (Nat × α)} {ptr : Option Nat} (h : Chain m ptr l)
    (hnext : ∀ n ∈ l, m'.next n.1 = m.next n.1)
    (hcontent : ∀ n ∈ l, m'.content n.1 = m.content n.1) : Chain m' ptr l := by
  induction l generalizing ptr with
  | nil => exact h
  | cons n l ih =>
      rw [List.forall_mem_cons] at hnext hcontent
      obtain ⟨rfl, hx, hrest⟩ := h
      refine ⟨rfl, hcontent.1.trans hx, ?_⟩
      rw [hnext.1]
      exact ih hrest hnext.2 hcontent.2

theorem Chain.readNext {l : List (Nat × α)} {ptr : Option Nat} (h : Chain m ptr l) (a : Nat) :
    Chain (m.readNext a).2 ptr l := h.congr (fun _ _ => rfl) fun _ _ => rfl

/-- A change in place changes the content in the list. -/
theorem Chain.write {l : List (Nat × α)} {ptr : Option Nat} (h : Chain m ptr l) (a : Nat)
    (f : α → α) :
    Chain (m.write a f) ptr (l.map fun n => (n.1, if n.1 = a then f n.2 else n.2)) := by
  induction l generalizing ptr with
  | nil => exact h
  | cons n l ih =>
      obtain ⟨rfl, hx, hrest⟩ := h
      refine ⟨rfl, ?_, ih hrest⟩
      by_cases hn : n.1 = a
      · subst hn
        simp [SListMem.write, hx]
      · simp [SListMem.write, hn, hx]

/-- A loop with as many turns as there are blocks finds what the list has, and does
nothing but read links. -/
theorem findFrom_chain {p : α → Bool} {l : List (Nat × α)} {fuel : Nat} {ptr : Option Nat}
    {m : SListMem α} (h : Chain m ptr l) (hfuel : l.length < fuel) :
    ∃ t, findFrom p fuel ptr m =
      some ((l.find? fun n => p n.2).map Prod.fst, { m with trace := t }) := by
  induction l generalizing fuel ptr m with
  | nil =>
      obtain rfl := h
      obtain ⟨fuel, rfl⟩ := Nat.exists_eq_succ_of_ne_zero (Nat.ne_zero_of_lt hfuel)
      exact ⟨m.trace, rfl⟩
  | cons n l ih =>
      obtain ⟨rfl, hx, hrest⟩ := h
      obtain ⟨fuel, rfl⟩ := Nat.exists_eq_succ_of_ne_zero (Nat.ne_zero_of_lt hfuel)
      rw [findFrom, hx, List.find?_cons]
      cases p n.2 with
      | true => exact ⟨m.trace, rfl⟩
      | false => exact ih (hrest.readNext n.1) (Nat.lt_of_succ_lt_succ hfuel)

section Counted

variable {w : Nat} {p : BitVec w → α → Bool}

/-- No block stops a loop whose counter is `k` at the first of them. -/
def Uncaught (p : BitVec w → α → Bool) (k : Nat) (l : List (Nat × α)) : Prop :=
  ∀ j (hj : j < l.length), p (BitVec.ofNat w (k + j)) l[j].2 = false

theorem Uncaught.of_cons {k : Nat} {n : Nat × α} {l : List (Nat × α)}
    (h : Uncaught p k (n :: l)) :
    p (BitVec.ofNat w k) n.2 = false ∧ Uncaught p (k + 1) l := by
  refine ⟨h 0 (Nat.succ_pos _), ?_⟩
  intro j hj
  have hk : k + 1 + j = k + (j + 1) := by omega
  rw [hk]
  exact h (j + 1) (Nat.succ_lt_succ hj)

theorem ofNat_add_one (k : Nat) : BitVec.ofNat w k + 1 = BitVec.ofNat w (k + 1) :=
  (BitVec.ofNat_add k 1).symm

/-- A loop with a counter that no block stops has counted the blocks. -/
theorem countFrom_ends {l : List (Nat × α)} {fuel : Nat} {ptr : Option Nat} {k : Nat}
    {m : SListMem α} (h : Chain m ptr l)
    (hp : Uncaught p k l) (hfuel : l.length < fuel) :
    ∃ t, countFrom p fuel ptr (BitVec.ofNat w k) m =
      some (none, BitVec.ofNat w (k + l.length), { m with trace := t }) := by
  induction l generalizing fuel ptr k m with
  | nil =>
      obtain rfl := h
      obtain ⟨fuel, rfl⟩ := Nat.exists_eq_succ_of_ne_zero (Nat.ne_zero_of_lt hfuel)
      exact ⟨m.trace, rfl⟩
  | cons n l ih =>
      obtain ⟨rfl, hx, hrest⟩ := h
      obtain ⟨fuel, rfl⟩ := Nat.exists_eq_succ_of_ne_zero (Nat.ne_zero_of_lt hfuel)
      have hlen : k + (n :: l).length = k + 1 + l.length := by
        rw [List.length_cons]
        omega
      rw [countFrom, hx, hp.of_cons.1, hlen, ofNat_add_one]
      exact ih (hrest.readNext n.1) hp.of_cons.2 (Nat.lt_of_succ_lt_succ hfuel)

/-- A loop with a counter that a block stops has counted those before it. -/
theorem countFrom_stops {pre post : List (Nat × α)} {a : Nat} {x : α} {fuel : Nat}
    {ptr : Option Nat} {k : Nat} {m : SListMem α} (h : Chain m ptr (pre ++ (a, x) :: post))
    (hp : Uncaught p k pre) (hx : p (BitVec.ofNat w (k + pre.length)) x = true)
    (hfuel : pre.length < fuel) :
    ∃ t, countFrom p fuel ptr (BitVec.ofNat w k) m =
      some (some a, BitVec.ofNat w (k + pre.length), { m with trace := t }) := by
  induction pre generalizing fuel ptr k m with
  | nil =>
      obtain ⟨rfl, ha, -⟩ := h
      obtain ⟨fuel, rfl⟩ := Nat.exists_eq_succ_of_ne_zero (Nat.ne_zero_of_lt hfuel)
      refine ⟨m.trace, ?_⟩
      rw [countFrom, ha]
      exact if_pos hx
  | cons n pre ih =>
      obtain ⟨rfl, hy, hrest⟩ := h
      obtain ⟨fuel, rfl⟩ := Nat.exists_eq_succ_of_ne_zero (Nat.ne_zero_of_lt hfuel)
      have hlen : k + (n :: pre).length = k + 1 + pre.length := by
        rw [List.length_cons]
        omega
      rw [hlen] at hx ⊢
      rw [countFrom, hy, hp.of_cons.1, ofNat_add_one]
      exact ih (hrest.readNext n.1) hp.of_cons.2 hx (Nat.lt_of_succ_lt_succ hfuel)

end Counted

/-- The last turn of the loop of a removal. -/
theorem unlinkFrom_found {a c : Nat} (fuel : Nat) (h : m.next c = some a) :
    ∃ t, unlinkFrom a (fuel + 1) (some c) m =
      some { m with next := Function.update m.next c (m.next a), trace := t } :=
  ⟨_, if_pos h⟩

theorem unlinkFrom_next {a c : Nat} (fuel : Nat) (h : m.next c ≠ some a) :
    unlinkFrom a (fuel + 1) (some c) m =
      unlinkFrom a fuel (m.next c) ((m.readNext c).2.readNext c).2 := if_neg h

/-- A block that is left as it is. -/
theorem free_keeps (m : SListMem α) (a : Nat) :
    m.free (fun _ x => x) a = { m with trace := m.trace ++ [.free a] } := by
  simp [free]

/-- The loop of a removal, from a block before the one that is unlinked. -/
theorem unlinkFrom_chain {pre post : List (Nat × α)} {c : Nat × α} {a : Nat} {x : α}
    {fuel : Nat} {ptr : Option Nat} {m : SListMem α}
    (h : Chain m ptr (c :: (pre ++ (a, x) :: post)))
    (hd : ((c :: (pre ++ (a, x) :: post)).map Prod.fst).Nodup) (hfuel : pre.length < fuel) :
    ∃ m', unlinkFrom a fuel ptr m = some m' ∧ Chain m' ptr (c :: (pre ++ post)) ∧
      m'.first = m.first ∧ m'.content = m.content ∧
        ∀ b, b ∉ (c :: pre).map Prod.fst → m'.next b = m.next b := by
  obtain ⟨fuel, rfl⟩ := Nat.exists_eq_succ_of_ne_zero (Nat.ne_zero_of_lt hfuel)
  obtain ⟨rfl, hx, hrest⟩ := h
  rw [List.map_cons, List.nodup_cons] at hd
  obtain ⟨hc, hd⟩ := hd
  induction pre generalizing c fuel m with
  | nil =>
      obtain ⟨hlink, -, hpost⟩ := hrest
      obtain ⟨t, hfound⟩ := unlinkFrom_found fuel hlink
      refine ⟨_, hfound, ⟨rfl, hx, ?_⟩, rfl, rfl, ?_⟩
      · show Chain _ (Function.update m.next c.1 (m.next a) c.1) post
        rw [Function.update_self]
        refine hpost.congr ?_ fun _ _ => rfl
        intro n hn
        refine Function.update_of_ne ?_ _ _
        intro hnc
        exact hc (hnc ▸ List.mem_map_of_mem (List.mem_cons_of_mem _ hn))
      · intro b hb
        exact Function.update_of_ne (fun h => hb (by simp [h])) _ _
  | cons d pre ih =>
      rw [List.cons_append, List.map_cons, List.nodup_cons] at hd
      obtain ⟨hlink, hy, htail⟩ := hrest
      have hda : d.1 ≠ a := by
        rintro rfl
        exact hd.1 (List.mem_map.mpr ⟨(d.1, x), by simp, rfl⟩)
      have hlink' : m.next c.1 ≠ some a := by
        rw [hlink]
        simpa using hda
      have hstep := unlinkFrom_next fuel hlink'
      obtain ⟨fuel, rfl⟩ := Nat.exists_eq_succ_of_ne_zero
        (Nat.ne_zero_of_lt (Nat.lt_of_succ_lt_succ hfuel))
      obtain ⟨m', hm', hchain, hfirst, hcontent, hnext⟩ :=
        ih (m := ((m.readNext c.1).2.readNext c.1).2) fuel (Nat.lt_of_succ_lt_succ hfuel) hy
          ((htail.readNext c.1).readNext c.1) hd.1 hd.2
      have hcd : c.1 ∉ (d :: pre).map Prod.fst := by
        intro hmem
        refine hc ?_
        rw [List.cons_append, List.map_cons, List.map_append, ← List.cons_append]
        exact List.mem_append_left _ hmem
      refine ⟨m', by rw [hstep, hlink]; exact hm', ⟨rfl, ?_, ?_⟩, hfirst, hcontent, ?_⟩
      · rw [hcontent]
        exact hx
      · rw [hnext c.1 hcd]
        exact hlink ▸ hchain
      · intro b hb
        rw [List.map_cons, List.mem_cons, not_or] at hb
        exact hnext b hb.2

theorem Chain.content {l : List (Nat × α)} {ptr : Option Nat} (h : Chain m ptr l) :
    ∀ n ∈ l, m.content n.1 = n.2 := by
  induction l generalizing ptr with
  | nil => exact fun n hn => absurd hn List.not_mem_nil
  | cons c l ih => exact List.forall_mem_cons.mpr ⟨h.2.1, ih h.2.2⟩

/-- The blocks from a pointer on are what they are. -/
theorem Chain.unique {l l' : List (Nat × α)} {ptr : Option Nat} (h : Chain m ptr l)
    (h' : Chain m ptr l') : l = l' := by
  induction l generalizing ptr l' with
  | nil =>
      obtain rfl := h
      cases l' with
      | nil => rfl
      | cons n l' => cases h'.1
  | cons n l ih =>
      obtain ⟨rfl, hx, hrest⟩ := h
      cases l' with
      | nil => cases h'
      | cons n' l' =>
          obtain ⟨ha, hx', hrest'⟩ := h'
          obtain ha := Option.some.inj ha
          rw [← ha] at hx' hrest'
          rw [ih hrest hrest', Prod.ext ha (hx.symm.trans hx')]

/-- What is behind a block of the list. -/
theorem Chain.tail {pre post : List (Nat × α)} {a : Nat} {x : α} {ptr : Option Nat}
    (h : Chain m ptr (pre ++ (a, x) :: post)) : Chain m (m.next a) post := by
  induction pre generalizing ptr with
  | nil => exact h.2.2
  | cons c pre ih => exact ih h.2.2

/-- A block is unlinked.  Its own link still leads to what was behind it. -/
theorem unlink_chain {pre post : List (Nat × α)} {a fuel : Nat} {x : α}
    (h : Chain m m.first (pre ++ (a, x) :: post))
    (hd : ((pre ++ (a, x) :: post).map Prod.fst).Nodup) (hfuel : pre.length ≤ fuel) :
    ∃ m', unlink fuel a m = some m' ∧ Chain m' m'.first (pre ++ post) ∧
      Chain m' (m'.next a) post ∧ m'.content = m.content := by
  have hpost := h.tail
  cases pre with
  | nil =>
      have hpost' : Chain { (m.readNext a).2 with first := m.next a } (m.next a) post :=
        hpost.congr (fun _ _ => rfl) fun _ _ => rfl
      exact ⟨_, if_pos h.1, hpost', hpost', rfl⟩
  | cons c pre =>
      have hdisjoint := List.nodup_append.mp (List.map_append ▸ hd)
      have hne : ∀ n ∈ (a, x) :: post, n.1 ∉ (c :: pre).map Prod.fst := by
        intro n hn hmem
        exact hdisjoint.2.2 _ hmem _ (List.mem_map_of_mem hn) rfl
      have hfirst : m.first ≠ some a := by
        intro hfa
        obtain rfl : c.1 = a := Option.some.inj (h.1.symm.trans hfa)
        exact hne (c.1, x) List.mem_cons_self List.mem_cons_self
      obtain ⟨m', hm', hchain, hfirst', hcontent, hnext⟩ := unlinkFrom_chain h hd hfuel
      refine ⟨m', (if_neg hfirst).trans hm', hfirst' ▸ hchain, ?_, hcontent⟩
      rw [hnext a (hne (a, x) List.mem_cons_self)]
      exact hpost.congr (fun n hn => hnext n.1 (hne n (List.mem_cons_of_mem _ hn)))
        fun n _ => congrFun hcontent n.1

/-! ## The list after an insertion and a free -/

/-- A block that the list does not have becomes its head. -/
theorem Holds.insertHead {l : SList α} (h : m.Holds l) {a : Nat} (ha : a ∉ l.addrs) (x : α) :
    (m.insertHead a x).Holds (l.insertHead a x ha) := by
  have hne : ∀ n ∈ l.nodes, n.1 ≠ a := by
    rintro n hn rfl
    exact ha (SList.mem_addrs hn)
  refine ⟨rfl, Function.update_self _ _ _, ?_⟩
  have hnext : (m.insertHead a x).next a = m.first := Function.update_self _ _ _
  rw [hnext]
  exact Chain.congr h (fun n hn => Function.update_of_ne (hne n hn) _ _)
    fun n hn => Function.update_of_ne (hne n hn) _ _

/-- What is left in a freed block does not matter to blocks that do not lead to it. -/
theorem Chain.free {left : Nat → Option Nat × α → Option Nat × α} {l : List (Nat × α)}
    {ptr : Option Nat} {a : Nat} (h : Chain m ptr l) (ha : ∀ n ∈ l, n.1 ≠ a) :
    Chain (m.free left a) ptr l :=
  h.congr (fun n hn => Function.update_of_ne (ha n hn) _ _)
    fun n hn => Function.update_of_ne (ha n hn) _ _

/-! ## Which blocks are read -/

/-- From `m` to `m'` links of the blocks `bs` were read, and nothing else was done with the
blocks. -/
def ReadsOf (bs : List Nat) (m m' : SListMem α) : Prop :=
  ∃ cs : List Nat, (∀ c ∈ cs, c ∈ bs) ∧ m'.trace = m.trace ++ cs.map .use

theorem ReadsOf.refl (bs : List Nat) (m : SListMem α) : ReadsOf bs m m :=
  ⟨[], fun _ h => absurd h List.not_mem_nil, (List.append_nil _).symm⟩

theorem ReadsOf.trans {bs : List Nat} {m₁ m₂ m₃ : SListMem α} (h : ReadsOf bs m₁ m₂)
    (h' : ReadsOf bs m₂ m₃) : ReadsOf bs m₁ m₃ := by
  obtain ⟨cs, hcs, ht⟩ := h
  obtain ⟨ds, hds, ht'⟩ := h'
  refine ⟨cs ++ ds, fun c hc => (List.mem_append.mp hc).elim (hcs c) (hds c), ?_⟩
  rw [ht', ht, List.map_append, List.append_assoc]

theorem ReadsOf.mono {bs cs : List Nat} (h : ReadsOf bs m m') (hsub : ∀ b ∈ bs, b ∈ cs) :
    ReadsOf cs m m' := by
  obtain ⟨ds, hds, ht⟩ := h
  exact ⟨ds, fun d hd => hsub d (hds d hd), ht⟩

theorem readsOf_readNext (m : SListMem α) (bs : List Nat) {a : Nat} (ha : a ∈ bs) :
    ReadsOf bs m (m.readNext a).2 :=
  ⟨[a], fun _ hc => List.mem_singleton.mp hc ▸ ha, rfl⟩

theorem findFrom_readsOf {p : α → Bool} (fuel : Nat) {ptr r : Option Nat} {l : List (Nat × α)}
    {m : SListMem α} (h : Chain m ptr l) (hr : findFrom p fuel ptr m = some (r, m')) :
    ReadsOf (l.map Prod.fst) m m' := by
  induction fuel generalizing ptr l m with
  | zero => cases hr
  | succ fuel ih =>
      cases l with
      | nil =>
          obtain rfl := h
          cases hr
          exact .refl _ _
      | cons n l =>
          obtain ⟨rfl, -, hrest⟩ := h
          rw [findFrom] at hr
          split at hr
          · cases hr
            exact .refl _ _
          · have hone := readsOf_readNext m ((n :: l).map Prod.fst) List.mem_cons_self
            exact hone.trans ((ih (hrest.readNext n.1) hr).mono fun b => List.mem_cons_of_mem _)

/-- A loop with a counter over a list comes to an end. -/
theorem countFrom_readsOf {w : Nat} (p : BitVec w → α → Bool) {l : List (Nat × α)} {fuel : Nat}
    {ptr : Option Nat} {i : BitVec w} {m : SListMem α} (h : Chain m ptr l)
    (hfuel : l.length < fuel) :
    ∃ r j t, countFrom p fuel ptr i m = some (r, j, { m with trace := t }) ∧
      ReadsOf (l.map Prod.fst) m { m with trace := t } := by
  induction l generalizing fuel ptr i m with
  | nil =>
      obtain rfl := h
      obtain ⟨fuel, rfl⟩ := Nat.exists_eq_succ_of_ne_zero (Nat.ne_zero_of_lt hfuel)
      exact ⟨none, i, m.trace, rfl, .refl _ _⟩
  | cons n l ih =>
      obtain ⟨rfl, -, hrest⟩ := h
      obtain ⟨fuel, rfl⟩ := Nat.exists_eq_succ_of_ne_zero (Nat.ne_zero_of_lt hfuel)
      rw [countFrom]
      split
      · exact ⟨some n.1, i, m.trace, rfl, .refl _ _⟩
      · obtain ⟨r, j, t, hr, hreads⟩ := ih (i := i + 1) (hrest.readNext n.1)
          (Nat.lt_of_succ_lt_succ hfuel)
        have hone := readsOf_readNext m ((n :: l).map Prod.fst) List.mem_cons_self
        exact ⟨r, j, t, hr, hone.trans (hreads.mono fun b => List.mem_cons_of_mem _)⟩

/-- Of a block that is unlinked the link is read last. -/
theorem unlinkFrom_readsOf {a : Nat} (fuel : Nat) {ptr : Option Nat} {l : List (Nat × α)}
    {m : SListMem α} (h : Chain m ptr l) (hr : unlinkFrom a fuel ptr m = some m') :
    ∃ u, ReadsOf (l.map Prod.fst) m u ∧ m'.trace = u.trace ++ [.use a] := by
  induction fuel generalizing ptr l m with
  | zero => cases hr
  | succ fuel ih =>
      cases l with
      | nil =>
          obtain rfl := h
          cases hr
      | cons n l =>
          obtain ⟨rfl, -, hrest⟩ := h
          have hmem : n.1 ∈ (n :: l).map Prod.fst := List.mem_cons_self
          have htwice : ReadsOf ((n :: l).map Prod.fst) m ((m.readNext n.1).2.readNext n.1).2 :=
            (readsOf_readNext m _ hmem).trans (readsOf_readNext _ _ hmem)
          simp only [unlinkFrom] at hr
          split at hr
          · cases hr
            exact ⟨_, htwice, rfl⟩
          · obtain ⟨u, hu, htrace⟩ := ih ((hrest.readNext n.1).readNext n.1) hr
            exact ⟨u, htwice.trans (hu.mono fun b => List.mem_cons_of_mem _), htrace⟩

theorem unlink_readsOf {fuel a : Nat} {l : List (Nat × α)} (h : Chain m m.first l)
    (hr : unlink fuel a m = some m') :
    ∃ u, ReadsOf (l.map Prod.fst) m u ∧ m'.trace = u.trace ++ [.use a] := by
  rw [unlink] at hr
  split at hr
  · cases hr
    exact ⟨m, .refl _ m, rfl⟩
  · exact unlinkFrom_readsOf fuel h hr

/-! ## All blocks are given back -/

/-- A loop that gives back each block after its link was read. -/
def freeFrom (left : Nat → Option Nat × α → Option Nat × α) :
    Nat → Option Nat → SListMem α → Option (SListMem α)
  | 0, _, _ => none
  | _ + 1, none, m => some m
  | fuel + 1, some a, m =>
      let (n, m) := m.readNext a
      freeFrom left fuel n (m.free left a)

theorem freeFrom_succ {left : Nat → Option Nat × α → Option Nat × α} (fuel : Nat)
    {ptr : Option Nat} {m : SListMem α} (h : freeFrom left fuel ptr m = some m') :
    freeFrom left (fuel + 1) ptr m = some m' := by
  induction fuel generalizing ptr m with
  | zero => cases h
  | succ fuel ih =>
      cases ptr with
      | none => exact h
      | some a => exact ih h

/-- What is left in a block does not lead the loop astray. -/
theorem freeFrom_chain (left : Nat → Option Nat × α → Option Nat × α) {l : List (Nat × α)}
    {fuel : Nat} {ptr : Option Nat} {m : SListMem α} (h : Chain m ptr l)
    (hd : (l.map Prod.fst).Nodup) (hfuel : l.length < fuel) :
    ∃ m', freeFrom left fuel ptr m = some m' ∧ m'.first = m.first ∧
      m'.trace = m.trace ++ (l.map Prod.fst).flatMap fun a => [.use a, .free a] := by
  induction l generalizing fuel ptr m with
  | nil =>
      obtain rfl := h
      obtain ⟨fuel, rfl⟩ := Nat.exists_eq_succ_of_ne_zero (Nat.ne_zero_of_lt hfuel)
      exact ⟨m, rfl, rfl, (List.append_nil _).symm⟩
  | cons n l ih =>
      obtain ⟨rfl, -, hrest⟩ := h
      obtain ⟨fuel, rfl⟩ := Nat.exists_eq_succ_of_ne_zero (Nat.ne_zero_of_lt hfuel)
      obtain ⟨hn, hd⟩ := List.nodup_cons.mp hd
      have hchain : Chain ((m.readNext n.1).2.free left n.1) (m.next n.1) l :=
        (hrest.readNext n.1).free fun c hc heq => hn (heq ▸ List.mem_map_of_mem hc)
      obtain ⟨m', hm', hfirst, htrace⟩ := ih hchain hd (Nat.lt_of_succ_lt_succ hfuel)
      refine ⟨m', hm', hfirst, ?_⟩
      rw [htrace, List.map_cons, List.flatMap_cons, ← List.append_assoc]
      refine congrArg (· ++ _) ?_
      exact List.append_assoc m.trace [.use n.1] [.free n.1]

end SListMem

end StardustOS.Lib
