import StardustOS.Liblist.List

/-!
# The nodes of liblist

`liblist_add` is given a block by `malloc`, and `liblist_remove` and `liblist_destroy`
give blocks back.  `History` is what was done with the blocks by a history of calls: the
allocations, the links that were read and the blocks that were given back, in order.

`OnlyNodes` is the invariant: the live blocks are the nodes of the list.  So nothing is
read that is not a node, and a list that is destroyed leaves no block behind
(`nodes_accounted`).  But `liblist_destroy` leaves the head as it was, and a list that had
nodes may not be used again.
-/

namespace StardustOS.Liblist

open Lib

variable {ν : Type*}

/-- `liblist_destroy`. -/
def liblistDestroy (left : Nat → Option Nat × Option ν → Option Nat × Option ν) (m : ListMem ν)
    (budget : Nat) : Option (ListMem ν) := m.freeFrom left budget m.first

/-- What was done with the blocks from `m` to `m'`. -/
def doneTo (m m' : ListMem ν) : List (HeapEvent Nat) := m'.trace.drop m.trace.length

section Histories

variable [DecidableEq ν] (w : Nat) (left : Nat → Option Nat × Option ν → Option Nat × Option ν)

/-- From the empty list a history of calls leads here, and has done this with the blocks.
The values may be NULL and `malloc` may fail.  A block that it gives is not a node of the
list. -/
inductive History : List (HeapEvent Nat) → ListMem ν → Prop
  | start {m : ListMem ν} (hm : m.first = none) : History [] m
  | added {es : List (HeapEvent Nat)} {m m' : ListMem ν} {node : Nat} {value : Option ν}
      (h : History es m) (hnode : Fresh m node)
      (hr : Returns (liblistAdd w m (some node) value) (0, m')) :
      History (es ++ (doneTo m m' ++ [.alloc node])) m'
  | refused {es : List (HeapEvent Nat)} {m m' : ListMem ν} {malloc : Option Nat}
      {value : Option ν} {r : Int} (h : History es m)
      (hr : Returns (liblistAdd w m malloc value) (r, m')) (hne : r ≠ 0) :
      History (es ++ doneTo m m') m'
  | removed {es : List (HeapEvent Nat)} {m m' : ListMem ν} {value : Option ν}
      (h : History es m) (hr : Returns (liblistRemove left m value) m') :
      History (es ++ doneTo m m') m'

end Histories

/-- The live blocks are the nodes of the list. -/
def OnlyNodes (es : List (HeapEvent Nat)) (m : ListMem ν) : Prop :=
  ∃ live s, run heapStep [] es = some live ∧ m.Holds s ∧ live.Perm s.addrs

variable {w : Nat} {left : Nat → Option Nat × Option ν → Option Nat × Option ν} {m m' : ListMem ν}
  {es new : List (HeapEvent Nat)} {s : SList (Option ν)}

/-! ## What the calls do with the blocks -/

theorem holds_traced (hm : m.Holds s) (t : List (HeapEvent Nat)) :
    SListMem.Holds { m with trace := t } s := hm.congr (fun _ _ => rfl) fun _ _ => rfl

section Calls

variable [DecidableEq ν]

theorem liblistIndexof_holds (w : Nat) (hm : m.Holds s) (value : Option ν) :
    ∃ i t, Returns (liblistIndexof w m value) (i, { m with trace := t }) ∧
      SListMem.ReadsOf s.addrs m { m with trace := t } := by
  obtain ⟨node, i, t, hscan, hreads⟩ := SListMem.countFrom_readsOf
    (fun (_ : BitVec w) x => decide (x = value)) (i := 0) hm (Nat.lt_succ_self _)
  have hreturns := returns_of_succ (fun n _ => SListMem.countFrom_succ n) hscan
  cases node with
  | none => exact ⟨-1, t, hreturns.map _, hreads⟩
  | some node => exact ⟨i, t, hreturns.map _, hreads⟩

/-- `liblist_add` reads links, and may insert the block it is given. -/
theorem liblistAdd_holds (w : Nat) (hm : m.Holds s) (malloc : Option Nat) (value : Option ν) :
    ∃ r m', Returns (liblistAdd w m malloc value) (r, m') ∧
      ((r ≠ 0 ∧ SListMem.ReadsOf s.addrs m m' ∧ m'.Holds s) ∨
        r = 0 ∧ ∃ node t, malloc = some node ∧
          SListMem.ReadsOf s.addrs m { m with trace := t } ∧
            m' = SListMem.insertHead { m with trace := t } node value) := by
  obtain ⟨i, t, hi, hreads⟩ := liblistIndexof_holds w hm value
  have hr : Returns (liblistAdd w m malloc value) _ := hi.map _
  dsimp only at hr
  by_cases hi' : i = -1
  · rw [if_neg (not_not.mpr hi')] at hr
    cases malloc with
    | none => exact ⟨-ENOMEM, _, hr, Or.inl ⟨by decide, hreads, holds_traced hm t⟩⟩
    | some node => exact ⟨0, _, hr, Or.inr ⟨rfl, node, t, rfl, hreads, rfl⟩⟩
  · rw [if_pos hi'] at hr
    exact ⟨-EEXIST, _, hr, Or.inl ⟨by decide, hreads, holds_traced hm t⟩⟩

/-- `liblist_remove` reads links, and may unlink a node and give it back. -/
theorem liblistRemove_holds (left : Nat → Option Nat × Option ν → Option Nat × Option ν)
    (hm : m.Holds s) (value : Option ν) :
    ∃ m', Returns (liblistRemove left m value) m' ∧
      ((SListMem.ReadsOf s.addrs m m' ∧ m'.Holds s) ∨
        ∃ a ∈ s.addrs, ∃ u, SListMem.ReadsOf s.addrs m u ∧ m'.trace = u.trace ++ [.free a] ∧
          m'.Holds (s.remove a)) := by
  obtain ⟨t, n, hfind⟩ := find_shows hm fun x => decide (x = value)
  have hreads := SListMem.findFrom_readsOf _ hm (hfind (n + 1) (Nat.lt_succ_self n))
  have hm' := holds_traced hm t
  cases hnode : s.find? fun x => decide (x = value) with
  | none =>
      rw [hnode, Option.map_none] at hfind
      refine ⟨{ m with trace := t }, ⟨n, ?_⟩, Or.inl ⟨hreads, hm'⟩⟩
      intro budget hbudget
      simp only [liblistRemove, hfind budget hbudget]
  | some b =>
      obtain ⟨a, x⟩ := b
      rw [hnode, Option.map_some] at hfind
      have hmem := (SList.find?_mem hnode).1
      obtain ⟨pre, post, hnodes⟩ := List.append_of_mem hmem
      have hchain := hm'
      rw [SListMem.Holds, hnodes] at hchain
      have hd : ((pre ++ (a, x) :: post).map Prod.fst).Nodup := hnodes ▸ s.distinct
      obtain ⟨u, hunlink, hrest, -, -⟩ := SListMem.unlink_chain hchain hd (Nat.le_refl _)
      obtain ⟨u', hu', htrace⟩ := SListMem.unlink_readsOf hm' hunlink
      obtain ⟨n', hn'⟩ : Returns (fun budget => SListMem.unlink budget a _) u :=
        returns_of_succ (fun _ _ h => SListMem.unlink_succ h) hunlink
      refine ⟨u.free left a, ⟨max n n', ?_⟩, Or.inr ⟨a, SList.mem_addrs hmem, u, ?_, rfl, ?_⟩⟩
      · intro budget hbudget
        have hn := Nat.lt_of_le_of_lt (Nat.le_max_left n n') hbudget
        have hn'' := Nat.lt_of_le_of_lt (Nat.le_max_right n n') hbudget
        simp only [liblistRemove, hfind budget hn, hn' budget hn'', Option.map_some]
      · exact (hreads.trans hu').trans ⟨[a], fun c hc => List.mem_singleton.mp hc ▸
          SList.mem_addrs hmem, htrace⟩
      · rw [← SList.remove_middle hnodes] at hrest
        exact hrest.free fun b hb => (SList.mem_remove.mp hb).2

end Calls

/-- `liblist_destroy` gives back every node, and does not touch the head. -/
theorem liblistDestroy_holds (left : Nat → Option Nat × Option ν → Option Nat × Option ν)
    (hm : m.Holds s) :
    ∃ m', Returns (liblistDestroy left m) m' ∧ m'.first = m.first ∧
      m'.trace = m.trace ++ s.addrs.flatMap fun a => [.use a, .free a] := by
  obtain ⟨m', hm', hfirst, htrace⟩ :=
    SListMem.freeFrom_chain left hm s.distinct (Nat.lt_succ_self _)
  exact ⟨m', returns_of_succ (fun n _ h => SListMem.freeFrom_succ n h) hm', hfirst, htrace⟩

/-! ## Every history -/

theorem doneTo_eq (h : m'.trace = m.trace ++ new) : doneTo m m' = new := by
  rw [doneTo, h, List.drop_left]

/-- The links that are read are those of nodes. -/
theorem run_readsOf {live bs : List Nat} (hlive : live.Perm bs) (h : SListMem.ReadsOf bs m m') :
    run heapStep live (doneTo m m') = some live := by
  obtain ⟨cs, hcs, htrace⟩ := h
  rw [doneTo_eq htrace]
  exact run_uses fun c hc => hlive.mem_iff.mpr (hcs c hc)

theorem OnlyNodes.reads (h : OnlyNodes es m) (hm : m.Holds s) (hm' : m'.Holds s)
    (hreads : SListMem.ReadsOf s.addrs m m') : OnlyNodes (es ++ doneTo m m') m' := by
  obtain ⟨live, s', hrun, hs', hlive⟩ := h
  obtain rfl : s' = s := SList.eq_of_nodes (hs'.unique hm)
  refine ⟨live, s', ?_, hm', hlive⟩
  rw [run_append, hrun]
  exact run_readsOf hlive hreads

/-- A block that is inserted is live. -/
theorem OnlyNodes.insertHead (h : OnlyNodes es m) {node : Nat} (hnode : Fresh m node)
    (value : Option ν) {t : List (HeapEvent Nat)} (hm : m.Holds s)
    (hreads : SListMem.ReadsOf s.addrs m { m with trace := t }) :
    OnlyNodes (es ++ (doneTo m { m with trace := t } ++ [.alloc node]))
      (SListMem.insertHead { m with trace := t } node value) := by
  obtain ⟨live, s', hrun, hs', hlive⟩ := h
  obtain rfl : s' = s := SList.eq_of_nodes (hs'.unique hm)
  have hfresh := hnode s' hm
  refine ⟨node :: live, s'.insertHead node value hfresh, ?_,
    (holds_traced hm t).insertHead hfresh value, hlive.cons node⟩
  rw [run_append, hrun, Option.bind_some, run_append, run_readsOf hlive hreads]
  exact (run_singleton _ _).trans (if_neg fun hmem => hfresh (hlive.mem_iff.mp hmem))

/-- A node that is given back is live no more. -/
theorem OnlyNodes.free (h : OnlyNodes es m) {a : Nat} {u : ListMem ν} (hm : m.Holds s)
    (ha : a ∈ s.addrs) (hreads : SListMem.ReadsOf s.addrs m u)
    (htrace : m'.trace = u.trace ++ [.free a]) (hm' : m'.Holds (s.remove a)) :
    OnlyNodes (es ++ doneTo m m') m' := by
  obtain ⟨live, s', hrun, hs', hlive⟩ := h
  obtain rfl : s' = s := SList.eq_of_nodes (hs'.unique hm)
  obtain ⟨n, hn, rfl⟩ := List.mem_map.mp ha
  have hperm : (live.erase n.1).Perm (s'.remove n.1).addrs := by
    have herase := (hlive.trans ((SList.perm_remove hn).map Prod.fst)).erase n.1
    rwa [List.map_cons, List.erase_cons_head] at herase
  refine ⟨live.erase n.1, s'.remove n.1, ?_, hm', hperm⟩
  obtain ⟨cs, hcs, hreads⟩ := hreads
  rw [run_append, hrun, Option.bind_some, doneTo_eq (by rw [htrace, hreads, List.append_assoc]),
    run_append, run_uses fun c hc => hlive.mem_iff.mpr (hcs c hc)]
  exact (run_singleton _ _).trans (if_pos (hlive.mem_iff.mpr ha))

/-- The length of a list that was destroyed is found in blocks that were given back. -/
theorem liblistLength_destroyed {a : Nat} {n : BitVec w} (hm : m.first = some a)
    (h : Returns (liblistLength w m) (n, m')) : run heapStep [] (doneTo m m') = none := by
  obtain ⟨k, hk⟩ := h
  have hlength := hk (k + 1) (Nat.lt_succ_self k)
  obtain ⟨⟨r, j, u⟩, hscan, hu⟩ := Option.map_eq_some_iff.mp hlength
  cases hu
  rw [hm, SListMem.countFrom, if_neg Bool.false_ne_true] at hscan
  obtain ⟨bs, hbs⟩ := SListMem.countFrom_reads k hscan
  have htrace : m'.trace = m.trace ++ .use a :: bs.map .use := by
    rw [hbs]
    exact List.append_assoc m.trace [.use a] _
  rw [doneTo_eq htrace]
  rfl

section Results

variable [DecidableEq ν]

theorem History.onlyNodes (h : History w left es m) : OnlyNodes es m := by
  induction h with
  | start hm => exact ⟨[], SList.empty, rfl, hm, .refl _⟩
  | @added es m m' node value h hnode hr ih =>
      obtain ⟨-, s, -, hs, -⟩ := id ih
      obtain ⟨r, u, hu, hcases⟩ := liblistAdd_holds w hs (some node) value
      cases hr.unique hu
      obtain ⟨hne, -⟩ | ⟨-, node', t, hnode', hreads, rfl⟩ := hcases
      · exact absurd rfl hne
      · cases hnode'
        exact ih.insertHead hnode value hs hreads
  | @refused es m m' malloc value r h hr hne ih =>
      obtain ⟨-, s, -, hs, -⟩ := id ih
      obtain ⟨r', u, hu, hcases⟩ := liblistAdd_holds w hs malloc value
      cases hr.unique hu
      obtain ⟨-, hreads, hs'⟩ | ⟨hr', -⟩ := hcases
      · exact ih.reads hs hs' hreads
      · exact absurd hr' hne
  | @removed es m m' value h hr ih =>
      obtain ⟨-, s, -, hs, -⟩ := id ih
      obtain ⟨u, hu, hcases⟩ := liblistRemove_holds left hs value
      cases hr.unique hu
      obtain ⟨hreads, hs'⟩ | ⟨a, ha, u', hreads, htrace, hs'⟩ := hcases
      · exact ih.reads hs hs' hreads
      · exact ih.free hs ha hreads htrace hs'

/-- The blocks of a list are accounted for.  Every call returns, uses no block but the nodes
of the list, and gives back only those.  A list that is destroyed has given back every
block that it was given, once; one that had nodes may not be used again. -/
theorem nodes_accounted (h : History w left es m) :
    OnlyNodes es m ∧ (∀ malloc value, ∃ r, Returns (liblistAdd w m malloc value) r) ∧
      (∀ value, ∃ m', Returns (liblistRemove left m value) m') ∧
      ∃ m', Returns (liblistDestroy left m) m' ∧
        run heapStep [] (es ++ doneTo m m') = some [] ∧
        (m.first ≠ none → ∀ n m'', Returns (liblistLength w m') (n, m'') →
          run heapStep [] (es ++ doneTo m m' ++ doneTo m' m'') = none) := by
  have hnodes := h.onlyNodes
  obtain ⟨live, s, hrun, hs, hlive⟩ := id hnodes
  obtain ⟨m', hdestroy, hfirst, htrace⟩ := liblistDestroy_holds left hs
  have hall : run heapStep [] (es ++ doneTo m m') = some [] := by
    rw [run_append, hrun, doneTo_eq htrace]
    exact run_frees hlive
  refine ⟨hnodes, ?_, ?_, m', hdestroy, hall, ?_⟩
  · intro malloc value
    obtain ⟨r, u, hu, -⟩ := liblistAdd_holds w hs malloc value
    exact ⟨(r, u), hu⟩
  · intro value
    obtain ⟨u, hu, -⟩ := liblistRemove_holds left hs value
    exact ⟨u, hu⟩
  · intro hne n m'' hlength
    obtain ⟨a, ha⟩ := Option.ne_none_iff_exists'.mp hne
    rw [run_append, hall]
    exact liblistLength_destroyed (hfirst.trans ha) hlength

/-- A history of adds and removes of values does something with the blocks. -/
theorem Reached.history {cs : List (SetCall ν)} (h : Reached w left cs m) :
    ∃ es, History w left es m := by
  induction h with
  | start hm => exact ⟨[], .start hm⟩
  | @add cs m m' node v r h hnode hr ih =>
      obtain ⟨es, hes⟩ := ih
      by_cases hzero : r = 0
      · subst hzero
        exact ⟨_, .added hes hnode hr⟩
      · exact ⟨_, .refused hes hr hzero⟩
  | remove h hr ih =>
      obtain ⟨es, hes⟩ := ih
      exact ⟨_, .removed hes hr⟩

end Results

/-- Of three values one is added twice and removed, and a fourth is added. -/
theorem nodes_accounted_three : ∃ (es : List (HeapEvent Nat)) (m m' : ListMem Nat),
    History 32 (fun _ c => c) es m ∧ Shows m [0x8000, 0x7000, 0x5000] ∧
      Returns (liblistDestroy (fun _ c => c) m) m' ∧
      run heapStep [] (es ++ doneTo m m') = some [] ∧
      ∀ n m'', Returns (liblistLength 32 m') (n, m'') →
        run heapStep [] (es ++ doneTo m m' ++ doneTo m' m'') = none := by
  let calls : List (SetCall Nat) :=
    [.add 0x5000, .add 0x6000, .add 0x7000, .add 0x6000, .remove 0x6000, .add 0x8000]
  have hfew : ∀ pre, pre <+: calls → (held pre).length < 2 ^ 32 - 1 := by
    intro pre hpre
    have hlen := (length_held_le pre).trans hpre.length_le
    exact Nat.lt_of_le_of_lt hlen (by decide)
  obtain ⟨m, hm⟩ := exists_reached 32 (fun _ c => c) hfew
  have hshows : Shows m [0x8000, 0x7000, 0x5000] := hm.shows hfew
  obtain ⟨es, hes⟩ := hm.history
  obtain ⟨-, -, -, m', hdestroy, hall, hafter⟩ := nodes_accounted hes
  refine ⟨es, m, m', hes, hshows, hdestroy, hall, hafter ?_⟩
  intro hfirst
  obtain ⟨s, hs, hsl⟩ := hshows
  rw [SListMem.Holds, hfirst] at hs
  cases hnodes : s.nodes with
  | nil => simp [SList.contents, hnodes] at hsl
  | cons n l =>
      rw [hnodes] at hs
      cases hs.1

end StardustOS.Liblist
