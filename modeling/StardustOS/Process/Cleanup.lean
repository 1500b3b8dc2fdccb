import StardustOS.Lib.SListMem
import StardustOS.Process.Steps

/-!
# The list of processes while it is cleaned up

`processes_cleanup` walks the list of processes and calls `proc_destroy` for each
zombie.  `proc_destroy` gives the block of the process back to `kfree`, then removes
it from the list, which reads its link, and the walk goes on from the same link.

Here the list is as it is in memory, and `left` says what `kfree` leaves in a block.
`cleansUp_iff` says that nothing is read from a freed block only where there is no
zombie.  Where `kfree` leaves a block as it is, the walk does what the table says
(`processesCleanup_keeps`).
-/

namespace StardustOS.Process

open Lib

/-- The list of processes in memory, `proc_count`, and the rest of the kernel. -/
structure ProcMem (κ : Type*) where
  list : SListMem Proc
  procCount : Nat
  kernel : κ

namespace ProcMem

variable {κ : Type*} (K : Kernel κ) (left : Nat → Option Nat × Proc → Option Nat × Proc)
  (budget : Nat)

/-- `process_frompid`. -/
def processFrompid (pid : UInt32) (m : ProcMem κ) : Option (Option Nat × ProcMem κ) :=
  (m.list.findFrom (fun P => P.id = pid) budget m.list.first).map fun (q, list) =>
    (q, { m with list := list })

/-- `proc_destroy` takes the process out of its parent's child array.  A parent that
is not in the table is a NULL pointer. -/
def disown (P : Proc) (m : ProcMem κ) : Option (ProcMem κ) :=
  if P.parent ≠ 0 then
    match m.processFrompid budget P.parent with
    | none => none
    | some (none, _) => none
    | some (some q, m) =>
        some { m with list := m.list.write q (Proc.onChildren fun c => c.drop P.id) }
  else some m

/-- `proc_destroy`. -/
def procDestroy (p : Nat) (m : ProcMem κ) : Option (ProcMem κ) :=
  let P := m.list.content p
  let kernel := Procs.closeFiles K P m.kernel
  let kernel := if P.regs.cr3 ≠ K.krnlPgdir then K.memFreePgdir P.regs.cr3 kernel else kernel
  match disown budget P { m with kernel := kernel } with
  | none => none
  | some m =>
      ((m.list.free left p).unlink budget p).map fun list =>
        { list := list, procCount := m.procCount - 1, kernel := K.kfree p m.kernel }

/-- The loop of `processes_cleanup`, from a pointer on. -/
def cleanupFrom : Nat → Option Nat → ProcMem κ → Option (ProcMem κ)
  | 0, _, _ => none
  | _ + 1, none, m => some m
  | fuel + 1, some a, m =>
      match
        if (m.list.content a).status = .zombie then procDestroy K left budget a m else some m
      with
      | none => none
      | some m =>
          let (n, list) := m.list.readNext a
          cleanupFrom fuel n { m with list := list }

/-- `processes_cleanup`, with as many turns as `budget` for each loop. -/
def processesCleanup (m : ProcMem κ) : Option (ProcMem κ) :=
  cleanupFrom K left budget budget m.list.first m

/-- The processes that are no zombies. -/
def others (l : SList Proc) : List (Nat × Proc) := l.nodes.filter fun n => n.2.status ≠ .zombie

/-- From `l` all zombies were removed.  The others are in their order and as they were,
except that one which lost a child has another child array; the count is lower by the
number of the zombies; and each zombie was given back once, no other block was, and none
was used after that. -/
structure Cleaned (l : SList Proc) (m m' : ProcMem κ) : Prop where
  table : ∃ l' : SList Proc, m'.list.Holds l' ∧ l'.addrs = (others l).map Prod.fst ∧
    ∀ n ∈ l'.nodes, ∃ P, (n.1, P) ∈ l.nodes ∧
      n.2.onChildren (fun _ => .empty) = P.onChildren (fun _ => .empty) ∧
      ((∀ z ∈ l.nodes, z.2.status = .zombie → z.2.parent ≠ P.id) → n.2 = P)
  count : m'.procCount = m.procCount - (l.nodes.length - (others l).length)
  blocks : ∃ live, run heapStep l.addrs m'.list.trace = some live ∧
    live.Perm ((others l).map Prod.fst)

/-- `processes_cleanup` comes to an end, and does what it is for. -/
def CleansUp (l : SList Proc) (m : ProcMem κ) : Prop :=
  ∃ budget m', processesCleanup K left budget m = some m' ∧ Cleaned l m m'

variable {K left budget} {m m' : ProcMem κ}

/-! ## What is done with the blocks -/

theorem disown_reads {P : Proc} (h : disown budget P m = some m') : m.list.Reads m'.list := by
  rw [disown] at h
  split at h
  · split at h
    · cases h
    · cases h
    · rename_i q u hu
      obtain ⟨⟨q', list⟩, hfind, heq⟩ := Option.map_eq_some_iff.mp hu
      cases heq
      cases h
      have hreads : m.list.Reads list := SListMem.findFrom_reads budget hfind
      exact hreads
  · cases h
    exact .refl _

/-- `proc_destroy` gives the block back, and reads its link after that. -/
theorem procDestroy_trace {p : Nat} (h : procDestroy K left budget p m = some m') :
    ∃ bs cs : List Nat, m'.list.trace =
      m.list.trace ++ (bs.map .use ++ .free p :: (cs.map .use ++ [.use p])) := by
  simp only [procDestroy] at h
  split at h
  · cases h
  · rename_i u hu
    obtain ⟨list, hunlink, rfl⟩ := Option.map_eq_some_iff.mp h
    obtain ⟨bs, hbs⟩ := disown_reads hu
    obtain ⟨v, ⟨cs, hcs⟩, hlast⟩ := SListMem.unlink_reads hunlink
    refine ⟨bs, cs, ?_⟩
    have hfree : (u.list.free left p).trace = u.list.trace ++ [.free p] := rfl
    rw [hlast, hcs, hfree, hbs]
    simp

/-- The walk adds to what was done. -/
theorem cleanupFrom_trace (fuel : Nat) {ptr : Option Nat} {m : ProcMem κ}
    (h : cleanupFrom K left budget fuel ptr m = some m') :
    ∃ t, m'.list.trace = m.list.trace ++ t := by
  induction fuel generalizing ptr m with
  | zero => cases h
  | succ fuel ih =>
      cases ptr with
      | none =>
          cases h
          exact ⟨[], (List.append_nil _).symm⟩
      | some a =>
          simp only [cleanupFrom] at h
          split at h
          · cases h
          · rename_i u hu
            obtain ⟨t, ht⟩ := ih h
            have hread : (u.list.readNext a).2.trace = u.list.trace ++ [.use a] := rfl
            split at hu
            · obtain ⟨bs, cs, htrace⟩ := procDestroy_trace hu
              exact ⟨_, by rw [ht, hread, htrace, List.append_assoc, List.append_assoc]⟩
            · cases hu
              exact ⟨_, by rw [ht, hread, List.append_assoc]⟩

/-- A turn of the walk. -/
theorem cleanupFrom_succ {fuel a : Nat}
    (h : cleanupFrom K left budget (fuel + 1) (some a) m = some m') :
    ∃ u, (if (m.list.content a).status = .zombie then procDestroy K left budget a m else some m) =
        some u ∧
      cleanupFrom K left budget fuel (u.list.next a) { u with list := (u.list.readNext a).2 } =
        some m' := by
  simp only [cleanupFrom] at h
  split at h
  · cases h
  · rename_i u hu
    exact ⟨u, hu, h⟩

/-- The first zombie is used after it was given back. -/
theorem cleanupFrom_zombie {l : List (Nat × Proc)} (fuel : Nat) {ptr : Option Nat} {m : ProcMem κ}
    (hl : m.list.Chain ptr l) (hz : ∃ n ∈ l, n.2.status = .zombie)
    (h : cleanupFrom K left budget fuel ptr m = some m') :
    ∃ t₁ t₃ a, ∃ cs : List Nat, m'.list.trace =
      m.list.trace ++ (t₁ ++ .free a :: (cs.map .use ++ .use a :: t₃)) := by
  induction l generalizing fuel ptr m with
  | nil =>
      obtain ⟨n, hn, -⟩ := hz
      cases hn
  | cons n l ih =>
      obtain ⟨rfl, hx, hrest⟩ := hl
      cases fuel with
      | zero => cases h
      | succ fuel =>
          obtain ⟨u, hu, hwalk⟩ := cleanupFrom_succ h
          rw [hx] at hu
          by_cases hn : n.2.status = .zombie
          · rw [if_pos hn] at hu
            obtain ⟨bs, cs, hdestroy⟩ := procDestroy_trace hu
            obtain ⟨t, ht⟩ := cleanupFrom_trace fuel hwalk
            have hread : (u.list.readNext n.1).2.trace = u.list.trace ++ [.use n.1] := rfl
            refine ⟨bs.map .use, .use n.1 :: t, n.1, cs, ?_⟩
            rw [ht, hread, hdestroy]
            simp
          · rw [if_neg hn] at hu
            cases hu
            have hz' : ∃ n ∈ l, n.2.status = .zombie := by
              obtain ⟨z, hz, hstatus⟩ := hz
              obtain rfl | hz := List.mem_cons.mp hz
              · exact absurd hstatus hn
              · exact ⟨z, hz, hstatus⟩
            obtain ⟨t₁, t₃, a, cs, htrace⟩ := ih fuel (hrest.readNext n.1) hz' hwalk
            have hread : (m.list.readNext n.1).2.trace = m.list.trace ++ [.use n.1] := rfl
            refine ⟨.use n.1 :: t₁, t₃, a, cs, ?_⟩
            rw [htrace, hread]
            simp

/-- Without zombies the walk reads the links, and that is all. -/
theorem cleanupFrom_none {l : List (Nat × Proc)} (fuel : Nat) {ptr : Option Nat} {m : ProcMem κ}
    (hl : m.list.Chain ptr l) (hz : ∀ n ∈ l, n.2.status ≠ .zombie) (hfuel : l.length < fuel) :
    cleanupFrom K left budget fuel ptr m =
      some { m with list :=
        { m.list with trace := m.list.trace ++ (l.map Prod.fst).map .use } } := by
  induction l generalizing fuel ptr m with
  | nil =>
      obtain rfl := hl
      obtain ⟨fuel, rfl⟩ := Nat.exists_eq_succ_of_ne_zero (Nat.ne_zero_of_lt hfuel)
      simp [cleanupFrom]
  | cons n l ih =>
      obtain ⟨rfl, hx, hrest⟩ := hl
      obtain ⟨fuel, rfl⟩ := Nat.exists_eq_succ_of_ne_zero (Nat.ne_zero_of_lt hfuel)
      rw [List.forall_mem_cons] at hz
      have hread : (m.list.readNext n.1).2.trace = m.list.trace ++ [.use n.1] := rfl
      have hwalk := ih fuel (m := { m with list := (m.list.readNext n.1).2 })
        (hrest.readNext n.1) hz.2 (Nat.lt_of_succ_lt_succ hfuel)
      simp only [cleanupFrom, hx, hz.1, ↓reduceIte]
      refine hwalk.trans ?_
      simp [SListMem.readNext]

/-- Whatever `kfree` leaves in a block, the walk does what it is for if there is
nothing to remove, and only then. -/
theorem cleansUp_iff {l : SList Proc} (hm : m.list.Holds l) (htrace : m.list.trace = []) :
    CleansUp K left l m ↔ ∀ n ∈ l.nodes, n.2.status ≠ .zombie := by
  constructor
  · rintro ⟨budget, m', hwalk, hcleaned⟩ n hn hstatus
    obtain ⟨t₁, t₃, a, cs, ht⟩ := cleanupFrom_zombie budget hm ⟨n, hn, hstatus⟩ hwalk
    obtain ⟨live, hrun, -⟩ := hcleaned.blocks
    have halloc : HeapEvent.alloc a ∉ cs.map .use := by simp
    have hbad := run_use_after_free t₁ t₃ (show l.addrs.Nodup from l.distinct) halloc
    rw [ht, htrace, List.nil_append, hbad] at hrun
    cases hrun
  · intro hz
    have hall : others l = l.nodes := List.filter_eq_self.mpr fun n hn => by simpa using hz n hn
    refine ⟨l.nodes.length + 1, _, cleanupFrom_none _ hm hz (Nat.lt_succ_self _), ?_⟩
    refine ⟨⟨l, hm.congr (fun _ _ => rfl) fun _ _ => rfl, by rw [hall]; rfl, ?_⟩, ?_, ?_⟩
    · intro n hn
      exact ⟨n.2, hn, rfl, fun _ => rfl⟩
    · rw [hall, Nat.sub_self]
      rfl
    · rw [htrace, hall]
      exact ⟨l.addrs, run_uses fun b hb => hb, .refl _⟩

section Small

open Procs

/-- A process of the kernel on the small machine. -/
def sleeper (id : UInt32) : Proc :=
  { smallBoot.newProc small none 0 [97] false small.krnlPgdir with id := id }

/-- A table of two processes. -/
def twoProcs (P Q : Proc) : SList Proc := ⟨[(0x200000, P), (0x100000, Q)], by simp⟩

/-- It, in memory. -/
def twoMem (P Q : Proc) : ProcMem (Nat × Mem.Memory) where
  list := {
    first := some 0x200000
    next := fun a => if a = 0x200000 then some 0x100000 else none
    content := fun a => if a = 0x200000 then P else Q
    trace := [] }
  procCount := 2
  kernel := smallBoot.kernel

theorem twoMem_holds (P Q : Proc) : (twoMem P Q).list.Holds (twoProcs P Q) :=
  ⟨rfl, rfl, rfl, rfl, rfl⟩

/-- `kfree` clears the link. -/
def clears (_ : Nat) (c : Option Nat × Proc) : Option Nat × Proc := (none, c.2)

/-- Two processes that are ready. -/
theorem cleansUp_iff_ready :
    CleansUp small clears (twoProcs (sleeper 2) (sleeper 1)) (twoMem (sleeper 2) (sleeper 1)) :=
  (cleansUp_iff (twoMem_holds _ _) rfl).mpr (by decide)

/-- The first of two processes is a zombie.  Where `kfree` clears the link, the other one
is lost. -/
theorem cleansUp_wrong :
    (processesCleanup small clears 3 (twoMem (sleeper 2).killed (sleeper 1))).map
        (fun m => m.list.first) = some none ∧
      ¬ CleansUp small clears (twoProcs (sleeper 2).killed (sleeper 1))
        (twoMem (sleeper 2).killed (sleeper 1)) := by
  refine ⟨by decide +kernel, ?_⟩
  rintro ⟨budget, m', hwalk, hcleaned⟩
  obtain ⟨t₁, t₃, a, cs, ht⟩ := cleanupFrom_zombie budget (twoMem_holds _ _)
    ⟨(0x200000, (sleeper 2).killed), List.mem_cons_self, rfl⟩ hwalk
  obtain ⟨live, hrun, -⟩ := hcleaned.blocks
  have halloc : HeapEvent.alloc a ∉ cs.map .use := by simp
  have hbad := run_use_after_free t₁ t₃ (twoProcs (sleeper 2).killed (sleeper 1)).distinct halloc
  rw [ht] at hrun
  cases hbad.symm.trans hrun

end Small

/-! ## Blocks that stay as they are -/

/-- The table in memory is the one of `s`. -/
structure Shows (m : ProcMem κ) (s : Procs κ) : Prop where
  list : m.list.Holds s.processes
  procCount : m.procCount = s.procCount
  kernel : m.kernel = s.kernel

variable {s s' : Procs κ}

/-- What the walk looks at in a block. -/
def key (n : Nat × Proc) : Nat × ProcStatus := (n.1, n.2.status)

theorem disown_shows {P : Proc} {l : SList Proc} (hm : m.list.Holds s.processes)
    (hbudget : s.processes.nodes.length < budget) (h : s.disown P = some l) :
    ∃ m', disown budget P m = some m' ∧ m'.list.Holds l ∧ m'.procCount = m.procCount ∧
      m'.kernel = m.kernel ∧
      ∃ g : Nat × Proc → Nat × Proc, l.nodes = s.processes.nodes.map g ∧
        ∀ n, key (g n) = key n := by
  obtain ⟨h0, rfl⟩ | ⟨h0, q, Q, hq, rfl⟩ := Procs.disown_cases h
  · exact ⟨m, if_neg (not_not_intro h0), hm, rfl, rfl, id, (List.map_id _).symm, fun _ => rfl⟩
  · obtain ⟨t, hfind⟩ := SListMem.findFrom_chain (p := fun Q => decide (Q.id = P.parent)) hm hbudget
    have hq' : s.processes.nodes.find? (fun n => decide (n.2.id = P.parent)) = some (q, Q) := hq
    rw [hq', Option.map_some] at hfind
    let list : SListMem Proc := { m.list with trace := t }
    have hlist : list.Holds s.processes := hm.congr (fun _ _ => rfl) fun _ _ => rfl
    refine ⟨{ m with list := list.write q (Proc.onChildren fun c => c.drop P.id) }, ?_,
      hlist.write q _, rfl, rfl, _, rfl, ?_⟩
    · rw [disown, if_pos h0, processFrompid, hfind]
      rfl
    · rintro ⟨a, N⟩
      simp only [key, Prod.mk.injEq, true_and]
      split
      · rfl
      · rfl

/-- Where `kfree` leaves a block as it is, `proc_destroy` does what the table says, and
the link of the block leads to what was behind it. -/
theorem procDestroy_keeps {p : Nat} {P : Proc} {pre post : List (Nat × Proc)}
    (hm : m.Shows s) (hsplit : s.processes.nodes = pre ++ (p, P) :: post)
    (hbudget : s.processes.nodes.length < budget) (h : s.procDestroy K p = some s') :
    ∃ m' pre' post', procDestroy K (fun _ c => c) budget p m = some m' ∧ m'.Shows s' ∧
      s'.processes.nodes = pre' ++ post' ∧ m'.list.Chain (m'.list.next p) post' ∧
        pre'.length = pre.length ∧ post'.map key = post.map key := by
  obtain ⟨P₁, l, hget, hdisown, rfl⟩ := Procs.procDestroy_cases h
  have hmem : (p, P) ∈ s.processes.nodes := hsplit ▸ List.mem_append_right _ List.mem_cons_self
  obtain rfl := SList.unique (SList.get?_eq_some.mp hget) hmem
  have hcontent : m.list.content p = P₁ := hm.list.content (p, P₁) hmem
  -- the process is taken out of the array of its parent
  obtain ⟨u, hu, hlist, hcount, hkernel, g, hnodes, hkey⟩ := disown_shows
    (m := { m with kernel := if P₁.regs.cr3 ≠ K.krnlPgdir
      then K.memFreePgdir P₁.regs.cr3 (Procs.closeFiles K P₁ m.kernel)
      else Procs.closeFiles K P₁ m.kernel }) hm.list hbudget hdisown
  have hp : (g (p, P₁)).1 = p := congrArg Prod.fst (hkey (p, P₁))
  have hgp : g (p, P₁) = (p, (g (p, P₁)).2) := Prod.ext hp rfl
  rw [hsplit, List.map_append, List.map_cons, hgp] at hnodes
  -- it is given back and unlinked
  have hfreed : (u.list.free (fun _ c => c) p).Holds l := by
    rw [SListMem.free_keeps]
    exact hlist.congr (fun _ _ => rfl) fun _ _ => rfl
  have hdistinct := l.distinct
  rw [SListMem.Holds, hnodes] at hfreed
  rw [hnodes] at hdistinct
  have hlen : (pre.map g).length ≤ budget := by
    rw [hsplit, List.length_append] at hbudget
    rw [List.length_map]
    omega
  obtain ⟨list, hunlink, hfirst, hnext, -⟩ := SListMem.unlink_chain hfreed hdistinct hlen
  have hremove := SList.remove_middle hnodes
  refine ⟨⟨list, u.procCount - 1, K.kfree p u.kernel⟩, pre.map g, post.map g, ?_, ⟨?_, ?_, ?_⟩,
    hremove, hnext, List.length_map _, ?_⟩
  · simp only [procDestroy, hcontent, hu, hunlink, Option.map_some]
  · show SListMem.Chain list list.first (l.remove p).nodes
    rw [hremove]
    exact hfirst
  · rw [hcount, hm.procCount]
  · rw [hkernel, hm.kernel]
  · rw [List.map_map]
    exact List.map_congr_left fun n _ => hkey n

/-- The table after a link was read. -/
theorem Shows.readNext (hm : m.Shows s) (a : Nat) :
    Shows { m with list := (m.list.readNext a).2 } s :=
  ⟨hm.list.readNext a, hm.procCount, hm.kernel⟩

/-- And so does the walk. -/
theorem cleanupFrom_keeps {rest : List (Nat × Proc)} {pre l : List (Nat × Proc)} (fuel : Nat)
    {ptr : Option Nat} {m : ProcMem κ} {s : Procs κ} (hm : m.Shows s)
    (hsplit : s.processes.nodes = pre ++ l) (hl : m.list.Chain ptr l)
    (hkey : l.map key = rest.map key) (hfuel : l.length < fuel)
    (hbudget : s.processes.nodes.length < budget) (h : Procs.cleanupFrom K rest s = some s') :
    ∃ m', cleanupFrom K (fun _ c => c) budget fuel ptr m = some m' ∧ m'.Shows s' := by
  induction rest generalizing pre l fuel ptr m s with
  | nil =>
      obtain rfl := List.map_eq_nil_iff.mp hkey
      obtain rfl := hl
      cases h
      obtain ⟨fuel, rfl⟩ := Nat.exists_eq_succ_of_ne_zero (Nat.ne_zero_of_lt hfuel)
      exact ⟨m, rfl, hm⟩
  | cons n rest ih =>
      obtain ⟨a, P₀⟩ := n
      cases l with
      | nil => cases hkey
      | cons n l =>
          obtain ⟨b, P⟩ := n
          obtain ⟨hhead, hrest⟩ := List.cons.inj hkey
          obtain ⟨rfl, hstatus⟩ : b = a ∧ P.status = P₀.status := Prod.mk.inj hhead
          obtain ⟨rfl, hx, htail⟩ := hl
          obtain ⟨fuel, rfl⟩ := Nat.exists_eq_succ_of_ne_zero (Nat.ne_zero_of_lt hfuel)
          rw [Procs.cleanupFrom, ← hstatus] at h
          by_cases hz : P.status = .zombie
          · rw [if_pos hz] at h
            obtain ⟨t, hdestroy, hcleanup⟩ := Option.bind_eq_some_iff.mp h
            obtain ⟨u, pre', post', hu, hshows, hsplit', hnext, hpre, hpost⟩ :=
              procDestroy_keeps hm hsplit hbudget hdestroy
            have hlen : post'.length = l.length := by simpa using congrArg List.length hpost
            have hsmall : t.processes.nodes.length < budget := by
              rw [hsplit, List.length_append, List.length_cons] at hbudget
              rw [hsplit', List.length_append]
              omega
            obtain ⟨m', hm', hs'⟩ := ih fuel (hshows.readNext b) hsplit'
              (hnext.readNext b) (hpost.trans hrest)
              (by rw [hlen]; exact Nat.lt_of_succ_lt_succ hfuel) hsmall hcleanup
            refine ⟨m', ?_, hs'⟩
            simp only [cleanupFrom, hx, hz, ↓reduceIte, hu]
            exact hm'
          · rw [if_neg hz] at h
            have hsplit' : s.processes.nodes = (pre ++ [(b, P)]) ++ l := by
              rw [hsplit, List.append_assoc]
              rfl
            obtain ⟨m', hm', hs'⟩ := ih fuel (hm.readNext b) hsplit' (htail.readNext b) hrest
              (Nat.lt_of_succ_lt_succ hfuel) hbudget h
            refine ⟨m', ?_, hs'⟩
            simp only [cleanupFrom, hx, hz, ↓reduceIte]
            exact hm'

/-- `processes_cleanup` of the table is that of the memory, as long as `kfree` leaves a
block as it is. -/
theorem processesCleanup_keeps (hm : m.Shows s) (h : s.processesCleanup K = some s') :
    ∃ budget m', processesCleanup K (fun _ c => c) budget m = some m' ∧ m'.Shows s' := by
  obtain ⟨m', hm', hs'⟩ := cleanupFrom_keeps _ hm (List.nil_append _).symm hm.list rfl
    (Nat.lt_succ_self _) (Nat.lt_succ_self _) h
  exact ⟨_, m', hm', hs'⟩

end ProcMem

end StardustOS.Process
