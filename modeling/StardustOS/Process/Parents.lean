import StardustOS.Process.Steps

/-!
# Parents that are gone

A process names its parent by pid, and `proc_destroy` follows that name without
a test for NULL.  Nothing keeps the name true: a parent may be destroyed while
its children live, and `processes_cleanup` removes a zombie without a look at
the children it leaves behind.

`KeepsParents` is the exact condition under which a call leaves no process
without its parent, and finds every parent on its way.  It is about the table before the
call: nobody names as its parent a process that goes, unless the pid is still carried by one
that is there.  What a call does to parents is seen in `kin`, the records of the table
without all that is not about parents.
-/

namespace StardustOS.Process

open Lib

/-- What a process is among its kin. -/
structure Kin where
  addr : Nat
  pid : UInt32
  parent : UInt32
  status : ProcStatus
deriving DecidableEq, Repr

namespace Kin

/-- The kin of a block of the table. -/
def of (n : Nat × Proc) : Kin := ⟨n.1, n.2.id, n.2.parent, n.2.status⟩

/-- The process has no parent, or one of these is its parent. -/
def ParentIn (pids : List UInt32) (k : Kin) : Prop := k.parent = 0 ∨ k.parent ∈ pids

instance {pids : List UInt32} {k : Kin} : Decidable (ParentIn pids k) :=
  inferInstanceAs (Decidable (_ ∨ _))

theorem ParentIn.mono {pids pids' : List UInt32} {k : Kin} (h : ParentIn pids k)
    (hsub : pids ⊆ pids') : ParentIn pids' k :=
  h.imp_right fun hmem => hsub hmem

/-- None of those that go is the parent of the process, unless one that is there has the
same pid. -/
def Spared (gone there : List Kin) (k : Kin) : Prop :=
  ∀ z ∈ gone, z.pid ≠ 0 → k.parent = z.pid → z.pid ∈ there.map Kin.pid

instance {gone there : List Kin} {k : Kin} : Decidable (Spared gone there k) :=
  inferInstanceAs (Decidable (∀ z ∈ gone, z.pid ≠ 0 → k.parent = z.pid → _))

/-- A process whose parent is live keeps it exactly when it is spared. -/
theorem parentIn_iff_spared {gone there : List Kin} {k : Kin} {pids : List UInt32}
    (h : k.ParentIn pids) (hsplit : ∀ pid, pid ∈ pids ↔ pid ∈ gone.map Kin.pid ∨
      pid ∈ there.map Kin.pid) : k.ParentIn (there.map Kin.pid) ↔ k.Spared gone there := by
  constructor
  · intro hthere z _ hz hpar
    exact hpar ▸ hthere.resolve_left (hpar ▸ hz)
  · intro hspared
    obtain h0 | hmem := h
    · exact Or.inl h0
    · by_cases h0 : k.parent = 0
      · exact Or.inl h0
      · right
        obtain hgone | hthere := (hsplit _).mp hmem
        · obtain ⟨z, hz, hpid⟩ := List.mem_map.mp hgone
          rw [← hpid]
          exact hspared z hz (hpid ▸ h0) hpid.symm
        · exact hthere

end Kin

/-- `processes_cleanup` finds the parent of every zombie: among those that stay,
or among the zombies that are not yet removed. -/
def FindsParents (stay : List UInt32) : List Kin → Prop
  | [] => True
  | k :: rest =>
      (k.status = .zombie → k.ParentIn (stay ++ (k :: rest).map Kin.pid)) ∧ FindsParents stay rest

instance FindsParents.decidable (stay : List UInt32) :
    ∀ kin : List Kin, Decidable (FindsParents stay kin)
  | [] => isTrue trivial
  | _ :: rest =>
      have : Decidable (FindsParents stay rest) := FindsParents.decidable stay rest
      inferInstanceAs (Decidable (_ ∧ _))

/-- No zombie of the list has a parent that is removed before it: none of the zombies that
stand before it, unless its pid is also that of a process that stays or of a zombie that is
not yet removed. -/
def ChildrenFirst (stay gone : List Kin) : List Kin → Prop
  | [] => True
  | k :: rest =>
      (k.status = .zombie → k.Spared gone (stay ++ k :: rest)) ∧
        ChildrenFirst stay (if k.status = .zombie then k :: gone else gone) rest

instance ChildrenFirst.decidable (stay : List Kin) :
    ∀ gone kin : List Kin, Decidable (ChildrenFirst stay gone kin)
  | _, [] => isTrue trivial
  | gone, k :: rest =>
      have : Decidable (ChildrenFirst stay (if k.status = .zombie then k :: gone else gone) rest) :=
        ChildrenFirst.decidable stay _ rest
      inferInstanceAs (Decidable (_ ∧ _))

/-- When every parent is live, the order of the zombies is all that matters. -/
theorem findsParents_iff {stay gone kin all : List Kin}
    (hsplit : ∀ pid, pid ∈ all.map Kin.pid ↔ pid ∈ gone.map Kin.pid ∨
      pid ∈ (stay ++ kin).map Kin.pid)
    (hstay : ∀ k ∈ kin, k.status ≠ .zombie → k ∈ stay)
    (hlive : ∀ k ∈ kin, k.ParentIn (all.map Kin.pid)) :
    FindsParents (stay.map Kin.pid) kin ↔ ChildrenFirst stay gone kin := by
  induction kin generalizing gone with
  | nil => exact Iff.rfl
  | cons k rest ih =>
      rw [FindsParents, ChildrenFirst, ← List.map_append,
        Kin.parentIn_iff_spared (hlive k List.mem_cons_self) hsplit]
      refine and_congr_right fun _ => ih ?_ (fun m hm => hstay m (List.mem_cons_of_mem _ hm))
        fun m hm => hlive m (List.mem_cons_of_mem _ hm)
      intro pid
      rw [hsplit]
      split
      · simp only [List.map_append, List.map_cons, List.mem_append, List.mem_cons]
        tauto
      · rename_i hk
        have hmem : k.pid ∈ stay.map Kin.pid :=
          List.mem_map_of_mem (hstay k List.mem_cons_self hk)
        simp only [List.map_append, List.map_cons, List.mem_append, List.mem_cons]
        constructor
        · rintro (hg | hs | rfl | hr)
          · exact Or.inl hg
          · exact Or.inr (Or.inl hs)
          · exact Or.inr (Or.inl hmem)
          · exact Or.inr (Or.inr hr)
        · tauto

namespace Procs

variable {κ : Type*} (K : Kernel κ) (s : Procs κ)

/-- The kin of the table. -/
def kin : List Kin := s.processes.nodes.map Kin.of

/-- The kin without the process at `p`. -/
def others (p : Nat) : List Kin := s.kin.filter fun k => k.addr ≠ p

/-- The process at `p`. -/
def destroyed (p : Nat) : List Kin := s.kin.filter fun k => k.addr = p

/-- The kin without the zombies. -/
def stayers : List Kin := s.kin.filter fun k => k.status ≠ .zombie

/-- The zombies. -/
def zombies : List Kin := s.kin.filter fun k => k.status = .zombie

/-- The parent of every process is 0 or the pid of a process. -/
def ParentsLive : Prop := ∀ k ∈ s.kin, k.ParentIn (s.kin.map Kin.pid)

/-- Every parent is live, and `proc_destroy` finds it. -/
structure LinksLive : Prop where
  live : ParentsLive s
  found : ∀ p ∈ s.processes.addrs, ∃ s', s.procDestroy K p = some s'

/-- The calls are `proc_create` with a live parent or none, `proc_destroy` of
any live process, `processes_cleanup`, and the signals that make zombies. -/
def ParentCall : ProcCall → Prop
  | .procCreate parent _ _ => KmallocOk K s ∧ LiveParent s parent
  | .procDestroy p => p ∈ s.processes.addrs
  | .procSigenter p _ _ => p ∈ s.processes.addrs
  | .procSigleave p => p ∈ s.processes.addrs
  | .processesCleanup => True
  | .schedule => False

/-- A process is destroyed when it is the parent of no other one, and a cleanup is made when
no zombie is the parent of a process that stays, nor of a zombie behind it.  A parent whose
pid is carried by one more process that is there does not count. -/
def KeepsParents : ProcCall → Prop
  | .procDestroy p => ∀ k ∈ s.others p, k.Spared (s.destroyed p) (s.others p)
  | .processesCleanup =>
      (∀ k ∈ s.stayers, k.Spared s.zombies s.stayers) ∧ ChildrenFirst s.stayers [] s.kin
  | _ => True

instance {call : ProcCall} : Decidable (ParentCall K s call) :=
  match call with
  | .procCreate parent _ _ => inferInstanceAs (Decidable (KmallocOk K s ∧ LiveParent s parent))
  | .procDestroy p | .procSigenter p _ _ | .procSigleave p =>
      inferInstanceAs (Decidable (p ∈ s.processes.addrs))
  | .processesCleanup => isTrue trivial
  | .schedule => isFalse id

instance {call : ProcCall} : Decidable (KeepsParents s call) :=
  match call with
  | .procDestroy p => inferInstanceAs (Decidable (∀ k ∈ s.others p, _))
  | .processesCleanup => inferInstanceAs (Decidable (_ ∧ _))
  | .procCreate _ _ _ | .procSigenter _ _ _ | .procSigleave _ | .schedule => isTrue trivial

variable {K s} {s' : Procs κ}

/-! ## The kin of a table -/

theorem pids_eq_kin : s.pids = s.kin.map Kin.pid := by
  simp [pids, kin, SList.contents, Kin.of, Function.comp_def]

theorem mem_kin {k : Kin} :
    k ∈ s.kin ↔ ∃ P, (k.addr, P) ∈ s.processes.nodes ∧ Kin.of (k.addr, P) = k := by
  constructor
  · intro h
    obtain ⟨n, hn, rfl⟩ := List.mem_map.mp h
    exact ⟨n.2, hn, rfl⟩
  · rintro ⟨P, hP, hk⟩
    exact hk ▸ List.mem_map_of_mem hP

theorem addrs_eq_kin : s.processes.addrs = s.kin.map Kin.addr := by
  simp [SList.addrs, kin, Kin.of, Function.comp_def]

/-- A change of a child array is not about kin. -/
theorem kin_onChildren (l : SList Proc) (a : Nat) (f : Children → Children) :
    (l.update a (Proc.onChildren f)).nodes.map Kin.of = l.nodes.map Kin.of :=
  SList.map_nodes_update (f := Proc.onChildren f) (fun _ _ => rfl) a

theorem kin_remove (l : SList Proc) (p : Nat) :
    (l.remove p).nodes.map Kin.of = (l.nodes.map Kin.of).filter fun k => k.addr ≠ p := by
  rw [SList.remove, List.filter_map]
  rfl

theorem parentsLive_boot (cpu : ProcRegs) (fpu : List UInt8) (kernel : κ) :
    ParentsLive (boot cpu fpu kernel) :=
  fun _ h => absurd h List.not_mem_nil

/-! ## Who goes and who is there -/

/-- A part of the table and the rest of it. -/
theorem mem_pids_filter {p : Kin → Bool} {kin : List Kin} (pid : UInt32) :
    pid ∈ kin.map Kin.pid ↔
      pid ∈ (kin.filter p).map Kin.pid ∨ pid ∈ (kin.filter fun k => !p k).map Kin.pid := by
  rw [← List.mem_append, ← List.map_append]
  exact ((List.filter_append_perm p kin).map Kin.pid).mem_iff.symm

theorem ParentsLive.others_iff (h : ParentsLive s) (p : Nat) :
    (∀ k ∈ s.others p, k.ParentIn ((s.others p).map Kin.pid)) ↔
      ∀ k ∈ s.others p, k.Spared (s.destroyed p) (s.others p) := by
  refine forall₂_congr fun k hk => ?_
  refine Kin.parentIn_iff_spared (h k (List.mem_of_mem_filter hk)) fun pid => ?_
  rw [mem_pids_filter (p := fun k => decide (k.addr = p)), others, destroyed]
  simp only [decide_not]

theorem ParentsLive.stayers_iff (h : ParentsLive s) :
    (∀ k ∈ s.stayers, k.ParentIn (s.stayers.map Kin.pid)) ↔
      ∀ k ∈ s.stayers, k.Spared s.zombies s.stayers := by
  refine forall₂_congr fun k hk => ?_
  refine Kin.parentIn_iff_spared (h k (List.mem_of_mem_filter hk)) fun pid => ?_
  rw [mem_pids_filter (p := fun k => decide (k.status = .zombie)), stayers, zombies]
  simp only [decide_not]

theorem ParentsLive.childrenFirst_iff (h : ParentsLive s) :
    FindsParents (s.stayers.map Kin.pid) s.kin ↔ ChildrenFirst s.stayers [] s.kin := by
  have hsplit : ∀ pid, pid ∈ s.kin.map Kin.pid ↔ pid ∈ ([] : List Kin).map Kin.pid ∨
      pid ∈ (s.stayers ++ s.kin).map Kin.pid := by
    intro pid
    rw [List.map_append, List.mem_append, List.map_nil, or_iff_right List.not_mem_nil,
      or_iff_right_of_imp fun hs => ?_]
    obtain ⟨k, hk, rfl⟩ := List.mem_map.mp hs
    exact List.mem_map_of_mem (List.mem_of_mem_filter hk)
  exact findsParents_iff hsplit
    (fun k hk hz => List.mem_filter.mpr ⟨hk, decide_eq_true hz⟩) h

/-! ## The calls on the kin -/

/-- A new process has no parent or a live one. -/
theorem CreateSpec.parentsLive {parent r : Option Nat} (h : CreateSpec s parent r s')
    (hs : ParentsLive s) : ParentsLive s' := by
  have hcons : ∀ {k : Kin}, s'.kin = k :: s.kin → k.ParentIn (s.kin.map Kin.pid) →
      ParentsLive s' := by
    intro k hkin hk m hm
    rw [hkin] at hm ⊢
    have hsub : s.kin.map Kin.pid ⊆ (k :: s.kin).map Kin.pid := List.subset_cons_self _ _
    cases hm with
    | head => exact hk.mono hsub
    | tail _ hm => exact (hs m hm).mono hsub
  cases h with
  | failed same =>
      have hkin : s'.kin = s.kin := by rw [kin, same.processes, kin]
      rwa [ParentsLive, hkin]
  | @root a N s' parent enrolled =>
      refine hcons (k := Kin.of (a, N)) ?_ (Or.inl parent)
      rw [kin, enrolled.processes]
      rfl
  | @child p i a P N c s' mem claim parent enrolled =>
      refine hcons (k := Kin.of (a, N)) ?_ (Or.inr ?_)
      · rw [kin, enrolled.processes]
        show Kin.of (a, N) :: (s.processes.update p _).nodes.map Kin.of = _
        rw [kin_onChildren, kin]
      · show N.parent ∈ _
        rw [parent, ← pids_eq_kin]
        exact mem_pids.mpr ⟨_, mem, rfl⟩

/-- The process that is destroyed is gone, and the others are the same kin. -/
theorem DestroySpec.kin {p : Nat} (h : DestroySpec s p s') : s'.kin = s.others p := by
  cases h with
  | root mem noParent same => rw [Procs.kin, same.processes, kin_remove, others, Procs.kin]
  | child mem parent frompid same =>
      rw [Procs.kin, same.processes, kin_remove, kin_onChildren, others, Procs.kin]

/-- Whether `proc_destroy` finds what it follows. -/
theorem procDestroy_iff (K : Kernel κ) {k : Kin} (hk : k ∈ s.kin) :
    (∃ s', s.procDestroy K k.addr = some s') ↔ k.ParentIn (s.kin.map Kin.pid) := by
  obtain ⟨P, hP, hkP⟩ := mem_kin.mp hk
  have hpar : P.parent = k.parent := hkP ▸ rfl
  rw [← pids_eq_kin, Kin.ParentIn, ← hpar]
  constructor
  · rintro ⟨s', hs'⟩
    cases procDestroy_spec hs' with
    | root mem noParent same =>
        obtain rfl := SList.unique hP mem
        exact Or.inl noParent
    | child mem parent frompid same =>
        obtain rfl := SList.unique hP mem
        exact Or.inr (mem_pids.mpr ⟨_, processFrompid_mem frompid⟩)
  · intro hpar
    exact procDestroy_defined K hP (hpar.imp_right mem_pids.mp)

/-- Live parents are all that `proc_destroy` needs. -/
theorem ParentsLive.linksLive (h : ParentsLive s) (K : Kernel κ) : LinksLive K s := by
  refine ⟨h, ?_⟩
  intro p hp
  rw [addrs_eq_kin] at hp
  obtain ⟨k, hk, rfl⟩ := List.mem_map.mp hp
  exact (procDestroy_iff K hk).mpr (h k hk)

theorem SignalSpec.parentsLive {p : Nat} (h : SignalSpec s p s') (hs : ParentsLive s) :
    ParentsLive s' := by
  have hkin : ∀ t : Procs κ, t.kin.map (fun k => (k.pid, k.parent)) =
      t.processes.contents.map fun P => (P.id, P.parent) := by
    intro t
    simp [kin, SList.contents, Kin.of, Function.comp_def]
  have hlinks : s'.kin.map (fun k => (k.pid, k.parent)) = s.kin.map fun k => (k.pid, k.parent) := by
    rw [hkin, hkin, h.links]
  have hpids : s'.kin.map Kin.pid = s.kin.map Kin.pid := by
    simpa [List.map_map, Function.comp_def] using congrArg (List.map Prod.fst) hlinks
  intro k hk
  have hmem : (k.pid, k.parent) ∈ s.kin.map fun k => (k.pid, k.parent) :=
    hlinks ▸ List.mem_map_of_mem hk
  obtain ⟨m, hm, hkm⟩ := List.mem_map.mp hmem
  rw [hpids, Kin.ParentIn, ← (Prod.mk.inj hkm).2]
  exact hs m hm

/-! ## Cleanup -/

/-- The others of a process in the middle of the table. -/
theorem others_middle {pre post : List Kin} {k : Kin} (hkin : s.kin = pre ++ k :: post) :
    s.others k.addr = pre ++ post := by
  have hd : (s.kin.map Kin.addr).Nodup := addrs_eq_kin ▸ s.processes.distinct
  rw [hkin, List.map_append, List.map_cons, List.nodup_middle, List.nodup_cons,
    ← List.map_append] at hd
  rw [others, hkin, List.filter_append, List.filter_cons_of_neg (by simp), ← List.filter_append]
  refine List.filter_eq_self.mpr ?_
  intro m hm
  rw [decide_eq_true_eq]
  intro haddr
  exact hd.1 (haddr ▸ List.mem_map_of_mem hm)

/-- Those that stay, after the zombies of a part of the table are gone. -/
theorem stayers_append {pre post : List Kin} (hkin : s.kin = pre ++ post)
    (hpre : ∀ k ∈ pre, k.status ≠ .zombie) :
    s.stayers = pre ++ post.filter fun k => k.status ≠ .zombie := by
  have hself : pre.filter (fun k => k.status ≠ .zombie) = pre := by
    refine List.filter_eq_self.mpr ?_
    intro k hk
    simpa using hpre k hk
  rw [stayers, hkin, List.filter_append, hself]

/-- The processes that `processes_cleanup` has not removed yet: those that stay
and the rest of the list. -/
theorem parentIn_iff {pre post : List Kin} (hkin : s.kin = pre ++ post)
    (hpre : ∀ k ∈ pre, k.status ≠ .zombie) {k : Kin} :
    k.ParentIn (s.stayers.map Kin.pid ++ post.map Kin.pid) ↔ k.ParentIn (s.kin.map Kin.pid) := by
  have hstay : s.stayers ⊆ s.kin := List.filter_subset_self _
  constructor
  · intro h
    refine h.mono (List.append_subset.mpr ⟨List.map_subset _ hstay, ?_⟩)
    rw [hkin]
    exact List.map_subset _ (List.subset_append_right _ _)
  · intro h
    refine h.mono ?_
    rw [stayers_append hkin hpre, hkin, ← List.map_append]
    refine List.map_subset _ (List.append_subset.mpr ⟨?_, List.subset_append_right _ _⟩)
    exact List.subset_append_of_subset_left _ (List.subset_append_left _ _)

/-- After a zombie is removed, the rest of the table is as it was. -/
theorem DestroySpec.zombie_kin {k : Kin} {pre post : List Kin} (h : DestroySpec s k.addr s')
    (hkin : s.kin = pre ++ k :: post) (hpre : ∀ m ∈ pre, m.status ≠ .zombie)
    (hk : k.status = .zombie) : s'.kin = pre ++ post ∧ s'.stayers = s.stayers := by
  have hkin' := h.kin.trans (others_middle hkin)
  refine ⟨hkin', ?_⟩
  rw [stayers_append hkin' hpre, stayers_append hkin hpre, List.filter_cons_of_neg (by simpa)]

/-- A process that is passed is no zombie. -/
theorem passed {k : Kin} {pre : List Kin} (hpre : ∀ m ∈ pre, m.status ≠ .zombie)
    (hk : k.status ≠ .zombie) : ∀ m ∈ pre ++ [k], m.status ≠ .zombie := by
  intro m hm
  rw [List.mem_append, List.mem_singleton] at hm
  obtain hm | rfl := hm
  · exact hpre m hm
  · exact hk

/-- The loop of `processes_cleanup`, after it passed `pre` and left no zombie
there, leaves no zombie at all. -/
theorem cleanupFrom_kin (rest : List (Nat × Proc)) {s s' : Procs κ} {pre : List Kin}
    (hkin : s.kin = pre ++ rest.map Kin.of) (hpre : ∀ k ∈ pre, k.status ≠ .zombie)
    (h : cleanupFrom K rest s = some s') : s'.kin = s.stayers := by
  induction rest generalizing s pre with
  | nil =>
      obtain rfl : s = s' := Option.some.inj h
      have hstay := stayers_append hkin hpre
      rwa [List.map_nil, List.filter_nil, ← List.map_nil, ← hkin, eq_comm] at hstay
  | cons n rest ih =>
      obtain ⟨a, P⟩ := n
      by_cases hP : P.status = .zombie
      · rw [cleanupFrom, if_pos hP] at h
        obtain ⟨t, ht, hrest⟩ := Option.bind_eq_some_iff.mp h
        obtain ⟨htkin, hstay⟩ := (procDestroy_spec ht).zombie_kin (k := Kin.of (a, P)) hkin hpre hP
        exact hstay ▸ ih htkin hpre hrest
      · rw [cleanupFrom, if_neg hP] at h
        exact ih (hkin.trans (List.append_cons _ _ _)) (passed hpre hP) h

/-- It ends if it finds the parent of every zombie of the rest. -/
theorem cleanupFrom_iff (rest : List (Nat × Proc)) {s : Procs κ} {pre : List Kin}
    (hkin : s.kin = pre ++ rest.map Kin.of) (hpre : ∀ k ∈ pre, k.status ≠ .zombie) :
    (∃ s', cleanupFrom K rest s = some s') ↔
      FindsParents (s.stayers.map Kin.pid) (rest.map Kin.of) := by
  induction rest generalizing s pre with
  | nil => exact ⟨fun _ => trivial, fun _ => ⟨s, rfl⟩⟩
  | cons n rest ih =>
      obtain ⟨a, P⟩ := n
      rw [List.map_cons] at hkin ⊢
      rw [FindsParents]
      by_cases hP : P.status = .zombie
      · have hk : Kin.of (a, P) ∈ s.kin := hkin ▸ List.mem_append_right _ List.mem_cons_self
        rw [parentIn_iff hkin hpre, ← procDestroy_iff K hk, cleanupFrom, if_pos hP]
        have hnext : ∀ t, s.procDestroy K a = some t →
            ((∃ s', cleanupFrom K rest t = some s') ↔
              FindsParents (s.stayers.map Kin.pid) (rest.map Kin.of)) := by
          intro t ht
          obtain ⟨htkin, hstay⟩ :=
            (procDestroy_spec ht).zombie_kin (k := Kin.of (a, P)) hkin hpre hP
          exact hstay ▸ ih htkin hpre
        constructor
        · rintro ⟨s', hs'⟩
          obtain ⟨t, ht, hrest⟩ := Option.bind_eq_some_iff.mp hs'
          exact ⟨fun _ => ⟨t, ht⟩, (hnext t ht).mp ⟨s', hrest⟩⟩
        · rintro ⟨hdef, hrest⟩
          obtain ⟨t, ht⟩ := hdef hP
          obtain ⟨s', hs'⟩ := (hnext t ht).mpr hrest
          exact ⟨s', Option.bind_eq_some_iff.mpr ⟨t, ht, hs'⟩⟩
      · rw [cleanupFrom, if_neg hP, ih (hkin.trans (List.append_cons _ _ _)) (passed hpre hP)]
        exact ⟨fun h => ⟨fun hz => absurd hz hP, h⟩, And.right⟩

/-! ## Runs -/

/-- One call keeps every parent live, and finds every parent it follows, exactly
under the condition. -/
theorem step_linksLive_iff {call : ProcCall} (hs : ParentsLive s) (hcall : ParentCall K s call) :
    (∃ s', s.step K call = some s' ∧ LinksLive K s') ↔ KeepsParents s call := by
  cases call with
  | procCreate parent name isuser =>
      obtain ⟨r, s', hr⟩ := procCreate_defined hcall.1 hcall.2 name isuser
      have hlive := ((procCreate_spec hr).parentsLive hs).linksLive K
      exact iff_of_true ⟨s', by rw [step, hr, Option.map_some], hlive⟩ trivial
  | procDestroy p =>
      obtain ⟨⟨p, P⟩, hP, rfl⟩ := List.mem_map.mp hcall
      have hlive : ∀ {s'}, s.procDestroy K p = some s' →
          (ParentsLive s' ↔ KeepsParents s (.procDestroy p)) := by
        intro s' hs'
        rw [ParentsLive, (procDestroy_spec hs').kin]
        exact hs.others_iff p
      constructor
      · rintro ⟨s', hs', hlinks⟩
        exact (hlive hs').mp hlinks.live
      · intro hkeep
        have hk : Kin.of (p, P) ∈ s.kin := List.mem_map_of_mem hP
        obtain ⟨s', hs'⟩ := (procDestroy_iff K hk).mpr (hs _ hk)
        exact ⟨s', hs', ((hlive hs').mpr hkeep).linksLive K⟩
  | procSigenter p signum data =>
      obtain ⟨r, s', hr⟩ := procSigenter_defined (K := K) hcall signum data
      have hlive := ((procSigenter_spec hr).parentsLive hs).linksLive K
      exact iff_of_true ⟨s', by rw [step, hr, Option.map_some], hlive⟩ trivial
  | procSigleave p =>
      obtain ⟨r, s', hr⟩ := procSigleave_defined hcall
      have hlive := ((procSigleave_spec hr).parentsLive hs).linksLive K
      exact iff_of_true ⟨s', by rw [step, hr, Option.map_some], hlive⟩ trivial
  | schedule => exact hcall.elim
  | processesCleanup =>
      have hnil : s.kin = [] ++ s.processes.nodes.map Kin.of := rfl
      have hpre : ∀ k ∈ ([] : List Kin), k.status ≠ .zombie := fun _ h => absurd h List.not_mem_nil
      have hlive : ∀ {s'}, s.processesCleanup K = some s' →
          (ParentsLive s' ↔ ∀ k ∈ s.stayers, k.Spared s.zombies s.stayers) := by
        intro s' hs'
        rw [ParentsLive, cleanupFrom_kin _ hnil hpre hs']
        exact hs.stayers_iff
      have hdef : (∃ s', s.processesCleanup K = some s') ↔ ChildrenFirst s.stayers [] s.kin :=
        (cleanupFrom_iff (K := K) _ hnil hpre).trans hs.childrenFirst_iff
      constructor
      · rintro ⟨s', hs', hlinks⟩
        exact ⟨(hlive hs').mp hlinks.live, hdef.mp ⟨s', hs'⟩⟩
      · rintro ⟨hstay, hfind⟩
        obtain ⟨s', hs'⟩ := hdef.mpr hfind
        exact ⟨s', hs', ((hlive hs').mpr hstay).linksLive K⟩

/-- In every run, and after every call of it, each parent is 0 or the pid of a
live process and `proc_destroy` finds it, if and only if no call of the run takes
a parent from those that stay. -/
theorem runs_parentsLive (K : Kernel κ) (cpu : ProcRegs) (fpu : List UInt8) (kernel : κ)
    (calls : List ProcCall) :
    Meets (step K) (fun s call => ParentCall K s call ∧
        ∃ s', s.step K call = some s' ∧ LinksLive K s') (boot cpu fpu kernel) calls ↔
      Meets (step K) (fun s call => ParentCall K s call ∧ KeepsParents s call)
        (boot cpu fpu kernel) calls := by
  refine meets_congr (I := ParentsLive) (Q := fun _ => True) ?_ ?_ calls
    (parentsLive_boot cpu fpu kernel) fun _ _ => trivial
  · intro s call hs _
    exact and_congr_right fun hcall => step_linksLive_iff hs hcall
  · rintro s call s' hs - ⟨-, t, ht, hlinks⟩ hs'
    obtain rfl : t = s' := Option.some.inj (ht.symm.trans hs')
    exact hlinks.live

/-! ## A parent that leaves first -/

/-- A process with a child is destroyed.  The parent of the child is then no live
process, and to destroy the child is to follow a NULL pointer. -/
theorem runs_parentsLive_wrong :
    ∃ s, Meets (step small) (ParentCall small) smallBoot
        [.procCreate none [97] 0, .procCreate (some 0x100000) [98] 0, .procDestroy 0x100000] ∧
      run (step small) smallBoot
        [.procCreate none [97] 0, .procCreate (some 0x100000) [98] 0,
          .procDestroy 0x100000] = some s ∧
      ¬ ParentsLive s ∧ 0x115000 ∈ s.processes.addrs ∧ s.procDestroy small 0x115000 = none := by
  have hview : (run (step small) smallBoot
      [.procCreate none [97] 0, .procCreate (some 0x100000) [98] 0, .procDestroy 0x100000]).map
        Procs.kin = some [⟨0x115000, 2, 1, .ready⟩] := by decide
  obtain ⟨s, hs, hkin⟩ := Option.map_eq_some_iff.mp hview
  have hnone : ¬ (⟨0x115000, 2, 1, .ready⟩ : Kin).ParentIn (s.kin.map Kin.pid) := by
    rw [hkin]
    decide
  have hmem : (⟨0x115000, 2, 1, .ready⟩ : Kin) ∈ s.kin := hkin ▸ List.mem_cons_self
  refine ⟨s, by decide, hs, fun h => hnone (h _ hmem), ?_, ?_⟩
  · rw [addrs_eq_kin, hkin]
    decide
  · cases hd : s.procDestroy small 0x115000 with
    | none => rfl
    | some t => exact absurd ((procDestroy_iff small hmem).mp ⟨t, hd⟩) hnone

end Procs

end StardustOS.Process
