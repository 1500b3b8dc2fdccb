import StardustOS.Process.Steps

/-!
# Parents and children

A process keeps the pids of its children in an array, and each child keeps the
pid of its parent.  `proc_create` treats a 0 in the window `child[0..child_count)`
as a free slot, and `proc_destroy` zeroes the slot of the child and shortens the
window by one at its end.  The two agree only when the slot is the last one:
otherwise the window keeps a 0 and loses the child at its end.

`FamilyOk` is the invariant of the runs in which every child that is destroyed is
at the end of its parent's window: a window is a permutation of the children.
-/

namespace StardustOS.Process

open Lib

/-! ## The window of a child array -/

namespace Children

variable {c d : Children} {pid : UInt32} {i : Nat}

@[simp] theorem window_empty : empty.window = [] := rfl

@[simp] theorem length_window : c.window.length = c.childCount := by simp [window]

theorem child_mem_window (h : i < c.childCount) : c.child i ∈ c.window :=
  List.mem_map.mpr ⟨i, List.mem_range.mpr h, rfl⟩

/-- Without a zero in the window there is no free slot in it. -/
theorem no_free_slot (h : 0 ∉ c.window) :
    findFrom (fun i => c.child i = 0) c.childCount 0 = none := by
  cases hf : findFrom (fun i => c.child i = 0) c.childCount 0 with
  | none => rfl
  | some i =>
      obtain ⟨h0, -, hi⟩ := findFrom_some hf
      have hmem := child_mem_window (c := c) (i := i) (by omega)
      rw [of_decide_eq_true h0] at hmem
      exact absurd hmem h

theorem claim_eq_none (h : 0 ∉ c.window) : c.claim = none ↔ c.childCount = CHILD_MAX := by
  have hb := c.inBounds
  by_cases hfull : c.childCount + 1 > CHILD_MAX
  · simp only [claim, no_free_slot h, hfull, ↓reduceDIte, true_iff]
    omega
  · simp only [claim, no_free_slot h, hfull, ↓reduceDIte, reduceCtorEq, false_iff]
    omega

/-- The slot a child gets in a window without zeros is a new one at its end. -/
theorem window_claim (h : 0 ∉ c.window) (hc : c.claim = some (i, d)) (pid : UInt32) :
    (d.set i pid).window = c.window ++ [pid] := by
  by_cases hfull : c.childCount + 1 > CHILD_MAX
  · simp [claim, no_free_slot h, hfull] at hc
  · simp only [claim, no_free_slot h, hfull, ↓reduceDIte, Option.some.injEq, Prod.mk.injEq] at hc
    obtain ⟨rfl, rfl⟩ := hc
    simp only [window, set, List.range_succ, List.map_append, List.map_cons, List.map_nil,
      ↓reduceIte]
    congr 1
    refine List.map_congr_left ?_
    intro j hj
    rw [if_neg (List.mem_range.mp hj).ne]

/-- Dropping the last child of a window without repetitions takes it off its end. -/
theorem window_drop_last (hd : c.window.Nodup) (hpos : 0 < c.childCount)
    (hlast : c.child (c.childCount - 1) = pid) : c.window = (c.drop pid).window ++ [pid] := by
  obtain ⟨n, hn⟩ : ∃ n, c.childCount = n + 1 := ⟨c.childCount - 1, by omega⟩
  have hlast' : c.child n = pid := by rwa [hn, Nat.add_sub_cancel] at hlast
  have hw : c.window = (List.range n).map c.child ++ [pid] := by
    simp [window, hn, List.range_succ, hlast']
  have hfind : findFrom (fun i => c.child i = pid) c.childCount 0 = some n := by
    refine findFrom_eq_some (by simpa using hlast') (Nat.zero_le _) (by omega) ?_
    intro j _ hj
    rw [hw, List.nodup_append] at hd
    have hne := hd.2.2 (c.child j) (List.mem_map.mpr ⟨j, List.mem_range.mpr hj, rfl⟩) pid
      (List.mem_singleton.mpr rfl)
    simpa using hne
  rw [hw, drop, hfind]
  simp only [window, set, hn, Nat.add_sub_cancel]
  congr 1
  refine List.map_congr_left ?_
  intro j hj
  rw [if_neg (List.mem_range.mp hj).ne]

end Children

/-! ## The children in the table -/

/-- The pids of the processes whose parent is `pid`. -/
def childIds (l : SList Proc) (pid : UInt32) : List UInt32 :=
  (l.contents.filter fun P => P.parent = pid).map Proc.id

section ChildIds

variable {l : SList Proc} {a : Nat} {P : Proc} {pid : UInt32}

theorem mem_childIds {x : UInt32} :
    x ∈ childIds l pid ↔ ∃ n ∈ l.nodes, n.2.parent = pid ∧ n.2.id = x := by
  simp only [childIds, List.mem_map, List.mem_filter, SList.mem_contents, decide_eq_true_eq]
  constructor
  · rintro ⟨P, ⟨⟨a, hP⟩, hpar⟩, hid⟩
    exact ⟨(a, P), hP, hpar, hid⟩
  · rintro ⟨⟨a, P⟩, hP, hpar, hid⟩
    exact ⟨P, ⟨⟨a, hP⟩, hpar⟩, hid⟩

@[simp] theorem childIds_onChildren (f : Children → Children) :
    childIds (l.update a (Proc.onChildren f)) pid = childIds l pid := by
  have hkin := SList.map_contents_update (l := l) (g := fun P : Proc => (P.id, P.parent))
    (f := Proc.onChildren f) (fun _ => rfl) a
  have hkids : ∀ l : SList Proc, childIds l pid =
      ((l.contents.map fun P => (P.id, P.parent)).filter fun k => k.2 = pid).map Prod.fst := by
    intro l
    rw [List.filter_map, List.map_map]
    rfl
  rw [hkids, hkids, hkin]

theorem childIds_insertHead {N : Proc} (h : a ∉ l.addrs) :
    childIds (l.insertHead a N h) pid =
      if N.parent = pid then N.id :: childIds l pid else childIds l pid := by
  by_cases hp : N.parent = pid <;> simp [childIds, hp]

theorem childIds_remove (h : (a, P) ∈ l.nodes) (pid : UInt32) :
    (childIds l pid).Perm
      (if P.parent = pid then P.id :: childIds (l.remove a) pid
      else childIds (l.remove a) pid) := by
  have hperm := ((SList.perm_contents_remove h).filter fun Q => Q.parent = pid).map Proc.id
  by_cases hp : P.parent = pid <;> simpa [childIds, hp] using hperm

end ChildIds

namespace Procs

variable {κ : Type*} {K : Kernel κ} {s s' : Procs κ} {a p : Nat} {N P : Proc}

/-- The child array of the process `P` at `a` agrees with the table. -/
structure Agrees (K : Kernel κ) (s : Procs κ) (a : Nat) (P : Proc) : Prop where
  /-- `child_count` is the number of children. -/
  count : P.children.childCount = (childIds s.processes P.id).length
  /-- The window has the pid of each child once. -/
  once : ∀ pid ∈ childIds s.processes P.id, P.children.window.count pid = 1
  /-- When `kmalloc` finds a block, a child cannot be created exactly when there
  are `CHILD_MAX`. -/
  full : KmallocOk K s → (K.kmalloc s.kernel).1 ≠ none → ∀ name isuser,
    ∃ r s', s.procCreate K (some a) name isuser = some (r, s') ∧
      (r = none ↔ (childIds s.processes P.id).length = CHILD_MAX)

/-- The calls are `proc_create` with a live parent or none, and `proc_destroy` of
a live process without children. -/
def FamilyCall (K : Kernel κ) (s : Procs κ) : ProcCall → Prop
  | .procCreate parent _ _ => KmallocOk K s ∧ LiveParent s parent
  | .procDestroy p =>
      p ∈ s.processes.addrs ∧ ∀ n ∈ s.processes.nodes, n.1 = p → childIds s.processes n.2.id = []
  | _ => False

/-- A process is created under a fresh pid, and one that is destroyed is the
last child of its parent, if it has one. -/
def LastChild (K : Kernel κ) (s : Procs κ) : ProcCall → Prop
  | .procCreate _ _ _ => (K.kmalloc s.kernel).1 ≠ none → FreshPid s
  | .procDestroy p =>
      ∀ n ∈ s.processes.nodes, n.1 = p → n.2.parent ≠ 0 →
        ∀ q ∈ s.processFrompid n.2.parent,
          q.2.children.child (q.2.children.childCount - 1) = n.2.id
  | _ => True

instance {call : ProcCall} : Decidable (FamilyCall K s call) :=
  match call with
  | .procCreate parent _ _ => inferInstanceAs (Decidable (KmallocOk K s ∧ LiveParent s parent))
  | .procDestroy p =>
      inferInstanceAs (Decidable (p ∈ s.processes.addrs ∧ ∀ n ∈ s.processes.nodes, n.1 = p → _))
  | .procSigenter _ _ _ | .procSigleave _ | .schedule | .processesCleanup => isFalse id

instance {call : ProcCall} : Decidable (LastChild K s call) :=
  match call with
  | .procCreate _ _ _ => inferInstanceAs (Decidable (_ → FreshPid s))
  | .procDestroy p =>
      inferInstanceAs (Decidable (∀ n ∈ s.processes.nodes, n.1 = p → n.2.parent ≠ 0 →
        ∀ q ∈ s.processFrompid n.2.parent, _))
  | .procSigenter _ _ _ | .procSigleave _ | .schedule | .processesCleanup => isTrue trivial

/-- Every window lists the children, and every parent is live. -/
structure FamilyOk (s : Procs κ) : Prop extends PidsOk s where
  window : ∀ n ∈ s.processes.nodes,
    n.2.children.window.Perm (childIds s.processes n.2.id)
  parents : ∀ n ∈ s.processes.nodes, n.2.parent = 0 ∨ n.2.parent ∈ s.pids

theorem boot_familyOk (cpu : ProcRegs) (fpu : List UInt8) (kernel : κ) :
    FamilyOk (boot cpu fpu kernel) :=
  ⟨boot_pidsOk cpu fpu kernel, fun _ hn => absurd hn List.not_mem_nil,
    fun _ hn => absurd hn List.not_mem_nil⟩

namespace FamilyOk

theorem mem_pids_of_mem_childIds {pid x : UInt32} (h : x ∈ childIds s.processes pid) :
    x ∈ s.pids := by
  obtain ⟨n, hn, -, hid⟩ := mem_childIds.mp h
  exact mem_pids.mpr ⟨n, hn, hid⟩

theorem nodup_childIds (h : FamilyOk s) (pid : UInt32) : (childIds s.processes pid).Nodup :=
  h.nodup.sublist (List.filter_sublist.map _)

theorem zero_notMem_window (h : FamilyOk s) {n : Nat × Proc} (hn : n ∈ s.processes.nodes) :
    0 ∉ n.2.children.window := fun h0 =>
  h.nonzero (mem_pids_of_mem_childIds ((h.window n hn).mem_iff.mp h0))

/-- A pid that no process has, and that is not 0, is nobody's parent. -/
theorem childIds_fresh (h : FamilyOk s) {pid : UInt32} (h0 : pid ≠ 0) (hnew : pid ∉ s.pids) :
    childIds s.processes pid = [] := by
  refine List.eq_nil_iff_forall_not_mem.mpr ?_
  intro x hx
  obtain ⟨n, hn, rfl, -⟩ := mem_childIds.mp hx
  exact (h.parents n hn).elim h0 hnew

/-- The invariant is the agreement of every child array. -/
theorem agrees (h : FamilyOk s) (hP : (a, P) ∈ s.processes.nodes) : Agrees K s a P where
  count := by rw [← (h.window _ hP).length_eq, Children.length_window]
  once := fun pid hpid => by
    rw [(h.window _ hP).count_eq]
    exact List.count_eq_one_of_mem (h.nodup_childIds _) hpid
  full := fun hk hblock name isuser => by
    cases hm : K.kmalloc s.kernel with
    | mk block kernel =>
    cases block with
    | none => simp [hm] at hblock
    | some b =>
        obtain ⟨r, s', hr, hnone⟩ := procCreate_child hm (hk b (by rw [hm]; rfl)) hP name isuser
        refine ⟨r, s', hr, hnone.trans ?_⟩
        rw [Children.claim_eq_none (h.zero_notMem_window hP), ← (h.window _ hP).length_eq,
          Children.length_window]

end FamilyOk

/-! ## Creation -/

/-- A process put in front of a list in which its parent, if it has one, already
knows it. -/
theorem Enrolled.familyOk {l : SList Proc} (he : Enrolled s s' l a N) (hs : FamilyOk s)
    (hpids : PidsOk s') (hfresh : FreshPid s)
    (hl : l.contents.map Proc.id = s.pids)
    (hkids : ∀ pid, childIds l pid = childIds s.processes pid)
    (hpar : N.parent = 0 ∨ N.parent ∈ s.pids)
    (hwin : ∀ n ∈ l.nodes, n.2.children.window.Perm
      (if N.parent = n.2.id then N.id :: childIds s.processes n.2.id
      else childIds s.processes n.2.id))
    (hparents : ∀ n ∈ l.nodes, n.2.parent = 0 ∨ n.2.parent ∈ s.pids) : FamilyOk s' := by
  obtain ⟨h0, hnew⟩ := hfresh
  have hpids' : s'.pids = s.nextPid :: s.pids := by rw [he.pids, hl]
  have hself : N.parent ≠ N.id := by
    rw [he.id]
    rintro heq
    exact (heq ▸ hpar).elim h0 hnew
  refine ⟨hpids, fun n hn => ?_, fun n hn => ?_⟩
  · rw [he.processes, childIds_insertHead, hkids]
    rw [he.processes] at hn
    obtain rfl | hn := List.mem_cons.mp hn
    · rw [he.children, Children.window_empty, if_neg hself, he.id, hs.childIds_fresh h0 hnew]
    · exact hwin n hn
  · rw [he.processes] at hn
    rw [hpids']
    obtain rfl | hn := List.mem_cons.mp hn
    · exact hpar.imp_right (List.mem_cons_of_mem _)
    · exact (hparents n hn).imp_right (List.mem_cons_of_mem _)

theorem CreateSpec.familyOk {parent r : Option Nat} (h : CreateSpec s parent r s')
    (hs : FamilyOk s) (hfresh : r ≠ none → FreshPid s) : FamilyOk s' := by
  have hpids := h.pidsOk hs.toPidsOk hfresh
  cases h with
  | failed same =>
      refine ⟨hpids, ?_, ?_⟩
      · rw [same.processes]
        exact hs.window
      · rw [same.pids, same.processes]
        exact hs.parents
  | root parent enrolled =>
      refine enrolled.familyOk hs hpids (hfresh (by simp)) rfl (fun _ => rfl) (Or.inl parent)
        (fun n hn => ?_) hs.parents
      rw [parent, if_neg (hs.id_ne_zero hn).symm]
      exact hs.window n hn
  | @child p i _ P _ c _ mem claim parent enrolled =>
      refine enrolled.familyOk hs hpids (hfresh (by simp)) (pids_onChildren s _ _)
        (fun _ => childIds_onChildren _) (Or.inr (mem_pids.mpr ⟨_, mem, parent.symm⟩))
        (fun n hn => ?_) fun n hn => ?_
      · obtain ⟨x, hx, hy⟩ := SList.mem_update.mp (show (n.1, n.2) ∈ _ from hn)
        rw [parent, hy]
        by_cases hnp : n.1 = p
        · obtain rfl : x = P := SList.unique (hnp ▸ hx) mem
          rw [if_pos hnp, Proc.onChildren_id, if_pos rfl, enrolled.id]
          have hw := Children.window_claim (hs.zero_notMem_window mem) claim s.nextPid
          show (c.set i s.nextPid).window.Perm _
          rw [hw]
          exact (List.perm_append_singleton _ _).trans ((hs.window _ mem).cons _)
        · have hne : P.id ≠ x.id := fun hid =>
            hnp (congrArg Prod.fst (hs.inj hx mem hid.symm))
          rw [if_neg hnp, if_neg hne]
          exact hs.window _ hx
      · obtain ⟨x, hx, hy⟩ := SList.mem_update.mp (show (n.1, n.2) ∈ _ from hn)
        have hpx : n.2.parent = x.parent := by
          rw [hy]
          split <;> rfl
        exact hpx ▸ hs.parents _ hx

/-! ## Destruction -/

/-- A childless process leaves a list in which its parent, if it has one, already
forgot it. -/
theorem FamilyOk.remove {l : SList Proc} (hs : FamilyOk s) (hpids : PidsOk s')
    (hleaf : childIds s.processes P.id = []) (hrest : s.pids.Perm (P.id :: s'.pids))
    (hproc : s'.processes = l.remove p)
    (hl : ∃ P', (p, P') ∈ l.nodes ∧ P'.id = P.id ∧ P'.parent = P.parent)
    (hkids : ∀ pid, childIds l pid = childIds s.processes pid)
    (hback : ∀ n ∈ l.nodes, ∃ x, (n.1, x) ∈ s.processes.nodes ∧ x.id = n.2.id ∧
      x.parent = n.2.parent)
    (hwin : ∀ n ∈ l.nodes, n.1 ≠ p → (childIds s.processes n.2.id).Perm
      (if P.parent = n.2.id then P.id :: n.2.children.window else n.2.children.window)) :
    FamilyOk s' := by
  obtain ⟨P', hP', hid, hpar⟩ := hl
  refine ⟨hpids, fun n hn => ?_, fun n hn => ?_⟩
  · rw [hproc] at hn ⊢
    obtain ⟨hn, hne⟩ := SList.mem_remove.mp hn
    have h1 := hwin n hn hne
    have h2 := childIds_remove hP' n.2.id
    rw [hkids, hpar, hid] at h2
    by_cases hpn : P.parent = n.2.id
    · rw [if_pos hpn] at h1 h2
      exact (h1.symm.trans h2).cons_inv
    · rw [if_neg hpn] at h1 h2
      exact h1.symm.trans h2
  · rw [hproc] at hn
    obtain ⟨x, hx, hxid, hxpar⟩ := hback n (SList.mem_remove.mp hn).1
    rw [← hxpar]
    refine (hs.parents _ hx).imp_right ?_
    intro hmem
    refine (List.mem_cons.mp (hrest.mem_iff.mp hmem)).resolve_left ?_
    intro hxP
    have hchild : x.id ∈ childIds s.processes P.id := mem_childIds.mpr ⟨_, hx, hxP, rfl⟩
    exact List.not_mem_nil (hleaf ▸ hchild)

theorem DestroySpec.familyOk (h : DestroySpec s p s') (hs : FamilyOk s)
    (hP : (p, P) ∈ s.processes.nodes) (hleaf : childIds s.processes P.id = [])
    (hlast : P.parent ≠ 0 → ∀ q ∈ s.processFrompid P.parent,
      q.2.children.child (q.2.children.childCount - 1) = P.id) : FamilyOk s' := by
  have hpids := h.pidsOk hs.toPidsOk
  have hrest := h.pids hP
  cases h with
  | @root P' mem noParent same =>
      obtain rfl : P = P' := SList.unique hP mem
      refine hs.remove hpids hleaf hrest same.processes ⟨P, hP, rfl, rfl⟩ (fun _ => rfl)
        (fun n hn => ⟨n.2, hn, rfl, rfl⟩) fun n hn _ => ?_
      rw [noParent, if_neg (hs.id_ne_zero hn).symm]
      exact (hs.window n hn).symm
  | @child q P' Q mem parent frompid same =>
      obtain rfl : P = P' := SList.unique hP mem
      obtain ⟨hQ, hid⟩ := processFrompid_mem frompid
      have hback : ∀ n ∈ (s.processes.update q (Proc.onChildren fun c => c.drop P.id)).nodes,
          ∃ x, (n.1, x) ∈ s.processes.nodes ∧
            n.2 = if n.1 = q then x.onChildren fun c => c.drop P.id else x :=
        fun n hn => SList.mem_update.mp (show (n.1, n.2) ∈ _ from hn)
      refine hs.remove hpids hleaf hrest same.processes
        ⟨_, SList.mem_update.mpr ⟨P, hP, rfl⟩, ?_, ?_⟩ (fun _ => childIds_onChildren _)
        (fun n hn => ?_) fun n hn _ => ?_
      · split <;> rfl
      · split <;> rfl
      · obtain ⟨x, hx, hy⟩ := hback n hn
        refine ⟨x, hx, ?_, ?_⟩ <;> (rw [hy]; split <;> rfl)
      · obtain ⟨x, hx, hy⟩ := hback n hn
        rw [hy]
        by_cases hnq : n.1 = q
        · obtain rfl : x = Q := SList.unique (hnq ▸ hx) hQ
          rw [if_pos hnq, Proc.onChildren_id, if_pos hid.symm]
          -- The child is in the window, so the window is not empty.
          have hmem : P.id ∈ x.children.window :=
            (hs.window _ hQ).mem_iff.mpr (mem_childIds.mpr ⟨_, hP, hid.symm, rfl⟩)
          have hpos : 0 < x.children.childCount := by
            rw [← Children.length_window]
            exact List.length_pos_of_mem hmem
          have hnodup : x.children.window.Nodup :=
            (hs.window _ hQ).nodup_iff.mpr (hs.nodup_childIds _)
          have hw := Children.window_drop_last hnodup hpos (hlast parent _ frompid)
          show (childIds s.processes x.id).Perm (P.id :: (x.children.drop P.id).window)
          refine (hs.window _ hQ).symm.trans ?_
          rw [hw]
          exact List.perm_append_singleton _ _
        · have hne : P.parent ≠ x.id := fun heq =>
            hnq (congrArg Prod.fst (hs.inj hx hQ (heq.symm.trans hid.symm)))
          rw [if_neg hnq, if_neg hne]
          exact (hs.window _ hx).symm

/-! ## Runs -/

/-- Every call of the condition is defined and keeps the invariant. -/
theorem step_familyOk (s : Procs κ) (call : ProcCall) (hs : FamilyOk s)
    (h : FamilyCall K s call ∧ LastChild K s call) :
    ∃ s', s.step K call = some s' ∧ FamilyOk s' := by
  obtain ⟨hcall, hlast⟩ := h
  cases call with
  | procCreate parent name isuser =>
      obtain ⟨r, s', hr⟩ := procCreate_defined hcall.1 hcall.2 name isuser
      exact ⟨s', by rw [step, hr, Option.map_some],
        (procCreate_spec hr).familyOk hs fun h => hlast (procCreate_block hr h)⟩
  | procDestroy p =>
      obtain ⟨⟨p', P⟩, hP, rfl⟩ := List.mem_map.mp hcall.1
      obtain ⟨s', hs'⟩ := procDestroy_defined K hP
        ((hs.parents _ hP).imp_right fun h => mem_pids.mp h)
      exact ⟨s', hs',
        (procDestroy_spec hs').familyOk hs hP (hcall.2 _ hP rfl) (hlast _ hP rfl)⟩
  | procSigenter p signum data => exact hcall.elim
  | procSigleave p => exact hcall.elim
  | schedule => exact hcall.elim
  | processesCleanup => exact hcall.elim

/-- In every run in which each child that is destroyed is the last of its
parent, every child array of the state reached agrees with the table. -/
theorem runs_familyAgrees (K : Kernel κ) (cpu : ProcRegs) (fpu : List UInt8) (kernel : κ)
    (calls : List ProcCall)
    (h : Meets (step K) (fun s call => FamilyCall K s call ∧ LastChild K s call)
      (boot cpu fpu kernel) calls) :
    ∃ s, run (step K) (boot cpu fpu kernel) calls = some s ∧
      ∀ a P, (a, P) ∈ s.processes.nodes → Agrees K s a P := by
  obtain ⟨s, hs, hok⟩ := run_defined step_familyOk calls (boot_familyOk cpu fpu kernel) h
  exact ⟨s, hs, fun a P hP => hok.agrees hP⟩

/-- Three children are created, the last two destroyed in turn, and one more is
created. -/
theorem runs_familyAgrees_lastFirst :
    ∃ s, run (step small) smallBoot
      [.procCreate none [97] 0, .procCreate (some 0x100000) [98] 0,
        .procCreate (some 0x100000) [99] 0, .procCreate (some 0x100000) [100] 0,
        .procDestroy 0x13F000, .procDestroy 0x12A000,
        .procCreate (some 0x100000) [101] 0] = some s ∧
      ∀ a P, (a, P) ∈ s.processes.nodes → Agrees small s a P :=
  runs_familyAgrees small {} [] (0x100000, Mem.booted) _ (by decide +kernel)

/-- Three children are created and the first is destroyed. -/
def firstGone : List ProcCall :=
  [.procCreate none [97] 0, .procCreate (some 0x100000) [98] 0,
    .procCreate (some 0x100000) [99] 0, .procCreate (some 0x100000) [100] 0,
    .procDestroy 0x115000]

/-- The window of their parent has a zero and lost the last child. -/
theorem runs_familyAgrees_wrong :
    Meets (step small) (FamilyCall small) smallBoot firstGone ∧
      ∃ s P, run (step small) smallBoot firstGone = some s ∧
        (0x100000, P) ∈ s.processes.nodes ∧ ¬ Agrees small s 0x100000 P := by
  have hview : (run (step small) smallBoot firstGone).map (fun s =>
      s.processes.nodes.map fun n =>
        (n.1, n.2.children.window, childIds s.processes n.2.id)) =
      some [(0x13F000, [], []), (0x12A000, [], []), (0x100000, [0, 3], [4, 3])] := by
    decide +kernel
  refine ⟨by decide +kernel, ?_⟩
  obtain ⟨s, hs, hnodes⟩ := Option.map_eq_some_iff.mp hview
  have hparent : (0x100000, [0, 3], [4, 3]) ∈ s.processes.nodes.map fun n =>
      (n.1, n.2.children.window, childIds s.processes n.2.id) := by
    rw [hnodes]
    decide
  obtain ⟨⟨a, P⟩, hP, hPview⟩ := List.mem_map.mp hparent
  simp only [Prod.mk.injEq] at hPview
  obtain ⟨rfl, hwin, hkids⟩ := hPview
  refine ⟨s, P, hs, hP, ?_⟩
  intro h
  have honce := h.once 4 (by simp [hkids])
  simp [hwin] at honce

end Procs

end StardustOS.Process
