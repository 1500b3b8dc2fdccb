import StardustOS.Process.Steps

/-!
# The scheduler while there is work

`schedule` leaves everything as it is when `curr_pid` names no live process.
`proc_create` sets `curr_pid` only when it is 0, and `proc_destroy` never
touches it, so a table whose current process was destroyed is stuck for ever.

`KeepsCurrent` are the calls that leave a current process: `CurrentLive` is then
an invariant, and a state with it makes progress.
-/

namespace StardustOS.Process

open Lib

namespace Procs

variable {κ : Type*} {K : Kernel κ} {s s' : Procs κ}

/-- After one `schedule`, if there is a process: the process that `curr_pid`
names is live and running. -/
def Progress (s : Procs κ) : Prop :=
  s.processes.nodes ≠ [] →
    ∃ s' n, s.schedule = some s' ∧ s'.processFrompid s'.currPid = some n ∧ n.2.status = .running

/-- The calls are `proc_create` with a live parent or none, `proc_destroy` of
any live process, and `schedule`. -/
def ProgressCall (K : Kernel κ) (s : Procs κ) : ProcCall → Prop
  | .procCreate parent _ _ => KmallocOk K s ∧ LiveParent s parent
  | .procDestroy p => p ∈ s.processes.addrs
  | .schedule => True
  | _ => False

/-- A process is created under a fresh pid, and into an empty table only while
`curr_pid` is 0 or the pid to come.  A process is destroyed while its parent is
live, if it has one, and not while it is the current one of several. -/
def KeepsCurrent (K : Kernel κ) (s : Procs κ) : ProcCall → Prop
  | .procCreate _ _ _ =>
      (K.kmalloc s.kernel).1 ≠ none →
        FreshPid s ∧ (s.pids ≠ [] ∨ s.currPid = 0 ∨ s.nextPid = s.currPid)
  | .procDestroy p =>
      ∀ n ∈ s.processes.nodes, n.1 = p →
        ParentOk s n.2 ∧ (n.2.id ≠ s.currPid ∨ s.pids = [n.2.id])
  | _ => True

instance {call : ProcCall} : Decidable (ProgressCall K s call) :=
  match call with
  | .procCreate parent _ _ => inferInstanceAs (Decidable (KmallocOk K s ∧ LiveParent s parent))
  | .procDestroy p => inferInstanceAs (Decidable (p ∈ s.processes.addrs))
  | .schedule => isTrue trivial
  | .procSigenter _ _ _ | .procSigleave _ | .processesCleanup => isFalse id

instance {call : ProcCall} : Decidable (KeepsCurrent K s call) :=
  match call with
  | .procCreate _ _ _ => inferInstanceAs (Decidable (_ → _ ∧ (_ ∨ _ ∨ _)))
  | .procDestroy p => inferInstanceAs (Decidable (∀ n ∈ s.processes.nodes, n.1 = p → _))
  | .procSigenter _ _ _ | .procSigleave _ | .schedule | .processesCleanup => isTrue trivial

/-- While there is a process, `curr_pid` names one. -/
structure CurrentLive (s : Procs κ) : Prop extends PidsOk s where
  current : s.pids ≠ [] → s.currPid ∈ s.pids

theorem boot_currentLive (cpu : ProcRegs) (fpu : List UInt8) (kernel : κ) :
    CurrentLive (boot cpu fpu kernel) :=
  ⟨boot_pidsOk cpu fpu kernel, fun h => absurd rfl h⟩

/-! ## One `schedule` -/

/-- The process that gets the CPU stays in the table, running. -/
theorem mem_switch {c n : Nat} {N : Proc} (hN : (n, N) ∈ s.processes.nodes) :
    ∃ M, (n, M) ∈ (s.switch c n N).processes.nodes ∧ M.id = N.id ∧ M.status = .running := by
  obtain ⟨x, hx, hid⟩ : ∃ x, (n, x) ∈ (s.processes.update c (Proc.stopped s.fpu s.cpu)).nodes ∧
      x.id = N.id := by
    refine ⟨_, SList.mem_update.mpr ⟨N, hN, rfl⟩, ?_⟩
    split <;> rfl
  exact ⟨x.started, SList.mem_update_self.mpr ⟨x, hx, rfl⟩, hid, rfl⟩

/-- A live current process and its successor are found, and the successor runs. -/
theorem CurrentLive.schedule (h : CurrentLive s) (hne : s.pids ≠ []) :
    ∃ c n, ∃ N : Proc, s.schedule = some (s.switch c n N) ∧ (n, N) ∈ s.processes.nodes := by
  obtain ⟨⟨c, C⟩, hc⟩ := processFrompid_of_mem_pids (h.current hne)
  have h0 : s.procCount ≠ 0 := by
    rw [h.count]
    exact fun h0 => hne (List.length_eq_zero_iff.mp h0)
  have hpid : s.currPid ≠ 0 := fun h0 => h.nonzero (h0 ▸ h.current hne)
  obtain ⟨⟨n, N⟩, hn⟩ := processNext_isSome h0 hpid hc
  exact ⟨c, n, N, by simp only [Procs.schedule, h0, ↓reduceIte, hc, hn], processNext_mem hn⟩

theorem CurrentLive.progress (h : CurrentLive s) : Progress s := by
  intro hne
  obtain ⟨c, n, N, hs, hN⟩ := h.schedule (mt pids_eq_nil.mp hne)
  obtain ⟨M, hM, hid, hrun⟩ := mem_switch (c := c) hN
  have hfind := (pidsOk_switch h.toPidsOk).processFrompid_eq hM
  rw [hid] at hfind
  exact ⟨_, _, hs, hfind, hrun⟩

/-- Without a live current process nothing is scheduled. -/
theorem not_progress_of_stuck (hne : s.processes.nodes ≠ [])
    (hc : s.processFrompid s.currPid = none) : ¬ Progress s := by
  intro h
  obtain ⟨s', n, hs, hn, -⟩ := h hne
  obtain rfl : s = s' := by
    simp only [Procs.schedule, hc] at hs
    split at hs <;> exact Option.some.inj hs
  simp [hc] at hn

/-- Progress is exactly a live current process. -/
theorem progress_iff (h : PidsOk s) : Progress s ↔ CurrentLive s := by
  refine ⟨fun hp => ⟨h, fun hne => ?_⟩, fun hc => hc.progress⟩
  cases hc : s.processFrompid s.currPid with
  | none => exact absurd hp (not_progress_of_stuck (mt pids_eq_nil.mpr hne) hc)
  | some n => exact mem_pids.mpr ⟨n, processFrompid_mem hc⟩

/-! ## The calls keep a current process -/

theorem CreateSpec.currentLive {parent r : Option Nat} (h : CreateSpec s parent r s')
    (hs : CurrentLive s) (hfresh : r ≠ none → FreshPid s)
    (hcurr : r ≠ none → s.pids ≠ [] ∨ s.currPid = 0 ∨ s.nextPid = s.currPid) :
    CurrentLive s' := by
  refine ⟨h.pidsOk hs.toPidsOk hfresh, ?_⟩
  cases r with
  | none =>
      cases h with
      | failed same =>
          rw [same.pids, same.currPid]
          exact hs.current
  | some a =>
      have hc : s'.currPid =
          if s.procCount + 1 = 1 ∧ s.currPid = 0 then s.nextPid else s.currPid := by
        cases h with
        | root parent enrolled => exact enrolled.currPid
        | child mem claim parent enrolled => exact enrolled.currPid
      intro _
      rw [h.pids, hc]
      by_cases hset : s.procCount + 1 = 1 ∧ s.currPid = 0
      · rw [if_pos hset]
        exact List.mem_cons_self
      · rw [if_neg hset]
        by_cases hne : s.pids = []
        · have hcount : s.procCount + 1 = 1 := by rw [hs.count, hne, List.length_nil]
          obtain hne' | h0 | heq := hcurr (by simp)
          · exact absurd hne hne'
          · exact absurd ⟨hcount, h0⟩ hset
          · exact heq ▸ List.mem_cons_self
        · exact List.mem_cons_of_mem _ (hs.current hne)

theorem DestroySpec.currentLive {p : Nat} {P : Proc} (h : DestroySpec s p s')
    (hs : CurrentLive s) (hP : (p, P) ∈ s.processes.nodes)
    (hcurr : P.id ≠ s.currPid ∨ s.pids = [P.id]) : CurrentLive s' := by
  have hperm := h.pids hP
  have hc : s'.currPid = s.currPid := by
    cases h with
    | root mem noParent same => exact same.currPid
    | child mem parent frompid same => exact same.currPid
  refine ⟨h.pidsOk hs.toPidsOk, ?_⟩
  intro hne
  obtain hid | hone := hcurr
  · have hmem : s.currPid ∈ s.pids := hs.current fun hnil => by simp [hnil] at hperm
    rw [hc]
    exact (List.mem_cons.mp (hperm.mem_iff.mp hmem)).resolve_left hid.symm
  · rw [hone] at hperm
    exact absurd (List.nil_perm.mp hperm.cons_inv) hne

theorem CurrentLive.switch {c n : Nat} {N : Proc} (hs : CurrentLive s)
    (hN : (n, N) ∈ s.processes.nodes) : CurrentLive (s.switch c n N) := by
  refine ⟨pidsOk_switch hs.toPidsOk, ?_⟩
  intro _
  rw [pids_switch]
  exact mem_pids.mpr ⟨_, hN, rfl⟩

/-- Every call of the condition is defined, and leaves a current process. -/
theorem step_currentLive (s : Procs κ) (call : ProcCall) (hs : CurrentLive s)
    (h : ProgressCall K s call ∧ KeepsCurrent K s call) :
    ∃ s', s.step K call = some s' ∧ CurrentLive s' := by
  obtain ⟨hcall, hkeep⟩ := h
  cases call with
  | procCreate parent name isuser =>
      obtain ⟨r, s', hr⟩ := procCreate_defined hcall.1 hcall.2 name isuser
      have hblock : r ≠ none → (K.kmalloc s.kernel).1 ≠ none := procCreate_block hr
      exact ⟨s', by rw [step, hr, Option.map_some],
        (procCreate_spec hr).currentLive hs (fun h => (hkeep (hblock h)).1)
          fun h => (hkeep (hblock h)).2⟩
  | procDestroy p =>
      obtain ⟨⟨p', P⟩, hP, rfl⟩ := List.mem_map.mp hcall
      obtain ⟨hpar, hcurr⟩ := hkeep _ hP rfl
      obtain ⟨s', hs'⟩ := procDestroy_defined K hP hpar
      exact ⟨s', hs', (procDestroy_spec hs').currentLive hs hP hcurr⟩
  | schedule =>
      by_cases hne : s.pids = []
      · exact ⟨s, by simp [step, Procs.schedule, hs.count, hne], hs⟩
      · obtain ⟨c, n, N, hsched, hN⟩ := hs.schedule hne
        exact ⟨_, hsched, hs.switch hN⟩
  | procSigenter p signum data => exact hcall.elim
  | procSigleave p => exact hcall.elim
  | processesCleanup => exact hcall.elim

/-- In every run whose calls keep a current process, the scheduler is never
stuck: whatever state the run ends in, one `schedule` there makes a live
process the current one and running, if there is a process. -/
theorem runs_progress (K : Kernel κ) (cpu : ProcRegs) (fpu : List UInt8) (kernel : κ)
    (calls : List ProcCall)
    (h : Meets (step K) (fun s call => ProgressCall K s call ∧ KeepsCurrent K s call)
      (boot cpu fpu kernel) calls) :
    ∃ s, run (step K) (boot cpu fpu kernel) calls = some s ∧ Progress s := by
  obtain ⟨s, hs, hcurr⟩ :=
    run_defined step_currentLive calls (boot_currentLive cpu fpu kernel) h
  exact ⟨s, hs, hcurr.progress⟩

/-! ## Two processes -/

/-- The first process is destroyed after the second took over. -/
theorem runs_progress_two :
    ∃ s, run (step small) smallBoot
      [.procCreate none [97] 0, .procCreate none [98] 0, .schedule, .procDestroy 0x100000,
        .schedule] = some s ∧ Progress s :=
  runs_progress small {} [] (0x100000, Mem.booted) _ (by decide)

/-- Two processes are created and the first, the current one, is destroyed. -/
theorem runs_progress_wrong :
    ∃ s, Meets (step small) (ProgressCall small) smallBoot
        [.procCreate none [97] 0, .procCreate none [98] 0, .procDestroy 0x100000] ∧
      run (step small) smallBoot
        [.procCreate none [97] 0, .procCreate none [98] 0, .procDestroy 0x100000] = some s ∧
      ¬ Progress s := by
  have hview : (run (step small) smallBoot
      [.procCreate none [97] 0, .procCreate none [98] 0, .procDestroy 0x100000]).map
        (fun s => (s.pids, s.currPid)) = some ([2], 1) := by decide
  obtain ⟨s, hs, hpids⟩ := Option.map_eq_some_iff.mp hview
  simp only [Prod.mk.injEq] at hpids
  refine ⟨s, by decide, hs, not_progress_of_stuck (mt pids_eq_nil.mpr (by simp [hpids.1])) ?_⟩
  cases hc : s.processFrompid s.currPid with
  | none => rfl
  | some n =>
      have hmem := mem_pids.mpr ⟨n, processFrompid_mem hc⟩
      simp [hpids.1, hpids.2] at hmem

end Procs

end StardustOS.Process
