import StardustOS.Process.Bookkeeping

/-!
# The one running process

`PROC_RUNNING` is written by `schedule` alone, in the process it makes the
current one, and taken back from the process it switches out.  A process may
lose it in other ways: it is destroyed, or a signal kills it.

`RunsOnly pid` says of a list that no process but that of `pid` runs.  It holds of
every table and its `curr_pid`, as long as pids are distinct.
-/

namespace StardustOS.Process

open Lib

/-- No process of the list runs but that of `pid`. -/
def RunsOnly (pid : UInt32) (l : SList Proc) : Prop :=
  ∀ n ∈ l.nodes, n.2.status = .running → n.2.id = pid

namespace RunsOnly

variable {l : SList Proc} {pid : UInt32} {a : Nat}

theorem insertHead {N : Proc} (h : RunsOnly pid l) (ha : a ∉ l.addrs) (hN : N.status = .ready) :
    RunsOnly pid (l.insertHead a N ha) := by
  intro n hn hrun
  cases hn with
  | head =>
      rw [hN] at hrun
      cases hrun
  | tail _ hn => exact h n hn hrun

theorem remove (h : RunsOnly pid l) : RunsOnly pid (l.remove a) :=
  fun n hn hrun => h n (SList.mem_remove.mp hn).1 hrun

/-- A change that sets no process running. -/
theorem update {f : Proc → Proc} (h : RunsOnly pid l)
    (hf : ∀ P : Proc, (f P).status = .running → P.status = .running ∧ (f P).id = P.id) :
    RunsOnly pid (l.update a f) := by
  rintro ⟨b, y⟩ hy hrun
  obtain ⟨x, hx, rfl⟩ := SList.mem_update.mp hy
  dsimp only at hrun ⊢
  split at hrun
  · obtain ⟨hrun, hid⟩ := hf x hrun
    rw [if_pos ‹_›, hid]
    exact h (b, x) hx hrun
  · rw [if_neg ‹_›]
    exact h (b, x) hx hrun

theorem onChildren {f : Children → Children} (h : RunsOnly pid l) :
    RunsOnly pid (l.update a (Proc.onChildren f)) :=
  h.update fun _ hrun => ⟨hrun, rfl⟩

end RunsOnly

namespace Procs

variable {κ : Type*} {K : Kernel κ} {s s' : Procs κ}

/-- At most one process runs, and it is the one that `curr_pid` names. -/
structure OneRunning (s : Procs κ) : Prop where
  atMostOne : ∀ n ∈ s.processes.nodes, ∀ m ∈ s.processes.nodes,
    n.2.status = .running → m.2.status = .running → n = m
  current : RunsOnly s.currPid s.processes

/-! ## The calls -/

theorem CreateSpec.runsOnly {parent r : Option Nat} (h : CreateSpec s parent r s')
    (hpids : PidsOk s) (hs : RunsOnly s.currPid s.processes) :
    RunsOnly s'.currPid s'.processes := by
  -- `curr_pid` is set only in an empty table, where nothing runs.
  have hcurr : RunsOnly s'.currPid s.processes := by
    obtain hsame | ⟨-, -, h0, -⟩ := h.currPid_cases
    · exact hsame ▸ hs
    · have hnil : s.processes.nodes = [] := by
        rw [hpids.count, List.length_eq_zero_iff] at h0
        exact pids_eq_nil.mp h0
      intro n hn
      simp [hnil] at hn
  cases h with
  | failed same => exact same.processes ▸ hcurr
  | root parent enrolled =>
      exact enrolled.processes ▸ hcurr.insertHead enrolled.fresh enrolled.status
  | child mem claim parent enrolled =>
      exact enrolled.processes ▸ hcurr.onChildren.insertHead enrolled.fresh enrolled.status

theorem DestroySpec.runsOnly {p : Nat} (h : DestroySpec s p s')
    (hs : RunsOnly s.currPid s.processes) : RunsOnly s'.currPid s'.processes := by
  rw [h.currPid]
  cases h with
  | root mem noParent same => exact same.processes ▸ hs.remove
  | child mem parent frompid same => exact same.processes ▸ hs.onChildren.remove

theorem SignalSpec.runsOnly {p : Nat} {pid : UInt32} (h : SignalSpec s p s')
    (hs : RunsOnly pid s.processes) : RunsOnly pid s'.processes := by
  cases h with
  | refused processes => exact processes ▸ hs
  | killed processes => exact processes ▸ hs.update fun _ hrun => nomatch hrun
  | entered signum processes => exact processes ▸ hs.update fun _ hrun => ⟨hrun, rfl⟩
  | pushed signum esp processes =>
      have hsig : RunsOnly pid (s.processes.update p (Proc.signaled signum)) :=
        hs.update fun _ hrun => ⟨hrun, rfl⟩
      exact processes ▸ hsig.update fun _ hrun => ⟨hrun, rfl⟩
  | left processes => exact processes ▸ hs.update fun _ hrun => ⟨hrun, rfl⟩

/-- The process that is switched in runs, and the one that ran before does not. -/
theorem ScheduleSpec.runsOnly (h : ScheduleSpec s s') (hpids : PidsOk s)
    (hs : RunsOnly s.currPid s.processes) : RunsOnly s'.currPid s'.processes := by
  cases h with
  | idle stuck => exact hs
  | @switched c n C N curr next =>
      obtain ⟨hC, hid⟩ := processFrompid_mem curr
      have hstopped : ∀ m ∈ (s.processes.update c (Proc.stopped s.fpu s.cpu)).nodes,
          m.2.status ≠ .running := by
        rintro ⟨b, y⟩ hy hrun
        obtain ⟨x, hx, rfl⟩ := SList.mem_update.mp hy
        dsimp only at hrun
        split at hrun
        · cases hrun
        · have hx' := hpids.inj hx hC ((hs _ hx hrun).trans hid.symm)
          exact ‹¬ b = c› (congrArg Prod.fst hx')
      rintro ⟨b, y⟩ hy hrun
      obtain ⟨x, hx, rfl⟩ := SList.mem_update.mp hy
      dsimp only at hrun ⊢
      split at hrun
      · subst b
        obtain ⟨x', hx', rfl⟩ := SList.mem_update.mp hx
        obtain rfl := SList.unique hx' (processNext_mem next)
        rw [if_pos rfl, Proc.started_id]
        split
        · exact Proc.stopped_id _ _ _
        · rfl
      · exact absurd hrun (hstopped _ hx)

/-- One call leaves nothing running but what `curr_pid` names. -/
theorem step_runsOnly (s : Procs κ) (call : ProcCall) (s' : Procs κ) (hpids : PidsOk s)
    (hs : RunsOnly s.currPid s.processes) (h : s.step K call = some s') :
    RunsOnly s'.currPid s'.processes := by
  cases call with
  | procCreate parent name isuser =>
      obtain ⟨⟨r, t⟩, hr, rfl⟩ := Option.map_eq_some_iff.mp h
      exact (procCreate_spec hr).runsOnly hpids hs
  | procDestroy p => exact (procDestroy_spec h).runsOnly hs
  | procSigenter p signum data =>
      obtain ⟨⟨r, t⟩, hr, rfl⟩ := Option.map_eq_some_iff.mp h
      have hs' := (procSigenter_spec hr).runsOnly hs
      obtain ⟨l, kernel, rfl⟩ := procSigenter_frame hr
      exact hs'
  | procSigleave p =>
      obtain ⟨⟨r, t⟩, hr, rfl⟩ := Option.map_eq_some_iff.mp h
      have hs' := (procSigleave_spec hr).runsOnly hs
      obtain ⟨l, kernel, rfl⟩ := procSigleave_frame hr
      exact hs'
  | schedule => exact (schedule_spec h).runsOnly hpids hs
  | processesCleanup =>
      exact cleanupFrom_inv (I := fun s => RunsOnly s.currPid s.processes)
        (fun _ _ _ ht hdestroy => (procDestroy_spec hdestroy).runsOnly ht) _ hs h

/-- A pid names one process, so one process runs at most. -/
theorem PidsOk.oneRunning (hpids : PidsOk s) (hs : RunsOnly s.currPid s.processes) :
    OneRunning s where
  atMostOne n hn m hm hnrun hmrun := hpids.inj hn hm ((hs n hn hnrun).trans (hs m hm hmrun).symm)
  current := hs

/-- In every run with fewer than 2^32 - 1 successful calls of `proc_create`, at
most one process runs, and it is the current one. -/
theorem runs_oneRunning (K : Kernel κ) (cpu : ProcRegs) (fpu : List UInt8) (kernel : κ)
    (calls : List ProcCall) (hrun : run (step K) (boot cpu fpu kernel) calls = some s) :
    ∃ t, run (Issued.step K) (Issued.boot cpu fpu kernel) calls = some t ∧ t.procs = s ∧
      (t.issued.length < 2 ^ 32 - 1 → OneRunning s) := by
  obtain ⟨t, ht, rfl⟩ :=
    exists_run_of_map Issued.step_procs calls (s := Issued.boot cpu fpu kernel) hrun
  refine ⟨t, ht, rfl, ?_⟩
  intro hwrap
  obtain ⟨hok, honly⟩ := Issued.run_issuedOk (I := fun s => RunsOnly s.currPid s.processes)
    cpu fpu kernel (fun _ h => absurd h List.not_mem_nil) step_runsOnly calls ht hwrap
  exact hok.toPidsOk.oneRunning honly

/-- A process is switched to itself, then to a second one, which is killed while
it runs, and back. -/
def killedRunning : List ProcCall :=
  [.procCreate none [97] 0, .schedule, .procCreate none [98] 0, .schedule,
    .procSigenter 0x115000 SIGKILL none, .schedule]

theorem runs_oneRunning_killed :
    ∃ s, run (step small) smallBoot killedRunning = some s ∧ OneRunning s ∧
      ∃ n ∈ s.processes.nodes, n.2.status = .running := by
  have hview : (run (Issued.step small) (Issued.boot {} [] (0x100000, Mem.booted))
      killedRunning).map (fun t => (t.issued, t.procs.processes.nodes.map fun n => n.2.status)) =
        some ([2, 1], [.ready, .running]) := by decide
  obtain ⟨t, ht, htview⟩ := Option.map_eq_some_iff.mp hview
  obtain ⟨hissued, hstatus⟩ := Prod.mk.inj htview
  have hrun : run (step small) smallBoot killedRunning = some t.procs :=
    (run_map (Issued.step_procs (K := small)) _ _).symm.trans
      (congrArg (Option.map Issued.procs) ht)
  obtain ⟨t', ht', -, hone⟩ := runs_oneRunning small {} [] (0x100000, Mem.booted) _ hrun
  obtain rfl : t = t' := Option.some.inj (ht.symm.trans ht')
  refine ⟨t.procs, hrun, hone (by rw [hissued]; decide), ?_⟩
  have hmem : ProcStatus.running ∈ t.procs.processes.nodes.map fun n => n.2.status := by
    rw [hstatus]
    decide
  exact List.mem_map.mp hmem

end Procs

end StardustOS.Process
