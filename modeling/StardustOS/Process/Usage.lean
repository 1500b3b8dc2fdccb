import StardustOS.Lib.RingBuffer
import StardustOS.Process.Steps

/-!
# CPU usage

`schedule` writes `curr_pid` to `sched_rec[ticks % SCHED_RECCOUNT]`, and
`sched_getusage` counts the slots that hold a pid.  `Recorded` is the table
together with all that was ever written, and `RecordOk` says that `sched_rec` is
a ring of it.  `ticks` wraps at 2^32, a multiple of the size of the ring, so it
never loses its slot.

A `schedule` that finds no live current process records nothing.
-/

namespace StardustOS.Process

open Lib

/-- The table, and the current process at each tick that was recorded, the last
one first. -/
structure Recorded (κ : Type*) where
  procs : Procs κ
  hist : List UInt32

namespace Recorded

variable {κ : Type*} (K : Kernel κ) (t : Recorded κ)

/-- What a call records: `schedule` the current process, if it is live. -/
def recorded : ProcCall → List UInt32
  | .schedule =>
      if (t.procs.processFrompid t.procs.currPid).isSome then t.procs.currPid :: t.hist else t.hist
  | _ => t.hist

/-- One call, and what it recorded. -/
def step (call : ProcCall) : Option (Recorded κ) :=
  (t.procs.step K call).map fun s => ⟨s, t.recorded call⟩

/-- No tick was recorded. -/
def boot (cpu : ProcRegs) (fpu : List UInt8) (kernel : κ) : Recorded κ :=
  ⟨Procs.boot cpu fpu kernel, []⟩

/-- The usage of a pid is the number of the last ticks in which it was current,
no usage is above 100 percent, and those of different pids share the ticks. -/
structure UsageOk : Prop where
  window : ∀ pid ≠ 0,
    t.procs.schedGetusage pid = (t.hist.take (min SCHED_RECCOUNT t.hist.length)).count pid
  percent : ∀ P ∈ t.procs.processes.contents, t.procs.procGetcpuusage P ≤ 100
  shared : ∀ pids : List UInt32, pids.Nodup →
    (pids.map t.procs.schedGetusage).sum ≤ SCHED_RECCOUNT

/-- `proc_count` counts the processes, and `sched_rec` is a ring of the recorded
ticks. -/
structure RecordOk : Prop where
  count : t.procs.procCount = t.procs.pids.length
  ticks : t.procs.ticks.toNat = t.hist.length % 2 ^ 32
  ring : Ring.Holds SCHED_RECCOUNT 0 t.procs.schedRec t.hist

end Recorded

namespace Procs

variable {κ : Type*} {K : Kernel κ} {s s' s'' : Procs κ}

/-! ## Calls that record nothing -/

/-- Nothing is recorded, and `proc_count` counts the processes as before. -/
structure NoTick (s s' : Procs κ) : Prop where
  ticks : s'.ticks = s.ticks
  schedRec : s'.schedRec = s.schedRec
  count : s.procCount = s.pids.length → s'.procCount = s'.pids.length

theorem NoTick.refl (s : Procs κ) : NoTick s s := ⟨rfl, rfl, id⟩

theorem NoTick.trans (h : NoTick s s') (h' : NoTick s' s'') : NoTick s s'' :=
  ⟨h'.ticks.trans h.ticks, h'.schedRec.trans h.schedRec, h'.count ∘ h.count⟩

theorem procCreate_noTick {parent r : Option Nat} {name : List UInt8} {isuser : Int}
    (h : s.procCreate K parent name isuser = some (r, s')) : NoTick s s' := by
  have hcount := (procCreate_spec h).count
  obtain ⟨-, -, rfl⟩ | ⟨a, -, fresh, ⟨-, -, rfl⟩ | ⟨p, P, -, -, hend⟩⟩ := procCreate_cases h
  · exact ⟨rfl, rfl, hcount⟩
  · exact ⟨rfl, rfl, hcount⟩
  · obtain ⟨-, -, rfl⟩ | ⟨i, c, fresh', -, -, rfl⟩ := hend
    · exact ⟨rfl, rfl, hcount⟩
    · exact ⟨rfl, rfl, hcount⟩

theorem procDestroy_noTick {p : Nat} (h : s.procDestroy K p = some s') : NoTick s s' := by
  have hcount := (procDestroy_spec h).count
  obtain ⟨P, l, -, -, rfl⟩ := procDestroy_cases h
  exact ⟨rfl, rfl, hcount⟩

theorem SignalSpec.noTick {p : Nat} (h : SignalSpec s p s')
    (hframe : ∃ l kernel, s' = { s with processes := l, kernel := kernel }) : NoTick s s' := by
  have hpids := h.pids
  obtain ⟨l, kernel, rfl⟩ := hframe
  exact ⟨rfl, rfl, fun hs => by rw [hpids]; exact hs⟩

/-- Only `schedule` records. -/
theorem step_noTick {call : ProcCall} (h : s.step K call = some s') (hne : call ≠ .schedule) :
    NoTick s s' := by
  cases call with
  | procCreate parent name isuser =>
      obtain ⟨⟨r, t⟩, hr, rfl⟩ := Option.map_eq_some_iff.mp h
      exact procCreate_noTick hr
  | procDestroy p => exact procDestroy_noTick h
  | procSigenter p signum data =>
      obtain ⟨⟨r, t⟩, hr, rfl⟩ := Option.map_eq_some_iff.mp h
      exact (procSigenter_spec hr).noTick (procSigenter_frame hr)
  | procSigleave p =>
      obtain ⟨⟨r, t⟩, hr, rfl⟩ := Option.map_eq_some_iff.mp h
      exact (procSigleave_spec hr).noTick (procSigleave_frame hr)
  | schedule => exact absurd rfl hne
  | processesCleanup =>
      refine cleanupFrom_inv (I := NoTick s) ?_ _ (.refl s) h
      intro t t' p ht hdestroy
      exact ht.trans (procDestroy_noTick hdestroy)

/-- `sched_getusage` counts the slots of the ring. -/
theorem schedGetusage_eq (s : Procs κ) (pid : UInt32) :
    s.schedGetusage pid = (Ring.cells SCHED_RECCOUNT s.schedRec).count pid := by
  rw [schedGetusage, countUpto_eq, Ring.cells, List.count, List.countP_map]
  exact List.countP_congr fun i _ => by simp

theorem schedGetusage_le (s : Procs κ) (pid : UInt32) : s.schedGetusage pid ≤ SCHED_RECCOUNT := by
  rw [schedGetusage_eq]
  exact List.count_le_length.trans_eq Ring.length_cells

end Procs

namespace Recorded

open Procs

variable {κ : Type*} {K : Kernel κ} {t t' : Recorded κ}

theorem boot_recordOk (cpu : ProcRegs) (fpu : List UInt8) (kernel : κ) :
    RecordOk (boot cpu fpu kernel) :=
  ⟨rfl, rfl, Ring.holds_nil SCHED_RECCOUNT 0⟩

theorem recorded_of_ne {call : ProcCall} (hne : call ≠ .schedule) : t.recorded call = t.hist := by
  cases call with
  | schedule => exact absurd rfl hne
  | procCreate parent name isuser => rfl
  | procDestroy p => rfl
  | procSigenter p signum data => rfl
  | procSigleave p => rfl
  | processesCleanup => rfl

/-- A tick goes into the slot that holds the oldest one. -/
theorem RecordOk.tick {c n : Nat} {N : Proc} (h : RecordOk t) :
    RecordOk ⟨t.procs.switch c n N, t.procs.currPid :: t.hist⟩ where
  count := by
    rw [pids_switch]
    exact h.count
  ticks := by
    show (t.procs.ticks + 1).toNat = _
    rw [UInt32.toNat_add, h.ticks, List.length_cons]
    show (t.hist.length % 2 ^ 32 + 1) % 2 ^ 32 = _
    rw [Nat.mod_add_mod]
  ring := by
    have hslot : t.procs.ticks.toNat % SCHED_RECCOUNT = t.hist.length % SCHED_RECCOUNT := by
      rw [h.ticks, SCHED_RECCOUNT, Nat.mod_mod_of_dvd]
      exact ⟨2 ^ 25, rfl⟩
    have hwrite := h.ring.write (by decide) t.procs.currPid
    unfold Ring.write at hwrite
    rw [← hslot] at hwrite
    exact hwrite

theorem RecordOk.keep {s : Procs κ} (h : RecordOk t) (hno : NoTick t.procs s) :
    RecordOk ⟨s, t.hist⟩ where
  count := hno.count h.count
  ticks := by rw [hno.ticks, h.ticks]
  ring := hno.schedRec ▸ h.ring

theorem step_recordOk (t : Recorded κ) (call : ProcCall) (t' : Recorded κ) (h : RecordOk t)
    (hstep : t.step K call = some t') : RecordOk t' := by
  obtain ⟨s, hs, rfl⟩ := Option.map_eq_some_iff.mp hstep
  by_cases hne : call = .schedule
  · subst hne
    rw [recorded]
    cases schedule_spec hs with
    | idle stuck =>
        -- In an empty table no current process is found.
        have hnone : t.procs.processFrompid t.procs.currPid = none := by
          obtain h0 | hnone := stuck
          · rw [h.count, List.length_eq_zero_iff, pids_eq_nil] at h0
            exact SList.find?_eq_none.mpr fun n hn => by simp [h0] at hn
          · exact hnone
        rw [hnone]
        exact h
    | switched curr next =>
        rw [curr]
        exact h.tick
  · rw [recorded_of_ne hne]
    exact h.keep (step_noTick hs hne)

theorem RecordOk.usageOk (h : RecordOk t) : UsageOk t where
  window pid hpid := by
    have htake : t.hist.take (min SCHED_RECCOUNT t.hist.length) = t.hist.take SCHED_RECCOUNT := by
      rw [← List.take_take, List.take_length]
    rw [schedGetusage_eq, h.ring.count_cells hpid, htake]
  percent P _ := by
    have hle := schedGetusage_le t.procs P.id
    calc t.procs.schedGetusage P.id * 100 / SCHED_RECCOUNT
        ≤ SCHED_RECCOUNT * 100 / SCHED_RECCOUNT :=
          Nat.div_le_div_right (Nat.mul_le_mul_right 100 hle)
      _ = 100 := rfl
  shared pids hpids := by
    have hcells := Ring.sum_count_cells_le hpids SCHED_RECCOUNT t.procs.schedRec
    rwa [← List.map_congr_left fun pid _ => schedGetusage_eq t.procs pid] at hcells

theorem step_procs (t : Recorded κ) (call : ProcCall) :
    (t.step K call).map procs = t.procs.step K call := by
  simp [step, Function.comp_def]

/-- In every run, of any length, the usage of a pid is the number of the last
128 recorded ticks in which it was the current one. -/
theorem runs_cpuUsage (K : Kernel κ) (cpu : ProcRegs) (fpu : List UInt8) (kernel : κ)
    (calls : List ProcCall) {s : Procs κ}
    (hrun : run (Procs.step K) (Procs.boot cpu fpu kernel) calls = some s) :
    ∃ t, run (step K) (boot cpu fpu kernel) calls = some t ∧ t.procs = s ∧ UsageOk t := by
  obtain ⟨t, ht, hts⟩ := exists_run_of_map step_procs calls (s := boot cpu fpu kernel) hrun
  have hok : RecordOk t := run_invariant (C := fun _ _ => True)
    (fun t call t' h _ hstep => step_recordOk t call t' h hstep) calls
    (boot_recordOk cpu fpu kernel) (meets_true calls) ht
  exact ⟨t, ht, hts, hok.usageOk⟩

/-- Two processes share three ticks. -/
theorem runs_cpuUsage_two :
    ∃ t, run (step small) (boot {} [] (0x100000, Mem.booted))
        [.schedule, .procCreate none [97] 0, .procCreate none [98] 0, .schedule, .schedule,
          .schedule] = some t ∧ t.procs.schedGetusage 1 = 2 ∧ t.procs.schedGetusage 2 = 1 := by
  have hview : (run (step small) (boot {} [] (0x100000, Mem.booted))
      [.schedule, .procCreate none [97] 0, .procCreate none [98] 0, .schedule, .schedule,
        .schedule]).map hist = some [1, 2, 1] := by decide
  obtain ⟨t, ht, hhist⟩ := Option.map_eq_some_iff.mp hview
  have hrun : run (Procs.step small) smallBoot _ = some t.procs :=
    (run_map (step_procs (K := small)) _ _).symm.trans (congrArg (Option.map procs) ht)
  obtain ⟨t', ht', -, hok⟩ := runs_cpuUsage small {} [] (0x100000, Mem.booted) _ hrun
  obtain rfl : t = t' := Option.some.inj (ht.symm.trans ht')
  refine ⟨t, ht, ?_, ?_⟩
  · rw [hok.window 1 (by decide), hhist]
    rfl
  · rw [hok.window 2 (by decide), hhist]
    rfl

end Recorded

end StardustOS.Process
