import StardustOS.Process.Steps

/-!
# The processes on the machine

`schedule` as it is written: the FPU image goes through the buffer `fpu_regs`,
which all processes share, and `proc_regswitch` saves and loads one register
file after the other.  `schedule_procs` says that this comes to the switch of
`Procs.schedule`, where a process is saved and loaded at once.

`Logged` keeps, beside the machine, what was on the CPU when each process was
last switched out.
-/

namespace StardustOS.Process

open Lib

/-- The processes, and the buffer of `fpu.c`. -/
structure Machine (κ : Type*) where
  procs : Procs κ
  /-- `fpu_regs`. -/
  fpuRegs : List UInt8

/-- What happens on the machine: a call of `proc.c`, or the running code changes
the registers. -/
inductive MachineCall where
  | call (c : ProcCall)
  | work (cpu : ProcRegs) (fpu : List UInt8)
deriving DecidableEq, Repr

/-- The running code changes the registers. -/
def Procs.work {κ : Type*} (cpu : ProcRegs) (fpu : List UInt8) (s : Procs κ) : Procs κ :=
  { s with cpu := cpu, fpu := fpu }

/-! ## The writes to a process -/

namespace Proc

/-- The copy of `fpu_savectx`. -/
def savedFpu (fpu : List UInt8) (P : Proc) : Proc := { P with fpuRegs := fpu }

/-- `status = PROC_READY`. -/
def readied (P : Proc) : Proc := { P with status := .ready }

/-- What `proc_regswitch` saves. -/
def savedRegs (cpu : ProcRegs) (P : Proc) : Proc := { P with regs := cpu }

/-- The four writes of a switch, in the order `schedule` makes them. -/
theorem savedRegs_started (fpu : List UInt8) (cpu : ProcRegs) (P : Proc) :
    ((P.savedFpu fpu).readied.started).savedRegs cpu = (P.stopped fpu cpu).started := rfl

/-- The three writes of a switch to the process that leaves. -/
theorem savedRegs_readied (fpu : List UInt8) (cpu : ProcRegs) (P : Proc) :
    (P.savedFpu fpu).readied.savedRegs cpu = P.stopped fpu cpu := rfl

end Proc

/-! ## The functions -/

namespace Machine

variable {κ : Type*} (K : Kernel κ)

/-- A write to the process at `p`. -/
def onProc (p : Nat) (f : Proc → Proc) (m : Machine κ) : Machine κ :=
  { m with procs := { m.procs with processes := m.procs.processes.update p f } }

/-- `fpu_savectx`: `fxsave`, and a copy to the process. -/
def fpuSavectx (p : Nat) (m : Machine κ) : Machine κ :=
  let m := { m with fpuRegs := m.procs.fpu }
  m.onProc p (Proc.savedFpu m.fpuRegs)

/-- `fpu_loadctx`: a copy from the process, and `fxrstor`. -/
def fpuLoadctx (p : Nat) (m : Machine κ) : Option (Machine κ) :=
  (m.procs.processes.get? p).map fun P =>
    let m := { m with fpuRegs := P.fpuRegs }
    { m with procs := { m.procs with fpu := m.fpuRegs } }

/-- `proc_regswitch` from the process at `a` to the process at `b`. -/
def procRegswitch (a b : Nat) (m : Machine κ) : Option (Machine κ) :=
  let m := m.onProc a (Proc.savedRegs m.procs.cpu)
  (m.procs.processes.get? b).map fun P => { m with procs := { m.procs with cpu := P.regs } }

/-- `sched_rec[ticks % SCHED_RECCOUNT] = curr_pid` and `ticks++`. -/
def record (m : Machine κ) : Machine κ :=
  { m with
    procs := { m.procs with
      schedRec := fun i =>
        if i = m.procs.ticks.toNat % SCHED_RECCOUNT then m.procs.currPid else m.procs.schedRec i
      ticks := m.procs.ticks + 1 } }

/-- `schedule`. -/
def schedule (m : Machine κ) : Option (Machine κ) :=
  if m.procs.procCount = 0 then some m
  else
    match m.procs.processFrompid m.procs.currPid, m.procs.processNext with
    | none, _ => some m
    | some _, none => none
    | some (c, _), some (n, _) =>
        let m := (m.fpuSavectx c).record.onProc c Proc.readied
        match m.procs.processes.get? n with
        | none => none
        | some N =>
            let m := { m with procs := { m.procs with currPid := N.id } }
            ((m.onProc n Proc.started).fpuLoadctx n).bind (procRegswitch c n)

/-- `proc_create`.  A new process gets the current FPU image through the
buffer. -/
def procCreate (parent : Option Nat) (name : List UInt8) (isuser : Int) (m : Machine κ) :
    Option (Option Nat × Machine κ) :=
  (m.procs.procCreate K parent name isuser).map fun (r, s) =>
    (r, { procs := s, fpuRegs := if r = none then m.fpuRegs else m.procs.fpu })

/-- One step of the machine. -/
def step (m : Machine κ) : MachineCall → Option (Machine κ)
  | .call (.procCreate parent name isuser) => (m.procCreate K parent name isuser).map Prod.snd
  | .call .schedule => m.schedule
  | .call c => (m.procs.step K c).map fun s => { m with procs := s }
  | .work cpu fpu => some { m with procs := m.procs.work cpu fpu }

variable {K}

/-! ## A switch -/

/-- The writes to the process that is saved and to the one that is loaded come
to the changes `stopped` and `started`. -/
theorem update_switch (l : SList Proc) (c n : Nat) (fpu : List UInt8) (cpu : ProcRegs) :
    (((l.update c (Proc.savedFpu fpu)).update c Proc.readied).update n Proc.started).update c
      (Proc.savedRegs cpu) = (l.update c (Proc.stopped fpu cpu)).update n Proc.started := by
  simp only [SList.update, List.map_map, SList.mk.injEq]
  refine List.map_congr_left ?_
  intro b _
  simp only [Function.comp_apply, Prod.mk.injEq, true_and]
  by_cases hc : b.1 = c
  · by_cases hn : b.1 = n
    · simp only [if_pos hc, if_pos hn, Proc.savedRegs_started]
    · simp only [if_pos hc, if_neg hn, Proc.savedRegs_readied]
  · simp only [if_neg hc]

/-- The record that `fpu_loadctx` and `proc_regswitch` find: what was saved
before, where a process follows itself. -/
theorem mem_readied {l : SList Proc} {n : Nat} {N : Proc} (hN : (n, N) ∈ l.nodes) (c : Nat)
    (fpu : List UInt8) :
    ∃ M, (n, M) ∈ ((l.update c (Proc.savedFpu fpu)).update c Proc.readied).nodes ∧
      M.id = N.id ∧ M.regs = N.regs ∧ M.fpuRegs = if n = c then fpu else N.fpuRegs := by
  by_cases h : n = c
  · subst h
    have hsaved := SList.mem_update_self (f := Proc.savedFpu fpu) |>.mpr ⟨N, hN, rfl⟩
    have hready := SList.mem_update_self (f := Proc.readied) |>.mpr ⟨_, hsaved, rfl⟩
    exact ⟨_, hready, rfl, rfl, (if_pos rfl).symm⟩
  · have hsaved := SList.mem_update_ne (f := Proc.savedFpu fpu) h |>.mpr hN
    have hready := SList.mem_update_ne (f := Proc.readied) h |>.mpr hsaved
    exact ⟨N, hready, rfl, rfl, (if_neg h).symm⟩

/-- Where a process is found, `fpu_loadctx` loads its image. -/
theorem fpuLoadctx_of_mem {m : Machine κ} {p : Nat} {P : Proc}
    (h : (p, P) ∈ m.procs.processes.nodes) :
    m.fpuLoadctx p =
      some { procs := { m.procs with fpu := P.fpuRegs }, fpuRegs := P.fpuRegs } := by
  simp only [fpuLoadctx, SList.get?_eq_some.mpr h, Option.map_some]

/-- Where a process is found, `proc_regswitch` loads its registers, or keeps
those of the CPU if it was the one to be saved. -/
theorem procRegswitch_of_mem {m : Machine κ} {a b : Nat} {P : Proc}
    (h : (b, P) ∈ m.procs.processes.nodes) :
    m.procRegswitch a b =
      some { m with procs := { m.procs with
        processes := m.procs.processes.update a (Proc.savedRegs m.procs.cpu)
        cpu := if b = a then m.procs.cpu else P.regs } } := by
  simp only [procRegswitch, onProc, SList.get?_update h, Option.map_some]
  split <;> rfl

/-- `schedule` is the `schedule` of `Procs`. -/
theorem schedule_procs (m : Machine κ) : m.schedule.map procs = m.procs.schedule := by
  by_cases h0 : m.procs.procCount = 0
  · simp only [schedule, Procs.schedule, h0, ↓reduceIte, Option.map_some]
  · cases hc : m.procs.processFrompid m.procs.currPid with
    | none => simp only [schedule, Procs.schedule, h0, ↓reduceIte, hc, Option.map_some]
    | some c =>
        cases hn : m.procs.processNext with
        | none => simp only [schedule, Procs.schedule, h0, ↓reduceIte, hc, hn, Option.map_none]
        | some n =>
            obtain ⟨M, hM, hid, hregs, hfpu⟩ :=
              mem_readied (Procs.processNext_mem hn) c.1 m.procs.fpu
            have hstarted := SList.mem_update_self (f := Proc.started) |>.mpr ⟨M, hM, rfl⟩
            simp only [schedule, Procs.schedule, h0, ↓reduceIte, hc, hn, fpuSavectx, onProc, record,
              SList.get?_eq_some.mpr hM]
            rw [fpuLoadctx_of_mem hstarted, Option.bind_some, procRegswitch_of_mem hstarted]
            simp only [Option.map_some, Procs.switch, update_switch, Proc.started, hid, hregs, hfpu]
            rfl

/-- `proc_create` is the `proc_create` of `Procs`. -/
theorem procCreate_procs (m : Machine κ) (parent : Option Nat) (name : List UInt8)
    (isuser : Int) :
    ((m.procCreate K parent name isuser).map Prod.snd).map procs =
      (m.procs.procCreate K parent name isuser).map Prod.snd := by
  cases h : m.procs.procCreate K parent name isuser with
  | none => simp only [procCreate, h, Option.map_none]
  | some r => simp only [procCreate, h, Option.map_some]

/-- A call of the machine is the call of `Procs`. -/
theorem step_procs (m : Machine κ) (c : ProcCall) :
    (m.step K (.call c)).map procs = m.procs.step K c := by
  cases c with
  | procCreate parent name isuser => exact m.procCreate_procs parent name isuser
  | schedule => exact m.schedule_procs
  | procDestroy p => simp [step, Function.comp_def]
  | procSigenter p signum data => simp [step, Function.comp_def]
  | procSigleave p => simp [step, Function.comp_def]
  | processesCleanup => simp [step, Function.comp_def]

theorem step_call {m m' : Machine κ} {c : ProcCall} (h : m.step K (.call c) = some m') :
    m.procs.step K c = some m'.procs := by
  rw [← step_procs, h, Option.map_some]

end Machine

end StardustOS.Process
