import StardustOS.Errno
import StardustOS.Lib.Loop
import StardustOS.Lib.SList
import StardustOS.Mem.PgDir
import Mathlib.Data.UInt

/-!
# The process table

`proc.c`: the list of processes, newest first, and the static data of the
scheduler.  A `proc_t` is a block of the kernel heap, so a process is known by
its address; its pid is a field like any other.

An outcome of `none` is an undefined call: it uses a `proc_t` that is not in the
table, it follows a NULL pointer, or `kmalloc` returned a block that is still in
use.  `kfree` is taken to leave a block readable, as `SLIST_REMOVE` and
`SLIST_FOREACH` read the link of a process after it was freed.

What `proc.c` calls outside itself is the parameter `Kernel`.
-/

namespace StardustOS.Process

open Lib

/-! ## Data -/

def CHILD_MAX : Nat := 25
def OPEN_MAX : Nat := 512
def PATH_MAX : Nat := 4096
def SCHED_RECCOUNT : Nat := 128
def PROC_STACKSIZE : Nat := 16384

/-- The offset of `stack` in `proc_t`: the fields before it are the link, `id`,
`name`, `cwd` and `tty`. -/
def stackOffset : Nat := 4 + 4 + 256 + PATH_MAX + NAME_MAX

/-- `PROC_ZOMBIE`, `PROC_FINISHED`, `PROC_RUNNING` and `PROC_READY`. -/
inductive ProcStatus where
  | zombie
  | finished
  | running
  | ready
deriving DecidableEq, Repr

/-! The fatal signals of `signal.h`. -/

def SIGKILL : UInt8 := 2
def SIGSEGV : UInt8 := 3
def SIGSTKFLT : UInt8 := 4
def SIGILL : UInt8 := 5

/-- `proc_regs_t`. -/
structure ProcRegs where
  eax : UInt32 := 0
  ebx : UInt32 := 0
  ecx : UInt32 := 0
  edx : UInt32 := 0
  esi : UInt32 := 0
  edi : UInt32 := 0
  esp : UInt32 := 0
  ebp : UInt32 := 0
  eip : UInt32 := 0
  eflags : UInt32 := 0
  cr3 : UInt32 := 0
deriving DecidableEq, Repr

/-- `child` and `child_count`.  The count never exceeds the array. -/
structure Children where
  child : Nat → UInt32
  childCount : Nat
  inBounds : childCount ≤ CHILD_MAX

/-- `proc_t`, without its stack and `exitval`. -/
structure Proc where
  id : UInt32
  name : List UInt8
  cwd : List UInt8
  tty : List UInt8
  status : ProcStatus
  isuser : Bool
  issignaling : Bool
  signum : UInt8
  regs : ProcRegs
  signalHandler : Option Nat
  fpuRegs : List UInt8
  /-- `fd[i].node`. -/
  fd : Nat → Option Nat
  gid : UInt32
  uid : UInt32
  parent : UInt32
  children : Children

/-- What `proc.c` calls outside itself, on a state `κ` of these parts. -/
structure Kernel (κ : Type*) where
  /-- `kmalloc(sizeof(proc_t))`. -/
  kmalloc : κ → Option Nat × κ
  kfree : Nat → κ → κ
  memAllocPgdir : κ → UInt32 × κ
  memFreePgdir : UInt32 → κ → κ
  /-- `get_krnlpgdir()`. -/
  krnlPgdir : UInt32
  /-- `fs_node_close` on an open file of the node. -/
  fsNodeClose : Nat → κ → κ
  /-- The name of `tty_get(0)`. -/
  ttyName : κ → Option (List UInt8)
  /-- `memcpy` to an address of the process. -/
  memcpy : UInt32 → List UInt8 → κ → κ

/-- A kernel whose directories come from `mem.c`.  Its heap gives out blocks one
after another and takes none back, and it has no files and no terminal. -/
def Kernel.onMemory (L : Mem.Layout) : Kernel (Nat × Mem.Memory) where
  kmalloc k := (some k.1, k.1 + 0x15000, k.2)
  kfree _ k := k
  memAllocPgdir k :=
    let (pgdir, mem) := k.2.memAllocPgdir L
    (UInt32.ofNat pgdir, k.1, mem)
  memFreePgdir pgdir k := (k.1, k.2.memFreePgdir L (Mem.frameOf pgdir.toNat))
  krnlPgdir := UInt32.ofNat L.krnlPgdir.addr
  fsNodeClose _ k := k
  ttyName _ := none
  memcpy _ _ k := k

/-- The static data of `proc.c`, the registers of the machine, and the state of
the rest of the kernel. -/
structure Procs (κ : Type*) where
  processes : SList Proc
  nextPid : UInt32
  currPid : UInt32
  procCount : Nat
  ticks : UInt32
  schedRec : Nat → UInt32
  errno : Int
  /-- The registers that `proc_regswitch` saves. -/
  cpu : ProcRegs
  /-- The image that `fxsave` stores. -/
  fpu : List UInt8
  kernel : κ

/-- The static data before any process is created. -/
def Procs.boot {κ : Type*} (cpu : ProcRegs) (fpu : List UInt8) (kernel : κ) : Procs κ where
  processes := SList.empty
  nextPid := 1
  currPid := 0
  procCount := 0
  ticks := 0
  schedRec := fun _ => 0
  errno := 0
  cpu := cpu
  fpu := fpu
  kernel := kernel

/-! ## The child array -/

namespace Children

/-- The child array of a new process. -/
def empty : Children := ⟨fun _ => 0, 0, Nat.zero_le _⟩

variable (c : Children)

/-- The entries in use, `child[0..child_count)`. -/
def window : List UInt32 := (List.range c.childCount).map c.child

/-- `child[i] = pid`. -/
def set (i : Nat) (pid : UInt32) : Children :=
  { c with child := fun j => if j = i then pid else c.child j }

/-- The slot `proc_create` finds for a child: the first that holds 0, or one
more at the end while there is room. -/
def claim : Option (Nat × Children) :=
  match findFrom (fun i => c.child i = 0) c.childCount 0 with
  | some i => some (i, c)
  | none =>
      if h : c.childCount + 1 > CHILD_MAX then none
      else some (c.childCount, ⟨c.child, c.childCount + 1, Nat.not_lt.mp h⟩)

/-- The loop of `proc_destroy`: the first entry that holds `pid` is zeroed, and
the count goes down. -/
def drop (pid : UInt32) : Children :=
  match findFrom (fun i => c.child i = pid) c.childCount 0 with
  | none => c
  | some i =>
      let c := c.set i 0
      { c with childCount := c.childCount - 1, inBounds := (Nat.sub_le _ _).trans c.inBounds }

end Children

/-! ## Changes of a process -/

namespace Proc

/-- A change of the child array. -/
def onChildren (f : Children → Children) (P : Proc) : Proc := { P with children := f P.children }

/-- The process as it leaves the CPU. -/
def stopped (fpu : List UInt8) (cpu : ProcRegs) (P : Proc) : Proc :=
  { P with fpuRegs := fpu, status := .ready, regs := cpu }

/-- The process as it gets the CPU. -/
def started (P : Proc) : Proc := { P with status := .running }

/-- A fatal signal without a handler. -/
def killed (P : Proc) : Proc := { P with status := .zombie }

/-- A signal is being handled. -/
def signaled (signum : UInt8) (P : Proc) : Proc := { P with issignaling := true, signum := signum }

/-- No signal is being handled. -/
def unsignaled (P : Proc) : Proc := { P with issignaling := false, signum := 0 }

/-- The stack pointer is moved. -/
def withEsp (esp : UInt32) (P : Proc) : Proc := { P with regs := { P.regs with esp := esp } }

@[simp] theorem onChildren_id (f : Children → Children) (P : Proc) :
    (P.onChildren f).id = P.id := rfl

@[simp] theorem stopped_id (fpu : List UInt8) (cpu : ProcRegs) (P : Proc) :
    (P.stopped fpu cpu).id = P.id := rfl

@[simp] theorem started_id (P : Proc) : P.started.id = P.id := rfl

end Proc

/-! ## The functions of `proc.c` -/

namespace Procs

variable {κ : Type*} (K : Kernel κ) (s : Procs κ)

/-- `process_count`. -/
def processCount : Nat := s.procCount

/-- `process_get`: the process at a position of the list. -/
def processGet (i : Nat) : Option (Nat × Proc) := s.processes.nth? i

/-- `process_frompid`. -/
def processFrompid (pid : UInt32) : Option (Nat × Proc) := s.processes.find? fun P => P.id = pid

/-- `process_curr`. -/
def processCurr : Option (Nat × Proc) :=
  if s.procCount = 0 then none
  else if s.currPid = 0 then none
  else s.processFrompid s.currPid

/-- `process_next`. -/
def processNext : Option (Nat × Proc) :=
  if s.procCount = 0 then none
  else if s.currPid = 0 then none
  else
    match s.processFrompid s.currPid with
    | none => s.processes.first?
    | some (c, _) =>
        match s.processes.next? c with
        | some n => some n
        | none => s.processes.first?

/-- The record `proc_create` fills in the block at `a`.  `par` is the record of
the parent.  The fields that nothing sets are zero. -/
def newProc (par : Option Proc) (a : Nat) (name : List UInt8) (isuser : Bool) (cr3 : UInt32) :
    Proc where
  id := s.nextPid
  name := name.take 256
  cwd :=
    match par with
    | none => [47]
    | some P => P.cwd.take PATH_MAX
  tty :=
    match par with
    | none => ((K.ttyName s.kernel).getD []).take NAME_MAX
    | some P => P.tty.take NAME_MAX
  status := .ready
  isuser := isuser
  issignaling := false
  signum := 0
  regs := { esp := UInt32.ofNat (a + stackOffset + PROC_STACKSIZE), cr3 := cr3 }
  signalHandler := none
  fpuRegs := s.fpu
  fd := fun _ => none
  gid := par.elim 0 Proc.gid
  uid := par.elim 0 Proc.uid
  parent := par.elim 0 Proc.id
  children := Children.empty

/-- The directory a new process runs in. -/
def newPgdir (isuser : Bool) : UInt32 × κ :=
  if isuser then K.memAllocPgdir s.kernel else (K.krnlPgdir, s.kernel)

/-- What `proc_create` does once it has a block `a` and, in the parent, a slot:
the new process becomes the head of the list, and the current one if it is the
first there is. -/
def enroll (par : Option Proc) (a : Nat) (name : List UInt8) (isuser : Int)
    (h : a ∉ s.processes.addrs) : Procs κ :=
  -- `isuser` is a field of one bit.
  let bit := isuser % 2 ≠ 0
  let (cr3, kernel) := s.newPgdir K bit
  let P := s.newProc K par a name bit cr3
  { s with
    processes := s.processes.insertHead a P h
    nextPid := s.nextPid + 1
    procCount := s.procCount + 1
    currPid := if s.procCount + 1 = 1 ∧ s.currPid = 0 then P.id else s.currPid
    kernel := kernel }

/-- Slot `i` of the parent at `p`, whose child array was extended to `c`, takes
the next pid. -/
def adopt (p i : Nat) (c : Children) : Procs κ :=
  { s with processes := s.processes.update p (Proc.onChildren fun _ => c.set i s.nextPid) }

theorem addrs_adopt (p i : Nat) (c : Children) :
    (s.adopt p i c).processes.addrs = s.processes.addrs := by simp [adopt]

/-- `proc_create`: the address of the new process, or NULL. -/
def procCreate (parent : Option Nat) (name : List UInt8) (isuser : Int) :
    Option (Option Nat × Procs κ) :=
  match K.kmalloc s.kernel with
  | (none, kernel) => some (none, { s with kernel := kernel })
  | (some a, kernel) =>
      let s := { s with kernel := kernel }
      if h : a ∈ s.processes.addrs then none
      else
        match parent with
        | none => some (some a, s.enroll K none a name isuser h)
        | some p =>
            match s.processes.get? p with
            | none => none
            | some P =>
                match P.children.claim with
                | none => some (none, { s with errno := -ECHILD, kernel := K.kfree a s.kernel })
                | some (i, c) =>
                    let h' := s.addrs_adopt p i c ▸ h
                    some (some a, (s.adopt p i c).enroll K (some P) a name isuser h')

/-- `proc_destroy` closes the files of the process. -/
def closeFiles (P : Proc) (kernel : κ) : κ :=
  forUpto OPEN_MAX (fun i k =>
    match P.fd i with
    | none => k
    | some node => K.fsNodeClose node k) kernel

/-- `proc_destroy` takes the process out of its parent's child array.  A parent
that is not in the table is a NULL pointer. -/
def disown (P : Proc) : Option (SList Proc) :=
  if P.parent ≠ 0 then
    match s.processFrompid P.parent with
    | none => none
    | some (p, _) =>
        some (s.processes.update p (Proc.onChildren fun c => c.drop P.id))
  else some s.processes

/-- `proc_destroy`, which always returns 0. -/
def procDestroy (p : Nat) : Option (Procs κ) :=
  match s.processes.get? p with
  | none => none
  | some P =>
      let kernel := closeFiles K P s.kernel
      let kernel :=
        if P.regs.cr3 ≠ K.krnlPgdir then K.memFreePgdir P.regs.cr3 kernel else kernel
      match s.disown P with
      | none => none
      | some processes =>
          some { s with
            processes := processes.remove p
            procCount := s.procCount - 1
            kernel := K.kfree p kernel }

/-- The fatal signals of `proc_sigenter`. -/
def fatal (signum : UInt8) : Bool :=
  signum = SIGKILL ∨ signum = SIGSEGV ∨ signum = SIGSTKFLT ∨ signum = SIGILL

/-- The bytes of `proc_pushstack` are written below the stack pointer. -/
def procPushstack (p : Nat) (P : Proc) (value : List UInt8) : Procs κ :=
  let esp := P.regs.esp - UInt32.ofNat value.length
  { s with
    processes := s.processes.update p (Proc.withEsp esp)
    kernel := K.memcpy esp value s.kernel }

/-- `proc_sigenter`.  `data` is the `datasz` bytes at `data`, or nothing for
NULL. -/
def procSigenter (p : Nat) (signum : UInt8) (data : Option (List UInt8)) :
    Option (Int × Procs κ) :=
  match s.processes.get? p with
  | none => none
  | some P =>
      if P.issignaling then some (-EINPROGRESS, s)
      else if P.signalHandler = none then
        if fatal signum then some (0, { s with processes := s.processes.update p Proc.killed })
        else some (-ENOSYS, s)
      else
        let s := { s with processes := s.processes.update p (Proc.signaled signum) }
        match data with
        | some (b :: bs) => some (0, s.procPushstack K p P (b :: bs))
        | _ => some (0, s)

/-- `proc_sigleave`. -/
def procSigleave (p : Nat) : Option (Int × Procs κ) :=
  match s.processes.get? p with
  | none => none
  | some P =>
      if !P.issignaling then some (-EINTR, s)
      else some (0, { s with processes := s.processes.update p Proc.unsignaled })

/-- The loop of `processes_cleanup` over the rest of the list.  A removal leaves
the link and the status of every other process as they are. -/
def cleanupFrom : List (Nat × Proc) → Procs κ → Option (Procs κ)
  | [], s => some s
  | (a, P) :: rest, s =>
      if P.status = .zombie then (s.procDestroy K a).bind (cleanupFrom rest)
      else cleanupFrom rest s

/-- `processes_cleanup`. -/
def processesCleanup : Option (Procs κ) := cleanupFrom K s.processes.nodes s

/-- The switch of `schedule` from the process at `c` to the process `N` at `n`.
The outgoing process is saved before the incoming one is loaded, so a process
that follows itself is loaded as it was saved. -/
def switch (c n : Nat) (N : Proc) : Procs κ :=
  { s with
    processes := (s.processes.update c (Proc.stopped s.fpu s.cpu)).update n Proc.started
    schedRec := fun i =>
      if i = s.ticks.toNat % SCHED_RECCOUNT then s.currPid else s.schedRec i
    ticks := s.ticks + 1
    currPid := N.id
    fpu := if n = c then s.fpu else N.fpuRegs
    cpu := if n = c then s.cpu else N.regs }

/-- `schedule`. -/
def schedule : Option (Procs κ) :=
  if s.procCount = 0 then some s
  else
    match s.processFrompid s.currPid with
    | none => some s
    | some (c, _) =>
        match s.processNext with
        | none => none
        | some (n, N) => some (s.switch c n N)

/-- `sched_getusage`. -/
def schedGetusage (pid : UInt32) : Nat := countUpto SCHED_RECCOUNT fun i => s.schedRec i = pid

/-- `proc_getcpuusage`. -/
def procGetcpuusage (P : Proc) : Nat := (s.schedGetusage P.id * 100) / SCHED_RECCOUNT

end Procs

end StardustOS.Process
