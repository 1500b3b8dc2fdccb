import StardustOS.Libc.Strings
import StardustOS.Libfile.Elf
import StardustOS.Process.Context

/-!
# Processes from files

`proc_exec`: a process is created as a child of the current one, its entry point
and arguments are put in place, and the segments of the file are loaded while
its directory is in use.

What `proc_exec` calls outside `proc.c` is the parameter `Loader`.  A process
that is created when there is none becomes the current one at once, and the next
`schedule` saves what runs then in the place of what `proc_exec` prepared.
`StartsApart` is the condition that this does not happen.

An outcome of `none` is undefined, as in `proc.c`: `proc_exec` also follows the
NULL pointer of a missing current process to load a segment, and may write over
memory that the kernel uses.  Nor does it look at the size of the stack: arguments of more
than `PROC_STACKSIZE` bytes are written over `tty`, `cwd`, `name` and `id` of the new
process, which lie below its stack, and over what lies below them.
-/

namespace StardustOS.Process

open Lib Libc Libfile

/-! ## What is outside `proc.c` -/

/-- What `proc_exec` calls, on a state `κ` of these parts. -/
structure Loader (κ : Type*) where
  /-- `fs_resolve`: the result and the node. -/
  fsResolve : List UInt8 → κ → (Int × Nat) × κ
  /-- `fs_node_read`, as `int`, from an offset of a node: the result, and the
  buffer after it. -/
  fsNodeRead : Nat → UInt32 → Nat → κ → (Int × List UInt8) × κ
  /-- `mem_map(pgdir, vaddr, count, 1, 1)`. -/
  memMap : UInt32 → UInt32 → Nat → κ → κ
  /-- The kernel uses some of the bytes from `vaddr` on. -/
  inUse : UInt32 → Nat → κ → Bool

/-- What `proc_exec` returns: an error, or the pid of the process at `a`. -/
inductive ExecResult where
  | error (r : Int)
  | created (a : Nat) (id : UInt32)
deriving DecidableEq, Repr

namespace Proc

/-- The entry point is set. -/
def withEip (eip : UInt32) (P : Proc) : Proc := { P with regs := { P.regs with eip := eip } }

/-- The directory is set. -/
def withCr3 (cr3 : UInt32) (P : Proc) : Proc := { P with regs := { P.regs with cr3 := cr3 } }

end Proc

/-! ## The functions -/

/-- `argc`, as the four bytes of an `int`. -/
def argcBytes (argc : Nat) : List UInt8 :=
  [UInt8.ofNat argc, UInt8.ofNat (argc / 0x100), UInt8.ofNat (argc / 0x10000),
    UInt8.ofNat (argc / 0x1000000)]

/-- What `proc_exec` pushes: each argument with its NUL, and `argc`. -/
def pushes (argv : Option (List (List UInt8))) : List (List UInt8) :=
  ((argv.getD []).map fun arg => cstr arg 0 ++ [0]) ++ [argcBytes (argv.getD []).length]

/-- The bytes that are pushed. -/
def pushed (argv : Option (List (List UInt8))) : Nat := ((pushes argv).map List.length).sum

/-- How `proc_exec` finds the file and reads its header. -/
def execHeader {κ : Type*} (L : Loader κ) (path : List UInt8) (kernel : κ) :
    Except Int (Nat × ElfHeader) × κ :=
  let ((r, node), kernel) := L.fsResolve path kernel
  if r < 0 then (.error r, kernel)
  else
    let ((r, bytes), kernel) := L.fsNodeRead node 0 headerSize kernel
    if r < 0 then (.error r, kernel)
    else
      let hdr := ElfHeader.ofBytes bytes
      if elfIsvalid hdr ∧ hdr.machine = 3 then (.ok (node, hdr), kernel)
      else (.error (-EINVAL), kernel)

namespace Procs

variable {κ : Type*} (K : Kernel κ) (L : Loader κ) (s : Procs κ)

/-- `proc_switch_pgdir`: the old directory, and the process and the CPU with the
new one. -/
def procSwitchPgdir (p : Nat) (pgdir : UInt32) : Option (UInt32 × Procs κ) :=
  (s.processes.get? p).map fun P =>
    (P.regs.cr3, { s with
      processes := s.processes.update p (Proc.withCr3 pgdir)
      cpu := { s.cpu with cr3 := pgdir } })

/-- The pushes on the stack of the process at `a`. -/
def pushAll (a : Nat) : List (List UInt8) → Procs κ → Option (Procs κ)
  | [], s => some s
  | value :: values, s =>
      match s.processes.get? a with
      | none => none
      | some P => pushAll a values (s.procPushstack K a P value)

/-- A segment from `0x100000` on is mapped, cleared and read while the current
process at `c` has the directory of the new one at `a`.  After a failed read it
keeps it. -/
def loadSegment (c a node : Nat) (prog : ElfProgram) : Option (Int × Procs κ) :=
  match s.processes.get? a with
  | none => none
  | some P =>
      match s.procSwitchPgdir c P.regs.cr3 with
      | none => none
      | some (old, s) =>
          if L.inUse prog.vaddr (max prog.memsz.toNat prog.filesz.toNat) s.kernel then none
          else
            let kernel := L.memMap P.regs.cr3 prog.vaddr (pageCount prog.memsz) s.kernel
            let kernel := K.memcpy prog.vaddr (List.replicate prog.memsz.toNat 0) kernel
            let ((r, bytes), kernel) :=
              L.fsNodeRead node prog.offset prog.filesz.toNat kernel
            let s := { s with kernel := K.memcpy prog.vaddr bytes kernel }
            if r < 0 then some (r, s)
            else (s.procSwitchPgdir c old).map fun (_, s) => (r, s)

/-- The loop over the program headers, up to the first failed read. -/
def loadSegments (curr : Option Nat) (a node : Nat) (hdr : ElfHeader) :
    List Nat → Procs κ → Option (Int × Procs κ)
  | [], s => some (0, s)
  | i :: is, s =>
      let ((r, bytes), kernel) :=
        L.fsNodeRead node (hdr.phoff + UInt32.ofNat (hdr.phentsize.toNat * i)) programSize s.kernel
      let s := { s with kernel := kernel }
      if r < 0 then some (r, s)
      else
        let prog := ElfProgram.ofBytes bytes
        if prog.vaddr < 0x100000 then loadSegments curr a node hdr is s
        else
          match curr with
          | none => none
          | some c =>
              match s.loadSegment K L c a node prog with
              | none => none
              | some (r, s) =>
                  if r < 0 then some (r, s) else loadSegments curr a node hdr is s

/-- `proc_exec`.  It is undefined with arguments that run out of the stack of the new process,
and where a segment is to be loaded and no process runs. -/
def procExec (path : List UInt8) (argv : Option (List (List UInt8))) :
    Option (ExecResult × Procs κ) :=
  match execHeader L path s.kernel with
  | (.error r, kernel) => some (.error r, { s with kernel := kernel })
  | (.ok (node, hdr), kernel) =>
      let s := { s with kernel := kernel }
      let curr := s.processCurr.map Prod.fst
      match s.procCreate K curr path 1 with
      | none => none
      | some (none, s) => some (.error s.errno, s)
      | some (some a, s) =>
          let id := (s.processes.get? a).elim 0 Proc.id
          let s := { s with processes := s.processes.update a (Proc.withEip hdr.entry) }
          -- The pushes would run out of the stack.
          if PROC_STACKSIZE < pushed argv then none
          else
            match pushAll K a (pushes argv) s with
            | none => none
            | some s =>
                match loadSegments K L curr a node hdr (List.range hdr.phnum.toNat) s with
                | none => none
                | some (r, s) =>
                    if r < 0 then (s.procDestroy K a).map fun s => (.error r, s)
                    else some (.created a id, s)

variable {K L} {s} {s' : Procs κ}

/-! ## What the parts of `proc_exec` change -/

/-- From `s` to `s'` only registers of processes in `T` were changed. -/
structure Spares (T : Nat → Prop) (s s' : Procs κ) : Prop where
  pids : s'.pids = s.pids
  currPid : s'.currPid = s.currPid
  procCount : s'.procCount = s.procCount
  context : ∀ a x, ¬ T a → HasContext a x s.processes → HasContext a x s'.processes

namespace Spares

variable {T : Nat → Prop} {t : Procs κ}

theorem trans (h : Spares T s t) (h' : Spares T t s') : Spares T s s' where
  pids := h'.pids.trans h.pids
  currPid := h'.currPid.trans h.currPid
  procCount := h'.procCount.trans h.procCount
  context a x ha hx := h'.context a x ha (h.context a x ha hx)

theorem mono {T' : Nat → Prop} (h : Spares T s s') (hT : ∀ a, T a → T' a) : Spares T' s s' :=
  ⟨h.pids, h.currPid, h.procCount, fun a x ha hx => h.context a x (mt (hT a) ha) hx⟩

/-- The rest of the kernel does not matter. -/
theorem of_kernel {kernel : κ} (h : Spares T { s with kernel := kernel } s') : Spares T s s' :=
  ⟨h.pids, h.currPid, h.procCount, h.context⟩

/-- The same table. -/
theorem of_same (hp : s'.processes = s.processes) (hcurr : s'.currPid = s.currPid)
    (hcount : s'.procCount = s.procCount) : Spares T s s' where
  pids := by rw [Procs.pids, hp, Procs.pids]
  currPid := hcurr
  procCount := hcount
  context _ _ _ hx := hp ▸ hx

/-- A change of registers. -/
theorem update (p : Nat) (f : Proc → Proc) (hf : ∀ P, (f P).id = P.id) :
    Spares (· = p) s { s with processes := s.processes.update p f } where
  pids := SList.map_contents_update hf p
  currPid := rfl
  procCount := rfl
  context _ _ ha hx := hx.update_ne ha

theorem pidsOk (h : Spares T s s') (hs : PidsOk s) : PidsOk s' :=
  ⟨h.pids ▸ hs.nodup, h.pids ▸ hs.nonzero, by rw [h.procCount, h.pids, hs.count]⟩

theorem asleep {a : Nat} {r : ProcRegs} {fpu : List UInt8} (h : Spares T s s') (ha : ¬ T a)
    (hs : Asleep a r fpu s) : Asleep a r fpu s' := by
  obtain ⟨pid, hx, hne⟩ := hs
  exact ⟨pid, h.context _ _ ha hx, h.currPid ▸ hne⟩

end Spares

/-- What each push keeps, all of them keep. -/
theorem pushAll_rel {a : Nat} {R : Procs κ → Procs κ → Prop} (hrefl : ∀ s, R s s)
    (htrans : ∀ s t u, R s t → R t u → R s u)
    (hpush : ∀ s P value, s.processes.get? a = some P → R s (s.procPushstack K a P value))
    (values : List (List UInt8)) {s s' : Procs κ} (h : pushAll K a values s = some s') :
    R s s' := by
  induction values generalizing s with
  | nil =>
      obtain rfl := Option.some.inj h
      exact hrefl s
  | cons value values ih =>
      cases hP : s.processes.get? a with
      | none => simp [pushAll, hP] at h
      | some P =>
          simp only [pushAll, hP] at h
          exact htrans _ _ _ (hpush s P value hP) (ih h)

theorem pushAll_spares {a : Nat} (values : List (List UInt8)) {s s' : Procs κ}
    (h : pushAll K a values s = some s') : Spares (· = a) s s' := by
  refine pushAll_rel (fun s => .of_same rfl rfl rfl) (fun _ _ _ => .trans) ?_ values h
  intro s P value _
  have hmoved := Spares.update (s := s) a
    (Proc.withEsp (P.regs.esp - UInt32.ofNat value.length)) fun _ => rfl
  exact ⟨hmoved.pids, hmoved.currPid, hmoved.procCount, hmoved.context⟩

/-- Where a process is found, `proc_switch_pgdir` changes its directory. -/
theorem procSwitchPgdir_spares {p : Nat} {pgdir old : UInt32}
    (h : s.procSwitchPgdir p pgdir = some (old, s')) : Spares (· = p) s s' := by
  obtain ⟨P, -, hs'⟩ := Option.map_eq_some_iff.mp h
  obtain ⟨-, rfl⟩ := Prod.mk.inj hs'
  have hswitch := Spares.update (s := s) p (Proc.withCr3 pgdir) fun _ => rfl
  exact ⟨hswitch.pids, hswitch.currPid, hswitch.procCount, hswitch.context⟩

/-- The read of a segment onto its cleared pages. -/
def segmentRead (K : Kernel κ) (L : Loader κ) (dir : UInt32) (node : Nat) (prog : ElfProgram)
    (kernel : κ) : (Int × List UInt8) × κ :=
  let kernel := L.memMap dir prog.vaddr (pageCount prog.memsz) kernel
  let kernel := K.memcpy prog.vaddr (List.replicate prog.memsz.toNat 0) kernel
  L.fsNodeRead node prog.offset prog.filesz.toNat kernel

/-- A segment is read between two switches of the directory, the second of which is
left out when the read fails. -/
theorem loadSegment_cases {c a node : Nat} {prog : ElfProgram} {r : Int}
    (h : s.loadSegment K L c a node prog = some (r, s')) :
    ∃ P old t bytes kernel, s.processes.get? a = some P ∧
      s.procSwitchPgdir c P.regs.cr3 = some (old, t) ∧
        segmentRead K L P.regs.cr3 node prog t.kernel = ((r, bytes), kernel) ∧
          (r < 0 ∧ s' = { t with kernel := K.memcpy prog.vaddr bytes kernel } ∨
            0 ≤ r ∧ ∃ old', ({ t with kernel := K.memcpy prog.vaddr bytes kernel } :
              Procs κ).procSwitchPgdir c old = some (old', s')) := by
  cases ha : s.processes.get? a with
  | none => simp [loadSegment, ha] at h
  | some P =>
      cases hsw : s.procSwitchPgdir c P.regs.cr3 with
      | none => simp [loadSegment, ha, hsw] at h
      | some o =>
          simp only [loadSegment, ha, hsw] at h
          split at h
          · cases h
          · split at h
            · rename_i hneg
              obtain ⟨rfl, rfl⟩ := Prod.mk.inj (Option.some.inj h)
              exact ⟨P, o.1, o.2, _, _, rfl, hsw, rfl, Or.inl ⟨hneg, rfl⟩⟩
            · rename_i hread
              obtain ⟨⟨old', t⟩, ht, heq⟩ := Option.map_eq_some_iff.mp h
              obtain ⟨rfl, rfl⟩ := Prod.mk.inj heq
              exact ⟨P, o.1, o.2, _, _, rfl, hsw, rfl, Or.inr ⟨Int.not_lt.mp hread, old', ht⟩⟩

/-- A turn of the loop: the header cannot be read, or the segment is skipped, or it
is loaded for the current process. -/
theorem loadSegments_cons {curr : Option Nat} {a node i : Nat} {hdr : ElfHeader} {is : List Nat}
    {r : Int} (h : loadSegments K L curr a node hdr (i :: is) s = some (r, s')) :
    ∃ r₀ bytes kernel, L.fsNodeRead node (hdr.phoff + UInt32.ofNat (hdr.phentsize.toNat * i))
        programSize s.kernel = ((r₀, bytes), kernel) ∧
      (r₀ < 0 ∧ r = r₀ ∧ s' = { s with kernel := kernel } ∨
        0 ≤ r₀ ∧ (ElfProgram.ofBytes bytes).vaddr < 0x100000 ∧
          loadSegments K L curr a node hdr is { s with kernel := kernel } = some (r, s') ∨
        0 ≤ r₀ ∧ 0x100000 ≤ (ElfProgram.ofBytes bytes).vaddr ∧ ∃ c r₁ t, curr = some c ∧
          ({ s with kernel := kernel } : Procs κ).loadSegment K L c a node (.ofBytes bytes) =
            some (r₁, t) ∧
          (r₁ < 0 ∧ r = r₁ ∧ s' = t ∨
            0 ≤ r₁ ∧ loadSegments K L curr a node hdr is t = some (r, s'))) := by
  refine ⟨_, _, _, rfl, ?_⟩
  simp only [loadSegments] at h
  split at h
  · rename_i hneg
    obtain ⟨rfl, rfl⟩ := Prod.mk.inj (Option.some.inj h)
    exact Or.inl ⟨hneg, rfl, rfl⟩
  · rename_i hread
    right
    split at h
    · rename_i hlow
      exact Or.inl ⟨Int.not_lt.mp hread, hlow, h⟩
    · rename_i hhigh
      refine Or.inr ⟨Int.not_lt.mp hread, UInt32.not_lt.mp hhigh, ?_⟩
      cases curr with
      | none => cases h
      | some c =>
          dsimp only at h
          split at h
          · cases h
          · rename_i r₁ t ht
            refine ⟨c, r₁, t, rfl, ht, ?_⟩
            split at h
            · rename_i hneg
              obtain ⟨rfl, rfl⟩ := Prod.mk.inj (Option.some.inj h)
              exact Or.inl ⟨hneg, rfl, rfl⟩
            · rename_i hok
              exact Or.inr ⟨Int.not_lt.mp hok, h⟩

theorem loadSegment_spares {c a node : Nat} {prog : ElfProgram} {r : Int}
    (h : s.loadSegment K L c a node prog = some (r, s')) : Spares (· = c) s s' := by
  obtain ⟨P, old, t, bytes, kernel, -, hto, -, hend⟩ := loadSegment_cases h
  have hswitch := procSwitchPgdir_spares hto
  obtain ⟨-, rfl⟩ | ⟨-, old', hback⟩ := hend
  · exact hswitch.trans (.of_same rfl rfl rfl)
  · exact hswitch.trans (procSwitchPgdir_spares hback).of_kernel

theorem procSwitchPgdir_get? {p b : Nat} {pgdir old : UInt32} (hb : b ≠ p)
    (h : s.procSwitchPgdir p pgdir = some (old, s')) :
    s'.processes.get? b = s.processes.get? b := by
  obtain ⟨P, -, hs'⟩ := Option.map_eq_some_iff.mp h
  obtain ⟨-, rfl⟩ := Prod.mk.inj hs'
  exact SList.get?_update_ne hb

theorem loadSegment_get? {c a b node : Nat} {prog : ElfProgram} {r : Int} (hb : b ≠ c)
    (h : s.loadSegment K L c a node prog = some (r, s')) :
    s'.processes.get? b = s.processes.get? b := by
  obtain ⟨P, old, t, bytes, kernel, -, hto, -, hend⟩ := loadSegment_cases h
  have hswitch := procSwitchPgdir_get? hb hto
  obtain ⟨-, rfl⟩ | ⟨-, old', hback⟩ := hend
  · exact hswitch
  · exact (procSwitchPgdir_get? hb hback).trans hswitch

/-- What each read and each segment keeps, the loop keeps. -/
theorem loadSegments_rel {curr : Option Nat} {a node : Nat} {hdr : ElfHeader}
    {R : Procs κ → Procs κ → Prop} (hrefl : ∀ s, R s s) (htrans : ∀ s t u, R s t → R t u → R s u)
    (hread : ∀ (s : Procs κ) offset size, R s { s with
      kernel := (L.fsNodeRead node offset size s.kernel).2 })
    (hload : ∀ s t c prog r, some c = curr → s.loadSegment K L c a node prog = some (r, t) → R s t)
    (is : List Nat) {s s' : Procs κ} {r : Int}
    (h : loadSegments K L curr a node hdr is s = some (r, s')) : R s s' := by
  induction is generalizing s with
  | nil =>
      obtain ⟨-, rfl⟩ := Prod.mk.inj (Option.some.inj h)
      exact hrefl s
  | cons i is ih =>
      obtain ⟨r₀, bytes, kernel, hbytes, hturn⟩ := loadSegments_cons h
      have hheader : R s { s with kernel := kernel } := by
        have hafter := hread s (hdr.phoff + UInt32.ofNat (hdr.phentsize.toNat * i)) programSize
        rwa [hbytes] at hafter
      obtain ⟨-, -, rfl⟩ | ⟨-, -, hrest⟩ | ⟨-, -, c, r₁, t, rfl, hsegment, hend⟩ := hturn
      · exact hheader
      · exact htrans _ _ _ hheader (ih hrest)
      · have hloaded := htrans _ _ _ hheader (hload _ _ _ _ _ rfl hsegment)
        obtain ⟨-, -, rfl⟩ | ⟨-, hrest⟩ := hend
        · exact hloaded
        · exact htrans _ _ _ hloaded (ih hrest)

theorem loadSegments_spares {curr : Option Nat} {a node : Nat} {hdr : ElfHeader}
    (is : List Nat) {s s' : Procs κ} {r : Int}
    (h : loadSegments K L curr a node hdr is s = some (r, s')) :
    Spares (fun c => some c = curr) s s' := by
  refine loadSegments_rel (fun s => .of_same rfl rfl rfl) (fun _ _ _ => .trans)
    (fun s _ _ => .of_same rfl rfl rfl) ?_ is h
  intro s t c prog r hc hsegment
  refine (loadSegment_spares hsegment).mono ?_
  rintro b rfl
  exact hc

/-- The segments leave every process but the current one as it is. -/
theorem loadSegments_get? {curr : Option Nat} {a b node : Nat} {hdr : ElfHeader}
    (hb : some b ≠ curr) (is : List Nat) {s s' : Procs κ} {r : Int}
    (h : loadSegments K L curr a node hdr is s = some (r, s')) :
    s'.processes.get? b = s.processes.get? b := by
  refine loadSegments_rel (R := fun s t => t.processes.get? b = s.processes.get? b)
    (fun _ => rfl) (fun _ _ _ hst htu => htu.trans hst) (fun _ _ _ => rfl) ?_ is h
  intro s t c prog r hc hsegment
  refine loadSegment_get? ?_ hsegment
  rintro rfl
  exact hb hc

/-! ## The context of the new process -/

/-- The registers that `proc_create` gives the process at `a`. -/
def createdRegs (a : Nat) (cr3 : UInt32) : ProcRegs where
  esp := UInt32.ofNat (a + stackOffset + PROC_STACKSIZE)
  cr3 := cr3

/-- The registers that `proc_exec` prepares for it. -/
def preparedRegs (a : Nat) (cr3 : UInt32) (hdr : ElfHeader) (argv : Option (List (List UInt8))) :
    ProcRegs where
  esp := UInt32.ofNat (a + stackOffset + PROC_STACKSIZE) - UInt32.ofNat (pushed argv)
  eip := hdr.entry
  cr3 := cr3

/-- The context that `proc_create` gives a process. -/
theorem enroll_context (s : Procs κ) (par : Option Proc) (a : Nat) (name : List UInt8)
    (h : a ∉ s.processes.addrs) :
    HasContext a (s.nextPid, createdRegs a (K.memAllocPgdir s.kernel).1, s.fpu)
      (s.enroll K par a name 1 h).processes :=
  ⟨_, List.mem_cons_self, rfl⟩

theorem procCreate_context {parent : Option Nat} {a : Nat} {path : List UInt8}
    (h : s.procCreate K parent path 1 = some (some a, s')) :
    HasContext a (s.nextPid, createdRegs a (K.memAllocPgdir (K.kmalloc s.kernel).2).1, s.fpu)
      s'.processes := by
  obtain ⟨-, hnone, -⟩ | ⟨b, -, fresh, ⟨-, hb, rfl⟩ | ⟨p, P, -, -, hend⟩⟩ := procCreate_cases h
  · cases hnone
  · obtain rfl := Option.some.inj hb
    exact enroll_context { s with kernel := (K.kmalloc s.kernel).2 } none a path fresh
  · obtain ⟨-, hnone, -⟩ | ⟨i, c, fresh', -, hb, rfl⟩ := hend
    · cases hnone
    · obtain rfl := Option.some.inj hb
      exact enroll_context (adopt { s with kernel := (K.kmalloc s.kernel).2 } p i c) (some P) a
        path fresh'

/-- A new process has no handler, and no signal is being handled. -/
theorem procCreate_get? {parent : Option Nat} {a : Nat} {name : List UInt8} {isuser : Int}
    (h : s.procCreate K parent name isuser = some (some a, s')) :
    ∃ N, s'.processes.get? a = some N ∧ N.signalHandler = none ∧ N.issignaling = false ∧
      N.regs.esp = UInt32.ofNat (a + stackOffset + PROC_STACKSIZE) := by
  obtain ⟨-, hnone, -⟩ | ⟨b, -, fresh, ⟨-, hb, rfl⟩ | ⟨p, P, -, -, hend⟩⟩ := procCreate_cases h
  · cases hnone
  · obtain rfl := Option.some.inj hb
    exact ⟨_, SList.get?_insertHead fresh, rfl, rfl, rfl⟩
  · obtain ⟨-, hnone, -⟩ | ⟨i, c, fresh', -, hb, rfl⟩ := hend
    · cases hnone
    · obtain rfl := Option.some.inj hb
      exact ⟨_, SList.get?_insertHead fresh', rfl, rfl, rfl⟩

/-- The entry point is put in place. -/
theorem HasContext.withEip {l : SList Proc} {a : Nat} {pid : UInt32} {r : ProcRegs}
    {fpu : List UInt8} (h : HasContext a (pid, r, fpu) l) (eip : UInt32) :
    HasContext a (pid, { r with eip := eip }, fpu) (l.update a (Proc.withEip eip)) := by
  obtain ⟨P, hP, hx⟩ := h
  obtain ⟨rfl, rfl, rfl⟩ : P.id = pid ∧ P.regs = r ∧ P.fpuRegs = fpu := by
    simpa [Proc.context] using hx
  exact ⟨_, SList.mem_update_self.mpr ⟨P, hP, rfl⟩, rfl⟩

/-- The pushes move the stack pointer down by what they push. -/
theorem pushAll_context {a : Nat} {pid : UInt32} {fpu : List UInt8}
    (values : List (List UInt8)) {r : ProcRegs} {s s' : Procs κ}
    (h : pushAll K a values s = some s') (hx : HasContext a (pid, r, fpu) s.processes) :
    HasContext a (pid, { r with
      esp := r.esp - UInt32.ofNat (values.map List.length).sum }, fpu) s'.processes := by
  induction values generalizing r s with
  | nil =>
      obtain rfl := Option.some.inj h
      simpa using hx
  | cons value values ih =>
      obtain ⟨P, hP, hPx⟩ := hx
      obtain ⟨rfl, rfl, rfl⟩ : P.id = pid ∧ P.regs = r ∧ P.fpuRegs = fpu := by
        simpa [Proc.context] using hPx
      simp only [pushAll, SList.get?_eq_some.mpr hP] at h
      have hrest := ih h
        ⟨_, SList.mem_update_self.mpr ⟨P, hP, rfl⟩, rfl⟩
      simpa [Proc.withEsp, UInt32.ofNat_add, sub_sub] using hrest

/-! ## What `proc_exec` can do -/

/-- The rest of the kernel does not matter to the table. -/
theorem CreateSpec.of_kernel {parent r : Option Nat} {kernel : κ}
    (h : CreateSpec { s with kernel := kernel } parent r s') : CreateSpec s parent r s' := by
  have henrolled : ∀ {l a N}, Enrolled { s with kernel := kernel } s' l a N →
      Enrolled s s' l a N := fun he =>
    ⟨he.fresh, he.processes, he.nextPid, he.procCount, he.currPid, he.id, he.status, he.children⟩
  cases h with
  | failed same => exact .failed ⟨same.processes, same.nextPid, same.currPid, same.procCount⟩
  | root parent enrolled => exact .root parent (henrolled enrolled)
  | child mem claim parent enrolled => exact .child mem claim parent (henrolled enrolled)

theorem CreateSpec.same {parent : Option Nat} (h : CreateSpec s parent none s') :
    SameTable s s' := by
  cases h with
  | failed same => exact same

/-- The process that runs, if there is one, was found in the table. -/
theorem processCurr_mem {c : Nat × Proc} (h : s.processCurr = some c) :
    c ∈ s.processes.nodes ∧ c.2.id = s.currPid := by
  unfold processCurr at h
  split at h
  · cases h
  · split at h
    · cases h
    · exact processFrompid_mem h

/-- A process is created in a block that no other process has. -/
theorem CreateSpec.fresh {parent : Option Nat} {a : Nat} (h : CreateSpec s parent (some a) s') :
    a ∉ s.processes.addrs := by
  cases h with
  | root parent enrolled => exact enrolled.fresh
  | child mem claim parent enrolled => simpa using enrolled.fresh

/-- The process at `a` was created in `t`, and from then on only its registers
and those of the current process were written.  It holds what was prepared for
it. -/
structure Prepared (K : Kernel κ) (L : Loader κ) (s : Procs κ) (path : List UInt8)
    (argv : Option (List (List UInt8))) (a : Nat) (t s' : Procs κ) : Prop where
  create : CreateSpec s (s.processCurr.map Prod.fst) (some a) t
  spares : Spares (fun b => b = a ∨ some b = s.processCurr.map Prod.fst) t s'
  context : ∃ node hdr kernel, execHeader L path s.kernel = (.ok (node, hdr), kernel) ∧
    HasContext a (s.nextPid,
      preparedRegs a (K.memAllocPgdir (K.kmalloc kernel).2).1 hdr argv, s.fpu) s'.processes

/-- What `proc_exec` can do: leave the table as it is, create a process, or
destroy the one it created. -/
inductive ExecSpec (K : Kernel κ) (L : Loader κ) (s : Procs κ) (path : List UInt8)
    (argv : Option (List (List UInt8))) : ExecResult → Procs κ → Prop where
  | refused {r : Int} {s' : Procs κ} (same : SameTable s s') :
      ExecSpec K L s path argv (.error r) s'
  | created {a : Nat} {pid : UInt32} {t s' : Procs κ} (prepared : Prepared K L s path argv a t s') :
      ExecSpec K L s path argv (.created a pid) s'
  | destroyed {r : Int} {a : Nat} {t u s' : Procs κ} (prepared : Prepared K L s path argv a t u)
      (destroy : DestroySpec u a s') : ExecSpec K L s path argv (.error r) s'

/-- `proc_exec` came to its loop: it read the header of `node`, created the process
at `a` in `t`, pushed its arguments in `u`, and the loop returned `r` in `v`. -/
structure Ran (K : Kernel κ) (L : Loader κ) (s : Procs κ) (path : List UInt8)
    (argv : Option (List (List UInt8))) (node : Nat) (hdr : ElfHeader) (kernel : κ) (a : Nat)
    (t u v : Procs κ) (r : Int) : Prop where
  header : execHeader L path s.kernel = (.ok (node, hdr), kernel)
  create : ({ s with kernel := kernel } : Procs κ).procCreate K (s.processCurr.map Prod.fst)
    path 1 = some (some a, t)
  push : pushAll K a (pushes argv)
    { t with processes := t.processes.update a (Proc.withEip hdr.entry) } = some u
  load : loadSegments K L (s.processCurr.map Prod.fst) a node hdr (List.range hdr.phnum.toNat) u =
    some (r, v)

namespace Ran

variable {path : List UInt8} {argv : Option (List (List UInt8))} {node a : Nat} {hdr : ElfHeader}
  {kernel : κ} {t u v : Procs κ} {r : Int}

theorem createSpec (h : Ran K L s path argv node hdr kernel a t u v r) :
    CreateSpec s (s.processCurr.map Prod.fst) (some a) t :=
  (procCreate_spec h.create).of_kernel

/-- The new process is not the current one. -/
theorem ne_curr (h : Ran K L s path argv node hdr kernel a t u v r) :
    some a ≠ s.processCurr.map Prod.fst := by
  intro hcurr
  obtain ⟨c, hc, rfl⟩ := Option.map_eq_some_iff.mp hcurr.symm
  exact h.createSpec.fresh (SList.mem_addrs (processCurr_mem hc).1)

/-- It holds what was prepared for it before the segments are loaded. -/
theorem context (h : Ran K L s path argv node hdr kernel a t u v r) :
    HasContext a (s.nextPid,
      preparedRegs a (K.memAllocPgdir (K.kmalloc kernel).2).1 hdr argv, s.fpu) u.processes :=
  pushAll_context _ h.push ((procCreate_context h.create).withEip hdr.entry)

/-- And after that. -/
theorem context_load (h : Ran K L s path argv node hdr kernel a t u v r) :
    HasContext a (s.nextPid,
      preparedRegs a (K.memAllocPgdir (K.kmalloc kernel).2).1 hdr argv, s.fpu) v.processes :=
  (loadSegments_spares _ h.load).context a _ h.ne_curr h.context

theorem prepared (h : Ran K L s path argv node hdr kernel a t u v r) :
    Prepared K L s path argv a t v := by
  have hargs : Spares (· = a) t u :=
    (Spares.update a (Proc.withEip hdr.entry) fun _ => rfl).trans (pushAll_spares _ h.push)
  have hload := loadSegments_spares _ h.load
  exact ⟨h.createSpec, (hargs.mono fun b hb => Or.inl hb).trans (hload.mono fun b hb => Or.inr hb),
    node, hdr, kernel, h.header, h.context_load⟩

/-- A call comes to its loop in one way. -/
theorem unique {node' a' : Nat} {hdr' : ElfHeader} {kernel' : κ} {t' u' v' : Procs κ} {r' : Int}
    (h : Ran K L s path argv node hdr kernel a t u v r)
    (h' : Ran K L s path argv node' hdr' kernel' a' t' u' v' r') :
    node = node' ∧ hdr = hdr' ∧ kernel = kernel' ∧ a = a' ∧ t = t' ∧ u = u' ∧ v = v' ∧ r = r' := by
  obtain ⟨hfile, rfl⟩ := Prod.mk.inj (h.header.symm.trans h'.header)
  obtain ⟨rfl, rfl⟩ := Prod.mk.inj (Except.ok.inj hfile)
  obtain ⟨ha, rfl⟩ := Prod.mk.inj (Option.some.inj (h.create.symm.trans h'.create))
  obtain rfl := Option.some.inj ha
  obtain rfl := Option.some.inj (h.push.symm.trans h'.push)
  obtain ⟨rfl, rfl⟩ := Prod.mk.inj (Option.some.inj (h.load.symm.trans h'.load))
  exact ⟨rfl, rfl, rfl, rfl, rfl, rfl, rfl, rfl⟩

end Ran

/-- `proc_exec` gives up before its loop, or it comes to the loop and returns the
new process or destroys it. -/
theorem procExec_cases {path : List UInt8} {argv : Option (List (List UInt8))} {res : ExecResult}
    (h : s.procExec K L path argv = some (res, s')) :
    (∃ r, res = .error r ∧
        ((∃ e, (execHeader L path s.kernel).1 = .error e) ∧
            s' = { s with kernel := (execHeader L path s.kernel).2 } ∨
          (∃ file, (execHeader L path s.kernel).1 = .ok file) ∧
            ({ s with kernel := (execHeader L path s.kernel).2 } : Procs κ).procCreate K
              (s.processCurr.map Prod.fst) path 1 = some (none, s')) ∧
        ∀ node hdr kernel a t u v r, ¬ Ran K L s path argv node hdr kernel a t u v r) ∨
      ∃ node hdr kernel a t u v r, Ran K L s path argv node hdr kernel a t u v r ∧
        pushed argv ≤ PROC_STACKSIZE ∧
          (res = .error r ∧ r < 0 ∧ v.procDestroy K a = some s' ∨
            0 ≤ r ∧ (∃ id, res = .created a id) ∧ v = s') := by
  cases hh : execHeader L path s.kernel with
  | mk header kernel =>
  cases header with
  | error r =>
      simp only [procExec, hh, Option.some.injEq, Prod.mk.injEq] at h
      obtain ⟨rfl, rfl⟩ := h
      refine Or.inl ⟨r, rfl, Or.inl ⟨⟨r, rfl⟩, rfl⟩, ?_⟩
      intro node hdr kernel' a t u v r' hran
      cases hh.symm.trans hran.header
  | ok nh =>
      simp only [procExec, hh] at h
      split at h
      · cases h
      · rename_i t ht
        obtain ⟨rfl, rfl⟩ := Prod.mk.inj (Option.some.inj h)
        refine Or.inl ⟨_, rfl, Or.inr ⟨⟨nh, rfl⟩, ht⟩, ?_⟩
        intro node hdr kernel' a t' u v r' hran
        obtain ⟨-, rfl⟩ := Prod.mk.inj (hh.symm.trans hran.header)
        cases (Prod.mk.inj (Option.some.inj (ht.symm.trans hran.create))).1
      · rename_i a t ht
        right
        split at h
        · cases h
        · rename_i hfits
          split at h
          · cases h
          · rename_i u hu
            split at h
            · cases h
            · rename_i r v hv
              refine ⟨nh.1, nh.2, kernel, a, t, u, v, r, ⟨hh, ht, hu, hv⟩,
                Nat.not_lt.mp hfits, ?_⟩
              split at h
              · rename_i hneg
                obtain ⟨w, hw, heq⟩ := Option.map_eq_some_iff.mp h
                obtain ⟨rfl, rfl⟩ := Prod.mk.inj heq
                exact Or.inl ⟨rfl, hneg, hw⟩
              · rename_i hr
                obtain ⟨rfl, rfl⟩ := Prod.mk.inj (Option.some.inj h)
                exact Or.inr ⟨Int.not_lt.mp hr, ⟨_, rfl⟩, rfl⟩

theorem procExec_spec {path : List UInt8} {argv : Option (List (List UInt8))} {res : ExecResult}
    (h : s.procExec K L path argv = some (res, s')) : ExecSpec K L s path argv res s' := by
  obtain ⟨r, rfl, hrefused, -⟩ | ⟨node, hdr, kernel, a, t, u, v, r, hran, -, hend⟩ :=
    procExec_cases h
  · obtain ⟨-, rfl⟩ | ⟨-, hcreate⟩ := hrefused
    · exact .refused ⟨rfl, rfl, rfl, rfl⟩
    · exact .refused (procCreate_spec hcreate).of_kernel.same
  · obtain ⟨rfl, -, hdestroy⟩ | ⟨-, ⟨id, rfl⟩, rfl⟩ := hend
    · exact .destroyed hran.prepared (procDestroy_spec hdestroy)
    · exact .created hran.prepared

/-! ## What the calls leave alone in the rest of the kernel -/

section Keeps

variable {τ : Type*}

/-- Nothing that `proc.c` calls changes `f`. -/
structure KernelKeeps (K : Kernel κ) (f : κ → τ) : Prop where
  kmalloc : ∀ k, f (K.kmalloc k).2 = f k
  kfree : ∀ a k, f (K.kfree a k) = f k
  memAllocPgdir : ∀ k, f (K.memAllocPgdir k).2 = f k
  memFreePgdir : ∀ pgdir k, f (K.memFreePgdir pgdir k) = f k
  fsNodeClose : ∀ node k, f (K.fsNodeClose node k) = f k
  memcpy : ∀ addr bytes k, f (K.memcpy addr bytes k) = f k

/-- Nothing that `proc_exec` calls besides, once the path is resolved, changes it. -/
structure LoaderKeeps (L : Loader κ) (f : κ → τ) : Prop where
  fsNodeRead : ∀ node offset size k, f (L.fsNodeRead node offset size k).2 = f k
  memMap : ∀ pgdir vaddr count k, f (L.memMap pgdir vaddr count k) = f k

variable {f : κ → τ}

theorem enroll_keeps (hK : KernelKeeps K f) (par : Option Proc) (a : Nat) (name : List UInt8)
    (isuser : Int) (h : a ∉ s.processes.addrs) :
    f (s.enroll K par a name isuser h).kernel = f s.kernel := by
  show f (s.newPgdir K (decide (isuser % 2 ≠ 0))).2 = f s.kernel
  rw [newPgdir]
  split
  · exact hK.memAllocPgdir s.kernel
  · rfl

theorem procCreate_keeps (hK : KernelKeeps K f) {parent r : Option Nat} {name : List UInt8}
    {isuser : Int} (h : s.procCreate K parent name isuser = some (r, s')) :
    f s'.kernel = f s.kernel := by
  obtain ⟨-, -, rfl⟩ | ⟨a, -, fresh, ⟨-, -, rfl⟩ | ⟨p, P, -, -, hend⟩⟩ := procCreate_cases h
  · exact hK.kmalloc s.kernel
  · exact (enroll_keeps (s := { s with kernel := (K.kmalloc s.kernel).2 }) hK none a name isuser
      fresh).trans (hK.kmalloc s.kernel)
  · obtain ⟨-, -, rfl⟩ | ⟨i, c, fresh', -, -, rfl⟩ := hend
    · exact (hK.kfree a _).trans (hK.kmalloc s.kernel)
    · exact (enroll_keeps hK (some P) a name isuser fresh').trans (hK.kmalloc s.kernel)

theorem closeFiles_keeps (hK : KernelKeeps K f) (P : Proc) (k : κ) :
    f (closeFiles K P k) = f k := by
  refine forUpto_inv (P := fun _ t => f t = f k) OPEN_MAX rfl ?_
  intro i t _ ht
  split
  · exact ht
  · exact (hK.fsNodeClose _ t).trans ht

theorem procDestroy_keeps (hK : KernelKeeps K f) {p : Nat} (h : s.procDestroy K p = some s') :
    f s'.kernel = f s.kernel := by
  obtain ⟨P, l, -, -, rfl⟩ := procDestroy_cases h
  refine (hK.kfree p _).trans ?_
  split
  · exact (hK.memFreePgdir _ _).trans (closeFiles_keeps hK P s.kernel)
  · exact closeFiles_keeps hK P s.kernel

theorem pushAll_keeps (hK : KernelKeeps K f) {a : Nat} (values : List (List UInt8))
    {s s' : Procs κ} (h : pushAll K a values s = some s') : f s'.kernel = f s.kernel :=
  pushAll_rel (R := fun s t => f t.kernel = f s.kernel) (fun _ => rfl)
    (fun _ _ _ hst htu => htu.trans hst) (fun s _ value _ => hK.memcpy _ value s.kernel) values h

theorem loadSegment_keeps (hK : KernelKeeps K f) (hL : LoaderKeeps L f) {c a node : Nat}
    {prog : ElfProgram} {r : Int} (h : s.loadSegment K L c a node prog = some (r, s')) :
    f s'.kernel = f s.kernel := by
  obtain ⟨P, old, t, bytes, kernel, -, hto, hread, hend⟩ := loadSegment_cases h
  obtain ⟨Q, -, heq⟩ := Option.map_eq_some_iff.mp hto
  obtain ⟨-, rfl⟩ := Prod.mk.inj heq
  have hkernel : f kernel = f s.kernel := by
    rw [show kernel = _ from (congrArg Prod.snd hread).symm, segmentRead]
    exact (hL.fsNodeRead _ _ _ _).trans ((hK.memcpy _ _ _).trans (hL.memMap _ _ _ _))
  have hafter := (hK.memcpy prog.vaddr bytes kernel).trans hkernel
  obtain ⟨-, rfl⟩ | ⟨-, old', hback⟩ := hend
  · exact hafter
  · obtain ⟨Q', -, heq'⟩ := Option.map_eq_some_iff.mp hback
    obtain ⟨-, rfl⟩ := Prod.mk.inj heq'
    exact hafter

theorem loadSegments_keeps (hK : KernelKeeps K f) (hL : LoaderKeeps L f) {curr : Option Nat}
    {a node : Nat} {hdr : ElfHeader} (is : List Nat) {s : Procs κ} {r : Int}
    (h : loadSegments K L curr a node hdr is s = some (r, s')) : f s'.kernel = f s.kernel :=
  loadSegments_rel (R := fun s t => f t.kernel = f s.kernel) (fun _ => rfl)
    (fun _ _ _ hst htu => htu.trans hst) (fun s _ _ => hL.fsNodeRead _ _ _ s.kernel)
    (fun _ _ _ _ _ _ hsegment => loadSegment_keeps hK hL hsegment) is h

theorem execHeader_keeps (hL : LoaderKeeps L f) (path : List UInt8) (k : κ) :
    f (execHeader L path k).2 = f (L.fsResolve path k).2 := by
  rw [execHeader]
  dsimp only
  split
  · rfl
  · split
    · exact hL.fsNodeRead _ _ _ _
    · split
      · exact hL.fsNodeRead _ _ _ _
      · exact hL.fsNodeRead _ _ _ _

/-- After the path is resolved `proc_exec` changes nothing of what its calls leave
alone. -/
theorem procExec_keeps (hK : KernelKeeps K f) (hL : LoaderKeeps L f) {path : List UInt8}
    {argv : Option (List (List UInt8))} {res : ExecResult}
    (h : s.procExec K L path argv = some (res, s')) :
    f s'.kernel = f (L.fsResolve path s.kernel).2 := by
  rw [← execHeader_keeps hL path s.kernel]
  obtain ⟨-, -, hrefused, -⟩ | ⟨node, hdr, kernel, a, t, u, v, r, hran, -, hend⟩ :=
    procExec_cases h
  · obtain ⟨-, rfl⟩ | ⟨-, hcreate⟩ := hrefused
    · rfl
    · exact procCreate_keeps hK hcreate
  · have hloop : f v.kernel = f (execHeader L path s.kernel).2 := by
      rw [hran.header]
      exact (loadSegments_keeps hK hL _ hran.load).trans
        ((pushAll_keeps hK _ hran.push).trans (procCreate_keeps hK hran.create))
    obtain ⟨-, -, hdestroy⟩ | ⟨-, -, rfl⟩ := hend
    · exact (procDestroy_keeps hK hdestroy).trans hloop
    · exact hloop

end Keeps

end Procs

end StardustOS.Process
