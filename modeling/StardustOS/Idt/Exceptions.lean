import StardustOS.Lib.X86

/-!
# Exceptions

The routine of an exception vector brings the stack into the form of a `regs_t`:
below what the processor pushed it pushes an error code, where the processor has
pushed none, the number of the vector and the registers.  Then it calls
`isr_handler`, which calls the handler that is registered for the number.

The macros of the routines have the number as an argument, and push 1.
-/

namespace StardustOS.Idt

open Lib Lib.X86

/-! ## The table -/

/-- An entry of the interrupt descriptor table. -/
structure IdtEntry where
  baseLow : UInt16
  selector : UInt16
  always0 : UInt8
  flags : UInt8
  baseHigh : UInt16

def idtSetGate (base : UInt32) (selector : UInt16) (flags : UInt8) : IdtEntry where
  baseLow := (base &&& 0xFFFF).toUInt16
  baseHigh := (base >>> 16 &&& 0xFFFF).toUInt16
  selector := selector
  always0 := 0
  flags := flags ||| 0x60

/-- The routine that the processor finds in an entry. -/
def IdtEntry.offset (e : IdtEntry) : UInt32 := e.baseHigh.toUInt32 <<< 16 ||| e.baseLow.toUInt32

theorem offset_idtSetGate (base : UInt32) (selector : UInt16) (flags : UInt8) :
    (idtSetGate base selector flags).offset = base := by
  have hmask (k : Nat) : k &&& 65535 = k % 65536 := Nat.and_two_pow_sub_one_eq_mod k 16
  have hlt := base.toNat_lt
  have hhigh : (base.toNat / 2 ^ 16 % 65536 % 2 ^ 16) <<< 16 < 2 ^ 32 := by
    rw [Nat.shiftLeft_eq]
    omega
  have hlow : base.toNat % 65536 % 2 ^ 16 < 2 ^ 16 := by omega
  rw [IdtEntry.offset, idtSetGate, ← UInt32.toNat_inj]
  simp only [UInt32.toNat_or, UInt32.toNat_shiftLeft, UInt16.toNat_toUInt32, UInt32.toNat_toUInt16,
    UInt32.toNat_and, UInt32.toNat_shiftRight, UInt32.reduceToNat, hmask, Nat.reduceMod,
    Nat.shiftRight_eq_div_pow]
  rw [Nat.mod_eq_of_lt hhigh, ← Nat.shiftLeft_add_eq_or_of_lt hlow, Nat.shiftLeft_eq]
  omega

/-- Where the linker put the routines. -/
structure Symbols where
  isr : Fin 32 → UInt32
  isrHandler : UInt32
  /-- The address of the instruction after the call of `isr_handler`. -/
  next : UInt32

/-- The stack in the task state segment. -/
structure Tss where
  ss0 : UInt16
  esp0 : UInt32

/-- The gates that `idt_init` sets for the exceptions. -/
def exceptionEntry (L : Symbols) (n : Fin 32) : IdtEntry := idtSetGate (L.isr n) 0x08 0x8E

def exceptionGate (L : Symbols) (T : Tss) (n : Fin 32) : Gate where
  selector := (exceptionEntry L n).selector
  offset := (exceptionEntry L n).offset
  ss0 := T.ss0
  esp0 := T.esp0

/-! ## The routines -/

/-- `ISR_NOERRCODE`, to the jump.  The number pushed is not the argument of the macro. -/
def isrNoerrcode : List Instr := [.cli, .pushImm 0, .pushImm 1]

/-- `ISR_ERRCODE`. -/
def isrErrcode : List Instr := [.cli, .pushImm 1]

/-- The vectors whose routine is an `ISR_ERRCODE`. -/
def errcodeIsrs : List Nat := [10, 11, 12, 13, 14, 17, 30]

def isr (n : Fin 32) : List Instr := if n.val ∈ errcodeIsrs then isrErrcode else isrNoerrcode

/-- `isr_common_stub` with the call.  The code segment keeps its data segment: `dx` is
written in place of `ds`. -/
def isrCommonStub (L : Symbols) : List Instr :=
  [.pusha, .readSeg .ds .eax, .push .eax, .movImm16 0x10 .eax, .mov16 .eax .edx,
    .writeSeg .eax .es, .writeSeg .eax .fs, .writeSeg .eax .gs, .push .esp,
    .call L.isrHandler L.next]

/-- `isr_common_stub` after the call. -/
def isrCommonReturn : List Instr :=
  [.pop .ebx, .pop .ebx, .writeSeg .ebx .ds, .writeSeg .ebx .es, .writeSeg .ebx .fs,
    .writeSeg .ebx .gs, .popa, .addImm 8 .esp, .sti, .iret]

/-! ## The handlers -/

/-- `regs_t` -/
structure RegsT where
  ds : UInt32
  edi : UInt32
  esi : UInt32
  ebp : UInt32
  esp : UInt32
  ebx : UInt32
  edx : UInt32
  ecx : UInt32
  eax : UInt32
  intNo : UInt32
  errCode : UInt32
  eip : UInt32
  cs : UInt32
  eflags : UInt32
  useresp : UInt32
  ss : UInt32
deriving DecidableEq

/-- The structure at an address. -/
def regsTAt (m : ByteMem) (p : UInt32) : RegsT where
  ds := load32 m p
  edi := load32 m (p + 4)
  esi := load32 m (p + 8)
  ebp := load32 m (p + 12)
  esp := load32 m (p + 16)
  ebx := load32 m (p + 20)
  edx := load32 m (p + 24)
  ecx := load32 m (p + 28)
  eax := load32 m (p + 32)
  intNo := load32 m (p + 36)
  errCode := load32 m (p + 40)
  eip := load32 m (p + 44)
  cs := load32 m (p + 48)
  eflags := load32 m (p + 52)
  useresp := load32 m (p + 56)
  ss := load32 m (p + 60)

/-- `idt_handlers`.  A handler is its address, or 0. -/
abbrev IdtHandlers := UInt8 → UInt32

def registerIntHandler (i : UInt8) (handler : UInt32) (handlers : IdtHandlers) : IdtHandlers :=
  fun j => if j = i then handler else handlers j

/-- The handlers that `sched_init` registers. -/
def schedHandlers (handler : UInt32) : IdtHandlers :=
  registerIntHandler 0x0E handler (registerIntHandler 0x0C handler
    (registerIntHandler 0x10 handler (registerIntHandler 0x06 handler fun _ => 0)))

/-- What `isr_handler` does. -/
inductive IsrEvent
  | handler (addr : UInt32) (regs : RegsT)
  | unhandled (intNo : UInt32)
  | outb (port : UInt16) (value : UInt8)
deriving DecidableEq

/-- `isr_handler`.  A number past the end of the table is undefined. -/
def isrHandler (handlers : IdtHandlers) (regs : RegsT) : Option (List IsrEvent) :=
  if regs.intNo < 256 then
    let handler := handlers regs.intNo.toUInt8
    let event := if handler ≠ 0 then .handler handler regs else .unhandled regs.intNo
    some [event, .outb 0x20 0x20]
  else none

/-! ## The stack of a routine -/

/-- The vectors for which the processor pushes an error code. -/
def errorCodes : List Nat := [8, 10, 11, 12, 13, 14, 17, 21, 29, 30]

def errorCode (n : Fin 32) (code : UInt32) : Option UInt32 :=
  if n.val ∈ errorCodes then some code else none

/-- The state in which `isr_handler` starts. -/
def raised (L : Symbols) (T : Tss) (n : Fin 32) (code : UInt32) (s : Cpu) : Cpu :=
  runBlock (isr n ++ isrCommonStub L) (s.interrupt (exceptionGate L T n) (errorCode n code))

/-- What the routine of the vector pushes itself, the top first. -/
def isrRow (n : Fin 32) : List UInt32 := if n.val ∈ errcodeIsrs then [1] else [1, 0]

theorem run_isr (n : Fin 32) (u : Cpu) :
    runBlock (isr n) u = { u.pushAll (isrRow n).reverse with flags := u.flags.cli } := by
  rw [isr, isrRow]
  split_ifs with hn
  · simp [isrErrcode]
  · simp [isrNoerrcode]

/-- The word that holds the data segment.  Its high half is that of `eax`. -/
def dsWord (r : Regs) (ds : UInt16) : UInt32 := r.eax &&& 0xFFFF0000 ||| ds.toUInt32

/-- The registers as they are pushed. -/
def savedWords (v : Cpu) : List UInt32 :=
  [v.regs.eax, v.regs.ecx, v.regs.edx, v.regs.ebx, v.regs.esp, v.regs.ebp, v.regs.esi, v.regs.edi,
    dsWord v.regs v.segs.ds]

/-- The registers are pushed, and then the address of the structure that is there now and
the return address. -/
structure CallsHandler (L : Symbols) (v t : Cpu) : Prop where
  mem : t.mem = ((v.pushAll (savedWords v)).pushAll
    [(v.pushAll (savedWords v)).regs.esp, L.next]).mem
  esp : t.regs.esp = (v.pushAll (savedWords v)).regs.esp - 4 - 4
  eip : t.eip = L.isrHandler
  cs : t.segs.cs = v.segs.cs

theorem run_isrCommonStub (L : Symbols) (v : Cpu) :
    CallsHandler L v (runBlock (isrCommonStub L) v) := by
  constructor <;> simp [isrCommonStub, savedWords, dsWord]

section Stack

variable (L : Symbols) (T : Tss) (n : Fin 32) (code : UInt32) (s : Cpu)

/-- The state at `isr_common_stub`. -/
def atStub : Cpu := runBlock (isr n) (s.interrupt (exceptionGate L T n) (errorCode n code))

/-- What is on the stack by then, the top first. -/
def stubRow : List UInt32 :=
  isrRow n ++ s.interruptRow (exceptionGate L T n) (errorCode n code)

theorem raised_eq : raised L T n code s = runBlock (isrCommonStub L) (atStub L T n code s) :=
  runBlock_append _ _ _

theorem length_stubRow_le : (stubRow L T n code s).length ≤ 8 := by
  rw [stubRow, isrRow, errorCode, Cpu.interruptRow]
  split_ifs <;> simp

theorem words_atStub : Words (atStub L T n code s).mem (atStub L T n code s).regs.esp
    (stubRow L T n code s) := by
  have hlen := length_stubRow_le L T n code s
  rw [stubRow, List.length_append] at hlen
  have hpush := Cpu.words_pushAll (isrRow n).reverse
    (Cpu.words_interrupt (exceptionGate L T n) (errorCode n code) s)
    (by rw [List.length_reverse]; omega)
  rw [List.reverse_reverse] at hpush
  rw [atStub, run_isr]
  exact hpush

theorem esp_atStub : (atStub L T n code s).regs.esp =
    s.interruptBase (exceptionGate L T n) - UInt32.ofNat (4 * (stubRow L T n code s).length) := by
  rw [atStub, run_isr]
  dsimp only
  rw [Cpu.esp_pushAll, Cpu.esp_interrupt, sub_sub, ← UInt32.ofNat_add, ← Nat.mul_add,
    List.length_reverse, Nat.add_comm, ← List.length_append]
  rfl

theorem regs_atStub : (atStub L T n code s).regs =
    { s.regs with esp := (atStub L T n code s).regs.esp } := by
  rw [atStub, run_isr]
  dsimp only
  rw [Cpu.pushAll_eq, Cpu.regs_interrupt]

theorem ds_atStub : (atStub L T n code s).segs.ds = s.segs.ds := by
  rw [atStub, run_isr]
  dsimp only
  rw [Cpu.segs_pushAll, Cpu.ds_interrupt]

theorem cs_atStub : (atStub L T n code s).segs.cs = 0x08 := by
  rw [atStub, run_isr]
  dsimp only
  rw [Cpu.segs_pushAll]
  rfl

/-- The words of the structure, from `ds` on. -/
def frameRow : List UInt32 :=
  [dsWord s.regs s.segs.ds, s.regs.edi, s.regs.esi, s.regs.ebp, (atStub L T n code s).regs.esp,
    s.regs.ebx, s.regs.edx, s.regs.ecx, s.regs.eax] ++ stubRow L T n code s

theorem reverse_savedWords : (savedWords (atStub L T n code s)).reverse ++ stubRow L T n code s =
    frameRow L T n code s := by
  rw [savedWords, ds_atStub, regs_atStub]
  rfl

/-- How the handler finds the structure. -/
structure Framed (t : Cpu) (p : UInt32) : Prop where
  ptr : load32 t.mem (t.regs.esp + 4) = p
  esp : t.regs.esp + 8 = p
  words : Words t.mem p (frameRow L T n code s)
  base : p = s.interruptBase (exceptionGate L T n) -
    UInt32.ofNat (4 * (frameRow L T n code s).length)

theorem raised_framed : Framed L T n code s (raised L T n code s)
    ((raised L T n code s).regs.esp + 8) := by
  have hlen := length_stubRow_le L T n code s
  have hcall := run_isrCommonStub L (atStub L T n code s)
  rw [← raised_eq] at hcall
  have hesp : (raised L T n code s).regs.esp + 8 =
      ((atStub L T n code s).pushAll (savedWords (atStub L T n code s))).regs.esp := by
    rw [hcall.esp, sub_sub]
    exact sub_add_cancel _ 8
  have hsaved := Cpu.words_pushAll (savedWords (atStub L T n code s))
    (words_atStub L T n code s)
    (by simp only [savedWords, List.length_cons, List.length_nil]; omega)
  rw [reverse_savedWords] at hsaved
  have hlen' : (frameRow L T n code s).length = 9 + (stubRow L T n code s).length :=
    List.length_append
  have hall := Cpu.words_pushAll
    [((atStub L T n code s).pushAll (savedWords (atStub L T n code s))).regs.esp, L.next]
    hsaved (by simp only [List.length_cons, List.length_nil]; omega)
  have hrow : Words (raised L T n code s).mem (raised L T n code s).regs.esp
      (L.next :: ((raised L T n code s).regs.esp + 8) :: frameRow L T n code s) := by
    rw [hesp, hcall.mem, hcall.esp]
    exact hall
  constructor
  case ptr => exact hrow.get 1 rfl
  case esp => rfl
  case words => exact hrow.drop 2
  case base =>
    rw [hesp, Cpu.esp_pushAll, esp_atStub, sub_sub, ← UInt32.ofNat_add, hlen', Nat.mul_add,
      Nat.add_comm]
    rfl

end Stack

/-! ## What the handler is given -/

/-- The registers of the interrupted code, as the structure has them.  The processor
pushed the stack pointer only with a change of the privilege level; else the code's
stack goes on above what was pushed. -/
def RegsT.interrupted (f : RegsT) : Regs where
  eax := f.eax
  ecx := f.ecx
  edx := f.edx
  ebx := f.ebx
  esp := if rpl f.cs.toUInt16 = rpl 0x08 then f.esp + 20 else f.useresp
  ebp := f.ebp
  esi := f.esi
  edi := f.edi

/-- The structure has the error code and the interrupted registers. -/
structure Reported (n : Fin 32) (code : UInt32) (s : Cpu) (f : RegsT) : Prop where
  errCode : f.errCode = (errorCode n code).getD 0
  regs : f.interrupted = s.regs
  ds : f.ds.toUInt16 = s.segs.ds
  eip : f.eip = s.eip
  cs : f.cs = s.segs.cs.toUInt32
  eflags : f.eflags = s.flags.word
  ss : rpl s.segs.cs ≠ rpl 0x08 → f.ss = s.segs.ss.toUInt32

/-- The bytes of the structure that were pushed. -/
def frameSize (s : Cpu) : Nat := if rpl s.segs.cs = rpl 0x08 then 56 else 64

/-- The handler returns to the routine, with the structure as it was. -/
structure HandlerReturns (L : Symbols) (s t t' : Cpu) : Prop where
  eip : t'.eip = L.next
  esp : t'.regs.esp = t.regs.esp + 4
  cs : t'.segs.cs = t.segs.cs
  frame : ∀ z, InBlock (load32 t.mem (t.regs.esp + 4)) (frameSize s) z → t'.mem z = t.mem z

/-- The interrupted code goes on with its registers. -/
structure Resumed (s u : Cpu) : Prop where
  regs : u.regs = s.regs
  ds : u.segs.ds = s.segs.ds
  eip : u.eip = s.eip

/-- What happens at an exception with the vector `n`, as it should. -/
structure ExceptionRight (n : Fin 32) (L : Symbols) (T : Tss) (code : UInt32) (s : Cpu)
    (handlers : IdtHandlers) (t : Cpu) (f : RegsT) : Prop where
  entered : (s.interrupt (exceptionGate L T n) (errorCode n code)).eip = L.isr n
  called : t.eip = L.isrHandler
  intNo : f.intNo = UInt32.ofNat n
  reported : Reported n code s f
  handled : isrHandler handlers f =
    some [if handlers (UInt8.ofNat n) ≠ 0 then .handler (handlers (UInt8.ofNat n)) f
      else .unhandled (UInt32.ofNat n), .outb 0x20 0x20]
  resumed : ∀ t', HandlerReturns L s t t' → Resumed s (runBlock isrCommonReturn t')

/-- Exceptions with the vector `n` reach their handler. -/
def ReachesHandler (n : Fin 32) : Prop :=
  ∀ (L : Symbols) (T : Tss) (code : UInt32) (s : Cpu) (handlers : IdtHandlers),
    let t := raised L T n code s
    ExceptionRight n L T code s handlers t (regsTAt t.mem (load32 t.mem (t.regs.esp + 4)))

/-! ## Frames with one error code -/

section Frame

variable {L : Symbols} {T : Tss} {n : Fin 32} {code : UInt32} {s : Cpu}

/-- Whatever the vector is, the number in the structure is 1. -/
theorem intNo_eq_one {t : Cpu} {p : UInt32} (h : Framed L T n code s t p) :
    (regsTAt t.mem p).intNo = 1 := by
  refine h.words.get 9 ?_
  rw [frameRow, stubRow, isrRow]
  split_ifs <;> rfl

/-- Either the processor pushes an error code or the routine does. -/
theorem stubRow_eq (hn : n.val ∈ errcodeIsrs ↔ n.val ∈ errorCodes) : stubRow L T n code s =
    [1, (errorCode n code).getD 0, s.eip, s.segs.cs.toUInt32, s.flags.word] ++
      if rpl s.segs.cs = rpl 0x08 then [] else [s.regs.esp, s.segs.ss.toUInt32] := by
  have hselector : (exceptionGate L T n).selector = 0x08 := rfl
  rw [stubRow, isrRow, errorCode, Cpu.interruptRow, hselector]
  simp only [hn]
  split_ifs <;> rfl

theorem length_stubRow (hn : n.val ∈ errcodeIsrs ↔ n.val ∈ errorCodes) :
    4 * (9 + (stubRow L T n code s).length) = frameSize s := by
  rw [stubRow_eq hn, frameSize]
  split_ifs <;> rfl

theorem Framed.reported {t : Cpu} {p : UInt32} (h : Framed L T n code s t p)
    (hn : n.val ∈ errcodeIsrs ↔ n.val ∈ errorCodes) : Reported n code s (regsTAt t.mem p) := by
  have hwords := h.words
  rw [frameRow, stubRow_eq hn] at hwords
  have hcs : (regsTAt t.mem p).cs = s.segs.cs.toUInt32 := hwords.get 12 rfl
  constructor
  case errCode => exact hwords.get 10 rfl
  case regs =>
    have hlevel : (regsTAt t.mem p).cs.toUInt16 = s.segs.cs := by
      rw [hcs, UInt16.toUInt16_toUInt32]
    refine Regs.ext (hwords.get 8 rfl) (hwords.get 7 rfl) (hwords.get 6 rfl) (hwords.get 5 rfl) ?_
      (hwords.get 3 rfl) (hwords.get 2 rfl) (hwords.get 1 rfl)
    rw [RegsT.interrupted, hlevel]
    dsimp only
    cases decEq (rpl s.segs.cs) (rpl 0x08) with
    | isTrue hrpl =>
        -- the code's own stack, below which five words were pushed before `pusha`
        have hesp : (regsTAt t.mem p).esp = (atStub L T n code s).regs.esp := hwords.get 4 rfl
        have hbase : s.interruptBase (exceptionGate L T n) = s.regs.esp := if_pos hrpl
        rw [if_pos hrpl, hesp, esp_atStub, hbase, stubRow_eq hn, if_pos hrpl]
        exact sub_add_cancel s.regs.esp 20
    | isFalse hrpl =>
        rw [if_neg hrpl] at hwords ⊢
        exact hwords.get 14 rfl
  case ds =>
    have hds : (regsTAt t.mem p).ds = dsWord s.regs s.segs.ds := hwords.1
    rw [hds]
    exact low_half _ _
  case eip => exact hwords.get 11 rfl
  case cs => exact hcs
  case eflags => exact hwords.get 13 rfl
  case ss =>
    intro hrpl
    rw [if_neg hrpl] at hwords
    exact hwords.get 15 rfl

/-! ## The return -/

/-- The state at the `iret`. -/
def atIret (t : Cpu) : Cpu :=
  let p := t.regs.esp + 4
  let ds := (load32 t.mem p).toUInt16
  { t with
    regs := { ({ t with regs := { t.regs with esp := p + 4 } } : Cpu).popped with
      esp := p + 4 + 32 + 8 }
    segs := { t.segs with ds := ds, es := ds, fs := ds, gs := ds }
    flags := (t.flags.add (p + 4 + 32) 8).sti }

theorem run_isrCommonReturn (t : Cpu) : runBlock isrCommonReturn t = (atIret t).iret := by
  simp [isrCommonReturn, atIret, Cpu.popped]

theorem Framed.resumed {t t' : Cpu} {p : UInt32} (h : Framed L T n code s t p)
    (hn : n.val ∈ errcodeIsrs ↔ n.val ∈ errorCodes) (hcs : t.segs.cs = 0x08)
    (hret : HandlerReturns L s t t') : Resumed s (runBlock isrCommonReturn t') := by
  have hp : t'.regs.esp + 4 = p := by
    rw [hret.esp, add_assoc]
    exact h.esp
  have hsize : frameSize s ≤ 64 := by
    rw [frameSize]
    split_ifs <;> omega
  have hlen : 4 * (frameRow L T n code s).length ≤ frameSize s := by
    rw [← length_stubRow hn, frameRow, List.length_append]
    exact le_refl _
  have hbase := h.base
  have hwords : Words t'.mem p (frameRow L T n code s) :=
    h.words.congr hlen (by omega) fun z hz => hret.frame z (h.ptr ▸ hz)
  rw [frameRow, stubRow_eq hn] at hwords hbase
  have hds : (atIret t').segs.ds = s.segs.ds := by
    rw [atIret, hp, hwords.1]
    exact low_half _ _
  have hcs' : (atIret t').segs.cs = 0x08 := hret.cs.trans hcs
  have hregs : (atIret t').regs = { s.regs with esp := p + 4 + 32 + 8 } := by
    have hpopped := Cpu.popped_of_words
      (s := { t' with regs := { t'.regs with esp := p + 4 } }) (hwords.drop 1)
    rw [atIret, hp, hpopped]
  -- what `iret` finds
  have hrow : Words (atIret t').mem (atIret t').regs.esp
      (s.eip :: s.segs.cs.toUInt32 :: s.flags.word ::
        if rpl s.segs.cs = rpl 0x08 then [] else [s.regs.esp, s.segs.ss.toUInt32]) := by
    have hdrop := hwords.drop 11
    rw [show p + UInt32.ofNat 44 = p + 4 + 32 + 8 by rw [add_assoc, add_assoc]; rfl] at hdrop
    rw [hregs]
    exact hdrop
  rw [run_isrCommonReturn]
  cases decEq (rpl s.segs.cs) (rpl 0x08) with
  | isTrue hrpl =>
      have hstack : s.interruptBase (exceptionGate L T n) = s.regs.esp := if_pos hrpl
      -- all that was pushed is gone
      have hesp : p + 4 + 32 + 8 + 12 = s.regs.esp := by
        rw [hbase, hstack, if_pos hrpl, add_assoc, add_assoc, add_assoc]
        exact sub_add_cancel s.regs.esp 56
      rw [Cpu.iret_same hrow (by rw [hcs', hrpl])]
      refine ⟨?_, hds, rfl⟩
      rw [hregs]
      dsimp only
      rw [hesp]
  | isFalse hrpl =>
      rw [if_neg hrpl] at hrow
      rw [Cpu.iret_outer hrow (by rw [hcs']; exact hrpl)]
      exact ⟨by rw [hregs], hds, rfl⟩

end Frame

/-! ## The vectors that reach their handler -/

/-- The handler of 1 runs, whatever the vector is. -/
theorem isrHandler_one (handlers : IdtHandlers) {f : RegsT} (hf : f.intNo = 1) :
    isrHandler handlers f = some [if handlers 1 ≠ 0 then .handler (handlers 1) f
      else .unhandled 1, .outb 0x20 0x20] := by
  rw [isrHandler, hf]
  rfl

/-- But for the number, the structure and the return are right for all vectors for which
one error code is pushed. -/
theorem raised_right {n : Fin 32} (hn : n.val ∈ errcodeIsrs ↔ n.val ∈ errorCodes) (L : Symbols)
    (T : Tss) (code : UInt32) (s : Cpu) :
    let t := raised L T n code s
    (regsTAt t.mem (load32 t.mem (t.regs.esp + 4))).intNo = 1 ∧
      Reported n code s (regsTAt t.mem (load32 t.mem (t.regs.esp + 4))) ∧
      ∀ t', HandlerReturns L s t t' → Resumed s (runBlock isrCommonReturn t') := by
  have h := raised_framed L T n code s
  have hcall := run_isrCommonStub L (atStub L T n code s)
  rw [← raised_eq] at hcall
  dsimp only
  rw [h.ptr]
  exact ⟨intNo_eq_one h, h.reported hn, fun t' => h.resumed hn (hcall.cs.trans (cs_atStub ..))⟩

/-- **Exceptions reach their handler** only if their vector is the number that the
routines push. -/
theorem reachesHandler_iff (n : Fin 32) : ReachesHandler n ↔ n = 1 := by
  constructor
  · intro h
    have hint := (h ⟨fun _ => 0, 0, 0⟩ ⟨0, 0⟩ 0 {} fun _ => 0).intNo
    rw [(raised_framed ..).ptr, intNo_eq_one (raised_framed ..)] at hint
    have hnat := congrArg UInt32.toNat hint
    rw [UInt32.toNat_ofNat'] at hnat
    have hone : (1 : UInt32).toNat = 1 := rfl
    omega
  · intro hn L T code s handlers
    subst hn
    have hright := raised_right (n := 1) (by decide) L T code s
    have hcall := run_isrCommonStub L (atStub L T 1 code s)
    rw [← raised_eq] at hcall
    exact {
      entered := offset_idtSetGate _ _ _
      called := hcall.eip
      intNo := hright.1
      reported := hright.2.1
      handled := isrHandler_one handlers hright.1
      resumed := hright.2.2 }

/-- A process writes to a page that is not present. -/
def pageFault : Cpu where
  eip := 0x100000
  segs := { cs := 0x1B, ss := 0x23, ds := 0x23 }
  regs := { esp := 0x9000 }

def pageFaultSymbols : Symbols := ⟨fun _ => 0x2000, 0x3000, 0x4000⟩

/-- The handler for page faults does not run. -/
theorem not_reachesHandler_pageFault :
    let t := raised pageFaultSymbols ⟨0x10, 0x8000⟩ 14 2 pageFault
    isrHandler (schedHandlers 0x5000) (regsTAt t.mem (load32 t.mem (t.regs.esp + 4))) =
        some [.unhandled 1, .outb 0x20 0x20] ∧
      ¬ ReachesHandler 14 := by
  have hright := raised_right (n := 14) (by decide) pageFaultSymbols ⟨0x10, 0x8000⟩ 2 pageFault
  refine ⟨isrHandler_one (schedHandlers 0x5000) hright.1, fun h => ?_⟩
  have hint := (h pageFaultSymbols ⟨0x10, 0x8000⟩ 2 pageFault (schedHandlers 0x5000)).intNo
  exact absurd (hint.symm.trans hright.1) (by decide)

end StardustOS.Idt
