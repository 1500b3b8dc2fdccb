import StardustOS.Idt.Exceptions

/-!
# Interrupts of the devices

The routine of an interrupt line pushes 0 in the place of an error code and the
vector, then the registers, and calls `irq_handler`.  That acknowledges the
interrupt at the controllers and calls the handler that is registered for the
line.

The routines of the exceptions differ from these in the number and in the data
segment, which is loaded here.
-/

namespace StardustOS.Idt

open Lib Lib.X86

/-! ## The table -/

/-- Where the linker put the routines. -/
structure IrqSymbols where
  irq : Fin 16 → UInt32
  irqHandler : UInt32
  /-- The address of the instruction after the call of `irq_handler`. -/
  next : UInt32

/-- The vector of a line. -/
def irqVector (n : Fin 16) : UInt32 := UInt32.ofNat (32 + n)

/-- The gates that `idt_init` sets for the lines. -/
def irqEntry (L : IrqSymbols) (n : Fin 16) : IdtEntry := idtSetGate (L.irq n) 0x08 0x8E

def irqGate (L : IrqSymbols) (T : Tss) (n : Fin 16) : Gate where
  selector := (irqEntry L n).selector
  offset := (irqEntry L n).offset
  ss0 := T.ss0
  esp0 := T.esp0

/-! ## The routines -/

/-- `IRQ`, to the jump. -/
def irq (n : Fin 16) : List Instr := [.cli, .pushImm 0, .pushImm (irqVector n)]

/-- `irq_common_stub` with the call. -/
def irqCommonStub (L : IrqSymbols) : List Instr :=
  [.pusha, .readSeg .ds .eax, .push .eax, .movImm16 0x10 .eax, .writeSeg .eax .ds,
    .writeSeg .eax .es, .writeSeg .eax .fs, .writeSeg .eax .gs, .push .esp,
    .call L.irqHandler L.next]

/-- `irq_common_stub` after the call. -/
def irqCommonReturn : List Instr :=
  [.pop .ebx, .pop .ebx, .writeSeg .ebx .ds, .writeSeg .ebx .es, .writeSeg .ebx .fs,
    .writeSeg .ebx .gs, .popa, .addImm 8 .esp, .sti, .iret]

/-! ## The handlers -/

/-- `irq_handlers`.  A handler is its address, or 0. -/
abbrev IrqHandlers := Fin 16 → UInt32

/-- A store past the end of the table is undefined. -/
def registerIrqHandler (i : UInt8) (handler : UInt32) (handlers : IrqHandlers) :
    Option IrqHandlers :=
  if h : i.toNat < 16 then some (Function.update handlers ⟨i.toNat, h⟩ handler) else none

/-- What `irq_handler` does. -/
inductive IrqEvent
  | outb (port : UInt16) (value : UInt8)
  | handler (addr : UInt32) (regs : RegsT)
deriving DecidableEq

/-- The ends of interrupt that `irq_handler` sends. -/
def irqEois (intNo : UInt32) : List IrqEvent :=
  if 40 ≤ intNo then [.outb 0xA0 0x20, .outb 0x20 0x20] else [.outb 0x20 0x20]

/-- `irq_handler`.  A number past the end of the table is undefined. -/
def irqHandler (handlers : IrqHandlers) (regs : RegsT) : Option (List IrqEvent) :=
  if h : (regs.intNo - 32).toNat < 16 then
    let handler := handlers ⟨(regs.intNo - 32).toNat, h⟩
    some (irqEois regs.intNo ++ if handler ≠ 0 then [.handler handler regs] else [])
  else none

theorem irqVector_toNat (n : Fin 16) : (irqVector n).toNat = 32 + n := by
  rw [irqVector, UInt32.toNat_ofNat']
  omega

theorem irqVector_sub_toNat (n : Fin 16) : (irqVector n - 32).toNat = n := by
  have hsub : irqVector n - 32 = UInt32.ofNat n := by
    rw [irqVector, UInt32.ofNat_add, add_comm]
    exact add_sub_cancel_right _ 32
  rw [hsub, UInt32.toNat_ofNat']
  omega

theorem forty_le_irqVector (n : Fin 16) : 40 ≤ irqVector n ↔ 8 ≤ n.val := by
  have hforty : (40 : UInt32).toNat = 40 := rfl
  rw [UInt32.le_iff_toNat_le, irqVector_toNat, hforty]
  omega

/-- The handler of the line that the number says. -/
theorem irqHandler_irqVector (handlers : IrqHandlers) {regs : RegsT} {n : Fin 16}
    (h : regs.intNo = irqVector n) : irqHandler handlers regs =
      some (irqEois (irqVector n) ++
        if handlers n ≠ 0 then [.handler (handlers n) regs] else []) := by
  have hlt : (regs.intNo - 32).toNat < 16 := by
    rw [h, irqVector_sub_toNat]
    exact n.isLt
  have hsub : (regs.intNo - 32).toNat = n := by rw [h, irqVector_sub_toNat]
  have hn : (⟨(regs.intNo - 32).toNat, hlt⟩ : Fin 16) = n := Fin.ext hsub
  rw [irqHandler, dif_pos hlt, hn, h]

/-! ## Entry

What stands on the stack when the handler is called, for any row of words that a
routine pushes before it saves the registers. -/

/-- The state at the common part of a routine that has pushed `row`. -/
structure AtStub (g : Gate) (row : List UInt32) (s v : Cpu) : Prop where
  words : Words v.mem v.regs.esp (row ++ s.interruptRow g none)
  esp : v.regs.esp =
    s.interruptBase g - UInt32.ofNat (4 * (row ++ s.interruptRow g none).length)
  regs : v.regs = { s.regs with esp := v.regs.esp }
  ds : v.segs.ds = s.segs.ds
  cs : v.segs.cs = g.selector
  ss : rpl s.segs.cs = rpl g.selector → v.segs.ss = s.segs.ss
  disabled : v.flags.word &&& 0x200 = 0
  kept : Cpu.WrittenBelow s.mem (s.interruptBase g)
    (4 * (row ++ s.interruptRow g none).length) v.mem

theorem length_interruptRow_le (g : Gate) (s : Cpu) : (s.interruptRow g none).length ≤ 5 := by
  rw [Cpu.interruptRow]
  split_ifs <;> simp

theorem cli_disabled (f : Flags) : f.cli.word &&& 0x200 = 0 := by
  have hmask : ~~~(0x200 : UInt32) &&& (settable &&& 0x200) = 0 := by rfl
  rw [Flags.cli, Flags.load, or_and_distrib, UInt32.and_assoc, UInt32.and_assoc, hmask,
    UInt32.and_zero]
  rfl

/-- A routine that pushes a row with the interrupts disabled comes to its stub. -/
theorem atStub_pushAll (g : Gate) (row : List UInt32) (s : Cpu) (hrow : row.length ≤ 16) :
    AtStub g row s { (s.interrupt g none).pushAll row.reverse with
      flags := (s.interrupt g none).flags.cli } := by
  have hlen := length_interruptRow_le g s
  have hpush := Cpu.words_pushAll row.reverse (Cpu.words_interrupt g none s)
    (by rw [List.length_reverse]; omega)
  rw [List.reverse_reverse] at hpush
  constructor
  case words => exact hpush
  case esp =>
    dsimp only
    rw [Cpu.esp_pushAll, Cpu.esp_interrupt, sub_sub, ← UInt32.ofNat_add, ← Nat.mul_add,
      List.length_reverse, Nat.add_comm, ← List.length_append]
  case regs =>
    dsimp only
    rw [Cpu.pushAll_eq, Cpu.regs_interrupt]
  case ds =>
    dsimp only
    rw [Cpu.segs_pushAll, Cpu.ds_interrupt]
  case cs =>
    dsimp only
    rw [Cpu.segs_pushAll]
    rfl
  case ss =>
    intro hrpl
    dsimp only
    rw [Cpu.segs_pushAll, Cpu.interrupt]
    dsimp only
    rw [Cpu.segs_pushAll, Cpu.entered, if_pos hrpl]
  case disabled => exact cli_disabled _
  case kept =>
    have hbelow := Cpu.writtenBelow_pushAll row.reverse (s.interrupt g none)
      (by rw [List.length_reverse]; omega)
    rw [List.length_reverse] at hbelow
    rw [List.length_append, Nat.add_comm, Nat.mul_add]
    exact (Cpu.writtenBelow_interrupt g none s).trans hbelow (Cpu.esp_interrupt g none s)
      (by omega)

/-- The words of the structure, from `ds` on. -/
def savedRow (g : Gate) (row : List UInt32) (s v : Cpu) : List UInt32 :=
  [dsWord s.regs s.segs.ds, s.regs.edi, s.regs.esi, s.regs.ebp, v.regs.esp, s.regs.ebx,
    s.regs.edx, s.regs.ecx, s.regs.eax] ++ (row ++ s.interruptRow g none)

/-- How the handler finds the structure, and what else there is in memory. -/
structure Entered (L : IrqSymbols) (g : Gate) (row : List UInt32) (s v t : Cpu) : Prop where
  ptr : load32 t.mem (t.regs.esp + 4) = t.regs.esp + 8
  words : Words t.mem (t.regs.esp + 8) (savedRow g row s v)
  base : t.regs.esp + 8 =
    s.interruptBase g - UInt32.ofNat (4 * (savedRow g row s v).length)
  eip : t.eip = L.irqHandler
  cs : t.segs.cs = g.selector
  ss : rpl s.segs.cs = rpl g.selector → t.segs.ss = s.segs.ss
  disabled : t.flags.word &&& 0x200 = 0
  kept : Cpu.WrittenBelow s.mem (s.interruptBase g) (4 * (savedRow g row s v).length + 8) t.mem

/-- The common part up to the call, for a row of any routine. -/
theorem AtStub.entered {g : Gate} {row : List UInt32} {s v : Cpu} (L : IrqSymbols)
    (h : AtStub g row s v) (hrow : row.length ≤ 16) :
    Entered L g row s v (runBlock (irqCommonStub L) v) := by
  have hlen := length_interruptRow_le g s
  have hlen' : (row ++ s.interruptRow g none).length ≤ 21 := by
    rw [List.length_append]
    omega
  have hsize : (savedRow g row s v).length = (row ++ s.interruptRow g none).length + 9 := rfl
  have hpushed : (savedWords v).reverse ++ (row ++ s.interruptRow g none) = savedRow g row s v := by
    rw [savedWords, h.ds, h.regs]
    rfl
  let u := v.pushAll (savedWords v)
  have hrun : (runBlock (irqCommonStub L) v).mem = (u.pushAll [u.regs.esp, L.next]).mem ∧
      (runBlock (irqCommonStub L) v).regs.esp = (u.pushAll [u.regs.esp, L.next]).regs.esp ∧
      (runBlock (irqCommonStub L) v).eip = L.irqHandler ∧
      (runBlock (irqCommonStub L) v).segs.cs = v.segs.cs ∧
      (runBlock (irqCommonStub L) v).segs.ss = v.segs.ss ∧
      (runBlock (irqCommonStub L) v).flags = v.flags := by
    simp [irqCommonStub, u, savedWords, dsWord]
  obtain ⟨hmem, hesp, heip, hcs, hss, hflags⟩ := hrun
  have hsaved := Cpu.words_pushAll (savedWords v) h.words
    (by simp only [savedWords, List.length_cons, List.length_nil]; omega)
  rw [hpushed] at hsaved
  have hall := Cpu.words_pushAll [u.regs.esp, L.next] hsaved
    (by rw [hsize]; simp only [List.length_cons, List.length_nil]; omega)
  have hp : (runBlock (irqCommonStub L) v).regs.esp + 8 = u.regs.esp := by
    rw [hesp]
    simp only [Cpu.pushAll_cons, Cpu.pushAll_nil, Cpu.push, sub_sub]
    exact sub_add_cancel _ 8
  rw [← hmem, ← hesp] at hall
  have hub : u.regs.esp = s.interruptBase g -
      UInt32.ofNat (4 * (savedRow g row s v).length) := by
    rw [Cpu.esp_pushAll, h.esp, sub_sub, ← UInt32.ofNat_add, hsize, Nat.mul_add]
    rfl
  constructor
  case ptr =>
    rw [hp]
    exact hall.get 1 rfl
  case words => exact hall.drop 2
  case base => rw [hp, hub]
  case eip => exact heip
  case cs => exact hcs.trans h.cs
  case ss => exact fun hrpl => hss.trans (h.ss hrpl)
  case disabled =>
    rw [hflags]
    exact h.disabled
  case kept =>
    have hregs := Cpu.writtenBelow_pushAll (savedWords v) v
      (by simp only [savedWords, List.length_cons, List.length_nil]; omega)
    have hcall := Cpu.writtenBelow_pushAll [u.regs.esp, L.next] u (Nat.le_of_ble_eq_true rfl)
    rw [hmem]
    refine (h.kept.trans hregs h.esp ?_).trans hcall hub ?_
    · simp only [savedWords, List.length_cons, List.length_nil]
      omega
    · rw [← Nat.mul_add]
      simp only [savedWords, List.length_cons, List.length_nil]
      omega

/-! ## What the handler is given -/

/-- The structure has what the interrupted code had. -/
structure Interrupted (s : Cpu) (f : RegsT) : Prop where
  regs : f.interrupted = s.regs
  ds : f.ds.toUInt16 = s.segs.ds
  eip : f.eip = s.eip
  cs : f.cs = s.segs.cs.toUInt32
  eflags : f.eflags = s.flags.word
  ss : rpl s.segs.cs ≠ rpl 0x08 → f.ss = s.segs.ss.toUInt32

/-- The handler returns to the routine, with the structure as it was. -/
structure IrqReturns (L : IrqSymbols) (s t t' : Cpu) : Prop where
  eip : t'.eip = L.next
  esp : t'.regs.esp = t.regs.esp + 4
  cs : t'.segs.cs = t.segs.cs
  ss : t'.segs.ss = t.segs.ss
  frame : ∀ z, InBlock (load32 t.mem (t.regs.esp + 4)) (frameSize s) z → t'.mem z = t.mem z

/-- The interrupted code goes on where it was.  The other data segments come back as `ds`. -/
structure Continues (s u : Cpu) : Prop where
  regs : u.regs = s.regs
  eip : u.eip = s.eip
  flags : u.flags = s.flags
  segs : u.segs = { s.segs with es := s.segs.ds, fs := s.segs.ds, gs := s.segs.ds }

section Row

variable {L : IrqSymbols} {g : Gate} {num : UInt32} {s v t t' : Cpu}

/-- The whole structure, for a number and no error code. -/
theorem savedRow_eq (hg : g.selector = 0x08) : savedRow g [num, 0] s v =
    [dsWord s.regs s.segs.ds, s.regs.edi, s.regs.esi, s.regs.ebp, v.regs.esp, s.regs.ebx,
      s.regs.edx, s.regs.ecx, s.regs.eax, num, 0, s.eip, s.segs.cs.toUInt32, s.flags.word] ++
      if rpl s.segs.cs = rpl 0x08 then [] else [s.regs.esp, s.segs.ss.toUInt32] := by
  rw [savedRow, Cpu.interruptRow, hg]
  rfl

theorem length_savedRow (hg : g.selector = 0x08) :
    4 * (savedRow g [num, 0] s v).length = frameSize s := by
  rw [savedRow_eq hg, frameSize]
  split_ifs <;> rfl

theorem Entered.interrupted (h : Entered L g [num, 0] s v t) (hv : AtStub g [num, 0] s v)
    (hg : g.selector = 0x08) : Interrupted s (regsTAt t.mem (t.regs.esp + 8)) := by
  have hwords := h.words
  rw [savedRow_eq hg] at hwords
  have hcs : (regsTAt t.mem (t.regs.esp + 8)).cs = s.segs.cs.toUInt32 := hwords.get 12 rfl
  constructor
  case regs =>
    have hlevel : (regsTAt t.mem (t.regs.esp + 8)).cs.toUInt16 = s.segs.cs := by
      rw [hcs, UInt16.toUInt16_toUInt32]
    refine Regs.ext (hwords.get 8 rfl) (hwords.get 7 rfl) (hwords.get 6 rfl) (hwords.get 5 rfl) ?_
      (hwords.get 3 rfl) (hwords.get 2 rfl) (hwords.get 1 rfl)
    rw [RegsT.interrupted, hlevel]
    dsimp only
    cases decEq (rpl s.segs.cs) (rpl 0x08) with
    | isTrue hrpl =>
        have hesp : (regsTAt t.mem (t.regs.esp + 8)).esp = v.regs.esp := hwords.get 4 rfl
        have hbase : s.interruptBase g = s.regs.esp := by rw [Cpu.interruptBase, hg, if_pos hrpl]
        rw [if_pos hrpl, hesp, hv.esp, hbase, Cpu.interruptRow, hg, if_pos hrpl]
        exact sub_add_cancel s.regs.esp 20
    | isFalse hrpl =>
        rw [if_neg hrpl] at hwords ⊢
        exact hwords.get 14 rfl
  case ds =>
    have hds : (regsTAt t.mem (t.regs.esp + 8)).ds = dsWord s.regs s.segs.ds := hwords.1
    rw [hds]
    exact low_half _ _
  case eip => exact hwords.get 11 rfl
  case cs => exact hcs
  case eflags => exact hwords.get 13 rfl
  case ss =>
    intro hrpl
    rw [if_neg hrpl] at hwords
    exact hwords.get 15 rfl

/-! ## The return -/

theorem Entered.continues (h : Entered L g [num, 0] s v t) (hg : g.selector = 0x08)
    (hret : IrqReturns L s t t') : Continues s (runBlock irqCommonReturn t') := by
  have hp : t'.regs.esp + 4 = t.regs.esp + 8 := by
    rw [hret.esp, add_assoc]
    rfl
  have hsize : frameSize s ≤ 64 := by
    rw [frameSize]
    split_ifs <;> omega
  have hbase := h.base
  have hwords : Words t'.mem (t.regs.esp + 8) (savedRow g [num, 0] s v) :=
    h.words.congr (length_savedRow hg).le (by omega) fun z hz => hret.frame z (h.ptr ▸ hz)
  rw [savedRow_eq hg] at hwords hbase
  have hds : (load32 t'.mem (t.regs.esp + 8)).toUInt16 = s.segs.ds := by
    rw [hwords.1]
    exact low_half _ _
  have hregs : (atIret t').regs = { s.regs with esp := t.regs.esp + 8 + 4 + 32 + 8 } := by
    have hpopped := Cpu.popped_of_words
      (s := { t' with regs := { t'.regs with esp := t.regs.esp + 8 + 4 } }) (hwords.drop 1)
    rw [atIret, hp, hpopped]
  have hsegs : (atIret t').segs = { t'.segs with
      ds := s.segs.ds, es := s.segs.ds, fs := s.segs.ds, gs := s.segs.ds } := by
    rw [atIret, hp, hds]
  have hcs : (atIret t').segs.cs = 0x08 := by
    rw [hsegs]
    exact (hret.cs.trans h.cs).trans hg
  -- what `iret` finds
  have hrow : Words (atIret t').mem (atIret t').regs.esp
      (s.eip :: s.segs.cs.toUInt32 :: s.flags.word ::
        if rpl s.segs.cs = rpl 0x08 then [] else [s.regs.esp, s.segs.ss.toUInt32]) := by
    have hdrop := hwords.drop 11
    rw [show t.regs.esp + 8 + UInt32.ofNat 44 = t.regs.esp + 8 + 4 + 32 + 8 by
      rw [add_assoc (t.regs.esp + 8), add_assoc (t.regs.esp + 8)]; rfl] at hdrop
    rw [hregs]
    exact hdrop
  have hrun : runBlock irqCommonReturn t' = (atIret t').iret := run_isrCommonReturn t'
  rw [hrun]
  cases decEq (rpl s.segs.cs) (rpl 0x08) with
  | isTrue hrpl =>
      have hstack : s.interruptBase g = s.regs.esp := by rw [Cpu.interruptBase, hg, if_pos hrpl]
      have hss : t'.segs.ss = s.segs.ss := hret.ss.trans (h.ss (by rw [hg, hrpl]))
      -- all that was pushed is gone
      have hesp : t.regs.esp + 8 + 4 + 32 + 8 + 12 = s.regs.esp := by
        rw [hbase, hstack, if_pos hrpl, add_assoc, add_assoc, add_assoc]
        exact sub_add_cancel s.regs.esp 56
      rw [Cpu.iret_same hrow (by rw [hcs, hrpl])]
      refine ⟨?_, rfl, Flags.load_word _, ?_⟩
      · rw [hregs]
        dsimp only
        rw [hesp]
      · rw [hsegs]
        dsimp only
        rw [hss]
  | isFalse hrpl =>
      rw [if_neg hrpl] at hrow
      rw [Cpu.iret_outer hrow (by rw [hcs]; exact hrpl)]
      refine ⟨?_, rfl, Flags.load_word _, ?_⟩
      · rw [hregs]
      · rw [hsegs]

end Row

/-! ## The lines -/

theorem run_irq (n : Fin 16) (u : Cpu) :
    runBlock (irq n) u = { u.pushAll [0, irqVector n] with flags := u.flags.cli } := by
  simp [irq]

/-- The state in which `irq_handler` starts. -/
def irqRaised (L : IrqSymbols) (T : Tss) (n : Fin 16) (s : Cpu) : Cpu :=
  runBlock (irq n ++ irqCommonStub L) (s.interrupt (irqGate L T n) none)

/-- What happens at an interrupt of the line `n`. -/
structure IrqRight (n : Fin 16) (L : IrqSymbols) (T : Tss) (s : Cpu) (handlers : IrqHandlers)
    (t : Cpu) (f : RegsT) : Prop where
  entered : (s.interrupt (irqGate L T n) none).eip = L.irq n
  called : t.eip = L.irqHandler
  disabled : t.flags.word &&& 0x200 = 0
  intNo : f.intNo = irqVector n
  errCode : f.errCode = 0
  interrupted : Interrupted s f
  /-- The ends of interrupt come before the handler of the line. -/
  handled : irqHandler handlers f = some
    ((if 8 ≤ n.val then [.outb 0xA0 0x20] else []) ++ [.outb 0x20 0x20] ++
      if handlers n ≠ 0 then [.handler (handlers n) f] else [])
  /-- Nothing is written but the structure, a pointer to it and the return address. -/
  kept : Cpu.WrittenBelow s.mem (s.interruptBase (irqGate L T n)) (frameSize s + 8) t.mem
  continues : ∀ t', IrqReturns L s t t' → Continues s (runBlock irqCommonReturn t')

/-- **Device interrupts reach their handler** with the state of the interrupted code,
which goes on afterwards where it was, with its `ds` in the other data segments. -/
theorem irq_reaches_handler (n : Fin 16) (L : IrqSymbols) (T : Tss) (s : Cpu)
    (handlers : IrqHandlers) :
    let t := irqRaised L T n s
    IrqRight n L T s handlers t (regsTAt t.mem (load32 t.mem (t.regs.esp + 4))) := by
  intro t
  have hg : (irqGate L T n).selector = 0x08 := rfl
  have hrow : [irqVector n, 0].length ≤ 16 := by simp
  let v := runBlock (irq n) (s.interrupt (irqGate L T n) none)
  have hv : AtStub (irqGate L T n) [irqVector n, 0] s v := by
    rw [show v = _ from run_irq n _]
    exact atStub_pushAll _ _ s hrow
  have ht : Entered L (irqGate L T n) [irqVector n, 0] s v t := by
    rw [show t = _ from runBlock_append _ _ _]
    exact hv.entered L hrow
  have hwords := ht.words
  rw [savedRow_eq hg] at hwords
  rw [ht.ptr]
  have hint : (regsTAt t.mem (t.regs.esp + 8)).intNo = irqVector n := hwords.get 9 rfl
  constructor
  case entered => exact offset_idtSetGate _ _ _
  case called => exact ht.eip
  case disabled => exact ht.disabled
  case intNo => exact hint
  case errCode => exact hwords.get 10 rfl
  case interrupted => exact ht.interrupted hv hg
  case handled =>
    rw [irqHandler_irqVector handlers hint, irqEois]
    simp only [forty_le_irqVector]
    split_ifs <;> rfl
  case kept => exact length_savedRow hg ▸ ht.kept
  case continues => exact fun t' => ht.continues hg

end StardustOS.Idt
