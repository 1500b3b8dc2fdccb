import StardustOS.Lib.Words

/-!
# A 32-bit x86 processor

The registers, and the instructions of straight code at privilege level 0 with
flat segments.  The bytes of memory are the same in all address spaces, so a
load of `cr3` changes none.  Where the instructions stand in memory is left
out: `eip` is where the control goes when the code is through.

`Cpu.interrupt` is what the processor does before the first instruction of an
interrupt routine.
-/

namespace StardustOS.Lib.X86

/-! ## Registers -/

inductive Reg
  | eax | ecx | edx | ebx | esp | ebp | esi | edi

/-- The general registers. -/
@[ext] structure Regs where
  eax : UInt32 := 0
  ecx : UInt32 := 0
  edx : UInt32 := 0
  ebx : UInt32 := 0
  esp : UInt32 := 0
  ebp : UInt32 := 0
  esi : UInt32 := 0
  edi : UInt32 := 0
deriving DecidableEq

def Regs.get (r : Regs) : Reg → UInt32
  | .eax => r.eax
  | .ecx => r.ecx
  | .edx => r.edx
  | .ebx => r.ebx
  | .esp => r.esp
  | .ebp => r.ebp
  | .esi => r.esi
  | .edi => r.edi

def Regs.set (r : Regs) (v : UInt32) : Reg → Regs
  | .eax => { r with eax := v }
  | .ecx => { r with ecx := v }
  | .edx => { r with edx := v }
  | .ebx => { r with ebx := v }
  | .esp => { r with esp := v }
  | .ebp => { r with ebp := v }
  | .esi => { r with esi := v }
  | .edi => { r with edi := v }

inductive Seg
  | es | ss | ds | fs | gs

/-- The selectors. -/
structure Segs where
  cs : UInt16 := 0
  ss : UInt16 := 0
  ds : UInt16 := 0
  es : UInt16 := 0
  fs : UInt16 := 0
  gs : UInt16 := 0
deriving DecidableEq

def Segs.get (r : Segs) : Seg → UInt16
  | .es => r.es
  | .ss => r.ss
  | .ds => r.ds
  | .fs => r.fs
  | .gs => r.gs

def Segs.set (r : Segs) (v : UInt16) : Seg → Segs
  | .es => { r with es := v }
  | .ss => { r with ss := v }
  | .ds => { r with ds := v }
  | .fs => { r with fs := v }
  | .gs => { r with gs := v }

/-- The flags that `popf` can set: CF, PF, AF, ZF, SF, TF, IF, DF, OF, IOPL, NT,
AC and ID.  RF, VM, VIF and VIP, which it clears or keeps, are left out: they are 0. -/
def settable : UInt32 := 0x00247FD5

/-- The flags word.  Bit 1 is set, and the other reserved bits are clear. -/
@[ext] structure Flags where
  word : UInt32
  reserved : word &&& ~~~settable = 2
deriving DecidableEq

theorem or_and_distrib (x y z : UInt32) : (x ||| y) &&& z = x &&& z ||| y &&& z :=
  UInt32.toBitVec_inj.mp BitVec.and_or_distrib_right

theorem and_or_distrib (x y z : UInt32) : x &&& (y ||| z) = x &&& y ||| x &&& z :=
  UInt32.toBitVec_inj.mp BitVec.and_or_distrib_left

/-- A word is put into the flags. -/
def Flags.load (w : UInt32) : Flags where
  word := w &&& settable ||| 2
  reserved := by
    have hclear : w &&& settable &&& ~~~settable = 0 := by
      rw [UInt32.and_assoc, UInt32.and_not_self, UInt32.and_zero]
    rw [or_and_distrib, hclear, UInt32.zero_or]
    rfl

/-- What comes out of the flags goes into them unchanged. -/
@[simp] theorem Flags.load_word (f : Flags) : Flags.load f.word = f := by
  refine Flags.ext ?_
  have hall : settable ||| ~~~settable = -1 := by rfl
  calc f.word &&& settable ||| 2 = f.word &&& (settable ||| ~~~settable) := by
        rw [and_or_distrib, f.reserved]
    _ = f.word := by rw [hall, UInt32.and_neg_one]

/-- `cli` -/
def Flags.cli (f : Flags) : Flags := .load (f.word &&& ~~~(0x200 : UInt32))

/-- `sti` -/
def Flags.sti (f : Flags) : Flags := .load (f.word ||| 0x200)

/-- TF, IF and NT are cleared at an interrupt gate. -/
def Flags.atGate (f : Flags) : Flags := .load (f.word &&& ~~~(0x4300 : UInt32))

/-- PF: an even number of ones in the low byte. -/
def parity (r : UInt32) : UInt32 :=
  if (List.range 8).countP (fun i => r.toNat.testBit i) % 2 = 0 then 0x4 else 0

/-- The flags of an addition: CF, PF, AF, ZF, SF and OF. -/
def Flags.add (x y : UInt32) (f : Flags) : Flags :=
  let r := x + y
  let carry : UInt32 := if r < x then 0x1 else 0
  let zero : UInt32 := if r = 0 then 0x40 else 0
  let sign : UInt32 := r >>> 24
  let overflow : UInt32 := ((x ^^^ r) &&& (y ^^^ r)) >>> 20
  .load (f.word &&& ~~~(0x8D5 : UInt32) ||| carry ||| parity r ||| (x ^^^ y ^^^ r) &&& 0x10
    ||| zero ||| sign &&& 0x80 ||| overflow &&& 0x800)

/-! ## The processor -/

structure Cpu where
  regs : Regs := {}
  eip : UInt32 := 0
  flags : Flags := .load 0
  segs : Segs := {}
  cr3 : UInt32 := 0
  mem : ByteMem := fun _ => 0

namespace Cpu

/-- The word on top of the stack. -/
def top (s : Cpu) : UInt32 := load32 s.mem s.regs.esp

def push (v : UInt32) (s : Cpu) : Cpu :=
  { s with
    regs := { s.regs with esp := s.regs.esp - 4 }
    mem := store32 s.mem (s.regs.esp - 4) v }

/-- Words are pushed, the first one first. -/
def pushAll (vs : List UInt32) (s : Cpu) : Cpu := vs.foldl (fun s v => s.push v) s

/-- `n` bytes are taken off the stack. -/
def discard (n : UInt32) (s : Cpu) : Cpu :=
  { s with regs := { s.regs with esp := s.regs.esp + n } }

def setReg (r : Reg) (v : UInt32) (s : Cpu) : Cpu := { s with regs := s.regs.set v r }

/-- The low half of a register is written. -/
def setReg16 (r : Reg) (v : UInt16) (s : Cpu) : Cpu :=
  s.setReg r (s.regs.get r &&& 0xFFFF0000 ||| v.toUInt32)

end Cpu

/-- The low half of a register that was written. -/
theorem low_half (v : UInt32) (w : UInt16) : (v &&& 0xFFFF0000 ||| w.toUInt32).toUInt16 = w := by
  have hclear : (0xFFFF0000 : UInt32).toUInt16 = 0 := by rfl
  rw [UInt32.toUInt16_or, UInt32.toUInt16_and, hclear, UInt16.and_zero, UInt16.zero_or,
    UInt16.toUInt16_toUInt32]

/-- The privilege level in a selector. -/
def rpl (sel : UInt16) : UInt16 := sel &&& 3

/-! ## Instructions -/

inductive Instr
  | pusha
  | popa
  | pushf
  | popf
  | push (r : Reg)
  | pushImm (v : UInt32)
  | pop (r : Reg)
  /-- `mov d(base), r` -/
  | load (d : UInt32) (base r : Reg)
  /-- `mov r, d(base)` -/
  | store (r : Reg) (d : UInt32) (base : Reg)
  | addImm (v : UInt32) (r : Reg)
  /-- `xchg (base), r` -/
  | xchg (base r : Reg)
  /-- `mov %cr3, r` -/
  | readCr3 (r : Reg)
  /-- `mov r, %cr3` -/
  | writeCr3 (r : Reg)
  /-- `mov r, r'` of the low halves -/
  | mov16 (r r' : Reg)
  | movImm16 (v : UInt16) (r : Reg)
  | readSeg (g : Seg) (r : Reg)
  | writeSeg (r : Reg) (g : Seg)
  | cli
  | sti
  /-- The address of the next instruction is pushed. -/
  | call (target next : UInt32)
  | ret
  | iret

/-- The registers that `popa` finds.  The stack pointer among them is left out. -/
def Cpu.popped (s : Cpu) : Regs where
  edi := load32 s.mem s.regs.esp
  esi := load32 s.mem (s.regs.esp + 4)
  ebp := load32 s.mem (s.regs.esp + 8)
  esp := s.regs.esp + 32
  ebx := load32 s.mem (s.regs.esp + 16)
  edx := load32 s.mem (s.regs.esp + 20)
  ecx := load32 s.mem (s.regs.esp + 24)
  eax := load32 s.mem (s.regs.esp + 28)

/-- The stack pointer and the stack segment come back only with a change of the
privilege level. -/
def Cpu.iret (s : Cpu) : Cpu :=
  let p := s.regs.esp
  let cs := (load32 s.mem (p + 4)).toUInt16
  let t := { s with
    eip := load32 s.mem p
    flags := .load (load32 s.mem (p + 8)) }
  if rpl cs = rpl s.segs.cs then
    { t with
      segs := { s.segs with cs := cs }
      regs := { s.regs with esp := p + 12 } }
  else
    { t with
      segs := { s.segs with cs := cs, ss := (load32 s.mem (p + 16)).toUInt16 }
      regs := { s.regs with esp := load32 s.mem (p + 12) } }

def exec (s : Cpu) : Instr → Cpu
  | .pusha =>
      s.pushAll [s.regs.eax, s.regs.ecx, s.regs.edx, s.regs.ebx, s.regs.esp, s.regs.ebp,
        s.regs.esi, s.regs.edi]
  | .popa => { s with regs := s.popped }
  | .pushf => s.push s.flags.word
  | .popf => { s.discard 4 with flags := .load s.top }
  | .push r => s.push (s.regs.get r)
  | .pushImm v => s.push v
  | .pop r => (s.discard 4).setReg r s.top
  | .load d base r => s.setReg r (load32 s.mem (s.regs.get base + d))
  | .store r d base => { s with mem := store32 s.mem (s.regs.get base + d) (s.regs.get r) }
  | .addImm v r =>
      { s.setReg r (s.regs.get r + v) with flags := s.flags.add (s.regs.get r) v }
  | .xchg base r =>
      { s.setReg r (load32 s.mem (s.regs.get base)) with
        mem := store32 s.mem (s.regs.get base) (s.regs.get r) }
  | .readCr3 r => s.setReg r s.cr3
  | .writeCr3 r => { s with cr3 := s.regs.get r }
  | .mov16 r r' => s.setReg16 r' (s.regs.get r).toUInt16
  | .movImm16 v r => s.setReg16 r v
  | .readSeg g r => s.setReg16 r (s.segs.get g)
  | .writeSeg r g => { s with segs := s.segs.set (s.regs.get r).toUInt16 g }
  | .cli => { s with flags := s.flags.cli }
  | .sti => { s with flags := s.flags.sti }
  | .call target next => { s.push next with eip := target }
  | .ret => { s.discard 4 with eip := s.top }
  | .iret => s.iret

/-- A block of code runs. -/
def runBlock (p : List Instr) (s : Cpu) : Cpu := p.foldl exec s

@[simp] theorem runBlock_nil (s : Cpu) : runBlock [] s = s := rfl

@[simp] theorem runBlock_cons (i : Instr) (p : List Instr) (s : Cpu) :
    runBlock (i :: p) s = runBlock p (exec s i) := rfl

theorem runBlock_append (p q : List Instr) (s : Cpu) :
    runBlock (p ++ q) s = runBlock q (runBlock p s) := List.foldl_append

/-! What an instruction does is worked out by `simp`. -/

attribute [simp] exec Regs.get Regs.set Segs.get Segs.set Cpu.setReg Cpu.setReg16 Cpu.push
  Cpu.discard Cpu.top

/-! ## Interrupts -/

/-- What a gate and the task state segment say of an interrupt: the routine, and
the stack for a change to the level of the routine. -/
structure Gate where
  selector : UInt16
  offset : UInt32
  ss0 : UInt16
  esp0 : UInt32

/-- Where the processor pushes: on the stack of the gate with a change of the privilege
level, and there the old stack first. -/
def Cpu.entered (g : Gate) (s : Cpu) : Cpu :=
  if rpl s.segs.cs = rpl g.selector then s
  else
    ({ s with
      regs := { s.regs with esp := g.esp0 }
      segs := { s.segs with ss := g.ss0 } } : Cpu).pushAll [s.segs.ss.toUInt32, s.regs.esp]

/-- The processor enters the routine of an interrupt gate. -/
def Cpu.interrupt (g : Gate) (code : Option UInt32) (s : Cpu) : Cpu :=
  let t := (s.entered g).pushAll
    ([s.flags.word, s.segs.cs.toUInt32, s.eip] ++ code.toList)
  { t with
    eip := g.offset
    segs := { t.segs with cs := g.selector }
    flags := s.flags.atGate }

/-! ## Pushes -/

namespace Cpu

variable {s : Cpu} {ws : List UInt32}

@[simp] theorem pushAll_nil (s : Cpu) : s.pushAll [] = s := rfl

@[simp] theorem pushAll_cons (v : UInt32) (vs : List UInt32) (s : Cpu) :
    s.pushAll (v :: vs) = (s.push v).pushAll vs := rfl

/-- The words that are pushed come to stand before those of the stack. -/
theorem words_pushAll (vs : List UInt32) (h : Words s.mem s.regs.esp ws)
    (hsize : 4 * (vs.length + ws.length) ≤ 2 ^ 32) :
    Words (s.pushAll vs).mem (s.pushAll vs).regs.esp (vs.reverse ++ ws) := by
  induction vs generalizing s ws with
  | nil => exact h
  | cons v vs ih =>
      rw [List.length_cons] at hsize
      have hpush : Words (s.push v).mem (s.push v).regs.esp (v :: ws) := h.push (by omega)
      have hall := ih hpush (by rw [List.length_cons]; omega)
      rwa [← List.singleton_append, ← List.append_assoc, ← List.reverse_cons] at hall

theorem esp_pushAll (vs : List UInt32) (s : Cpu) :
    (s.pushAll vs).regs.esp = s.regs.esp - UInt32.ofNat (4 * vs.length) := by
  induction vs generalizing s with
  | nil => exact (sub_zero _).symm
  | cons v vs ih =>
      have hsum : UInt32.ofNat (4 * (vs.length + 1)) = 4 + UInt32.ofNat (4 * vs.length) := by
        rw [Nat.mul_succ, UInt32.ofNat_add, add_comm]
        rfl
      rw [pushAll_cons, ih, List.length_cons, hsum, ← sub_sub]
      rfl

/-- Pushes change the stack pointer and the memory only. -/
theorem pushAll_eq (vs : List UInt32) (s : Cpu) :
    s.pushAll vs = { s with
      regs := { s.regs with esp := (s.pushAll vs).regs.esp }
      mem := (s.pushAll vs).mem } := by
  induction vs generalizing s with
  | nil => rfl
  | cons v vs ih =>
      rw [pushAll_cons, ih (s.push v)]
      rfl

@[simp] theorem segs_pushAll (vs : List UInt32) (s : Cpu) : (s.pushAll vs).segs = s.segs := by
  induction vs generalizing s with
  | nil => rfl
  | cons v vs ih => exact ih (s.push v)

/-- Pushes write below the stack pointer. -/
theorem mem_pushAll (vs : List UInt32) {z : UInt32} (hsize : 4 * vs.length ≤ 2 ^ 32)
    (hz : ¬ InBlock (s.regs.esp - UInt32.ofNat (4 * vs.length)) (4 * vs.length) z) :
    (s.pushAll vs).mem z = s.mem z := by
  induction vs generalizing s with
  | nil => rfl
  | cons v vs ih =>
      rw [List.length_cons] at hsize hz
      have hesp : (s.push v).regs.esp - UInt32.ofNat (4 * vs.length) =
          s.regs.esp - UInt32.ofNat (4 * (vs.length + 1)) := by
        rw [← esp_pushAll, ← List.length_cons, ← esp_pushAll, pushAll_cons]
      have htop : s.regs.esp - UInt32.ofNat (4 * (vs.length + 1)) + UInt32.ofNat (4 * vs.length) =
          s.regs.esp - 4 := by
        rw [← hesp, sub_add_cancel]
        rfl
      rw [pushAll_cons, ih (by omega) fun h => hz (hesp ▸ h.mono (by omega))]
      refine store32_of_not_inBlock fun h => hz ?_
      rw [← htop] at h
      exact h.within (by omega) hsize

/-! ## What pushes write -/

/-- Only the `n` bytes below a stack pointer may differ. -/
def WrittenBelow (m : ByteMem) (base : UInt32) (n : Nat) (m' : ByteMem) : Prop :=
  ∀ z, ¬ InBlock (base - UInt32.ofNat n) n z → m' z = m z

theorem WrittenBelow.trans {m m' m'' : ByteMem} {base b : UInt32} {n k : Nat}
    (h : WrittenBelow m base n m') (h' : WrittenBelow m' b k m'')
    (hb : b = base - UInt32.ofNat n) (hsize : n + k ≤ 2 ^ 32) :
    WrittenBelow m base (n + k) m'' := by
  subst hb
  intro z hz
  have hfirst : ¬ InBlock (base - UInt32.ofNat n) n z := by
    rw [← sub_offset base k n, Nat.add_comm k n]
    exact fun hin => hz (hin.within (by omega) hsize)
  have hrest : ¬ InBlock (base - UInt32.ofNat n - UInt32.ofNat k) k z := by
    rw [sub_sub, ← UInt32.ofNat_add]
    exact fun hin => hz (hin.mono (Nat.le_add_left k n))
  rw [h' z hrest, h z hfirst]

theorem writtenBelow_pushAll (vs : List UInt32) (s : Cpu) (hsize : 4 * vs.length ≤ 2 ^ 32) :
    WrittenBelow s.mem s.regs.esp (4 * vs.length) (s.pushAll vs).mem :=
  fun _ hz => mem_pushAll vs hsize hz

/-! ## Pops -/

/-- `popa` finds what `pusha` left. -/
theorem popped_of_words {edi esi ebp esp ebx edx ecx eax : UInt32}
    (h : Words s.mem s.regs.esp (edi :: esi :: ebp :: esp :: ebx :: edx :: ecx :: eax :: ws)) :
    s.popped = {
      edi := edi, esi := esi, ebp := ebp, ebx := ebx, edx := edx, ecx := ecx, eax := eax
      esp := s.regs.esp + 32 } := by
  rw [popped, Regs.mk.injEq]
  exact ⟨h.get 7 rfl, h.get 6 rfl, h.get 5 rfl, h.get 4 rfl, rfl, h.get 2 rfl, h.get 1 rfl, h.1⟩

/-- Back to code of the same privilege level. -/
theorem iret_same {eip fl : UInt32} {cs : UInt16}
    (h : Words s.mem s.regs.esp (eip :: cs.toUInt32 :: fl :: ws)) (hrpl : rpl cs = rpl s.segs.cs) :
    s.iret = { s with
      eip := eip
      flags := .load fl
      segs := { s.segs with cs := cs }
      regs := { s.regs with esp := s.regs.esp + 12 } } := by
  have hcs : load32 s.mem (s.regs.esp + 4) = cs.toUInt32 := h.get 1 rfl
  have hfl : load32 s.mem (s.regs.esp + 8) = fl := h.get 2 rfl
  simp only [iret, hcs, hfl, h.1, UInt16.toUInt16_toUInt32, if_pos hrpl]

/-- Back to code of another privilege level, on the stack that it had. -/
theorem iret_outer {eip fl esp : UInt32} {cs ss : UInt16}
    (h : Words s.mem s.regs.esp (eip :: cs.toUInt32 :: fl :: esp :: ss.toUInt32 :: ws))
    (hrpl : rpl cs ≠ rpl s.segs.cs) :
    s.iret = { s with
      eip := eip
      flags := .load fl
      segs := { s.segs with cs := cs, ss := ss }
      regs := { s.regs with esp := esp } } := by
  have hcs : load32 s.mem (s.regs.esp + 4) = cs.toUInt32 := h.get 1 rfl
  have hfl : load32 s.mem (s.regs.esp + 8) = fl := h.get 2 rfl
  have hesp : load32 s.mem (s.regs.esp + 12) = esp := h.get 3 rfl
  have hss : load32 s.mem (s.regs.esp + 16) = ss.toUInt32 := h.get 4 rfl
  simp only [iret, hcs, hfl, hesp, hss, h.1, UInt16.toUInt16_toUInt32, if_neg hrpl]

/-! ## The stack of an interrupt routine -/

/-- What the processor pushed, the top of the stack first. -/
def interruptRow (g : Gate) (code : Option UInt32) (s : Cpu) : List UInt32 :=
  code.toList ++ [s.eip, s.segs.cs.toUInt32, s.flags.word] ++
    if rpl s.segs.cs = rpl g.selector then [] else [s.regs.esp, s.segs.ss.toUInt32]

/-- The stack on which it pushed. -/
def interruptBase (g : Gate) (s : Cpu) : UInt32 :=
  if rpl s.segs.cs = rpl g.selector then s.regs.esp else g.esp0

variable (g : Gate) (code : Option UInt32)

theorem words_entered (s : Cpu) : Words (s.entered g).mem (s.entered g).regs.esp
    (if rpl s.segs.cs = rpl g.selector then [] else [s.regs.esp, s.segs.ss.toUInt32]) := by
  rw [entered]
  split_ifs with hrpl
  · trivial
  · exact words_pushAll _ (show Words s.mem g.esp0 [] from trivial) (by simp)

theorem words_interrupt (s : Cpu) :
    Words (s.interrupt g code).mem (s.interrupt g code).regs.esp (s.interruptRow g code) := by
  have hcode : code.toList.length ≤ 1 := by cases code <;> simp
  have hpush := words_pushAll ([s.flags.word, s.segs.cs.toUInt32, s.eip] ++ code.toList)
    (words_entered g s) (by
      split_ifs <;> simp only [List.length_append, List.length_cons, List.length_nil] <;> omega)
  have hrow : ([s.flags.word, s.segs.cs.toUInt32, s.eip] ++ code.toList).reverse =
      code.toList ++ [s.eip, s.segs.cs.toUInt32, s.flags.word] := by
    cases code <;> rfl
  rwa [hrow] at hpush

theorem regs_interrupt (s : Cpu) : (s.interrupt g code).regs =
    { s.regs with esp := (s.interrupt g code).regs.esp } := by
  have hentered : (s.entered g).regs = { s.regs with esp := (s.entered g).regs.esp } := by
    rw [entered]
    split_ifs with hrpl
    · rfl
    · rw [pushAll_eq]
  rw [interrupt]
  dsimp only
  rw [pushAll_eq, hentered]

theorem ds_interrupt (s : Cpu) : (s.interrupt g code).segs.ds = s.segs.ds := by
  have hentered : (s.entered g).segs.ds = s.segs.ds := by
    rw [entered]
    split_ifs with hrpl
    · rfl
    · rw [segs_pushAll]
  rw [interrupt]
  dsimp only
  rw [segs_pushAll, hentered]

/-- An interrupt writes what it pushes. -/
theorem writtenBelow_interrupt (s : Cpu) : WrittenBelow s.mem (s.interruptBase g)
    (4 * (s.interruptRow g code).length) (s.interrupt g code).mem := by
  have hcode : code.toList.length ≤ 1 := by cases code <;> simp
  have hpush := writtenBelow_pushAll ([s.flags.word, s.segs.cs.toUInt32, s.eip] ++ code.toList)
    (s.entered g) (by simp only [List.length_append, List.length_cons, List.length_nil]; omega)
  have hlen : (s.interruptRow g code).length =
      (if rpl s.segs.cs = rpl g.selector then 0 else 2) +
        ([s.flags.word, s.segs.cs.toUInt32, s.eip] ++ code.toList).length := by
    rw [interruptRow]
    split_ifs <;> simp only [List.length_append, List.length_cons, List.length_nil] <;> omega
  rw [hlen, interruptBase]
  rw [entered] at hpush
  rw [interrupt, entered]
  split_ifs at hpush ⊢ with hrpl
  · rw [Nat.zero_add]
    exact hpush
  · -- the old stack comes first
    have hstack := writtenBelow_pushAll [s.segs.ss.toUInt32, s.regs.esp] ({ s with
      regs := { s.regs with esp := g.esp0 }
      segs := { s.segs with ss := g.ss0 } } : Cpu) (Nat.le_of_ble_eq_true rfl)
    rw [Nat.mul_add]
    refine hstack.trans hpush (esp_pushAll _ _) ?_
    simp only [List.length_append, List.length_cons, List.length_nil]
    omega

/-- The stack pointer is as far below the stack as words were pushed. -/
theorem esp_interrupt (s : Cpu) : (s.interrupt g code).regs.esp =
    s.interruptBase g - UInt32.ofNat (4 * (s.interruptRow g code).length) := by
  have hentered : (s.entered g).regs.esp = s.interruptBase g - UInt32.ofNat (4 *
      (if rpl s.segs.cs = rpl g.selector then [] else
        [s.regs.esp, s.segs.ss.toUInt32]).length) := by
    rw [entered, interruptBase]
    split_ifs with hrpl
    · exact (sub_zero _).symm
    · exact esp_pushAll _ _
  rw [interrupt]
  dsimp only
  rw [esp_pushAll, hentered, sub_sub, ← UInt32.ofNat_add, ← Nat.mul_add, interruptRow]
  refine congrArg (fun k => s.interruptBase g - UInt32.ofNat (4 * k)) ?_
  simp only [List.length_append, List.length_cons, List.length_nil]
  omega

end Cpu

end StardustOS.Lib.X86
