import StardustOS.Lib.X86
import StardustOS.Process.Table

/-!
# The routine that switches contexts

`proc_regswitch(a, b)` saves the registers of its caller in the record `a` and
loads those in the record `b`.  It is written for the processor itself: the
caller's registers are pushed, and copied from the stack into the record with
whatever registers are free by then.
-/

namespace StardustOS.Process

open Lib Lib.X86

/-- The record in the order of the structure. -/
def ProcRegs.words (r : ProcRegs) : List UInt32 :=
  [r.eax, r.ebx, r.ecx, r.edx, r.esi, r.edi, r.esp, r.ebp, r.eip, r.eflags, r.cr3]

namespace Regswitch

/-! ## The routine -/

/-- All that is saved is pushed first. -/
def pushes : List Instr :=
  [.pusha, .pushf, .readCr3 .eax, .push .eax]

/-- The registers that are still the caller's go into the record `a`. -/
def savesRegs : List Instr :=
  [.load 44 .esp .eax, .store .ebx 4 .eax, .store .ecx 8 .eax, .store .edx 12 .eax,
    .store .esi 16 .eax, .store .edi 20 .eax]

/-- The others come from the stack. -/
def readsStack : List Instr :=
  [.load 36 .esp .ebx, .load 40 .esp .ecx, .load 20 .esp .edx, .addImm 4 .edx, .load 16 .esp .esi,
    .load 4 .esp .edi]

def savesStack : List Instr :=
  [.store .ebx 0 .eax, .store .edx 24 .eax, .store .esi 28 .eax, .store .ecx 32 .eax,
    .store .edi 36 .eax, .pop .ebx, .store .ebx 40 .eax, .push .ebx]

/-- The registers of the record `b` that nothing needs any more. -/
def loadRegs : List Instr :=
  [.load 48 .esp .eax,
    .load 4 .eax .ebx, .load 8 .eax .ecx, .load 12 .eax .edx, .load 16 .eax .esi,
    .load 20 .eax .edi, .load 28 .eax .ebp]

def loadFlags : List Instr :=
  [.push .eax, .load 36 .eax .eax, .push .eax, .popf, .pop .eax]

/-- From here on the stack is that of `b`. -/
def loadRest : List Instr :=
  [.load 24 .eax .esp,
    .push .eax, .load 40 .eax .eax, .writeCr3 .eax, .pop .eax,
    .push .eax, .load 32 .eax .eax, .xchg .esp .eax, .load 0 .eax .eax, .ret]

def saves : List Instr := savesRegs ++ readsStack ++ savesStack

def loads : List Instr := loadRegs ++ loadFlags ++ loadRest

def procRegswitch : List Instr := pushes ++ saves ++ loads

/-! ## Records -/

/-- The record at an address. -/
def procRegsAt (m : ByteMem) (p : UInt32) : ProcRegs where
  eax := load32 m p
  ebx := load32 m (p + 4)
  ecx := load32 m (p + 8)
  edx := load32 m (p + 12)
  esi := load32 m (p + 16)
  edi := load32 m (p + 20)
  esp := load32 m (p + 24)
  ebp := load32 m (p + 28)
  eip := load32 m (p + 32)
  eflags := load32 m (p + 36)
  cr3 := load32 m (p + 40)

/-- A record is stored at an address. -/
def storeRegs (m : ByteMem) (p : UInt32) (r : ProcRegs) : ByteMem :=
  storeWords m p (r.words.zipIdx.map Prod.swap)

/-- The registers of the processor. -/
def cpuRegs (s : Cpu) : ProcRegs where
  eax := s.regs.eax
  ebx := s.regs.ebx
  ecx := s.regs.ecx
  edx := s.regs.edx
  esi := s.regs.esi
  edi := s.regs.edi
  esp := s.regs.esp
  ebp := s.regs.ebp
  eip := s.eip
  eflags := s.flags.word
  cr3 := s.cr3

theorem words_procRegsAt (m : ByteMem) (p : UInt32) : Words m p (procRegsAt m p).words := by
  have hrow : wordsAt m p 11 = (procRegsAt m p).words := by
    simp only [wordsAt, procRegsAt, ProcRegs.words, add_assoc]
    rfl
  exact hrow ▸ words_wordsAt m p 11

theorem procRegsAt_eq {m : ByteMem} {p : UInt32} {r : ProcRegs} (h : Words m p r.words) :
    procRegsAt m p = r := by
  rw [procRegsAt, ProcRegs.mk.injEq]
  exact ⟨h.1, h.get 1 rfl, h.get 2 rfl, h.get 3 rfl, h.get 4 rfl, h.get 5 rfl,
    h.get 6 rfl, h.get 7 rfl, h.get 8 rfl, h.get 9 rfl, h.get 10 rfl⟩

/-! ## Saving -/

/-- What the record of the caller holds: the stack pointer as it is after the return,
and the return address. -/
def savedRegs (s : Cpu) : ProcRegs :=
  { cpuRegs s with esp := s.regs.esp + 4, eip := s.top }

def pushed (s : Cpu) : List UInt32 :=
  [s.regs.eax, s.regs.ecx, s.regs.edx, s.regs.ebx, s.regs.esp, s.regs.ebp, s.regs.esi, s.regs.edi,
    s.flags.word, s.cr3]

theorem run_pushes (s : Cpu) :
    runBlock pushes s = (s.pushAll (pushed s)).setReg .eax s.cr3 := by
  simp [pushes, pushed]

theorem run_savesRegs (t : Cpu) :
    runBlock savesRegs t = { t with
      regs := { t.regs with eax := load32 t.mem (t.regs.esp + 44) }
      mem := storeWords t.mem (load32 t.mem (t.regs.esp + 44))
        [(1, t.regs.ebx), (2, t.regs.ecx), (3, t.regs.edx), (4, t.regs.esi),
          (5, t.regs.edi)] } := by
  simp [savesRegs, storeWords]

theorem run_readsStack (t : Cpu) : runBlock readsStack t = { t with
      regs := { t.regs with
        ebx := load32 t.mem (t.regs.esp + 36)
        ecx := load32 t.mem (t.regs.esp + 40)
        edx := load32 t.mem (t.regs.esp + 20) + 4
        esi := load32 t.mem (t.regs.esp + 16)
        edi := load32 t.mem (t.regs.esp + 4) }
      flags := t.flags.add (load32 t.mem (t.regs.esp + 20)) 4 } := by
  simp [readsStack]

theorem run_savesStack (t : Cpu) :
    let m := storeWords t.mem t.regs.eax
      [(0, t.regs.ebx), (6, t.regs.edx), (7, t.regs.esi), (8, t.regs.ecx), (9, t.regs.edi)]
    let w := load32 m t.regs.esp
    runBlock savesStack t = { t with
      regs := { t.regs with ebx := w }
      mem := store32 (storeWords m t.regs.eax [(10, w)]) t.regs.esp w } := by
  simp [savesStack, storeWords]

/-- The record `a` is written from the row of words on the stack, and the lowest of
these is written again. -/
structure Saved (s t u : Cpu) (a b : UInt32) : Prop where
  esp : u.regs.esp = t.regs.esp
  record : Words u.mem a (savedRegs s).words
  arg : load32 u.mem (t.regs.esp + 48) = b
  frame : ∀ z, ¬ InBlock a 44 z → ¬ InBlock t.regs.esp 4 z → u.mem z = t.mem z

theorem run_saves {s t : Cpu} {a b : UInt32}
    (hregs : t.regs = { s.regs with eax := t.regs.eax, esp := t.regs.esp })
    (hrow : Words t.mem t.regs.esp ((pushed s).reverse ++ [s.top, a, b]))
    (ha : BlocksApart a 44 t.regs.esp 52) : Saved s t (runBlock saves t) a b := by
  have hsize : 4 * ((pushed s).reverse ++ [s.top, a, b]).length ≤ 52 := by simp [pushed]
  -- the address of the record
  have harg : load32 t.mem (t.regs.esp + 44) = a := hrow.get 11 rfl
  set l := [(1, t.regs.ebx), (2, t.regs.ecx), (3, t.regs.edx), (4, t.regs.esi), (5, t.regs.edi)]
    with hl
  have hrow₁ : Words (storeWords t.mem a l) t.regs.esp ((pushed s).reverse ++ [s.top, a, b]) :=
    hrow.storeWords hsize (by omega) (k := 44) (by simp [hl]) (by omega) ha.symm
  -- what the stack gives
  have heax : load32 (storeWords t.mem a l) (t.regs.esp + 36) = s.regs.eax := hrow₁.get 9 rfl
  have hret : load32 (storeWords t.mem a l) (t.regs.esp + 40) = s.top := hrow₁.get 10 rfl
  have hesp : load32 (storeWords t.mem a l) (t.regs.esp + 20) = s.regs.esp := hrow₁.get 5 rfl
  have hebp : load32 (storeWords t.mem a l) (t.regs.esp + 16) = s.regs.ebp := hrow₁.get 4 rfl
  have hfl : load32 (storeWords t.mem a l) (t.regs.esp + 4) = s.flags.word := hrow₁.get 1 rfl
  set l' := [(0, s.regs.eax), (6, s.regs.esp + 4), (7, s.regs.ebp), (8, s.top), (9, s.flags.word)]
    with hl'
  have hrow₂ : Words (storeWords (storeWords t.mem a l) a l') t.regs.esp
      ((pushed s).reverse ++ [s.top, a, b]) :=
    hrow₁.storeWords hsize (by omega) (k := 44) (by simp [hl']) (by omega) ha.symm
  have hcr3 : load32 (storeWords (storeWords t.mem a l) a l') t.regs.esp = s.cr3 := hrow₂.1
  have hrun : runBlock saves t = { t with
      regs := { t.regs with
        eax := a, ebx := s.cr3, ecx := s.top, edx := s.regs.esp + 4, esi := s.regs.ebp
        edi := s.flags.word }
      flags := t.flags.add s.regs.esp 4
      mem := store32 (storeWords (storeWords (storeWords t.mem a l) a l') a [(10, s.cr3)])
        t.regs.esp s.cr3 } := by
    rw [saves, runBlock_append, runBlock_append, run_savesRegs, harg, run_readsStack,
      run_savesStack]
    simp only [← hl, heax, hret, hesp, hebp, hfl, ← hl', hcr3]
  rw [hrun]
  constructor
  case esp => rfl
  case record =>
    have hset := (((words_wordsAt t.mem a 11).setAll (l := l) (by simp [hl]) (by simp)).setAll
      (l := l') (by simp [hl', hl, setAll]) (by simp [hl, setAll])).setAll (l := [(10, s.cr3)])
      (by simp [hl', hl, setAll]) (by simp [hl', hl, setAll])
    have hwords : setAll (setAll (setAll (wordsAt t.mem a 11) l) l') [(10, s.cr3)] =
        (savedRegs s).words := by
      rw [hl, hregs]
      rfl
    rw [hwords] at hset
    exact hset.store (n := 44) (by simp [ProcRegs.words]) (by omega)
      fun z hz hz' => ha z hz (hz'.mono (by omega))
  case arg =>
    have hrow₃ := (hrow₂.storeWords (l := [(10, s.cr3)]) hsize (by omega) (k := 44) (by simp)
      (by omega) ha.symm).set (i := 0) (v := s.cr3) (by simp) (by omega)
    rw [Nat.mul_zero, offset_zero] at hrow₃
    exact hrow₃.get 12 rfl
  case frame =>
    intro z hz hz'
    dsimp only
    rw [store32_of_not_inBlock hz', storeWords_of_not_inBlock (n := 44) (by simp) (by omega) hz,
      storeWords_of_not_inBlock (n := 44) (by simp [hl']) (by omega) hz,
      storeWords_of_not_inBlock (n := 44) (by simp [hl]) (by omega) hz]

/-! ## Loading -/

section Loads

variable {u v : Cpu} {b : UInt32} {r : ProcRegs}

theorem length_words (r : ProcRegs) : 4 * r.words.length = 44 := rfl

/-- The record `b` after a store elsewhere. -/
theorem words_store {m : ByteMem} {y w : UInt32} (hr : Words m b r.words)
    (hy : BlocksApart b 44 y 4) : Words (store32 m y w) b r.words :=
  hr.store (length_words r).le (by omega) hy

theorem run_loadRegs (harg : load32 u.mem (u.regs.esp + 48) = b) (hr : Words u.mem b r.words) :
    runBlock loadRegs u = { u with
      regs := { u.regs with
        eax := b, ebx := r.ebx, ecx := r.ecx, edx := r.edx, esi := r.esi, edi := r.edi
        ebp := r.ebp } } := by
  have hebx : load32 u.mem (b + 4) = r.ebx := hr.get 1 rfl
  have hecx : load32 u.mem (b + 8) = r.ecx := hr.get 2 rfl
  have hedx : load32 u.mem (b + 12) = r.edx := hr.get 3 rfl
  have hesi : load32 u.mem (b + 16) = r.esi := hr.get 4 rfl
  have hedi : load32 u.mem (b + 20) = r.edi := hr.get 5 rfl
  have hebp : load32 u.mem (b + 28) = r.ebp := hr.get 7 rfl
  simp [loadRegs, harg, hebx, hecx, hedx, hesi, hedi, hebp]

theorem run_loadFlags (heax : v.regs.eax = b) (hr : Words v.mem b r.words)
    (hb : BlocksApart b 44 (v.regs.esp - 4) 4) :
    runBlock loadFlags v = { v with
      flags := .load r.eflags
      mem := store32 (store32 v.mem (v.regs.esp - 4) b) (v.regs.esp - 4 - 4) r.eflags } := by
  have hflags : load32 (store32 v.mem (v.regs.esp - 4) b) (b + 36) = r.eflags :=
    (words_store hr hb).get 9 rfl
  -- `b` is popped from below the flags
  have hpop : load32 (store32 (store32 v.mem (v.regs.esp - 4) b) (v.regs.esp - 4 - 4) r.eflags)
      (v.regs.esp - 4) = b := by
    rw [load32_store32_apart (BlocksApart.below _ (by omega)), load32_store32]
  rw [← heax] at hflags hpop ⊢
  simp [loadFlags, hflags, hpop]

theorem run_loadRest (heax : v.regs.eax = b) (hr : Words v.mem b r.words)
    (hb : BlocksApart b 44 (r.esp - 4) 4) :
    runBlock loadRest v = { v with
      regs := { v.regs with eax := r.eax, esp := r.esp }
      eip := r.eip
      cr3 := r.cr3
      mem := store32 v.mem (r.esp - 4) r.eip } := by
  have hesp : load32 v.mem (b + 24) = r.esp := hr.get 6 rfl
  -- the word below the new stack pointer holds `b`, and then the address to go on at
  have hcr3 : load32 (store32 v.mem (r.esp - 4) b) (b + 40) = r.cr3 :=
    (words_store hr hb).get 10 rfl
  have heip : load32 (store32 v.mem (r.esp - 4) b) (b + 32) = r.eip :=
    (words_store hr hb).get 8 rfl
  have hlast : load32 (store32 v.mem (r.esp - 4) r.eip) b = r.eax := (words_store hr hb).1
  simp [loadRest, heax, hesp, hcr3, heip, hlast]

/-- A record with its flags as far as they can be set. -/
def loadable (r : ProcRegs) : ProcRegs := { r with eflags := (Flags.load r.eflags).word }

/-- The registers are those of a record. -/
structure Loaded (u v : Cpu) (r : ProcRegs) : Prop where
  regs : cpuRegs v = loadable r
  frame : ∀ z, ¬ InBlock (u.regs.esp - 8) 8 z → ¬ InBlock (r.esp - 4) 4 z → v.mem z = u.mem z

/-- The two words that are pushed for the flags. -/
theorem inBlock_flags {x z : UInt32} (hz : InBlock (x - 4) 4 z ∨ InBlock (x - 4 - 4) 4 z) :
    InBlock (x - 8) 8 z := by
  rw [show x - 8 = x - 4 - 4 from (sub_sub x 4 4).symm]
  cases hz with
  | inl hhigh =>
      rw [← sub_add_cancel (x - 4) 4] at hhigh
      exact hhigh.within (d := 4) (by omega) (by omega)
  | inr hlow => exact hlow.mono (by omega)

theorem run_loads (harg : load32 u.mem (u.regs.esp + 48) = b) (hr : Words u.mem b r.words)
    (hb : BlocksApart b 44 (u.regs.esp - 8) 8) (hb' : BlocksApart b 44 (r.esp - 4) 4) :
    Loaded u (runBlock loads u) r := by
  have hhigh : BlocksApart b 44 (u.regs.esp - 4) 4 := fun z hz hz' =>
    hb z hz (inBlock_flags (.inl hz'))
  have hlow : BlocksApart b 44 (u.regs.esp - 4 - 4) 4 := fun z hz hz' =>
    hb z hz (inBlock_flags (.inr hz'))
  have hregs := run_loadRegs harg hr
  have hflags := run_loadFlags (v := runBlock loadRegs u) (b := b) (by rw [hregs])
    (by rw [hregs]; exact hr) (by rw [hregs]; exact hhigh)
  rw [hregs] at hflags
  have hr' : Words (store32 (store32 u.mem (u.regs.esp - 4) b) (u.regs.esp - 4 - 4) r.eflags) b
      r.words := words_store (words_store hr hhigh) hlow
  have hrest := run_loadRest (v := runBlock loadFlags (runBlock loadRegs u)) (b := b)
    (by rw [hregs, hflags]) (by rw [hregs, hflags]; exact hr') hb'
  rw [hregs, hflags] at hrest
  rw [loads, runBlock_append, runBlock_append, hregs, hflags, hrest]
  constructor
  case regs => rfl
  case frame =>
    intro z hz hz'
    dsimp only
    rw [store32_of_not_inBlock hz', store32_of_not_inBlock fun h => hz (inBlock_flags (.inr h)),
      store32_of_not_inBlock fun h => hz (inBlock_flags (.inl h))]

end Loads

/-! ## Switching -/

/-- The record to save to. -/
def argA (s : Cpu) : UInt32 := load32 s.mem (s.regs.esp + 4)

/-- The record to load from. -/
def argB (s : Cpu) : UInt32 := load32 s.mem (s.regs.esp + 8)

/-- What the record `b` holds after the caller was saved in the record `a`. -/
def target (s : Cpu) : ProcRegs :=
  procRegsAt (storeRegs s.mem (argA s) (savedRegs s)) (argB s)

/-- A record is apart from the words that the routine pushes: below the stack pointer
of the caller, and one on the stack it switches to. -/
structure OffStack (s : Cpu) (p : UInt32) : Prop where
  below : BlocksApart p 44 (s.regs.esp - 48) 48
  word : BlocksApart p 44 ((target s).esp - 4) 4

/-- The caller is saved, the registers are those of `r`, and the rest of the memory is
as it was. -/
structure Switched (s s' : Cpu) (r : ProcRegs) : Prop where
  saved : procRegsAt s'.mem (argA s) = savedRegs s
  loaded : cpuRegs s' = r
  frame : ∀ z, ¬ InBlock (argA s) 44 z → ¬ InBlock (s.regs.esp - 48) 48 z →
    ¬ InBlock (r.esp - 4) 4 z → s'.mem z = s.mem z

/-- A call of the routine.  The record to save to is also apart from the return address
and the arguments, which are read after stores to it. -/
structure RegswitchCall (s : Cpu) : Prop where
  a : OffStack s (argA s)
  b : OffStack s (argB s)
  args : BlocksApart (argA s) 44 s.regs.esp 12

theorem words_storeRegs (m : ByteMem) (p : UInt32) (r : ProcRegs) :
    Words (storeRegs m p r) p r.words := by
  have hset := (words_wordsAt m p 11).setAll (l := r.words.zipIdx.map Prod.swap)
    (by simp [ProcRegs.words]) (by simp)
  have hwords : setAll (wordsAt m p 11) (r.words.zipIdx.map Prod.swap) = r.words := rfl
  rwa [hwords] at hset

theorem storeRegs_of_not_inBlock {m : ByteMem} {p z : UInt32} {r : ProcRegs}
    (hz : ¬ InBlock p 44 z) : storeRegs m p r z = m z :=
  storeWords_of_not_inBlock (by simp [ProcRegs.words]) (by omega) hz

theorem esp_pushes (s : Cpu) : (runBlock pushes s).regs.esp = s.regs.esp - 40 := by
  rw [run_pushes]
  exact Cpu.esp_pushAll (pushed s) s

theorem regs_pushes (s : Cpu) : (runBlock pushes s).regs =
    { s.regs with eax := (runBlock pushes s).regs.eax, esp := (runBlock pushes s).regs.esp } := by
  rw [run_pushes, Cpu.pushAll_eq]
  rfl

/-- The stack after the pushes: what was pushed, the return address and the arguments. -/
theorem words_pushes (s : Cpu) : Words (runBlock pushes s).mem (runBlock pushes s).regs.esp
    ((pushed s).reverse ++ [s.top, argA s, argB s]) := by
  have hcall : Words s.mem s.regs.esp [s.top, argA s, argB s] := by
    refine ⟨rfl, rfl, ?_, trivial⟩
    rw [add_assoc]
    rfl
  rw [run_pushes]
  exact Cpu.words_pushAll (pushed s) hcall (by simp [pushed])

/-- The words that are pushed are a part of those below the stack pointer. -/
theorem inBlock_pushes {x z : UInt32} (h : InBlock (x - 40) 40 z) : InBlock (x - 48) 48 z := by
  rw [show x - 40 = x - 48 + UInt32.ofNat 8 from (sub_offset x 8 40).symm] at h
  exact h.within (by omega) (by omega)

theorem mem_pushes {s : Cpu} {z : UInt32} (hz : ¬ InBlock (s.regs.esp - 48) 48 z) :
    (runBlock pushes s).mem z = s.mem z := by
  rw [run_pushes]
  exact Cpu.mem_pushAll (pushed s) (by simp [pushed]) fun h => hz (inBlock_pushes h)

/-- The memory after the saves is the one in which the record was stored, but for the stack. -/
theorem Saved.mem {s u : Cpu} {a b z : UInt32} (h : Saved s (runBlock pushes s) u a b)
    (hz : ¬ InBlock (s.regs.esp - 48) 48 z) : u.mem z = storeRegs s.mem a (savedRegs s) z := by
  by_cases ha : InBlock a 44 z
  · exact (words_storeRegs s.mem a (savedRegs s)).ext h.record (by simp [ProcRegs.words]) ha
  · have hlow : ¬ InBlock (runBlock pushes s).regs.esp 4 z := by
      rw [esp_pushes]
      exact fun h => hz (inBlock_pushes (h.mono (by omega)))
    rw [h.frame z ha hlow, mem_pushes hz, storeRegs_of_not_inBlock ha]

theorem RegswitchCall.saved {s : Cpu} (h : RegswitchCall s) :
    Saved s (runBlock pushes s) (runBlock saves (runBlock pushes s)) (argA s) (argB s) := by
  refine run_saves (regs_pushes s) (words_pushes s) ?_
  rw [esp_pushes]
  intro z hz hz'
  cases InBlock.split (n := 40) (k := 12) hz' with
  | inl hlow => exact h.a.below z hz (inBlock_pushes hlow)
  | inr hhigh =>
      rw [show s.regs.esp - 40 + UInt32.ofNat 40 = s.regs.esp from sub_add_cancel _ 40] at hhigh
      exact h.args z hz hhigh

theorem switched {s : Cpu} (h : RegswitchCall s) :
    Switched s (runBlock procRegswitch s) (loadable (target s)) := by
  have hsaved := h.saved
  set u := runBlock saves (runBlock pushes s) with hu
  have hesp : u.regs.esp = s.regs.esp - 40 := hsaved.esp.trans (esp_pushes s)
  have hlow : u.regs.esp - 8 = s.regs.esp - 48 := by
    rw [hesp]
    exact sub_sub s.regs.esp 40 8
  -- the record `b` as it is loaded
  have hrecord : Words u.mem (argB s) (target s).words :=
    (words_procRegsAt _ _).congr (n := 44) (by simp [ProcRegs.words]) (by omega)
      fun z hz => hsaved.mem (h.b.below z hz)
  have hbelow {p : UInt32} (hp : OffStack s p) : BlocksApart p 44 (u.regs.esp - 8) 8 := by
    rw [hlow]
    exact fun z hz hz' => hp.below z hz (hz'.mono (by omega))
  have harg : load32 u.mem (u.regs.esp + 48) = argB s := by
    rw [hsaved.esp]
    exact hsaved.arg
  have hloads := run_loads harg hrecord (hbelow h.b) h.b.word
  rw [procRegswitch, runBlock_append, runBlock_append, ← hu]
  constructor
  case saved =>
    refine procRegsAt_eq (hsaved.record.congr (n := 44) (by simp [ProcRegs.words]) (by omega) ?_)
    exact fun z hz => hloads.frame z (hbelow h.a z hz) (h.a.word z hz)
  case loaded => exact hloads.regs
  case frame =>
    intro z hza hz hz'
    rw [hloads.frame z (fun h => hz (hlow ▸ h.mono (by omega))) hz', hsaved.mem hz,
      storeRegs_of_not_inBlock hza]

/-- A record that is apart from the one that was stored. -/
theorem target_of_apart {t : Cpu} (h : BlocksApart (argA t) 44 (argB t) 44) :
    target t = procRegsAt t.mem (argB t) := by
  refine procRegsAt_eq ((words_procRegsAt t.mem (argB t)).congr (n := 44)
    (by simp [ProcRegs.words]) (by omega) fun z hz => ?_)
  exact storeRegs_of_not_inBlock (h.symm z hz)

/-- What was saved can be loaded. -/
theorem loadable_savedRegs (s : Cpu) : loadable (savedRegs s) = savedRegs s := by
  simp only [loadable, savedRegs, cpuRegs, Flags.load_word]

/-- **Switching contexts.**  The routine saves its caller and loads the other record, with
the flags as they can be set; and when the caller's record is kept until another caller
switches to it, the first caller goes on with every register as it was. -/
theorem procRegswitch_switches {s : Cpu} (h : RegswitchCall s) :
    Switched s (runBlock procRegswitch s) (loadable (target s)) ∧
      ∀ t, RegswitchCall t → argB t = argA s → BlocksApart (argA t) 44 (argA s) 44 →
        procRegsAt t.mem (argA s) = procRegsAt (runBlock procRegswitch s).mem (argA s) →
        Switched t (runBlock procRegswitch t) (savedRegs s) := by
  have hs := switched h
  refine ⟨hs, fun t ht harg happ hkept => ?_⟩
  have htarget : target t = savedRegs s := by
    rw [← harg] at happ
    rw [target_of_apart happ, harg, hkept, hs.saved]
  have hback := switched ht
  rwa [htarget, loadable_savedRegs] at hback

/-- A record that lies below the stacks. -/
theorem OffStack.of_low {s : Cpu} {p : UInt32} (hp : p.toNat + 44 ≤ (s.regs.esp - 48).toNat)
    (hp' : p.toNat + 44 ≤ ((target s).esp - 4).toNat)
    (hesp : (s.regs.esp - 48).toNat + 48 ≤ 2 ^ 32)
    (hesp' : ((target s).esp - 4).toNat + 4 ≤ 2 ^ 32) : OffStack s p where
  below := .of_toNat_le hp hesp
  word := .of_toNat_le hp' hesp'

/-- A caller at `0x1234` with the records `a` and `b`. -/
def regswitchCaller (a b flags : UInt32) : Cpu where
  regs := {
    eax := 0x3000, ecx := 2, edx := 3, ebx := 4, esp := 0x8000, ebp := 5, esi := 6, edi := 7 }
  cr3 := 0x5000
  mem := storeWords (storeRegs (fun _ => 0) b { esp := 0x9000, eip := 0x4321, eflags := flags })
    0x8000 [(0, 0x1234), (1, a), (2, b)]

/-- Another caller, to which the record at `0x1000` was left as the first one was saved. -/
def regswitchBack : Cpu where
  regs := { esp := 0x6000 }
  mem := storeWords (storeRegs (fun _ => 0) 0x1000 (savedRegs (regswitchCaller 0x1000 0x2000 2)))
    0x6000 [(0, 0x4444), (1, 0x2000), (2, 0x1000)]

theorem regswitchCaller_call : RegswitchCall (regswitchCaller 0x1000 0x2000 2) where
  a := .of_low (by decide +kernel) (by decide +kernel) (by decide +kernel) (by decide +kernel)
  b := .of_low (by decide +kernel) (by decide +kernel) (by decide +kernel) (by decide +kernel)
  args := .of_toNat_le (by decide +kernel) (by decide +kernel)

theorem regswitchBack_call : RegswitchCall regswitchBack where
  a := .of_low (by decide +kernel) (by decide +kernel) (by decide +kernel) (by decide +kernel)
  b := .of_low (by decide +kernel) (by decide +kernel) (by decide +kernel) (by decide +kernel)
  args := .of_toNat_le (by decide +kernel) (by decide +kernel)

theorem procRegswitch_switches_back :
    Switched (regswitchCaller 0x1000 0x2000 2)
        (runBlock procRegswitch (regswitchCaller 0x1000 0x2000 2))
        (loadable (target (regswitchCaller 0x1000 0x2000 2))) ∧
      Switched regswitchBack (runBlock procRegswitch regswitchBack)
        (savedRegs (regswitchCaller 0x1000 0x2000 2)) :=
  have h := procRegswitch_switches regswitchCaller_call
  ⟨h.1, h.2 regswitchBack regswitchBack_call (by decide +kernel)
    (.symm (.of_toNat_le (by decide +kernel) (by decide +kernel))) (by decide +kernel)⟩

/-- A process that never ran has no flags in its record, and the processor has bit 1 of them
set.  And with the record to save to on the arguments, another record is loaded. -/
theorem not_switched :
    (OffStack (regswitchCaller 0x1000 0x2000 0) 0x1000 ∧
      OffStack (regswitchCaller 0x1000 0x2000 0) 0x2000 ∧
      argA (regswitchCaller 0x1000 0x2000 0) = 0x1000 ∧
      argB (regswitchCaller 0x1000 0x2000 0) = 0x2000 ∧
      ¬ Switched (regswitchCaller 0x1000 0x2000 0)
        (runBlock procRegswitch (regswitchCaller 0x1000 0x2000 0))
        (target (regswitchCaller 0x1000 0x2000 0))) ∧
    (OffStack (regswitchCaller 0x8008 0x2000 2) 0x8008 ∧
      OffStack (regswitchCaller 0x8008 0x2000 2) 0x2000 ∧
      argA (regswitchCaller 0x8008 0x2000 2) = 0x8008 ∧
      argB (regswitchCaller 0x8008 0x2000 2) = 0x2000 ∧
      ¬ Switched (regswitchCaller 0x8008 0x2000 2)
        (runBlock procRegswitch (regswitchCaller 0x8008 0x2000 2))
        (loadable (target (regswitchCaller 0x8008 0x2000 2)))) := by
  constructor
  case left =>
    have hflags : (cpuRegs (runBlock procRegswitch (regswitchCaller 0x1000 0x2000 0))).eflags ≠
        (target (regswitchCaller 0x1000 0x2000 0)).eflags := by decide +kernel
    refine ⟨.of_low ?_ ?_ ?_ ?_, .of_low ?_ ?_ ?_ ?_, ?_, ?_,
      fun h => hflags (congrArg ProcRegs.eflags h.loaded)⟩
    all_goals decide +kernel
  case right =>
    have heip : (cpuRegs (runBlock procRegswitch (regswitchCaller 0x8008 0x2000 2))).eip ≠
        (target (regswitchCaller 0x8008 0x2000 2)).eip := by decide +kernel
    refine ⟨⟨.symm (.of_toNat_le ?_ ?_), .of_toNat_le ?_ ?_⟩, .of_low ?_ ?_ ?_ ?_, ?_, ?_,
      fun h => heip (congrArg ProcRegs.eip h.loaded)⟩
    all_goals decide +kernel

end Regswitch

end StardustOS.Process
