import StardustOS.Idt.Irq
import StardustOS.Lib.I8259
import StardustOS.Lib.Run

/-!
# The interrupt controllers

`idt_init` programs the controllers.  From then on the lines of the devices go up
and down at any time, the processor takes an interrupt when it is enabled, and
`irq_handler` sends the ends of interrupt before it calls a handler.  An exception
sends an end of interrupt too, for which no interrupt was acknowledged.

Nothing is in service outside the beginning of `irq_handler`.  So the end of
interrupt of an exception ends nothing, and no request is held up while a handler
runs, however long it runs and wherever it goes.
-/

namespace StardustOS.Idt

open Lib Lib.I8259

/-- For the numerals of the inputs. -/
local instance neZero_input : NeZero 8 := ⟨by decide⟩

/-- For the numerals of the lines. -/
local instance neZero_line : NeZero 16 := ⟨by decide⟩

/-! ## The system -/

/-- What `idt_init` writes. -/
def idtInitOuts : List (UInt16 × UInt8) :=
  [(0x20, 0x11), (0xA0, 0x11), (0x21, 0x20), (0xA1, 0x28), (0x21, 0x04), (0xA1, 0x02),
    (0x21, 0x01), (0xA1, 0x01), (0x21, 0x0), (0xA1, 0x0)]

/-- Where the processor is. -/
inductive Phase
  /-- In `idt_init`, with writes left. -/
  | boot (rest : List (UInt16 × UInt8))
  /-- In any code but the beginning of `irq_handler`: a process, the kernel or a handler. -/
  | code (enabled : Bool)
  /-- It has seen a request. -/
  | requested
  /-- The first acknowledge cycle is over. -/
  | answered (choice : Option (Fin 8))
  /-- In `irq_handler`. -/
  | routine (rest : List IrqEvent)

structure Machine where
  pic : Pair
  handlers : IrqHandlers := fun _ => 0
  phase : Phase

inductive Action
  /-- A line goes up or down. -/
  | line (n : Fin 16) (up : Bool)
  /-- The next write of `idt_init`, or its end. -/
  | init
  | sti
  | cli
  /-- `isr_handler` ends. -/
  | exception
  | register (i : UInt8) (handler : UInt32)
  /-- The processor sees a request between two instructions. -/
  | sample
  | inta
  /-- The vector is read, and `irq_handler` is called with the registers of the interrupted
  code. -/
  | vector (regs : RegsT)
  /-- `irq_handler` goes on: it sends the next end of interrupt, or leaves for the handler. -/
  | next

/-- One step.  `none` says that it cannot happen there, or is undefined.  The line 2 is the
wire between the controllers. -/
def step (s : Machine) : Action → Option Machine
  | .line n up => if n = 2 then none else some { s with pic := s.pic.drive n up }
  | .init =>
      match s.phase with
      | .boot ((port, v) :: rest) =>
          some { s with pic := s.pic.write port v, phase := .boot rest }
      | .boot [] => some { s with phase := .code false }
      | _ => none
  | .sti =>
      match s.phase with
      | .code _ => some { s with phase := .code true }
      | _ => none
  | .cli =>
      match s.phase with
      | .code _ => some { s with phase := .code false }
      | _ => none
  | .exception =>
      match s.phase with
      | .code _ => some { s with pic := s.pic.write 0x20 0x20 }
      | _ => none
  | .register i handler =>
      match s.phase with
      | .code _ =>
          (registerIrqHandler i handler s.handlers).map fun hs => { s with handlers := hs }
      | _ => none
  | .sample =>
      match s.phase with
      | .code true => if s.pic.master.int then some { s with phase := .requested } else none
      | _ => none
  | .inta =>
      match s.phase with
      | .requested => some { s with pic := s.pic.inta.2, phase := .answered s.pic.inta.1 }
      | _ => none
  | .vector regs =>
      match s.phase with
      | .answered choice =>
          let answer := s.pic.vector choice
          (irqHandler s.handlers { regs with intNo := answer.1.toUInt32 }).map fun rest =>
            { s with pic := answer.2, phase := .routine rest }
      | _ => none
  | .next =>
      match s.phase with
      | .routine (.outb port v :: rest) =>
          some { s with pic := s.pic.write port v, phase := .routine rest }
      | .routine _ => some { s with phase := .code false }
      | _ => none

/-- What a step can do. -/
inductive Steps (s : Machine) : Action → Machine → Prop
  | line {n : Fin 16} {up : Bool} (hn : n ≠ 2) :
      Steps s (.line n up) { s with pic := s.pic.drive n up }
  | init {port : UInt16} {v : UInt8} {rest : List (UInt16 × UInt8)}
      (hphase : s.phase = .boot ((port, v) :: rest)) :
      Steps s .init { s with pic := s.pic.write port v, phase := .boot rest }
  | booted (hphase : s.phase = .boot []) : Steps s .init { s with phase := .code false }
  | sti {e : Bool} (hphase : s.phase = .code e) : Steps s .sti { s with phase := .code true }
  | cli {e : Bool} (hphase : s.phase = .code e) : Steps s .cli { s with phase := .code false }
  | exception {e : Bool} (hphase : s.phase = .code e) :
      Steps s .exception { s with pic := s.pic.write 0x20 0x20 }
  | register {e : Bool} {i : UInt8} {handler : UInt32} {hs : IrqHandlers}
      (hphase : s.phase = .code e) : Steps s (.register i handler) { s with handlers := hs }
  | sample (hphase : s.phase = .code true) (hint : s.pic.master.int = true) :
      Steps s .sample { s with phase := .requested }
  | inta (hphase : s.phase = .requested) :
      Steps s .inta { s with pic := s.pic.inta.2, phase := .answered s.pic.inta.1 }
  | vector {choice : Option (Fin 8)} {regs : RegsT} {rest : List IrqEvent}
      (hphase : s.phase = .answered choice) (hrest : irqHandler s.handlers
        { regs with intNo := (s.pic.vector choice).1.toUInt32 } = some rest) :
      Steps s (.vector regs) { s with pic := (s.pic.vector choice).2, phase := .routine rest }
  | outb {port : UInt16} {v : UInt8} {rest : List IrqEvent}
      (hphase : s.phase = .routine (.outb port v :: rest)) :
      Steps s .next { s with pic := s.pic.write port v, phase := .routine rest }
  | handler {addr : UInt32} {regs : RegsT} {rest : List IrqEvent}
      (hphase : s.phase = .routine (.handler addr regs :: rest)) :
      Steps s .next { s with phase := .code false }
  | unhandled (hphase : s.phase = .routine []) : Steps s .next { s with phase := .code false }

theorem step_cases {s s' : Machine} {a : Action} (h : step s a = some s') : Steps s a s' := by
  obtain ⟨pic, handlers, phase⟩ := s
  cases a with
  | line n up =>
      simp only [step, Option.ite_none_left_eq_some, Option.some.injEq] at h
      obtain ⟨hn, rfl⟩ := h
      exact .line hn
  | register i handler =>
      cases phase with
      | code e =>
          obtain ⟨hs, _, rfl⟩ := Option.map_eq_some_iff.mp h
          exact .register rfl
      | _ => cases h
  | sample =>
      cases phase with
      | code e =>
          cases e with
          | false => cases h
          | true =>
              simp only [step, Option.ite_none_right_eq_some, Option.some.injEq] at h
              obtain ⟨hint, rfl⟩ := h
              exact .sample rfl hint
      | _ => cases h
  | vector regs =>
      cases phase with
      | answered choice =>
          obtain ⟨rest, hrest, rfl⟩ := Option.map_eq_some_iff.mp h
          exact .vector rfl hrest
      | _ => cases h
  | init =>
      cases phase with
      | boot rest =>
          cases rest with
          | nil =>
              cases h
              exact .booted rfl
          | cons w rest =>
              cases h
              exact .init rfl
      | _ => cases h
  | next =>
      cases phase with
      | routine rest =>
          cases rest with
          | nil =>
              cases h
              exact .unhandled rfl
          | cons e rest =>
              cases e with
              | outb port v =>
                  cases h
                  exact .outb rfl
              | handler addr regs =>
                  cases h
                  exact .handler rfl
      | _ => cases h
  | sti =>
      cases phase with
      | code e =>
          cases h
          exact .sti rfl
      | _ => cases h
  | cli =>
      cases phase with
      | code e =>
          cases h
          exact .cli rfl
      | _ => cases h
  | exception =>
      cases phase with
      | code e =>
          cases h
          exact .exception rfl
      | _ => cases h
  | inta =>
      cases phase with
      | requested =>
          cases h
          exact .inta rfl
      | _ => cases h

/-! ## What is programmed -/

def masterConfig : Config where
  needs4 := true
  base := 0x20
  cascade := 0x04
  icw4 := 0x01

def slaveConfig : Config where
  needs4 := true
  base := 0x28
  cascade := 0x02
  icw4 := 0x01

/-- `idt_init` programs the controllers from any state. -/
theorem configs_idtInitOuts (c : Config × Config) :
    idtInitOuts.foldl (fun c w => configsAfter w.1 w.2 c) c = (masterConfig, slaveConfig) := by
  rfl

/-- The slave is initialised after the master. -/
theorem idtInitOuts_drop_two : ∀ w ∈ idtInitOuts.drop 2, w.1 ≠ 0x20 := by
  have hall : (idtInitOuts.drop 2).all (fun w => w.1 != 0x20) = true := by decide
  intro w hw
  exact bne_iff_ne.mp (List.all_eq_true.mp hall w hw)

theorem bits_masterCascade (i : Fin 8) : i ∈ bits masterConfig.cascade ↔ i = 2 := by
  revert i
  decide

/-! ## The invariant -/

/-- What an event of `irq_handler` leaves in service. -/
def IrqEvent.served (isr : Finset (Fin 8) × Finset (Fin 8)) : IrqEvent →
    Finset (Fin 8) × Finset (Fin 8)
  | .outb port v => servedsAfter port v isr
  | .handler _ _ => isr

/-- The writes of `irq_handler` are ends of interrupt, and the handler comes last. -/
def Finishes : List IrqEvent → Prop
  | [] => True
  | .outb port v :: rest => (port = 0x20 ∨ port = 0xA0) ∧ v = 0x20 ∧ Finishes rest
  | .handler _ _ :: rest => rest = []

/-- What holds of the controllers in a phase. -/
def PhaseInv : Phase → Pair → Prop
  | .boot rest, p => ∃ k, rest = idtInitOuts.drop k ∧ p.serveds = (∅, ∅) ∧
      rest.foldl (fun c w => configsAfter w.1 w.2 c) p.configs = (masterConfig, slaveConfig) ∧
      (2 ≤ k → p.Linked)
  | .code _, p => p.configs = (masterConfig, slaveConfig) ∧ p.serveds = (∅, ∅) ∧ p.Linked
  | .requested, p => p.configs = (masterConfig, slaveConfig) ∧ p.serveds = (∅, ∅) ∧ p.Linked
  | .answered choice, p => p.configs = (masterConfig, slaveConfig) ∧
      p.serveds = (choice.toFinset, ∅) ∧ (choice ≠ some 2 → p.Linked)
  | .routine rest, p => p.configs = (masterConfig, slaveConfig) ∧
      rest.foldl IrqEvent.served p.serveds = (∅, ∅) ∧ Finishes rest ∧ p.Linked

structure Inv (s : Machine) : Prop where
  wired : s.pic.Wired
  phase : PhaseInv s.phase s.pic

theorem configs_drive (n : Fin 16) (up : Bool) (p : Pair) : (p.drive n up).configs = p.configs := by
  simp [Pair.configs]

theorem serveds_drive (n : Fin 16) (up : Bool) (p : Pair) : (p.drive n up).serveds = p.serveds := by
  simp [Pair.serveds]

/-- Lines may change in every phase. -/
theorem PhaseInv.drive {phase : Phase} {p : Pair} (h : PhaseInv phase p) {n : Fin 16} (hn : n ≠ 2)
    (up : Bool) : PhaseInv phase (p.drive n up) := by
  cases phase with
  | boot rest =>
      obtain ⟨k, hrest, hserved, hconf, hlink⟩ := h
      rw [← configs_drive n up p] at hconf
      exact ⟨k, hrest, (serveds_drive n up p).trans hserved, hconf, fun hk =>
        (hlink hk).drive hn up⟩
  | code e =>
      exact ⟨(configs_drive n up p).trans h.1, (serveds_drive n up p).trans h.2.1,
        h.2.2.drive hn up⟩
  | requested =>
      exact ⟨(configs_drive n up p).trans h.1, (serveds_drive n up p).trans h.2.1,
        h.2.2.drive hn up⟩
  | answered choice =>
      exact ⟨(configs_drive n up p).trans h.1, (serveds_drive n up p).trans h.2.1,
        fun hc => (h.2.2 hc).drive hn up⟩
  | routine rest =>
      obtain ⟨hconf, hserved, heoi, hlink⟩ := h
      rw [← serveds_drive n up p] at hserved
      exact ⟨(configs_drive n up p).trans hconf, hserved, heoi, hlink.drive hn up⟩

/-! ## The acknowledge cycles -/

/-- The line whose interrupt is taken.  A request that is gone leaves the last line of its
controller. -/
def answeredLine (choice : Option (Fin 8)) (p : Pair) : Fin 16 :=
  match choice with
  | none => 7
  | some i => if i = 2 then ((p.slave.request.getD 7).natAdd 8) else i.castAdd 8

section Vector

variable {p : Pair} {choice : Option (Fin 8)}

theorem cascade_iff (hconf : p.configs = (masterConfig, slaveConfig)) (i : Fin 8) :
    (i ∈ bits p.master.cascade ∧ (p.slave.cascade &&& 7).toNat = i) ↔ i = 2 := by
  have hmaster : p.master.cascade = masterConfig.cascade :=
    congrArg Config.cascade (congrArg Prod.fst hconf)
  have hslave : p.slave.cascade = slaveConfig.cascade :=
    congrArg Config.cascade (congrArg Prod.snd hconf)
  rw [hmaster, hslave, bits_masterCascade]
  refine and_iff_left_of_imp fun h => ?_
  subst h
  rfl

/-- The vector is the one that the gate of the line has. -/
theorem vector_eq (hconf : p.configs = (masterConfig, slaveConfig)) :
    (p.vector choice).1.toUInt32 = irqVector (answeredLine choice p) := by
  have hmaster : p.master.base = 0x20 := congrArg Config.base (congrArg Prod.fst hconf)
  have hslave : p.slave.base = 0x28 := congrArg Config.base (congrArg Prod.snd hconf)
  cases choice with
  | none =>
      rw [Pair.vector, hmaster]
      rfl
  | some i =>
      have hvec : ∀ j : Fin 8, (0x28 + UInt8.ofNat j.val : UInt8).toUInt32 =
          irqVector (j.natAdd 8) ∧ (0x20 + UInt8.ofNat j.val : UInt8).toUInt32 =
          irqVector (j.castAdd 8) := by decide
      rw [Pair.vector, answeredLine]
      simp only [cascade_iff hconf]
      split_ifs
      · rw [hslave]
        exact (hvec _).1
      · rw [hmaster]
        exact (hvec i).2

/-- An end of interrupt for the only input in service. -/
theorem servedAfter_singleton (i : Fin 8) : servedAfter false 0x20 {i} = ∅ := by
  revert i
  decide

theorem servedAfter_take {c : Chip} (h : c.isr = ∅) (r : Option (Fin 8)) :
    servedAfter false 0x20 (c.take r).isr = ∅ := by
  cases r with
  | none =>
      rw [Chip.take, h]
      exact servedAfter_empty _ _
  | some j =>
      rw [Chip.take, h]
      exact servedAfter_singleton j

/-- The ends of interrupt that `irq_handler` sends are those that are due. -/
theorem served_irqEois (hconf : p.configs = (masterConfig, slaveConfig))
    (hserved : p.serveds = (choice.toFinset, ∅)) :
    (irqEois (irqVector (answeredLine choice p))).foldl IrqEvent.served
      (p.vector choice).2.serveds = (∅, ∅) := by
  have hmaster : p.master.isr = choice.toFinset := congrArg Prod.fst hserved
  have hslave : p.slave.isr = ∅ := congrArg Prod.snd hserved
  rw [irqEois]
  simp only [forty_le_irqVector]
  cases choice with
  | none =>
      have hseven : ¬ 8 ≤ (7 : Fin 16).val := by decide
      rw [answeredLine, if_neg hseven, Pair.vector, hserved]
      rfl
  | some i =>
      rw [Option.toFinset_some] at hmaster
      rw [Pair.vector, answeredLine]
      simp only [cascade_iff hconf]
      by_cases hi : i = 2
      · subst hi
        have hle : 8 ≤ ((p.slave.request.getD 7).natAdd 8).val := Nat.le_add_right 8 _
        rw [if_pos rfl, if_pos rfl, if_pos hle]
        simp only [List.foldl_cons, List.foldl_nil, IrqEvent.served, servedsAfter, Pair.serveds,
          Pair.isr_settle, Pair.slave_settle, hmaster]
        exact Prod.ext (servedAfter_singleton 2) (servedAfter_take hslave _)
      · have hlt : ¬ 8 ≤ (i.castAdd 8).val := Nat.not_le.mpr i.isLt
        rw [if_neg hi, if_neg hi, if_neg hlt]
        simp only [List.foldl_cons, List.foldl_nil, IrqEvent.served, servedsAfter, Pair.serveds,
          hmaster, hslave]
        exact Prod.ext (servedAfter_singleton i) rfl

end Vector

/-! ## Steps -/

theorem configs_inta (p : Pair) : p.inta.2.configs = p.configs := by
  simp [Pair.inta, Pair.configs]

theorem serveds_inta {p : Pair} (h : p.serveds = (∅, ∅)) :
    p.inta.2.serveds = (p.inta.1.toFinset, ∅) := by
  have hmaster : p.master.isr = ∅ := congrArg Prod.fst h
  have hslave : p.slave.isr = ∅ := congrArg Prod.snd h
  rw [Pair.serveds, Pair.inta]
  cases p.master.request with
  | none => exact Prod.ext hmaster hslave
  | some i => exact Prod.ext (congrArg (insert i) hmaster) hslave

theorem configs_vector (choice : Option (Fin 8)) (p : Pair) :
    (p.vector choice).2.configs = p.configs := by
  cases choice with
  | none => rfl
  | some i =>
      rw [Pair.vector]
      split_ifs <;> simp [Pair.configs]

/-- An end of interrupt is no initialisation. -/
theorem configs_eoi {port : UInt16} {p : Pair} (h : p.configs = (masterConfig, slaveConfig))
    (hport : port = 0x20 ∨ port = 0xA0) : (p.write port 0x20).configs = p.configs := by
  rw [Pair.configs_write, h]
  obtain rfl | rfl := hport <;> rfl

/-- What `irq_handler` is going to do for the line. -/
def irqEvents (handlers : IrqHandlers) (n : Fin 16) (regs : RegsT) : List IrqEvent :=
  irqEois (irqVector n) ++ if handlers n ≠ 0 then [.handler (handlers n) regs] else []

theorem finishes_irqEvents (handlers : IrqHandlers) (n : Fin 16) (regs : RegsT) :
    Finishes (irqEvents handlers n regs) := by
  rw [irqEvents, irqEois]
  split_ifs <;> simp [Finishes]

/-- `irq_handler` is defined for the vector. -/
theorem irqHandler_vector {p : Pair} {choice : Option (Fin 8)}
    (hconf : p.configs = (masterConfig, slaveConfig)) (handlers : IrqHandlers) (regs : RegsT) :
    irqHandler handlers { regs with intNo := (p.vector choice).1.toUInt32 } =
      some (irqEvents handlers (answeredLine choice p)
        { regs with intNo := irqVector (answeredLine choice p) }) := by
  rw [vector_eq hconf]
  exact irqHandler_irqVector handlers rfl

theorem foldl_served_irqEvents (handlers : IrqHandlers) (n : Fin 16) (regs : RegsT)
    (isr : Finset (Fin 8) × Finset (Fin 8)) :
    (irqEvents handlers n regs).foldl IrqEvent.served isr =
      (irqEois (irqVector n)).foldl IrqEvent.served isr := by
  rw [irqEvents, List.foldl_append]
  split_ifs <;> rfl

/-- A write of `idt_init`. -/
theorem PhaseInv.init {port : UInt16} {v : UInt8} {rest : List (UInt16 × UInt8)} {p : Pair}
    (h : PhaseInv (.boot ((port, v) :: rest)) p) : PhaseInv (.boot rest) (p.write port v) := by
  obtain ⟨k, hrest, hserved, hconf, hlink⟩ := h
  have hk : idtInitOuts.drop (k + 1) = rest := by
    rw [← List.drop_drop, ← hrest]
    rfl
  refine ⟨k + 1, hk.symm, ?_, ?_, fun hle => ?_⟩
  · rw [Pair.serveds_write, hserved, servedsAfter]
    split_ifs <;> simp
  · rw [Pair.configs_write]
    exact hconf
  · obtain rfl | hlt := Nat.eq_or_lt_of_le (Nat.le_of_succ_le_succ hle)
    · -- the slave is initialised, and its requests are gone
      cases hrest
      exact Pair.linked_settle_of_int (Chip.int_icw1 (by decide) p.slave)
    · have hmem : (port, v) ∈ idtInitOuts.drop 2 := by
        refine List.mem_of_mem_drop (i := k - 2) ?_
        rw [List.drop_drop, Nat.add_sub_cancel' hlt, ← hrest]
        exact List.mem_cons_self
      exact (hlink hlt).write fun hport => absurd hport (idtInitOuts_drop_two _ hmem)

/-- Every step keeps the invariant. -/
theorem step_inv {s s' : Machine} {a : Action} (hs : Inv s) (h : step s a = some s') :
    Inv s' := by
  obtain ⟨hwired, hinv⟩ := hs
  cases step_cases h with
  | line hn => exact ⟨Pair.drive_wired hwired hn _, hinv.drive hn _⟩
  | init hphase =>
      rw [hphase] at hinv
      exact ⟨hwired.write _ _, hinv.init⟩
  | booted hphase =>
      rw [hphase] at hinv
      obtain ⟨k, hrest, hserved, hconf, hlink⟩ := hinv
      have hten : idtInitOuts.length = 10 := rfl
      have hlen := congrArg List.length hrest
      rw [List.length_drop, List.length_nil] at hlen
      exact ⟨hwired, hconf, hserved, hlink (by omega)⟩
  | sti hphase | cli hphase | sample hphase =>
      rw [hphase] at hinv
      exact ⟨hwired, hinv⟩
  | register hphase => exact ⟨hwired, hinv⟩
  | exception hphase =>
      rw [hphase] at hinv
      obtain ⟨hconf, hserved, hlink⟩ := hinv
      refine ⟨hwired.write 0x20 0x20, ?_⟩
      rw [hphase]
      refine ⟨(configs_eoi hconf (Or.inl rfl)).trans hconf, ?_, hlink.write fun _ => rfl⟩
      rw [Pair.serveds_write, hserved]
      rfl
  | inta hphase =>
      rw [hphase] at hinv
      obtain ⟨hconf, hserved, hlink⟩ := hinv
      exact ⟨Pair.wired_inta hwired, (configs_inta _).trans hconf, serveds_inta hserved,
        Pair.linked_inta hlink⟩
  | @vector choice regs rest hphase hrest =>
      rw [hphase] at hinv
      obtain ⟨hconf, hserved, hlink⟩ := hinv
      rw [irqHandler_vector hconf] at hrest
      cases hrest
      refine ⟨Pair.wired_vector hwired choice, (configs_vector choice _).trans hconf, ?_,
        finishes_irqEvents _ _ _, Pair.linked_vector choice ?_⟩
      · rw [foldl_served_irqEvents]
        exact served_irqEois hconf hserved
      · by_cases hchoice : choice = some 2
        · exact Or.inr ⟨2, hchoice, (cascade_iff hconf 2).mpr rfl⟩
        · exact Or.inl (hlink hchoice)
  | outb hphase =>
      rw [hphase] at hinv
      obtain ⟨hconf, hserved, ⟨hport, rfl, hrest⟩, hlink⟩ := hinv
      refine ⟨hwired.write _ _, (configs_eoi hconf hport).trans hconf, ?_, hrest,
        hlink.write fun _ => rfl⟩
      rw [Pair.serveds_write]
      exact hserved
  | handler hphase =>
      rw [hphase] at hinv
      obtain ⟨hconf, hserved, hrest, hlink⟩ := hinv
      cases hrest
      exact ⟨hwired, hconf, hserved, hlink⟩
  | unhandled hphase =>
      rw [hphase] at hinv
      obtain ⟨hconf, hserved, _, hlink⟩ := hinv
      exact ⟨hwired, hconf, hserved, hlink⟩

/-! ## Runs -/

/-- The controllers as they are found at boot, with nothing in service. -/
structure AtBoot (s : Machine) : Prop where
  phase : s.phase = .boot idtInitOuts
  wired : s.pic.Wired
  serveds : s.pic.serveds = (∅, ∅)

theorem AtBoot.inv {s : Machine} (h : AtBoot s) : Inv s where
  wired := h.wired
  phase := by
    rw [h.phase]
    exact ⟨0, rfl, h.serveds, configs_idtInitOuts _, fun hle => absurd hle (by decide)⟩

theorem run_inv {s s' : Machine} {as : List Action} (hs : AtBoot s)
    (h : run step s as = some s') : Inv s' :=
  run_invariant (C := fun _ _ => True) (fun _ _ _ hi _ => step_inv hi) as hs.inv
    (meets_true as) h

/-- While nothing is in service, the request of any line reaches the processor. -/
theorem int_iff {p : Pair} (hwired : p.Wired) (hconf : p.configs = (masterConfig, slaveConfig))
    (hserved : p.serveds = (∅, ∅)) (hlink : p.Linked) :
    p.master.int = true ↔ ∃ n, n ≠ 2 ∧ p.Requests n := by
  have hslave : p.slave.int = true ↔ p.slave.pending.Nonempty :=
    Chip.int_of_idle (congrArg Prod.snd hserved)
  have himr : p.master.imr = ∅ := congrArg Config.imr (congrArg Prod.fst hconf)
  have hpending : p.master.pending = p.master.irr := by
    rw [Chip.pending, himr, Finset.sdiff_empty]
  rw [Chip.int_of_idle (congrArg Prod.fst hserved)]
  constructor
  · rintro ⟨i, hi⟩
    by_cases htwo : i = 2
    · subst htwo
      have hup := hwired.master (hpending ▸ hi)
      obtain ⟨j, hj⟩ := hslave.mp (hwired.level.mp hup)
      refine ⟨j.natAdd 8, fun heq => ?_, (Pair.has_natAdd _ p j).mpr hj⟩
      exact absurd (congrArg Fin.val heq) (by simp)
    · refine ⟨i.castAdd 8, fun heq => htwo ?_, (Pair.has_castAdd _ p i).mpr hi⟩
      exact Fin.ext (show i.val = 2 from congrArg Fin.val heq)
  · rintro ⟨n, hn, hreq⟩
    induction n using Fin.addCases (m := 8) (n := 8) with
    | left i => exact ⟨i, (Pair.has_castAdd _ p i).mp hreq⟩
    | right j =>
        have hup := hwired.level.mpr (hslave.mpr ⟨j, (Pair.has_natAdd _ p j).mp hreq⟩)
        exact ⟨2, hpending ▸ hlink hup⟩

/-- What `irq_handler` and `isr_handler` rely on. -/
structure Idle (p : Pair) : Prop where
  serveds : p.serveds = (∅, ∅)
  /-- The end of interrupt of an exception ends nothing. -/
  eoi : p.write 0x20 0x20 = p
  /-- No request is held up. -/
  int : p.master.int = true ↔ ∃ n, n ≠ 2 ∧ p.Requests n

theorem write_eoi_of_idle {p : Pair} (hserved : p.serveds = (∅, ∅)) : p.write 0x20 0x20 = p := by
  have hisr : p.master.isr = ∅ := congrArg Prod.fst hserved
  have hchip : p.master.write false 0x20 = p.master := by
    rw [Chip.write, hisr, servedAfter_empty, ← hisr]
    rfl
  rw [Pair.write, if_pos rfl, hchip]

/-- **Interrupts leave nothing in service.**  Whatever the lines do and wherever the
processor takes interrupts and exceptions, in every run from boot on nothing is in
service while code other than the beginning of `irq_handler` runs, and every acknowledged
interrupt comes to `irq_handler` with the number of a line. -/
theorem controllers_idle {s s' : Machine} {as : List Action} (hs : AtBoot s)
    (h : run step s as = some s') :
    (∀ e, s'.phase = .code e → Idle s'.pic) ∧
      ∀ choice regs, s'.phase = .answered choice →
        ∃ n t, (s'.pic.vector choice).1.toUInt32 = irqVector n ∧
          step s' (.vector regs) = some t ∧ t.phase = .routine
            (irqEvents s'.handlers n { regs with intNo := irqVector n }) := by
  obtain ⟨hwired, hphase⟩ := run_inv hs h
  constructor
  · intro e he
    rw [he] at hphase
    exact ⟨hphase.2.1, write_eoi_of_idle hphase.2.1, int_iff hwired hphase.1 hphase.2.1 hphase.2.2⟩
  · intro choice regs hc
    rw [hc] at hphase
    have hstep : step s' (.vector regs) = some { s' with
        pic := (s'.pic.vector choice).2
        phase := .routine (irqEvents s'.handlers (answeredLine choice s'.pic)
          { regs with intNo := irqVector (answeredLine choice s'.pic) }) } := by
      simp only [step, hc]
      rw [irqHandler_vector hphase.1, Option.map_some]
    exact ⟨_, _, vector_eq hphase.1, hstep, rfl⟩

/-- The controllers after a reset, with no handler registered. -/
def resetMachine : Machine where
  pic := { master := {}, slave := {} }
  phase := .boot idtInitOuts

theorem atBoot_resetMachine : AtBoot resetMachine where
  phase := rfl
  wired := ⟨by decide, Finset.empty_subset _, Finset.empty_subset _⟩
  serveds := rfl

/-- The clock ticks after the boot, and then an exception ends. -/
def tickActions : List Action :=
  List.replicate 11 .init ++ [.line 0 true, .sti, .sample, .inta,
    .vector (regsTAt (fun _ => 0) 0), .next, .next, .exception]

theorem controllers_idle_tick : ∃ s', run step resetMachine tickActions = some s' ∧
    ∀ e, s'.phase = .code e → Idle s'.pic := by
  have hdefined : (run step resetMachine tickActions).isSome := by rfl
  obtain ⟨s', hrun⟩ := Option.isSome_iff_exists.mp hdefined
  exact ⟨s', hrun, (controllers_idle atBoot_resetMachine hrun).1⟩

end StardustOS.Idt
