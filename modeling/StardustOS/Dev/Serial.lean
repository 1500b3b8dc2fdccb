import Mathlib.Algebra.BigOperators.Group.Finset.Piecewise
import StardustOS.Lib.Run
import StardustOS.Lib.Uart

/-!
# Serial terminals

The driver `tty_serial`: `tty_write` waits for each byte until all bytes are sent, and
`tty_read` waits until a byte has arrived.  Processes are switched at any point, so
that several may have seen the queue empty when the first of them writes its byte.

Not more bytes can be written then than there are processes.  While these are no more
than the places of the queue, the bytes of all calls go out, each call's in their order
(`writes_sent`).  A reader that has the port for itself reads the bytes that arrive and find
room in the queue (`reads_arrived`).
-/

namespace StardustOS.Dev

open Lib

/-! ## The driver -/

def comport : Fin 4 → UInt16 := ![0x3F8, 0x2F8, 0x3E8, 0x2E8]

/-- The part of `tty_creat` that programs the controller. -/
def ttyCreatOuts (comindex : Fin 4) : List (UInt16 × UInt8) :=
  [(comport comindex + 1, 0x00), (comport comindex + 3, 0x80), (comport comindex + 0, 0x03),
    (comport comindex + 1, 0x00), (comport comindex + 3, 0x03), (comport comindex + 2, 0xC7),
    (comport comindex + 4, 0x0B)]

def outs (ws : List (UInt16 × UInt8)) (us : Uarts) : Uarts :=
  ws.foldl (fun us w => us.outb comport w.1 w.2) us

/-- The controllers after `MODULE_INIT(tty_serial)`. -/
def serialInit (us : Uarts) : Uarts :=
  outs ((List.finRange 4).flatMap ttyCreatOuts) us

def isreceived (comindex : Fin 4) (us : Uarts) : UInt8 :=
  (us.inb comport (comport comindex + 5)).1 &&& 1

def istransmit (comindex : Fin 4) (us : Uarts) : UInt8 :=
  (us.inb comport (comport comindex + 5)).1 &&& 0x20

/-! ## Processes that use it -/

/-- What a process does in the driver.  `ready` says that the wait for the next byte is over. -/
inductive Task
  | idle
  /-- In `tty_write`, with bytes left. -/
  | write (com : Fin 4) (left : List UInt8) (ready : Bool)
  /-- In `tty_read`, with places left. -/
  | read (com : Fin 4) (left : Nat) (ready : Bool)
deriving DecidableEq

structure Serial (k : Nat) where
  uarts : Uarts
  tasks : Fin k → Task

inductive SerialAction (k : Nat)
  | callWrite (p : Fin k) (com : Fin 4) (buff : List UInt8)
  | callRead (p : Fin k) (com : Fin 4) (size : Nat)
  /-- A process looks at the line status. -/
  | poll (p : Fin k)
  /-- A process whose wait is over writes or reads the byte. -/
  | transfer (p : Fin k)
  /-- A process returns from the driver. -/
  | ret (p : Fin k)
  /-- A controller sends a byte. -/
  | send (com : Fin 4)
  /-- A byte arrives at a controller. -/
  | receive (com : Fin 4) (b : UInt8)

namespace Serial

variable {k : Nat}

def setTask (s : Serial k) (p : Fin k) (t : Task) : Serial k :=
  { s with tasks := Function.update s.tasks p t }

/-- One step.  `none` says that it cannot happen there. -/
def step (s : Serial k) : SerialAction k → Option (Serial k)
  | .callWrite p com buff =>
      match s.tasks p with
      | .idle => some (s.setTask p (.write com buff false))
      | _ => none
  | .callRead p com size =>
      match s.tasks p with
      | .idle => some (s.setTask p (.read com size false))
      | _ => none
  | .poll p =>
      match s.tasks p with
      | .write com (c :: left) false =>
          some (s.setTask p (.write com (c :: left) (istransmit com s.uarts ≠ 0)))
      | .read com (left + 1) false =>
          some (s.setTask p (.read com (left + 1) (isreceived com s.uarts ≠ 0)))
      | _ => none
  | .transfer p =>
      match s.tasks p with
      | .write com (c :: left) true =>
          some ({ s with uarts := s.uarts.outb comport (comport com) c }.setTask p
            (.write com left false))
      | .read com (left + 1) true =>
          some ({ s with uarts := (s.uarts.inb comport (comport com)).2 }.setTask p
            (.read com left false))
      | _ => none
  | .ret p =>
      match s.tasks p with
      | .write _ [] _ => some (s.setTask p .idle)
      | .read _ 0 _ => some (s.setTask p .idle)
      | _ => none
  | .send com =>
      (s.uarts com).send.map fun r => { s with uarts := Function.update s.uarts com r.2 }
  | .receive com b =>
      some { s with uarts := Function.update s.uarts com ((s.uarts com).receive b) }

/-- What a step can do. -/
inductive Steps (s : Serial k) : SerialAction k → Serial k → Prop
  | callWrite {p : Fin k} {com : Fin 4} {buff : List UInt8} (htask : s.tasks p = .idle) :
      Steps s (.callWrite p com buff) (s.setTask p (.write com buff false))
  | callRead {p : Fin k} {com : Fin 4} {size : Nat} (htask : s.tasks p = .idle) :
      Steps s (.callRead p com size) (s.setTask p (.read com size false))
  | pollWrite {p : Fin k} {com : Fin 4} {c : UInt8} {left : List UInt8}
      (htask : s.tasks p = .write com (c :: left) false) :
      Steps s (.poll p) (s.setTask p (.write com (c :: left) (istransmit com s.uarts ≠ 0)))
  | pollRead {p : Fin k} {com : Fin 4} {left : Nat}
      (htask : s.tasks p = .read com (left + 1) false) :
      Steps s (.poll p) (s.setTask p (.read com (left + 1) (isreceived com s.uarts ≠ 0)))
  | put {p : Fin k} {com : Fin 4} {c : UInt8} {left : List UInt8}
      (htask : s.tasks p = .write com (c :: left) true) :
      Steps s (.transfer p) ({ s with uarts := s.uarts.outb comport (comport com) c }.setTask p
        (.write com left false))
  | get {p : Fin k} {com : Fin 4} {left : Nat} (htask : s.tasks p = .read com (left + 1) true) :
      Steps s (.transfer p) ({ s with uarts := (s.uarts.inb comport (comport com)).2 }.setTask p
        (.read com left false))
  | retWrite {p : Fin k} {com : Fin 4} {ready : Bool} (htask : s.tasks p = .write com [] ready) :
      Steps s (.ret p) (s.setTask p .idle)
  | retRead {p : Fin k} {com : Fin 4} {ready : Bool} (htask : s.tasks p = .read com 0 ready) :
      Steps s (.ret p) (s.setTask p .idle)
  | send {com : Fin 4} {b : UInt8} {u : Uart} (hsend : (s.uarts com).send = some (b, u)) :
      Steps s (.send com) { s with uarts := Function.update s.uarts com u }
  | receive {com : Fin 4} {b : UInt8} : Steps s (.receive com b)
      { s with uarts := Function.update s.uarts com ((s.uarts com).receive b) }

theorem step_cases {s s' : Serial k} {a : SerialAction k} (h : step s a = some s') :
    Steps s a s' := by
  cases a with
  | callWrite p com buff =>
      simp only [step] at h
      split at h
      case h_1 htask =>
        cases h
        exact .callWrite htask
      case h_2 => cases h
  | callRead p com size =>
      simp only [step] at h
      split at h
      case h_1 htask =>
        cases h
        exact .callRead htask
      case h_2 => cases h
  | poll p =>
      simp only [step] at h
      split at h
      case h_1 htask =>
        cases h
        exact .pollWrite htask
      case h_2 htask =>
        cases h
        exact .pollRead htask
      case h_3 => cases h
  | transfer p =>
      simp only [step] at h
      split at h
      case h_1 htask =>
        cases h
        exact .put htask
      case h_2 htask =>
        cases h
        exact .get htask
      case h_3 => cases h
  | ret p =>
      simp only [step] at h
      split at h
      case h_1 htask =>
        cases h
        exact .retWrite htask
      case h_2 htask =>
        cases h
        exact .retRead htask
      case h_3 => cases h
  | send com =>
      obtain ⟨⟨b, u⟩, hsend, rfl⟩ := Option.map_eq_some_iff.mp h
      exact .send hsend
  | receive com b =>
      cases h
      exact .receive

end Serial

/-! ## What is seen -/

inductive SerialEvent (k : Nat)
  /-- A process calls `tty_write`. -/
  | called (p : Fin k) (com : Fin 4) (buff : List UInt8)
  /-- A byte is written to a controller. -/
  | written (p : Fin k) (com : Fin 4) (b : UInt8)
  /-- A byte goes out. -/
  | sent (com : Fin 4) (b : UInt8)
  /-- A byte comes in and finds room in the queue. -/
  | queued (com : Fin 4) (b : UInt8)
  /-- `tty_read` stores a byte. -/
  | got (p : Fin k) (com : Fin 4) (b : UInt8)
deriving DecidableEq

namespace Serial

variable {k : Nat}

def events (s : Serial k) : SerialAction k → List (SerialEvent k)
  | .callWrite p com buff => [.called p com buff]
  | .transfer p =>
      match s.tasks p with
      | .write com (c :: _) true => [.written p com c]
      | .read com (_ + 1) true => [.got p com (s.uarts.inb comport (comport com)).1]
      | _ => []
  | .send com => ((s.uarts com).send.map fun r => .sent com r.1).toList
  | .receive com b => if (s.uarts com).rx.length < (s.uarts com).depth then [.queued com b] else []
  | _ => []

end Serial

/-! ## Ports -/

theorem decodePort_comport : ∀ (c : Fin 4) (off : Fin 8),
    decodePort comport (comport c + UInt16.ofNat off) = some (c, off.val) := by decide

theorem outb_register (c : Fin 4) (off : Fin 8) (v : UInt8) (us : Uarts) :
    us.outb comport (comport c + UInt16.ofNat off) v =
      Function.update us c ((us c).write off v) := by
  rw [Uarts.outb, decodePort_comport]

theorem outb_comport (c : Fin 4) (v : UInt8) (us : Uarts) :
    us.outb comport (comport c) v = Function.update us c ((us c).write 0 v) := by
  have hregister := outb_register c 0 v us
  rwa [show comport c + UInt16.ofNat (0 : Fin 8) = comport c from add_zero _] at hregister

theorem inb_comport (c : Fin 4) (us : Uarts) : us.inb comport (comport c) =
    (((us c).read 0).1, Function.update us c ((us c).read 0).2) := by
  have hdecode := decodePort_comport c 0
  rw [show comport c + UInt16.ofNat (0 : Fin 8) = comport c from add_zero _] at hdecode
  rw [Uarts.inb, hdecode]
  rfl

theorem inb_status (c : Fin 4) (us : Uarts) :
    (us.inb comport (comport c + 5)).1 = (us c).lsr := by
  have hdecode : decodePort comport (comport c + 5) = some (c, 5) := decodePort_comport c 5
  rw [Uarts.inb, hdecode]
  rfl

theorem istransmit_ne_zero {c : Fin 4} {us : Uarts} : istransmit c us ≠ 0 ↔ (us c).tx = [] := by
  rw [istransmit, inb_status]
  exact Uart.lsr_and_empty

theorem isreceived_ne_zero {c : Fin 4} {us : Uarts} : isreceived c us ≠ 0 ↔ (us c).rx ≠ [] := by
  rw [isreceived, inb_status]
  exact Uart.lsr_and_one

/-- A controller after `tty_creat`.  The interrupts are disabled only if the first write did
not go to the divisor. -/
def created (u : Uart) : Uart where
  ier := if u.dlab then u.ier else 0
  fcr := 0xC7
  lcr := 0x03
  mcr := 0x0B
  dll := 0x03
  dlm := 0x00

theorem created_eq (u : Uart) : (((((((u.write 1 0x00).write 3 0x80).write 0 0x03).write
    1 0x00).write 3 0x03).write 2 0xC7).write 4 0x0B) = created u := by
  have hclear : (0xC7 : UInt8) &&& 2 ≠ 0 ∧ (0xC7 : UInt8) &&& 4 ≠ 0 := by decide
  have hdata : (0x80 : UInt8) &&& 0x80 ≠ 0 := by decide
  by_cases hdlab : u.dlab
  · have hfirst : u.write 1 0x00 = { u with dlm := 0x00 } := if_pos hdlab
    rw [hfirst, created, if_pos hdlab]
    simp only [Uart.write, Uart.dlab, if_pos hdata, if_pos hclear.1, if_pos hclear.2]
  · have hfirst : u.write 1 0x00 = { u with ier := 0x00 } := if_neg hdlab
    rw [hfirst, created, if_neg hdlab]
    simp only [Uart.write, Uart.dlab, if_pos hdata, if_pos hclear.1, if_pos hclear.2]

theorem outs_ttyCreatOuts (c : Fin 4) (us : Uarts) :
    outs (ttyCreatOuts c) us = Function.update us c (created (us c)) := by
  have hzero (v : UInt8) (us : Uarts) : us.outb comport (comport c + 0) v =
      Function.update us c ((us c).write 0 v) := outb_register c 0 v us
  have hone (v : UInt8) (us : Uarts) : us.outb comport (comport c + 1) v =
      Function.update us c ((us c).write 1 v) := outb_register c 1 v us
  have htwo (v : UInt8) (us : Uarts) : us.outb comport (comport c + 2) v =
      Function.update us c ((us c).write 2 v) := outb_register c 2 v us
  have hthree (v : UInt8) (us : Uarts) : us.outb comport (comport c + 3) v =
      Function.update us c ((us c).write 3 v) := outb_register c 3 v us
  have hfour (v : UInt8) (us : Uarts) : us.outb comport (comport c + 4) v =
      Function.update us c ((us c).write 4 v) := outb_register c 4 v us
  simp only [outs, ttyCreatOuts, List.foldl_cons, List.foldl_nil, hzero, hone, htwo, hthree, hfour,
    Function.update_self, Function.update_idem, created_eq]

/-- Every controller is programmed, whatever it was before. -/
theorem serialInit_eq (us : Uarts) (c : Fin 4) : serialInit us c = created (us c) := by
  have houts (cs : List (Fin 4)) (us : Uarts) (hcs : cs.Nodup) :
      outs (cs.flatMap ttyCreatOuts) us c = if c ∈ cs then created (us c) else us c := by
    induction cs generalizing us with
    | nil => rfl
    | cons d cs ih =>
        obtain ⟨hd, hcs⟩ := List.nodup_cons.mp hcs
        have happend : outs ((d :: cs).flatMap ttyCreatOuts) us =
            outs (cs.flatMap ttyCreatOuts) (outs (ttyCreatOuts d) us) := List.foldl_append
        rw [happend, ih _ hcs, outs_ttyCreatOuts]
        by_cases heq : c = d
        · subst heq
          rw [if_neg hd, if_pos List.mem_cons_self, Function.update_self]
        · simp only [Function.update_of_ne heq, List.mem_cons, heq, false_or]
  rw [serialInit, houts _ _ (List.nodup_finRange 4), if_pos (List.mem_finRange c)]

/-! ## Writes -/

/-- A process has seen the queue empty and is about to write. -/
def Task.writesTo (c : Fin 4) : Task → Bool
  | .write com (_ :: _) true => com = c
  | _ => false

/-- What the call of a process has left to write. -/
def Task.toWrite : Task → List UInt8
  | .write _ left _ => left
  | _ => []

namespace SerialEvent

variable {k : Nat}

/-- The bytes that are written to a port. -/
def writtenTo (c : Fin 4) : SerialEvent k → List UInt8
  | .written _ com b => if com = c then [b] else []
  | _ => []

/-- The bytes that a port sends. -/
def sentFrom (c : Fin 4) : SerialEvent k → List UInt8
  | .sent com b => if com = c then [b] else []
  | _ => []

/-- The bytes of the calls of a process. -/
def calledBy (p : Fin k) : SerialEvent k → List UInt8
  | .called q _ buff => if q = p then buff else []
  | _ => []

/-- The bytes that a process writes. -/
def writtenBy (p : Fin k) : SerialEvent k → List UInt8
  | .written q _ b => if q = p then [b] else []
  | _ => []

/-- The bytes that a port receives.  A byte that finds no room is lost. -/
def queuedAt (c : Fin 4) : SerialEvent k → List UInt8
  | .queued com b => if com = c then [b] else []
  | _ => []

/-- The bytes that are read from a port. -/
def gotFrom (c : Fin 4) : SerialEvent k → List UInt8
  | .got _ com b => if com = c then [b] else []
  | _ => []

end SerialEvent

namespace Serial

variable {k : Nat}

/-- After `MODULE_INIT(tty_serial)`, before any process uses the driver. -/
def start (k : Nat) (us : Uarts) : Serial k := ⟨serialInit us, fun _ => .idle⟩

/-- The processes that are about to write to a port. -/
def writers (s : Serial k) (c : Fin 4) : Finset (Fin k) :=
  Finset.univ.filter fun p => (s.tasks p).writesTo c

/-- The controllers are as they were programmed, and have a place for each process that is
about to write. -/
structure Inv (s : Serial k) : Prop where
  data : ∀ c, ¬ (s.uarts c).dlab
  depth : ∀ c, (s.uarts c).depth = 16
  room : ∀ c, (s.uarts c).tx.length + (s.writers c).card ≤ k

/-- A process comes or goes. -/
theorem card_writers_setTask (s : Serial k) (p : Fin k) (t : Task) (c : Fin 4) :
    ((s.setTask p t).writers c).card + ((s.tasks p).writesTo c).toNat =
      (s.writers c).card + (t.writesTo c).toNat := by
  have hcard (tasks : Fin k → Task) : (Finset.univ.filter fun q => (tasks q).writesTo c).card =
      ((tasks p).writesTo c).toNat +
        ∑ q ∈ Finset.univ.erase p, ((tasks q).writesTo c).toNat := by
    rw [Finset.add_sum_erase _ (fun q => ((tasks q).writesTo c).toNat) (Finset.mem_univ p),
      Finset.card_filter]
    exact Finset.sum_congr rfl fun q _ => by cases (tasks q).writesTo c <;> rfl
  have hothers : ∑ q ∈ Finset.univ.erase p, (((s.setTask p t).tasks q).writesTo c).toNat =
      ∑ q ∈ Finset.univ.erase p, ((s.tasks q).writesTo c).toNat :=
    Finset.sum_congr rfl fun q hq => by
      have hq : (s.setTask p t).tasks q = s.tasks q :=
        Function.update_of_ne (Finset.ne_of_mem_erase hq) _ _
      rw [hq]
  have hself : (s.setTask p t).tasks p = t := Function.update_self _ _ _
  rw [writers, writers, hcard, hcard, hothers, hself]
  omega

@[simp] theorem tasks_setTask_self (s : Serial k) (p : Fin k) (t : Task) :
    (s.setTask p t).tasks p = t := Function.update_self _ _ _

theorem tasks_setTask_of_ne (s : Serial k) {p q : Fin k} (t : Task) (h : q ≠ p) :
    (s.setTask p t).tasks q = s.tasks q := Function.update_of_ne h _ _

@[simp] theorem uarts_setTask (s : Serial k) (p : Fin k) (t : Task) :
    (s.setTask p t).uarts = s.uarts := rfl

theorem writesTo_false (c com : Fin 4) (left : List UInt8) :
    (Task.write com left false).writesTo c = false := by cases left <;> rfl

/-- The controllers stay as they are, and no process begins to write but one that has seen
the queue empty. -/
theorem Inv.setTask {s : Serial k} (h : s.Inv) {p : Fin k} {t : Task}
    (ht : ∀ c, t.writesTo c = true → (s.uarts c).tx = []) : (s.setTask p t).Inv where
  data := h.data
  depth := h.depth
  room := by
    intro c
    have hcard := card_writers_setTask s p t c
    have hroom := h.room c
    have hall : ((s.setTask p t).writers c).card ≤ k := (Finset.card_le_univ _).trans (by simp)
    rw [uarts_setTask]
    cases hwrites : t.writesTo c with
    | false =>
        rw [hwrites, Bool.toNat_false] at hcard
        omega
    | true =>
        rw [ht c hwrites, List.length_nil]
        omega

/-- One controller changes.  What its queue gains, processes that are about to write give up. -/
theorem Inv.update {s s' : Serial k} (h : s.Inv) {com : Fin 4} {u : Uart}
    (huarts : s'.uarts = Function.update s.uarts com u) (hdata : ¬ u.dlab) (hdepth : u.depth = 16)
    (hcom : u.tx.length + (s'.writers com).card ≤
      (s.uarts com).tx.length + (s.writers com).card)
    (hothers : ∀ c, c ≠ com → (s'.writers c).card ≤ (s.writers c).card) : s'.Inv := by
  rw [← Function.update_self com u s.uarts, ← huarts] at hdata hdepth hcom
  have hsame {c : Fin 4} (hc : c ≠ com) : s'.uarts c = s.uarts c := by
    rw [huarts, Function.update_of_ne hc]
  refine ⟨fun c => ?_, fun c => ?_, fun c => ?_⟩
  · by_cases hc : c = com
    · rwa [hc]
    · rw [hsame hc]
      exact h.data c
  · by_cases hc : c = com
    · rwa [hc]
    · rw [hsame hc]
      exact h.depth c
  · by_cases hc : c = com
    · rw [hc]
      exact hcom.trans (h.room com)
    · rw [hsame hc]
      exact (Nat.add_le_add_left (hothers c hc) _).trans (h.room c)

section Transfer

variable {s : Serial k} {p : Fin k} {com : Fin 4}

/-- A process that is about to write finds a place. -/
theorem Inv.outb (hk : k ≤ 16) (h : s.Inv) {b : UInt8} {left : List UInt8}
    (htask : s.tasks p = .write com (b :: left) true) :
    s.uarts.outb comport (comport com) b = Function.update s.uarts com
      { s.uarts com with tx := (s.uarts com).tx ++ [b] } := by
  have hmem : p ∈ s.writers com := by
    rw [writers, Finset.mem_filter, htask]
    exact ⟨Finset.mem_univ p, decide_eq_true rfl⟩
  have hpos : 0 < (s.writers com).card := Finset.card_pos.mpr ⟨p, hmem⟩
  have hroom := h.room com
  have hdepth := h.depth com
  rw [outb_comport, Uart.write_data (h.data com) (by omega)]

/-- The process gives its place to the byte. -/
theorem Inv.put (hk : k ≤ 16) (h : s.Inv) {b : UInt8} {left : List UInt8}
    (htask : s.tasks p = .write com (b :: left) true) :
    ({ s with uarts := s.uarts.outb comport (comport com) b }.setTask p
      (.write com left false)).Inv := by
  have hcard (c : Fin 4) := card_writers_setTask s p (.write com left false) c
  simp only [htask, writesTo_false, Bool.toNat_false, Nat.add_zero] at hcard
  have hcom := hcard com
  have hone : (Task.write com (b :: left) true).writesTo com = true := decide_eq_true rfl
  rw [hone, Bool.toNat_true] at hcom
  rw [h.outb hk htask]
  refine h.update rfl (h.data com) (h.depth com) ?_ fun c hc => ?_
  · rw [List.length_append, List.length_singleton]
    change _ + 1 + ((s.setTask p (.write com left false)).writers com).card ≤ _
    omega
  · exact Nat.le_of_add_right_le (hcard c).le

theorem Inv.inb (h : s.Inv) {b : UInt8} {rest : List UInt8} (hrx : (s.uarts com).rx = b :: rest) :
    s.uarts.inb comport (comport com) =
      (b, Function.update s.uarts com { s.uarts com with rx := rest }) := by
  rw [inb_comport, Uart.read_data (h.data com) hrx]

/-- A read changes no queue of bytes to be sent. -/
theorem Inv.get (h : s.Inv) {left n : Nat} (htask : s.tasks p = .read com n true) :
    ({ s with uarts := (s.uarts.inb comport (comport com)).2 }.setTask p
      (.read com left false)).Inv := by
  have hcard (c : Fin 4) := card_writers_setTask s p (.read com left false) c
  simp only [htask, Task.writesTo, Bool.toNat_false, Nat.add_zero] at hcard
  obtain ⟨rest, hrest⟩ := Uart.read_data_snd (s.uarts com)
  rw [inb_comport, hrest]
  exact h.update rfl (h.data com) (h.depth com) (Nat.add_le_add_left (hcard com).le _)
    fun c _ => (hcard c).le

end Transfer

theorem step_inv (hk : k ≤ 16) {s s' : Serial k} {a : SerialAction k} (hs : s.Inv)
    (h : step s a = some s') : s'.Inv := by
  cases step_cases h with
  | callWrite => exact hs.setTask fun c hc => absurd hc (by rw [writesTo_false]; decide)
  | callRead | pollRead | retWrite | retRead => exact hs.setTask fun c hc => nomatch hc
  | @pollWrite p com b left htask =>
      refine hs.setTask fun c hc => ?_
      by_cases htransmit : istransmit com s.uarts ≠ 0
      · rw [decide_eq_true htransmit] at hc
        exact of_decide_eq_true hc ▸ istransmit_ne_zero.mp htransmit
      · rw [decide_eq_false htransmit, writesTo_false] at hc
        cases hc
  | put htask => exact hs.put hk htask
  | get htask => exact hs.get htask
  | @send com b u hsend =>
      obtain ⟨rest, htx, rfl⟩ := Uart.send_eq_some.mp hsend
      refine hs.update rfl (hs.data com) (hs.depth com) (Nat.add_le_add_right ?_ _) fun _ _ =>
        le_rfl
      rw [htx]
      exact Nat.le_succ _
  | @receive com b =>
      obtain ⟨rx, hrx⟩ := Uart.receive_eq b (s.uarts com)
      rw [hrx]
      exact hs.update rfl (hs.data com) (hs.depth com) le_rfl fun c _ => le_rfl

/-! ## What goes out -/

/-- What a step of another process, or of a controller, leaves to a process. -/
theorem toWrite_setTask (p : Fin k) {s : Serial k} {q : Fin k} {t : Task}
    (ht : (s.tasks q).toWrite = t.toWrite) :
    ((s.setTask q t).tasks p).toWrite = (s.tasks p).toWrite := by
  by_cases hq : p = q
  · subst hq
    rw [tasks_setTask_self, ht]
  · rw [tasks_setTask_of_ne s t hq]

/-- A process writes the bytes that it was called with. -/
theorem toWrite_step (p : Fin k) {s s' : Serial k} {a : SerialAction k}
    (h : step s a = some s') :
    (s.tasks p).toWrite ++ (s.events a).flatMap (SerialEvent.calledBy p) =
      (s.events a).flatMap (SerialEvent.writtenBy p) ++ (s'.tasks p).toWrite := by
  cases step_cases h with
  | @callWrite q com buff htask =>
      simp only [events, List.flatMap_singleton, SerialEvent.calledBy, SerialEvent.writtenBy,
        List.nil_append]
      by_cases hq : p = q
      · subst hq
        rw [tasks_setTask_self, htask, if_pos rfl]
        rfl
      · rw [tasks_setTask_of_ne s _ hq, if_neg (Ne.symm hq), List.append_nil]
  | @put q com b left htask =>
      simp only [events, htask, List.flatMap_singleton, SerialEvent.calledBy,
        SerialEvent.writtenBy, List.append_nil]
      by_cases hq : p = q
      · subst hq
        rw [tasks_setTask_self, htask, if_pos rfl]
        rfl
      · rw [tasks_setTask_of_ne _ _ hq, if_neg (Ne.symm hq), List.nil_append]
  | callRead htask | pollWrite htask | pollRead htask | retWrite htask | retRead htask =>
      simp only [events, List.flatMap_nil, List.append_nil, List.nil_append]
      exact (toWrite_setTask p (by rw [htask]; rfl)).symm
  | get htask =>
      simp only [events, htask, List.flatMap_singleton, SerialEvent.calledBy,
        SerialEvent.writtenBy, List.append_nil, List.nil_append]
      exact (toWrite_setTask p (by rw [htask]; rfl)).symm
  | send hsend =>
      simp only [events, hsend, Option.map_some, Option.toList_some, List.flatMap_singleton,
        SerialEvent.calledBy, SerialEvent.writtenBy, List.append_nil, List.nil_append]
  | receive =>
      simp only [events]
      split_ifs <;> simp only [List.flatMap_singleton, List.flatMap_nil, SerialEvent.calledBy,
        SerialEvent.writtenBy, List.append_nil, List.nil_append]

/-- A controller sends the bytes that are written to it. -/
theorem tx_step (hk : k ≤ 16) (c : Fin 4) {s s' : Serial k} {a : SerialAction k} (hs : s.Inv)
    (h : step s a = some s') :
    (s.uarts c).tx ++ (s.events a).flatMap (SerialEvent.writtenTo c) =
      (s.events a).flatMap (SerialEvent.sentFrom c) ++ (s'.uarts c).tx := by
  cases step_cases h with
  | callWrite =>
      simp only [events, List.flatMap_singleton, SerialEvent.writtenTo, SerialEvent.sentFrom,
        List.append_nil, List.nil_append, uarts_setTask]
  | callRead | pollWrite | pollRead | retWrite | retRead =>
      simp only [events, List.flatMap_nil, List.append_nil, List.nil_append, uarts_setTask]
  | @put q com b left htask =>
      simp only [events, htask, List.flatMap_singleton, SerialEvent.writtenTo,
        SerialEvent.sentFrom, List.nil_append, uarts_setTask, hs.outb hk htask]
      by_cases hc : c = com
      · subst hc
        rw [if_pos rfl, Function.update_self]
      · rw [if_neg (Ne.symm hc), Function.update_of_ne hc, List.append_nil]
  | @get q com left htask =>
      obtain ⟨rest, hrest⟩ := Uart.read_data_snd (s.uarts com)
      simp only [events, htask, List.flatMap_singleton, SerialEvent.writtenTo,
        SerialEvent.sentFrom, List.append_nil, List.nil_append, uarts_setTask, inb_comport, hrest]
      by_cases hc : c = com
      · subst hc
        rw [Function.update_self]
      · rw [Function.update_of_ne hc]
  | @send com b u hsend =>
      obtain ⟨rest, htx, rfl⟩ := Uart.send_eq_some.mp hsend
      simp only [events, hsend, Option.map_some, Option.toList_some, List.flatMap_singleton,
        SerialEvent.writtenTo, SerialEvent.sentFrom, List.append_nil]
      by_cases hc : c = com
      · subst hc
        rw [if_pos rfl, Function.update_self, htx]
        rfl
      · rw [if_neg (Ne.symm hc), Function.update_of_ne hc, List.nil_append]
  | @receive com b =>
      obtain ⟨rx, hrx⟩ := Uart.receive_eq b (s.uarts com)
      have htx : (Function.update s.uarts com ((s.uarts com).receive b) c).tx =
          (s.uarts c).tx := by
        rw [hrx]
        by_cases hc : c = com
        · subst hc
          rw [Function.update_self]
        · rw [Function.update_of_ne hc]
      simp only [events, htx]
      split_ifs <;> simp only [List.flatMap_singleton, List.flatMap_nil, SerialEvent.writtenTo,
        SerialEvent.sentFrom, List.append_nil, List.nil_append]

theorem uarts_start (us : Uarts) (c : Fin 4) : (start k us).uarts c = created (us c) :=
  serialInit_eq us c

theorem start_inv (us : Uarts) : (start k us).Inv where
  data := fun c => by
    rw [uarts_start]
    exact not_not_intro (show (0x03 : UInt8) &&& 0x80 = 0 by decide)
  depth := fun c => by
    rw [uarts_start]
    exact if_pos (show (0xC7 : UInt8) &&& 1 ≠ 0 by decide)
  room := fun c => by
    have hwriters : (start k us).writers c = ∅ :=
      Finset.filter_eq_empty_iff.mpr fun p _ => Bool.false_ne_true
    rw [hwriters, uarts_start]
    exact Nat.zero_le k

/-- **What is written is sent.**  For up to 16 processes in the driver, switched at any point:
each port sends the bytes that are written to it, in order and without a loss, and each process
writes the bytes of its calls in order. -/
theorem writes_sent (hk : k ≤ 16) (us : Uarts) {s' : Serial k} {as : List (SerialAction k)}
    (h : run step (start k us) as = some s') :
    let trace := yield step events (start k us) as
    (∀ c, trace.flatMap (SerialEvent.writtenTo c) =
        trace.flatMap (SerialEvent.sentFrom c) ++ (s'.uarts c).tx) ∧
      ∀ p, trace.flatMap (SerialEvent.calledBy p) =
        trace.flatMap (SerialEvent.writtenBy p) ++ (s'.tasks p).toWrite := by
  constructor
  · intro c
    have hempty : ((start k us).uarts c).tx = [] := by
      rw [uarts_start]
      rfl
    have hqueue := yield_queue (C := fun _ _ => True)
      (fun _ _ _ hs _ hstep => ⟨step_inv hk hs hstep, tx_step hk c hs hstep⟩) as (start_inv us)
      (meets_true as) h
    rwa [hempty, List.nil_append] at hqueue
  · intro p
    exact yield_queue (I := fun _ => True) (C := fun _ _ => True)
      (fun _ _ _ _ _ hstep => ⟨trivial, toWrite_step p hstep⟩) as trivial (meets_true as) h

/-- Two processes see the queue of `ser0` empty before either writes. -/
def twoWriters : List (SerialAction 2) :=
  [.callWrite 0 0 [0x61, 0x62], .callWrite 1 0 [0x63], .poll 0, .poll 1, .transfer 1, .transfer 0,
    .send 0]

theorem writes_sent_two : ∃ s', run step (start 2 fun _ => {}) twoWriters = some s' ∧
    let trace := yield step events (start 2 fun _ => {}) twoWriters
    trace.flatMap (SerialEvent.writtenTo 0) =
      trace.flatMap (SerialEvent.sentFrom 0) ++ (s'.uarts 0).tx := by
  have hdefined : (run step (start 2 fun _ => {}) twoWriters).isSome := by rfl
  obtain ⟨s', hrun⟩ := Option.isSome_iff_exists.mp hdefined
  exact ⟨s', hrun, (writes_sent (by decide) (fun _ => {}) hrun).1 0⟩

/-! ## What comes in -/

/-- A process is in `tty_read`. -/
def reads (s : Serial k) (c : Fin 4) (p : Fin k) : Prop :=
  ∃ left ready, s.tasks p = .read c left ready

/-- No two processes are in `tty_read` on the port. -/
def Exclusive (c : Fin 4) (s : Serial k) : SerialAction k → Prop
  | .callRead _ com _ => com = c → ∀ q, ¬ s.reads c q
  | _ => True

/-- The process that reads the port has seen what is there. -/
structure ReadInv (c : Fin 4) (s : Serial k) : Prop where
  inv : s.Inv
  one : ∀ p q, s.reads c p → s.reads c q → p = q
  seen : ∀ p left, s.tasks p = .read c left true → (s.uarts c).rx ≠ []

section SetTask

variable {s : Serial k} {us : Uarts} {c : Fin 4} {p q : Fin k} {t : Task}

theorem reads_setTask_of_ne (hq : q ≠ p) :
    ({ s with uarts := us }.setTask p t).reads c q ↔ s.reads c q := by
  rw [reads, reads, tasks_setTask_of_ne _ t hq]

theorem reads_setTask_self :
    ({ s with uarts := us }.setTask p t).reads c p ↔ ∃ left ready, t = .read c left ready := by
  rw [reads, tasks_setTask_self]

/-- A process goes on.  It comes to read only if no process does, and takes no byte that
another one has seen. -/
theorem ReadInv.setTask (h : s.ReadInv c) (hinv : ({ s with uarts := us }.setTask p t).Inv)
    (ht : ∀ left ready, t = .read c left ready →
      (s.reads c p ∨ ∀ q, ¬ s.reads c q) ∧ (ready = true → (us c).rx ≠ []))
    (hrx : ∀ q, q ≠ p → s.reads c q → (s.uarts c).rx ≠ [] → (us c).rx ≠ []) :
    ({ s with uarts := us }.setTask p t).ReadInv c where
  inv := hinv
  one := by
    have hone (q : Fin k) (hself : ({ s with uarts := us }.setTask p t).reads c p) (hq : q ≠ p) :
        ¬ ({ s with uarts := us }.setTask p t).reads c q := by
      obtain ⟨left, ready, heq⟩ := reads_setTask_self.mp hself
      rw [reads_setTask_of_ne hq]
      obtain hp | hnone := (ht left ready heq).1
      · exact fun hread => hq (h.one q p hread hp)
      · exact hnone q
    intro q r hq hr
    by_cases hqp : q = p
    · subst hqp
      by_contra hne
      exact hone r hq (Ne.symm hne) hr
    · by_cases hrp : r = p
      · subst hrp
        exact absurd hq (hone q hr hqp)
      · exact h.one q r ((reads_setTask_of_ne hqp).mp hq) ((reads_setTask_of_ne hrp).mp hr)
  seen := by
    intro q left hread
    by_cases hq : q = p
    · subst hq
      rw [tasks_setTask_self] at hread
      exact (ht left true hread).2 rfl
    · rw [tasks_setTask_of_ne _ t hq] at hread
      exact hrx q hq ⟨left, true, hread⟩ (h.seen q left hread)

end SetTask

/-- A controller changes, and no process waits for what it takes from the reader. -/
theorem ReadInv.update {c com : Fin 4} {s : Serial k} (h : s.ReadInv c) {u : Uart}
    (hinv : Inv { s with uarts := Function.update s.uarts com u })
    (hrx : (s.uarts com).rx ≠ [] → u.rx ≠ []) :
    ReadInv c { s with uarts := Function.update s.uarts com u } where
  inv := hinv
  one := h.one
  seen := by
    intro q left hread
    have hseen := h.seen q left hread
    by_cases hc : c = com
    · subst hc
      simpa only [Function.update_self] using hrx hseen
    · simpa only [Function.update_of_ne hc] using hseen

theorem rx_receive {u : Uart} {b : UInt8} (h : u.rx ≠ []) : (u.receive b).rx ≠ [] := by
  rw [Uart.receive]
  split_ifs
  · exact List.append_ne_nil_of_left_ne_nil h _
  · exact h

theorem readInv_step (hk : k ≤ 16) (c : Fin 4) {s s' : Serial k} {a : SerialAction k}
    (hs : s.ReadInv c) (ha : Exclusive c s a) (h : step s a = some s') : s'.ReadInv c := by
  have hinv := step_inv hk hs.inv h
  cases step_cases h with
  | callWrite | pollWrite | retWrite | retRead =>
      exact hs.setTask hinv (fun left ready heq => nomatch heq) fun _ _ _ => id
  | callRead htask =>
      refine hs.setTask hinv (fun left ready heq => ?_) fun _ _ _ => id
      cases heq
      exact ⟨Or.inr (ha rfl), Bool.noConfusion⟩
  | pollRead htask =>
      refine hs.setTask hinv (fun left ready heq => ?_) fun _ _ _ => id
      cases heq
      exact ⟨Or.inl ⟨_, _, htask⟩, fun hready =>
        isreceived_ne_zero.mp (of_decide_eq_true hready)⟩
  | @put p com b left htask =>
      refine hs.setTask hinv (fun left ready heq => nomatch heq) fun q _ _ hrx => ?_
      rw [hs.inv.outb hk htask]
      by_cases hc : c = com
      · subst hc
        rwa [Function.update_self]
      · rwa [Function.update_of_ne hc]
  | @get p com left htask =>
      refine hs.setTask hinv (fun left ready heq => ?_) fun q hq hread hrx => ?_
      · cases heq
        exact ⟨Or.inl ⟨_, _, htask⟩, Bool.noConfusion⟩
      · rw [inb_comport]
        by_cases hc : c = com
        · subst hc
          exact absurd (hs.one q p hread ⟨_, _, htask⟩) hq
        · simpa only [Function.update_of_ne hc] using hrx
  | send hsend =>
      obtain ⟨rest, htx, rfl⟩ := Uart.send_eq_some.mp hsend
      exact hs.update hinv id
  | receive => exact hs.update hinv rx_receive

/-- The reader takes what has arrived. -/
theorem rx_step (hk : k ≤ 16) (c : Fin 4) {s s' : Serial k} {a : SerialAction k}
    (hs : s.ReadInv c) (h : step s a = some s') :
    (s.uarts c).rx ++ (s.events a).flatMap (SerialEvent.queuedAt c) =
      (s.events a).flatMap (SerialEvent.gotFrom c) ++ (s'.uarts c).rx := by
  cases step_cases h with
  | callWrite =>
      simp only [events, List.flatMap_singleton, SerialEvent.queuedAt, SerialEvent.gotFrom,
        List.append_nil, List.nil_append, uarts_setTask]
  | callRead | pollWrite | pollRead | retWrite | retRead =>
      simp only [events, List.flatMap_nil, List.append_nil, List.nil_append, uarts_setTask]
  | @put q com b left htask =>
      simp only [events, htask, List.flatMap_singleton, SerialEvent.queuedAt,
        SerialEvent.gotFrom, List.append_nil, List.nil_append, uarts_setTask, hs.inv.outb hk htask]
      by_cases hc : c = com
      · subst hc
        rw [Function.update_self]
      · rw [Function.update_of_ne hc]
  | @get q com left htask =>
      simp only [events, htask, List.flatMap_singleton, SerialEvent.queuedAt,
        SerialEvent.gotFrom, List.append_nil, uarts_setTask]
      by_cases hc : c = com
      · subst hc
        obtain ⟨b, rest, hrx⟩ := List.exists_cons_of_ne_nil (hs.seen q _ htask)
        simp only [if_pos, hs.inv.inb hrx, Function.update_self]
        exact hrx
      · simp only [if_neg (Ne.symm hc), inb_comport, Function.update_of_ne hc, List.nil_append]
  | @send com b u hsend =>
      obtain ⟨rest, htx, rfl⟩ := Uart.send_eq_some.mp hsend
      simp only [events, hsend, Option.map_some, Option.toList_some, List.flatMap_singleton,
        SerialEvent.queuedAt, SerialEvent.gotFrom, List.append_nil, List.nil_append]
      by_cases hc : c = com
      · subst hc
        rw [Function.update_self]
      · rw [Function.update_of_ne hc]
  | @receive com b =>
      simp only [events, Uart.receive]
      split_ifs with hroom
      · simp only [List.flatMap_singleton, SerialEvent.queuedAt, SerialEvent.gotFrom,
          List.nil_append]
        by_cases hc : c = com
        · subst hc
          rw [if_pos rfl, Function.update_self]
        · rw [if_neg (Ne.symm hc), Function.update_of_ne hc, List.append_nil]
      · simp only [List.flatMap_nil, List.append_nil, List.nil_append, Function.update_eq_self]

/-- **What arrives is read**, if it finds room.  While no two processes read a port at the same
time, the bytes that are read from it are those that came into the queue of the controller, in
order, but for those still in it. -/
theorem reads_arrived (hk : k ≤ 16) (us : Uarts) (c : Fin 4) {s' : Serial k}
    {as : List (SerialAction k)} (hone : Meets step (Exclusive c) (start k us) as)
    (h : run step (start k us) as = some s') :
    let trace := yield step events (start k us) as
    trace.flatMap (SerialEvent.queuedAt c) =
      trace.flatMap (SerialEvent.gotFrom c) ++ (s'.uarts c).rx := by
  have hstart : (start k us).ReadInv c := {
    inv := start_inv us
    one := fun _ _ hp _ => (nomatch hp)
    seen := fun _ _ hp => (nomatch hp) }
  have hempty : ((start k us).uarts c).rx = [] := by
    rw [uarts_start]
    rfl
  have hqueue := yield_queue (fun _ _ _ hs ha hstep =>
    ⟨readInv_step hk c hs ha hstep, rx_step hk c hs hstep⟩) as hstart hone h
  rwa [hempty, List.nil_append] at hqueue

/-- A process reads two bytes from `ser1`. -/
def oneReader : List (SerialAction 2) :=
  .callRead 0 1 2 :: [.poll 0, .receive 1 0x61, .poll 0, .receive 1 0x62, .transfer 0, .poll 0,
    .transfer 0, .ret 0]

theorem reads_arrived_one : ∃ s', run step (start 2 fun _ => {}) oneReader = some s' ∧
    let trace := yield step events (start 2 fun _ => {}) oneReader
    trace.flatMap (SerialEvent.queuedAt 1) =
      trace.flatMap (SerialEvent.gotFrom 1) ++ (s'.uarts 1).rx := by
  have hone : Meets step (Exclusive 1) (start 2 fun _ => {}) oneReader :=
    ⟨fun _ _ hq => (nomatch hq), fun _ _ => meets_of_step (I := fun _ => True)
      (C := fun _ a => ∀ s, Exclusive 1 s a) (fun s _ _ h => ⟨h s, fun _ _ => trivial⟩) _ trivial
      (meets_of_mem _ (by simp [Exclusive]))⟩
  have hdefined : (run step (start 2 fun _ => {}) oneReader).isSome := by rfl
  obtain ⟨s', hrun⟩ := Option.isSome_iff_exists.mp hdefined
  exact ⟨s', hrun, reads_arrived (by decide) (fun _ => {}) 1 hone hrun⟩

end Serial

end StardustOS.Dev
