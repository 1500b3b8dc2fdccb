import Mathlib.Data.Fin.VecNotation
import Mathlib.Data.UInt

/-!
# A serial controller

The 16550: a queue of bytes in each direction behind the register 0, and the state
of the two queues in the line status register.  While the bit 7 of the line control
register is set, the registers 0 and 1 are the divisor of the rate instead.

A byte that is written while the queue is full takes the place of the last one, one
that arrives while the queue is full is lost, and a read of an empty queue gives 0.
Rates, parities, modem lines and interrupts are left out.
-/

namespace StardustOS.Lib

structure Uart where
  ier : UInt8 := 0
  fcr : UInt8 := 0
  lcr : UInt8 := 0
  mcr : UInt8 := 0
  dll : UInt8 := 0
  dlm : UInt8 := 0
  /-- The bytes to be sent. -/
  tx : List UInt8 := []
  /-- The bytes that have arrived. -/
  rx : List UInt8 := []
deriving DecidableEq

namespace Uart

/-- The registers 0 and 1 are the divisor. -/
def dlab (u : Uart) : Prop := u.lcr &&& 0x80 ≠ 0

instance (u : Uart) : Decidable u.dlab := inferInstanceAs (Decidable (_ ≠ _))

/-- The places of a queue. -/
def depth (u : Uart) : Nat := if u.fcr &&& 1 ≠ 0 then 16 else 1

/-- A register is written. -/
def write (off : Nat) (v : UInt8) (u : Uart) : Uart :=
  match off with
  | 0 => if u.dlab then { u with dll := v } else { u with tx := u.tx.take (u.depth - 1) ++ [v] }
  | 1 => if u.dlab then { u with dlm := v } else { u with ier := v }
  | 2 =>
      { u with
        fcr := v
        rx := if v &&& 2 ≠ 0 then [] else u.rx
        tx := if v &&& 4 ≠ 0 then [] else u.tx }
  | 3 => { u with lcr := v }
  | 4 => { u with mcr := v }
  | _ => u

/-- The line status: bytes have arrived, and all bytes are sent. -/
def lsr (u : Uart) : UInt8 :=
  (if u.rx = [] then 0 else 0x01) ||| if u.tx = [] then 0x60 else 0

/-- A register is read. -/
def read (off : Nat) (u : Uart) : UInt8 × Uart :=
  match off with
  | 0 =>
      if u.dlab then (u.dll, u)
      else
        match u.rx with
        | [] => (0, u)
        | b :: rest => (b, { u with rx := rest })
  | 1 => (if u.dlab then u.dlm else u.ier, u)
  | 3 => (u.lcr, u)
  | 4 => (u.mcr, u)
  | 5 => (u.lsr, u)
  | _ => (0, u)

/-- The next byte goes out. -/
def send (u : Uart) : Option (UInt8 × Uart) :=
  match u.tx with
  | [] => none
  | b :: rest => some (b, { u with tx := rest })

/-- A byte comes in. -/
def receive (b : UInt8) (u : Uart) : Uart :=
  if u.rx.length < u.depth then { u with rx := u.rx ++ [b] } else u

variable {u : Uart}

theorem lsr_and_one : u.lsr &&& 1 ≠ 0 ↔ u.rx ≠ [] := by
  rw [lsr]
  split_ifs with hrx htx htx <;> simp [hrx] <;> decide

theorem lsr_and_empty : u.lsr &&& 0x20 ≠ 0 ↔ u.tx = [] := by
  rw [lsr]
  split_ifs with hrx htx htx <;> simp [htx] <;> decide

/-- There is a place in the queue. -/
theorem write_data (hdlab : ¬ u.dlab) (hroom : u.tx.length < u.depth) (v : UInt8) :
    u.write 0 v = { u with tx := u.tx ++ [v] } := by
  have htake : u.tx.take (u.depth - 1) = u.tx := List.take_of_length_le (by omega)
  rw [write, if_neg hdlab, htake]

theorem read_data (hdlab : ¬ u.dlab) {b : UInt8} {rest : List UInt8} (hrx : u.rx = b :: rest) :
    u.read 0 = (b, { u with rx := rest }) := by
  rw [read, if_neg hdlab, hrx]

theorem send_eq_some {b : UInt8} {u' : Uart} :
    u.send = some (b, u') ↔ ∃ rest, u.tx = b :: rest ∧ u' = { u with tx := rest } := by
  rw [send]
  cases u.tx with
  | nil => simp
  | cons c rest => simp [and_comm, eq_comm]

theorem receive_eq (b : UInt8) (u : Uart) : ∃ rx, u.receive b = { u with rx := rx } := by
  rw [receive]
  split_ifs
  · exact ⟨u.rx ++ [b], rfl⟩
  · exact ⟨u.rx, rfl⟩

/-- A read takes bytes that have arrived, at most. -/
theorem read_data_snd (u : Uart) : ∃ rest, (u.read 0).2 = { u with rx := rest } := by
  obtain ⟨ier, fcr, lcr, mcr, dll, dlm, tx, rx⟩ := u
  rw [read]
  split_ifs
  · exact ⟨rx, rfl⟩
  · cases rx with
    | nil => exact ⟨[], rfl⟩
    | cons b rest => exact ⟨rest, rfl⟩

end Uart

/-! ## Four of them -/

/-- Controllers at four bases. -/
abbrev Uarts := Fin 4 → Uart

/-- The controller and the register at a port. -/
def decodePort (bases : Fin 4 → UInt16) (port : UInt16) : Option (Fin 4 × Nat) :=
  ((List.finRange 4).find? fun c => (port - bases c).toNat < 8).map fun c =>
    (c, (port - bases c).toNat)

namespace Uarts

/-- `outb` -/
def outb (bases : Fin 4 → UInt16) (port : UInt16) (v : UInt8) (us : Uarts) : Uarts :=
  match decodePort bases port with
  | some (c, off) => Function.update us c ((us c).write off v)
  | none => us

/-- `inb` -/
def inb (bases : Fin 4 → UInt16) (port : UInt16) (us : Uarts) : UInt8 × Uarts :=
  match decodePort bases port with
  | some (c, off) => (((us c).read off).1, Function.update us c ((us c).read off).2)
  | none => (0xFF, us)

end Uarts

end StardustOS.Lib
