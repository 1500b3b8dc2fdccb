import StardustOS.Dev.Block

/-!
# Terminals

The static data of `tty.c`, and the three registries together.  A terminal is
registered and unregistered as a block device is, under its own major number.
-/

namespace StardustOS.Dev

/-- `DEVMAJ_TTY`. -/
def DEVMAJ_TTY : Nat := 2

/-- `tty_opts_t`: the functions that are set. -/
structure TtyOpts where
  read : Option Nat
  write : Option Nat
  cursorSet : Option Nat
  cursorMove : Option Nat
  cursorGet : Option Nat
  winGet : Option Nat
  winSet : Option Nat
deriving DecidableEq, Repr

/-- `tty_t`. -/
structure Tty where
  name : List UInt8
  opts : TtyOpts
deriving DecidableEq, Repr

/-- The static data of `tty.c`. -/
structure Ttys where
  ttys : List Tty
  ttyCnt : Nat
deriving DecidableEq, Repr

namespace Ttys

variable (s : Ttys)

/-- `tty_fromname`. -/
def ttyFromname (name : List UInt8) : Option Tty := s.ttys.find? fun t => t.name = name

/-- `tty_indexof`. -/
def ttyIndexof (t : Tty) : Nat :=
  match s.ttys.findIdx? fun t' => t'.name = t.name with
  | some i => i
  | none => asU32 (-1)

end Ttys

/-- The central registry, the block devices and the terminals. -/
structure DevState where
  reg : Devices
  blk : Blkdevs
  tty : Ttys
deriving DecidableEq, Repr

namespace DevState

variable (s : DevState)

/-- The part that `block.c` works on. -/
def blkState : BlkState := ⟨s.reg, s.blk⟩

/-- A result of `block.c`. -/
def withBlk (b : BlkState) : DevState := ⟨b.reg, b.blk, s.tty⟩

/-- `register_tty`.  `mem` and `mem'` say whether `kmalloc` finds memory for the
terminal and for the central device. -/
def registerTty (name : List UInt8) (opts : TtyOpts) (mem mem' : Bool) :
    Option (Int × DevState) :=
  if (s.tty.ttyFromname name).isSome ∨ (s.reg.deviceFromname name).isSome then
    some (-EEXIST, s)
  else if !mem then some (-ENOMEM, s)
  else if name.length ≥ NAME_MAX then none
  else
    match s.reg.registerDevice (mkdev DEVMAJ_TTY s.tty.ttyCnt) name .tty 0 mem' with
    | none => none
    | some (r, reg) =>
        if r < 0 then some (r, { s with reg := reg })
        else some (0, { s with reg := reg, tty := ⟨⟨name, opts⟩ :: s.tty.ttys, s.tty.ttyCnt + 1⟩ })

/-- `unregister_tty`. -/
def unregisterTty (name : List UInt8) : Int × DevState :=
  match s.tty.ttyFromname name with
  | none => (-ENODEV, s)
  | some t =>
      if (s.reg.deviceFromname name).isNone then (-ENODEV, s)
      else
        let (r, reg) := s.reg.unregisterDevice (mkdev DEVMAJ_TTY (s.tty.ttyIndexof t))
        if r < 0 then (r, { s with reg := reg })
        else
          (0, { s with
            reg := reg
            tty := ⟨s.tty.ttys.eraseP fun t' => t'.name = t.name, s.tty.ttyCnt - 1⟩ })

end DevState

/-- A call of the two interfaces. -/
inductive DevOp where
  | registerBlkdev (name : List UInt8) (blksize blkcnt : Nat) (opts : BlkdevOpts) (mem mem' : Bool)
  | unregisterBlkdev (name : List UInt8)
  | registerTty (name : List UInt8) (opts : TtyOpts) (mem mem' : Bool)
  | unregisterTty (name : List UInt8)
deriving DecidableEq, Repr

namespace DevState

/-- One call, with its result. -/
def call (s : DevState) : DevOp → Option (Int × DevState)
  | .registerBlkdev name blksize blkcnt opts mem mem' =>
      (s.blkState.registerBlkdev name blksize blkcnt opts mem mem').map fun (r, b) =>
        (r, s.withBlk b)
  | .unregisterBlkdev name =>
      let (r, b) := s.blkState.unregisterBlkdev name
      some (r, s.withBlk b)
  | .registerTty name opts mem mem' => s.registerTty name opts mem mem'
  | .unregisterTty name => some (s.unregisterTty name)

/-- One call, without its result. -/
def step (s : DevState) (op : DevOp) : Option DevState := (s.call op).map Prod.snd

/-- Empty registries. -/
def empty : DevState := ⟨⟨[], 0⟩, ⟨[], 0⟩, ⟨[], 0⟩⟩

end DevState

end StardustOS.Dev
