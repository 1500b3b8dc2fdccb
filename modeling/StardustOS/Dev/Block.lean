import StardustOS.Dev.Registry

/-!
# Block devices

The static data of `block.c` is the list of block devices, newest first, and
their count.  `register_blkdev` numbers a device by the count it finds, and
registers it with the central registry under that minor number.  The node
operations go the other way: they read the minor number as a position in the
list.

A node operation ends in an error code, in a call of one of the device's own
functions with the device as argument, or in a division by a block size of
zero.
-/

namespace StardustOS.Dev

/-- `blkdev_opts_t`: the two functions, where they are set. -/
structure BlkdevOpts where
  readBlock : Option Nat
  writeBlock : Option Nat
deriving DecidableEq, Repr

/-- `blkdev_t`. -/
structure Blkdev where
  size : Nat
  count : Nat
  name : List UInt8
  opts : BlkdevOpts
deriving DecidableEq, Repr

/-- The static data of `block.c`. -/
structure Blkdevs where
  blockDevices : List Blkdev
  blockDeviceCount : Nat
deriving DecidableEq, Repr

/-- How a read or write on a block device node ends. -/
inductive BlkIO where
  /-- An error code. -/
  | error (r : Int)
  /-- `fn(blkdev, block, buff, size)`. -/
  | call (fn : Nat) (blkdev : Blkdev) (block size : Nat)
  /-- A division by zero. -/
  | fault
deriving DecidableEq, Repr

/-- How an ioctl on a block device node ends: with an error code, or with `0`
and a value stored through the argument. -/
inductive BlkIoctl where
  | error (r : Int)
  | stored (v : Nat)
deriving DecidableEq, Repr

/-- The call of a device's own function `fn` for a byte offset.  The block
number is passed as `uint16_t`. -/
def Blkdev.transfer (b : Blkdev) (fn : Option Nat) (offset size : Nat) : BlkIO :=
  match fn with
  | none => .error (-ENOSYS)
  | some f => if b.size = 0 then .fault else .call f b (offset / b.size % 2 ^ 16) size

/-- The answer of a device to a request: `BLKDEV_SIZE` is 1 and `BLKDEV_COUNT`
is 2. -/
def Blkdev.answer (b : Blkdev) (req : Int) : BlkIoctl :=
  if req = 1 then .stored b.size
  else if req = 2 then .stored b.count
  else .error (-EINVAL)

namespace Blkdevs

variable (s : Blkdevs)

/-- `blkdev_get`. -/
def blkdevGet (i : Nat) : Option Blkdev := s.blockDevices[i]?

/-- `blkdev_fromname`. -/
def blkdevFromname (name : List UInt8) : Option Blkdev :=
  s.blockDevices.find? fun b => b.name = name

/-- `blkdev_indexof`: the position of the first record of the same name. -/
def blkdevIndexof (b : Blkdev) : Nat :=
  match s.blockDevices.findIdx? fun b' => b'.name = b.name with
  | some i => i
  | none => asU32 (-1)

/-- `blkdev_read` on a node with the given `rdev`. -/
def blkdevRead (rdev offset size : Nat) : BlkIO :=
  match s.blkdevGet (devMinor rdev) with
  | none => .error (-ENODEV)
  | some b => b.transfer b.opts.readBlock offset size

/-- `blkdev_write` on a node with the given `rdev`. -/
def blkdevWrite (rdev offset size : Nat) : BlkIO :=
  match s.blkdevGet (devMinor rdev) with
  | none => .error (-ENODEV)
  | some b => b.transfer b.opts.writeBlock offset size

/-- `blkdev_ioctl` on a node with the given `rdev`. -/
def blkdevIoctl (rdev : Nat) (req : Int) : BlkIoctl :=
  match s.blkdevGet (devMinor rdev) with
  | none => .error (-ENODEV)
  | some b => b.answer req

end Blkdevs

/-- The two registries that a block device is entered in. -/
structure BlkState where
  reg : Devices
  blk : Blkdevs
deriving DecidableEq, Repr

namespace BlkState

variable (s : BlkState)

/-- `register_blkdev`.  `mem` and `mem'` say whether `kmalloc` finds memory for
the block device and for the central device.  The name is stored before its
length is checked. -/
def registerBlkdev (name : List UInt8) (blksize blkcnt : Nat) (opts : BlkdevOpts)
    (mem mem' : Bool) : Option (Int × BlkState) :=
  if (s.blk.blkdevFromname name).isSome ∨ (s.reg.deviceFromname name).isSome then
    some (-EEXIST, s)
  else if !mem then some (-ENOMEM, s)
  else if name.length ≥ NAME_MAX then none
  else
    let b : Blkdev := ⟨blksize, blkcnt, name, opts⟩
    match s.reg.registerDevice (mkdev DEVMAJ_BLOCK s.blk.blockDeviceCount) name .blkdev
        (b.size * b.count % 2 ^ 32) mem' with
    | none => none
    | some (r, reg) =>
        if r < 0 then some (r, { s with reg := reg })
        else some (0, ⟨reg, ⟨b :: s.blk.blockDevices, s.blk.blockDeviceCount + 1⟩⟩)

/-- `unregister_blkdev`. -/
def unregisterBlkdev (name : List UInt8) : Int × BlkState :=
  match s.blk.blkdevFromname name with
  | none => (-ENODEV, s)
  | some b =>
      if (s.reg.deviceFromname name).isNone then (-ENODEV, s)
      else
        let (r, reg) := s.reg.unregisterDevice (mkdev DEVMAJ_BLOCK (s.blk.blkdevIndexof b))
        if r < 0 then (r, { s with reg := reg })
        else
          (0, ⟨reg, ⟨s.blk.blockDevices.eraseP fun b' => b'.name = b.name,
            s.blk.blockDeviceCount - 1⟩⟩)

end BlkState

end StardustOS.Dev
