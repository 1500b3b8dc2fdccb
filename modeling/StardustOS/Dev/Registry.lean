import StardustOS.Errno
import Mathlib.Data.List.Find
import Mathlib.Tactic.Common
import Mathlib.Tactic.Tauto

/-!
# The central device registry

The static data of `dev.c`: the list of registered devices, newest first, and
their count.  A device value packs a major and a minor number.

Records are kept by value.  The code finds a record by its name or its device
value and unlinks that very record, so `unregister_device` removes the first
record of the value.

An outcome of `none` is an undefined call: a name that is as long as its field
is stored without room for its NUL.
-/

namespace StardustOS.Dev

/-- `DEVMAJ_BLOCK`. -/
def DEVMAJ_BLOCK : Nat := 1

/-- `MKDEV(ma, mi)`. -/
def mkdev (ma mi : Nat) : Nat := ma <<< 8 ||| mi

/-- `DEV_MAJOR(dev)`. -/
def devMajor (dev : Nat) : Nat := dev >>> 8

/-- `DEV_MINOR(dev)`. -/
def devMinor (dev : Nat) : Nat := dev &&& 0xFF

/-- Whose node operations a device carries. -/
inductive DevOpts where
  /-- `blkdev_fsopts`. -/
  | blkdev
  /-- `tty_fsopts`. -/
  | tty
  /-- The operations of any other caller of `register_device`. -/
  | other (tag : Nat)
deriving DecidableEq, Repr

/-- `device_t`. -/
structure Device where
  dev : Nat
  size : Nat
  name : List UInt8
  opts : DevOpts
deriving DecidableEq, Repr

/-- The static data of `dev.c`. -/
structure Devices where
  devices : List Device
  devCount : Nat
deriving DecidableEq, Repr

namespace Devices

variable (s : Devices)

/-- `device_get`. -/
def deviceGet (i : Nat) : Option Device := s.devices[i]?

/-- `device_fromdev`. -/
def deviceFromdev (dev : Nat) : Option Device := s.devices.find? fun d => d.dev = dev

/-- `device_fromname`. -/
def deviceFromname (name : List UInt8) : Option Device :=
  if name.length > NAME_MAX then none else s.devices.find? fun d => d.name = name

/-- `register_device`.  `mem` says whether `kmalloc` finds memory. -/
def registerDevice (dev : Nat) (name : List UInt8) (opts : DevOpts) (size : Nat) (mem : Bool) :
    Option (Int × Devices) :=
  if name.length > NAME_MAX then some (-ENAMETOOLONG, s)
  else if (s.deviceFromname name).isSome ∨ (s.deviceFromdev dev).isSome then some (-EEXIST, s)
  else if !mem then some (-ENOMEM, s)
  else if name.length = NAME_MAX then none
  else some (0, ⟨⟨dev, size, name, opts⟩ :: s.devices, s.devCount + 1⟩)

/-- `unregister_device`. -/
def unregisterDevice (dev : Nat) : Int × Devices :=
  match s.deviceFromdev dev with
  | none => (-ENODEV, s)
  | some _ => (0, ⟨s.devices.eraseP fun d => d.dev = dev, s.devCount - 1⟩)

theorem deviceFromdev_eq_none {dev : Nat} :
    s.deviceFromdev dev = none ↔ ∀ d ∈ s.devices, d.dev ≠ dev := by
  simp [deviceFromdev]

/-- The newest device is found under its own name. -/
theorem deviceFromname_head {d : Device} {rest : List Device} {n : Nat}
    (h : d.name.length < NAME_MAX) :
    (Devices.mk (d :: rest) n).deviceFromname d.name = some d := by
  rw [deviceFromname, if_neg (by omega)]
  simp

/-- A fresh name and a fresh device value are registered. -/
theorem registerDevice_fresh {dev size : Nat} {name : List UInt8} {opts : DevOpts}
    (hlen : name.length < NAME_MAX) (hname : s.deviceFromname name = none)
    (hdev : s.deviceFromdev dev = none) :
    s.registerDevice dev name opts size true =
      some (0, ⟨⟨dev, size, name, opts⟩ :: s.devices, s.devCount + 1⟩) := by
  have h1 : ¬ name.length > NAME_MAX := by omega
  have h2 : name.length ≠ NAME_MAX := by omega
  simp [registerDevice, h1, h2, hname, hdev]

/-- Without memory nothing is registered. -/
theorem registerDevice_noMem (dev size : Nat) (opts : DevOpts) {name : List UInt8}
    (hlen : name.length < NAME_MAX) :
    ∃ r < 0, s.registerDevice dev name opts size false = some (r, s) := by
  have h1 : ¬ name.length > NAME_MAX := by omega
  by_cases h : (s.deviceFromname name).isSome ∨ (s.deviceFromdev dev).isSome
  · exact ⟨-EEXIST, by decide, by rw [registerDevice, if_neg h1, if_pos h]⟩
  · exact ⟨-ENOMEM, by decide, by rw [registerDevice, if_neg h1, if_neg h]; rfl⟩

end Devices

end StardustOS.Dev
