import StardustOS.Dev.Registries
import StardustOS.Fs.Initrd
import StardustOS.Fs.NodeType
import StardustOS.Lib.Run

/-!
# The device file system

`devfs.c`: `devfs_get` makes a node for a device the first time it is looked up,
and keeps the nodes in a list, which it reads by position from then on.  The list
grows at its head, in the order of the lookups, while the place of a device is that
in the table of `dev.c`, which grows and shrinks on its own.

`Lookups` says what the list amounts to, without nodes: the devices that lookups
found, the last one first.  `Devfs.step_lookups` says that the code does just that,
and `lookups_right_iff` reads off it when the lookups are right.
-/

namespace StardustOS.Fs

open Lib Dev

/-! ## The source -/

/-- The fields of a node that `devfs_get` sets. -/
structure DevfsNode where
  name : List UInt8
  mode : UInt32
  ino : Nat
  rdev : Nat
  size : Nat
  opts : DevOpts
  /-- `blksize` and `blkcnt`, which are set for a block device. -/
  blk : Option (Nat × Nat)
deriving DecidableEq, Repr

/-- `devfs_nodes`, with the device table and `next_inode`. -/
structure Devfs where
  reg : Devices
  nodes : List DevfsNode
  nextInode : UInt32
deriving DecidableEq, Repr

/-- The node that `devfs_get` makes of a device. -/
def deviceNode (device : Device) (blkdev : Option Blkdev) (ino : Nat) : DevfsNode where
  name := device.name
  mode := 6 <<< (if blkdev.isSome then NodeType.blk.num else NodeType.chr.num)
  ino := ino
  rdev := device.dev
  size := device.size
  opts := device.opts
  blk := blkdev.map fun b => (b.size, b.count)

namespace Devfs

/-- `devfs_get`.  `blks` are the block devices; `mem` and `listMem` say whether
`kmalloc` finds memory for the node and for its place in the list.  The result of
`liblist_add` is not looked at. -/
def devfsGet (s : Devfs) (i : Nat) (blks : Blkdevs) (mem listMem : Bool) :
    Option DevfsNode × Devfs :=
  match s.nodes[i]? with
  | some node => (some node, s)
  | none =>
      match s.reg.deviceGet i with
      | none => (none, s)
      | some device =>
          let blkdev := blks.blkdevFromname device.name
          let (r, nextInode) := fsNodeCreate mem device.name s.nextInode
          match asInt r with
          | .error _ => (none, { s with nextInode })
          | .ok ino =>
              let node := deviceNode device blkdev ino
              (some node, { s with
                nodes := if listMem then node :: s.nodes else s.nodes
                nextInode })

end Devfs

/-- A call. -/
inductive DevfsCall
  | registerDevice (dev : Nat) (name : List UInt8) (opts : DevOpts) (size : Nat) (mem : Bool)
  | unregisterDevice (dev : Nat)
  | devfsGet (i : Nat) (blks : Blkdevs) (mem listMem : Bool)

/-- What a call makes of the device table. -/
def DevfsCall.table (reg : Devices) : DevfsCall → Option Devices
  | .registerDevice dev name opts size mem =>
      (reg.registerDevice dev name opts size mem).map Prod.snd
  | .unregisterDevice dev => some (reg.unregisterDevice dev).2
  | .devfsGet .. => some reg

/-- One call. -/
def Devfs.step (s : Devfs) (c : DevfsCall) : Option Devfs :=
  match c with
  | .registerDevice .. | .unregisterDevice _ =>
      (c.table s.reg).map fun reg => { s with reg }
  | .devfsGet i blks mem listMem => some (s.devfsGet i blks mem listMem).2

/-- The device that a node shows. -/
def DevfsNode.device (node : DevfsNode) : Device := ⟨node.rdev, node.size, node.name, node.opts⟩

/-- A lookup returns NULL when the table has no device in the place, and otherwise a
node that shows the device. -/
def Devfs.Right (s : Devfs) : DevfsCall → Prop
  | .devfsGet i blks mem listMem =>
      (s.devfsGet i blks mem listMem).1.map DevfsNode.device = s.reg.deviceGet i
  | _ => True

/-! ## The lookups without the nodes -/

/-- The devices that lookups found, the last one first. -/
structure Lookups where
  reg : Devices
  found : List Device
  nextInode : UInt32

namespace Lookups

/-- A lookup of a place that has no entry yet finds the device in the table. -/
def lookup (s : Lookups) (i : Nat) (mem listMem : Bool) : Lookups :=
  match s.found[i]?, s.reg.deviceGet i with
  | none, some device =>
      let (r, nextInode) := fsNodeCreate mem device.name s.nextInode
      match asInt r with
      | .error _ => { s with nextInode }
      | .ok _ => { s with found := if listMem then device :: s.found else s.found, nextInode }
  | _, _ => s

def step (s : Lookups) (c : DevfsCall) : Option Lookups :=
  match c with
  | .registerDevice .. | .unregisterDevice _ =>
      (c.table s.reg).map fun reg => { s with reg }
  | .devfsGet i _ mem listMem => some (s.lookup i mem listMem)

/-- The device that was found for the place is in that place now.  A device that has to
be looked up gets its node. -/
def InPlace (s : Lookups) : DevfsCall → Prop
  | .devfsGet i _ mem _ =>
      match s.found[i]? with
      | some device => s.reg.deviceGet i = some device
      | none => i < s.reg.devices.length → mem = true ∧ s.nextInode.toNat < 2 ^ 31
  | _ => True

end Lookups

/-- What is left of the state. -/
def Devfs.lookups (s : Devfs) : Lookups := ⟨s.reg, s.nodes.map DevfsNode.device, s.nextInode⟩

/-! ## What the list amounts to -/

theorem device_deviceNode (device : Device) (blkdev : Option Blkdev) (ino : Nat) :
    (deviceNode device blkdev ino).device = device := rfl

theorem Devfs.devfsGet_lookups (s : Devfs) (i : Nat) (blks : Blkdevs) (mem listMem : Bool) :
    (s.devfsGet i blks mem listMem).2.lookups = s.lookups.lookup i mem listMem := by
  rw [Devfs.devfsGet, Lookups.lookup]
  cases hnode : s.nodes[i]? with
  | some node => simp [lookups, hnode]
  | none =>
      cases hdev : s.reg.deviceGet i with
      | none => simp [lookups, hnode, hdev]
      | some device =>
          simp only [lookups, List.getElem?_map, hnode, hdev, Option.map_none]
          cases asInt (fsNodeCreate mem device.name s.nextInode).1 with
          | error e => rfl
          | ok ino => cases listMem <;> rfl

/-- The code does with the nodes what `Lookups` does with the devices they show. -/
theorem Devfs.step_lookups (s : Devfs) (c : DevfsCall) :
    (s.step c).map lookups = s.lookups.step c := by
  cases c with
  | registerDevice dev name opts size mem =>
      rw [Devfs.step, Lookups.step, Option.map_map]
      rfl
  | unregisterDevice dev => rfl
  | devfsGet i blks mem listMem =>
      rw [Devfs.step, Option.map_some, devfsGet_lookups]
      rfl

/-! ## The device table -/

/-- Every name fits its field. -/
def Fits (reg : Devices) : Prop := ∀ device ∈ reg.devices, device.name.length < NAME_MAX

/-- The table keeps its devices, but for a new one whose name fits. -/
theorem fits_table {reg reg' : Devices} (h : Fits reg) {c : DevfsCall}
    (hc : c.table reg = some reg') : Fits reg' := by
  cases c with
  | registerDevice dev name opts size mem =>
      obtain ⟨⟨r, reg₁⟩, hreg, rfl⟩ := Option.map_eq_some_iff.mp hc
      rcases Devices.registerDevice_cases hreg with ⟨-, rfl⟩ | ⟨-, hlen, -, -, rfl⟩
      · exact h
      · intro device hdevice
        rcases List.mem_cons.mp hdevice with rfl | hold
        · exact hlen
        · exact h device hold
  | unregisterDevice dev =>
      obtain rfl := Option.some.inj hc
      rcases reg.unregisterDevice_cases dev with ⟨-, hsame⟩ | ⟨d, -, -, hremoved⟩
      · rw [hsame]
        exact h
      · rw [hremoved]
        exact fun device hdevice => h device (List.mem_of_mem_eraseP hdevice)
  | devfsGet i blks mem listMem =>
      cases hc
      exact h

theorem Devfs.step_fits {s s' : Devfs} (h : Fits s.reg) {c : DevfsCall}
    (hstep : s.step c = some s') : Fits s'.reg := by
  have htable : c.table s.reg = some s'.reg := by
    cases c with
    | registerDevice dev name opts size mem =>
        obtain ⟨reg, hreg, rfl⟩ := Option.map_eq_some_iff.mp hstep
        exact hreg
    | unregisterDevice dev =>
        obtain rfl := Option.some.inj hstep
        rfl
    | devfsGet i blks mem listMem =>
        obtain rfl := Option.some.inj hstep
        rw [DevfsCall.table, Devfs.devfsGet]
        split
        · rfl
        · split
          · rfl
          · dsimp only
            split <;> rfl
  exact fits_table h htable

/-! ## Runs -/

/-- A lookup is right when its place is right. -/
theorem Devfs.right_iff {s : Devfs} (h : Fits s.reg) (c : DevfsCall) :
    s.Right c ↔ s.lookups.InPlace c := by
  cases c with
  | registerDevice dev name opts size mem => exact Iff.rfl
  | unregisterDevice dev => exact Iff.rfl
  | devfsGet i blks mem listMem =>
      rw [Devfs.Right, Lookups.InPlace, Devfs.devfsGet, lookups, List.getElem?_map]
      cases s.nodes[i]? with
      | some node => exact eq_comm
      | none =>
          cases hdev : s.reg.deviceGet i with
          | none =>
              have hle := List.getElem?_eq_none_iff.mp hdev
              exact iff_of_true rfl fun hlt => absurd hlt (Nat.not_lt.mpr hle)
          | some device =>
              obtain ⟨hlt, -⟩ := List.getElem?_eq_some_iff.mp hdev
              have hfits := h device (List.mem_of_getElem? hdev)
              have hmade := asInt_fsNodeCreate hfits mem s.nextInode
              simp only [Option.map_none, imp_iff_right hlt, ← hmade]
              cases asInt (fsNodeCreate mem device.name s.nextInode).1 with
              | error e => simp
              | ok ino => simp [device_deviceNode]

/-- Lookups are right in a run from boot exactly when each comes to a device that is
where it was, or to one that gets its node. -/
theorem Devfs.lookups_right_iff (reg : Devices) (h : Fits reg) (nextInode : UInt32)
    (calls : List DevfsCall) :
    Meets step Right ⟨reg, [], nextInode⟩ calls ↔
      Meets Lookups.step Lookups.InPlace ⟨reg, [], nextInode⟩ calls := by
  rw [meets_congr (I := fun s => Fits s.reg) (Q := fun _ => True)
    (fun s c hs _ => right_iff hs c) (fun s c s' hs _ _ hstep => step_fits hs hstep) calls h
    fun _ _ => trivial]
  exact meets_map step_lookups calls _

/-- One terminal, looked up twice. -/
theorem Devfs.lookups_right_iff_terminal :
    Meets step Right ⟨⟨[], 0⟩, [], 0⟩
        [.registerDevice 0x400 [116] .tty 0 true, .devfsGet 0 ⟨[], 0⟩ true true,
          .devfsGet 0 ⟨[], 0⟩ true true, .devfsGet 1 ⟨[], 0⟩ true true] ↔
      Meets Lookups.step Lookups.InPlace ⟨⟨[], 0⟩, [], 0⟩
        [.registerDevice 0x400 [116] .tty 0 true, .devfsGet 0 ⟨[], 0⟩ true true,
          .devfsGet 0 ⟨[], 0⟩ true true, .devfsGet 1 ⟨[], 0⟩ true true] :=
  lookups_right_iff ⟨[], 0⟩ (by simp [Fits]) 0 _

/-- Two terminals: once both have been looked up, the first place shows the second
one. -/
theorem Devfs.not_lookups_right :
    ¬ Meets step Right ⟨⟨[], 0⟩, [], 0⟩
        [.registerDevice 0x400 [116] .tty 0 true, .registerDevice 0x401 [117] .tty 0 true,
          .devfsGet 0 ⟨[], 0⟩ true true, .devfsGet 1 ⟨[], 0⟩ true true,
          .devfsGet 0 ⟨[], 0⟩ true true] := by
  rintro ⟨-, h⟩
  obtain ⟨-, h⟩ := h _ rfl
  obtain ⟨-, h⟩ := h _ rfl
  obtain ⟨-, h⟩ := h _ rfl
  cases (h _ rfl).1

end StardustOS.Fs
