import StardustOS.Dev.Block
import StardustOS.Lib.Run

/-!
# Which disk a block device node reaches

`RightDisk` is what the central registry promises for block devices: the device
found under a name reads, writes and describes the block device of that name.

A minor number is a count taken at registration and is read as a position in a
list that grows at its head, so the promise breaks with the second block device
that is registered while the first is still there.  Up to then it holds:
`SingleDisk` is the invariant, `step_singleDisk` says that every call outside
the defect keeps it, and `runs_rightDisk` carries it to whole runs.
-/

namespace StardustOS.Dev

open Lib

/-- A call of the block device interface. -/
inductive BlkOp where
  | register (name : List UInt8) (blksize blkcnt : Nat) (opts : BlkdevOpts) (mem mem' : Bool)
  | unregister (name : List UInt8)

/-- One call, without its result. -/
def BlkState.step (s : BlkState) : BlkOp → Option BlkState
  | .register name blksize blkcnt opts mem mem' =>
      (s.registerBlkdev name blksize blkcnt opts mem mem').map Prod.snd
  | .unregister name => some (s.unregisterBlkdev name).2

/-- The state before any block device is registered.  Devices of other kinds
may be there. -/
def BlkState.Boot (s : BlkState) : Prop :=
  s.blk = ⟨[], 0⟩ ∧ ∀ d ∈ s.reg.devices, devMajor d.dev ≠ DEVMAJ_BLOCK

/-- Every registered block device is found under its name, and what is done
through the device found is done on it. -/
def BlkState.RightDisk (s : BlkState) : Prop :=
  ∀ b ∈ s.blk.blockDevices, ∃ d, s.reg.deviceFromname b.name = some d ∧ d.opts = .blkdev ∧
    (∀ offset size,
      s.blk.blkdevRead d.dev offset size = b.transfer b.opts.readBlock offset size) ∧
    (∀ offset size,
      s.blk.blkdevWrite d.dev offset size = b.transfer b.opts.writeBlock offset size) ∧
    ∀ req, s.blk.blkdevIoctl d.dev req = b.answer req

/-- A registration stores a name that fits its field, and is made while no
block device is registered or ends in an error: the name is known, or there is
no memory. -/
def BlkState.OneAtATime (s : BlkState) : BlkOp → Prop
  | .register name _ _ _ mem mem' =>
      name.length < NAME_MAX ∧
        (s.blk.blockDevices = [] ∨ (s.blk.blkdevFromname name).isSome ∨
          (s.reg.deviceFromname name).isSome ∨ mem = false ∨ mem' = false)
  | .unregister _ => True

/-- At most one block device is registered, with minor number 0. -/
inductive BlkState.SingleDisk : BlkState → Prop where
  | none {s : BlkState} : s.Boot → SingleDisk s
  | one {b : Blkdev} {d : Device} {rest : List Device} {n : Nat} :
      b.name.length < NAME_MAX → d.name = b.name → d.dev = mkdev DEVMAJ_BLOCK 0 →
      d.opts = .blkdev → (∀ e ∈ rest, devMajor e.dev ≠ DEVMAJ_BLOCK) →
      SingleDisk ⟨⟨d :: rest, n⟩, ⟨[b], 1⟩⟩

theorem BlkState.SingleDisk.rightDisk {s : BlkState} (h : s.SingleDisk) : s.RightDisk := by
  intro b hb
  cases h with
  | none hboot => simp [hboot.1] at hb
  | @one b' d rest n hlen hname hdev hopts _ =>
      obtain rfl := List.mem_singleton.mp hb
      refine ⟨d, ?_, hopts, ?_⟩
      · rw [← hname]
        exact Devices.deviceFromname_head (hname ▸ hlen)
      -- minor number 0 is position 0
      · have hget : Blkdevs.blkdevGet ⟨[b], 1⟩ (devMinor d.dev) = some b := by
          rw [hdev]
          rfl
        exact ⟨fun _ _ => by rw [Blkdevs.blkdevRead, hget],
          fun _ _ => by rw [Blkdevs.blkdevWrite, hget], fun _ => by rw [Blkdevs.blkdevIoctl, hget]⟩

/-- A registration that finds the name known or no memory changes nothing. -/
theorem registerBlkdev_rejected {s : BlkState} {name : List UInt8} {blksize blkcnt : Nat}
    {opts : BlkdevOpts} {mem mem' : Bool} (hlen : name.length < NAME_MAX)
    (h : (s.blk.blkdevFromname name).isSome ∨ (s.reg.deviceFromname name).isSome ∨
      mem = false ∨ mem' = false) :
    (s.registerBlkdev name blksize blkcnt opts mem mem').map Prod.snd = some s := by
  rw [BlkState.registerBlkdev]
  by_cases hknown : (s.blk.blkdevFromname name).isSome ∨ (s.reg.deviceFromname name).isSome
  · rw [if_pos hknown]
    rfl
  rw [if_neg hknown]
  by_cases hmem : mem = false
  · simp [hmem]
  obtain rfl : mem' = false := by tauto
  obtain ⟨r, hr, hreg⟩ := s.reg.registerDevice_noMem
    (mkdev DEVMAJ_BLOCK s.blk.blockDeviceCount) (blksize * blkcnt % 2 ^ 32) .blkdev hlen
  rw [if_neg (by simpa using hmem), if_neg (by omega)]
  simp only [hreg, hr, ↓reduceIte, Option.map_some]

/-- The first registration of a block device. -/
theorem registerBlkdev_first {s : BlkState} {name : List UInt8} {blksize blkcnt : Nat}
    {opts : BlkdevOpts} (hboot : s.Boot) (hlen : name.length < NAME_MAX)
    (hname : s.reg.deviceFromname name = none) :
    (s.registerBlkdev name blksize blkcnt opts true true).map Prod.snd =
      some ⟨⟨⟨mkdev DEVMAJ_BLOCK 0, blksize * blkcnt % 2 ^ 32, name, .blkdev⟩ :: s.reg.devices,
        s.reg.devCount + 1⟩, ⟨[⟨blksize, blkcnt, name, opts⟩], 1⟩⟩ := by
  obtain ⟨hblk, hmaj⟩ := hboot
  have hfree : s.reg.deviceFromdev (mkdev DEVMAJ_BLOCK 0) = none := by
    rw [Devices.deviceFromdev_eq_none]
    intro d hd hdev
    exact hmaj d hd (by rw [hdev]; rfl)
  have hnew : s.blk.blkdevFromname name = none := by simp [hblk, Blkdevs.blkdevFromname]
  rw [BlkState.registerBlkdev, if_neg (by simp [hname, hnew]), if_neg (by simp),
    if_neg (by omega)]
  simp [hblk, s.reg.registerDevice_fresh hlen hname hfree]

/-- A removal of the only block device removes its central device. -/
theorem unregisterBlkdev_single {b : Blkdev} {d : Device} {rest : List Device} {n : Nat}
    (hlen : b.name.length < NAME_MAX) (hname : d.name = b.name)
    (hdev : d.dev = mkdev DEVMAJ_BLOCK 0) :
    (BlkState.unregisterBlkdev ⟨⟨d :: rest, n⟩, ⟨[b], 1⟩⟩ b.name).2 =
      ⟨⟨rest, n - 1⟩, ⟨[], 0⟩⟩ := by
  have hfound : (Devices.mk (d :: rest) n).deviceFromname b.name = some d := by
    rw [← hname]
    exact Devices.deviceFromname_head (hname ▸ hlen)
  have hidx : (Blkdevs.mk [b] 1).blkdevIndexof b = 0 := by simp [Blkdevs.blkdevIndexof]
  have hrem : (Devices.mk (d :: rest) n).unregisterDevice (mkdev DEVMAJ_BLOCK 0) =
      (0, ⟨rest, n - 1⟩) := by
    simp [Devices.unregisterDevice, Devices.deviceFromdev, hdev]
  simp only [BlkState.unregisterBlkdev, Blkdevs.blkdevFromname, List.find?_cons_of_pos,
    decide_true, hfound, Option.isNone_some, Bool.false_eq_true, ↓reduceIte, hidx, hrem]
  simp

/-- Every call outside the defect is defined and keeps the invariant. -/
theorem step_singleDisk (s : BlkState) (op : BlkOp) (hs : s.SingleDisk) (hop : s.OneAtATime op) :
    ∃ s', s.step op = some s' ∧ s'.SingleDisk := by
  cases op with
  | register name blksize blkcnt opts mem mem' =>
      obtain ⟨hlen, hcase⟩ := hop
      by_cases hrej : (s.blk.blkdevFromname name).isSome ∨ (s.reg.deviceFromname name).isSome ∨
          mem = false ∨ mem' = false
      · exact ⟨s, registerBlkdev_rejected hlen hrej, hs⟩
      · have hempty : s.blk.blockDevices = [] := by tauto
        push Not at hrej
        obtain ⟨-, hname, hmem, hmem'⟩ := hrej
        rw [Bool.eq_true_of_not_eq_false hmem, Bool.eq_true_of_not_eq_false hmem']
        have hname' : s.reg.deviceFromname name = none := by
          simpa using hname
        cases hs with
        | none hboot =>
            refine ⟨_, registerBlkdev_first hboot hlen hname', ?_⟩
            exact .one hlen rfl rfl rfl hboot.2
        | one => exact absurd hempty (List.cons_ne_nil _ _)
  | unregister name =>
      refine ⟨_, rfl, ?_⟩
      cases hs with
      | none hboot =>
          have hkeep : (s.unregisterBlkdev name).2 = s := by
            simp [BlkState.unregisterBlkdev, Blkdevs.blkdevFromname, hboot.1]
          rw [hkeep]
          exact .none hboot
      | @one b d rest n hlen hname hdev hopts hrest =>
          by_cases hb : name = b.name
          · subst hb
            rw [unregisterBlkdev_single hlen hname hdev]
            exact .none ⟨rfl, hrest⟩
          · have hkeep : (BlkState.unregisterBlkdev ⟨⟨d :: rest, n⟩, ⟨[b], 1⟩⟩ name).2 =
                ⟨⟨d :: rest, n⟩, ⟨[b], 1⟩⟩ := by
              simp [BlkState.unregisterBlkdev, Blkdevs.blkdevFromname, Ne.symm hb]
            rw [hkeep]
            exact .one hlen hname hdev hopts hrest

/-- In every run from boot that has at most one block device at a time, every
block device node reaches its own device, in every state. -/
theorem runs_rightDisk {s : BlkState} (hs : s.Boot) (ops : List BlkOp)
    (hops : Meets BlkState.step BlkState.OneAtATime s ops) :
    ∃ s', run BlkState.step s ops = some s' ∧ s'.RightDisk := by
  obtain ⟨s', hrun, hs'⟩ := run_defined step_singleDisk ops (.none hs) hops
  exact ⟨s', hrun, hs'.rightDisk⟩

section Disks

/-- A disk `a` of 512-byte blocks. -/
def diskA : Blkdev := ⟨512, 100, [97], ⟨some 1, some 2⟩⟩

/-- A disk `b` of 512-byte blocks. -/
def diskB : Blkdev := ⟨512, 200, [98], ⟨some 3, some 4⟩⟩

/-- The registration of a disk, with memory. -/
def Blkdev.registration (b : Blkdev) : BlkOp := .register b.name b.size b.count b.opts true true

/-- No device at all. -/
def noDevices : BlkState := ⟨⟨[], 0⟩, ⟨[], 0⟩⟩

theorem noDevices_boot : noDevices.Boot := ⟨rfl, by simp [noDevices]⟩

/-- One disk after another. -/
theorem runs_rightDisk_turns :
    ∃ s', run BlkState.step noDevices
      [diskA.registration, .unregister [97], diskB.registration] = some s' ∧ s'.RightDisk := by
  refine runs_rightDisk noDevices_boot _ ?_
  simp only [Meets, BlkState.OneAtATime, Blkdev.registration, true_and]
  refine ⟨by decide, ?_⟩
  intro s hs
  obtain rfl := Option.some.inj hs
  intro s hs
  obtain rfl := Option.some.inj hs
  decide

/-- Both disks, newest first, with their central devices. -/
def twoDisks : BlkState :=
  ⟨⟨[⟨257, 102400, [98], .blkdev⟩, ⟨256, 51200, [97], .blkdev⟩], 2⟩, ⟨[diskB, diskA], 2⟩⟩

/-- With two disks, what is written to `a` goes to `b`. -/
theorem twoDisks_wrong :
    run BlkState.step noDevices [diskA.registration, diskB.registration] = some twoDisks ∧
      (twoDisks.reg.deviceFromname diskA.name).map
        (fun d => twoDisks.blk.blkdevWrite d.dev 0 512) = some (.call 4 diskB 0 512) ∧
      ¬ twoDisks.RightDisk := by
  refine ⟨by decide, by decide, ?_⟩
  intro h
  obtain ⟨d, hd, -, -, hwrite, -⟩ := h diskA (by decide)
  obtain rfl : ⟨256, 51200, [97], .blkdev⟩ = d := Option.some.inj hd
  exact absurd (hwrite 0 512) (by decide)

end Disks

end StardustOS.Dev
