import StardustOS.Dev.Registries
import StardustOS.Dev.BlockRuns

/-!
# Block addresses

A block device is addressed twice.  The central device has its size in bytes,
which `register_blkdev` multiplies in 32 bits.  A node operation divides a byte
offset by the block size, and passes the quotient on as a `uint16_t`.

`Addresses` asks that neither loses anything.  `registerBlkdev_addresses` says
which geometries keep that promise: the product fits in 32 bits, and every block
has a number that fits in 16.
-/

namespace StardustOS.Dev

/-- The size of the disk in bytes, without a limit. -/
def Blkdev.bytes (b : Blkdev) : Nat := b.size * b.count

/-- A node operation on the disk calls the function that is set, if one is, with
the block of the offset. -/
def Blkdev.Addressed (b : Blkdev) (fn : Option Nat) (io : Nat → Nat → BlkIO) : Prop :=
  ∀ f, fn = some f → ∀ offset size, offset < 2 ^ 32 → offset < b.bytes →
    io offset size = .call f b (offset / b.size) size

/-- The central device of the disk has its size, and the nodes that lead to it
reach every byte of it. -/
structure Addresses (reg : Devices) (b : Blkdev) : Prop where
  central : ∃ d, reg.deviceFromname b.name = some d ∧ d.size = b.bytes
  read : ∀ (t : Blkdevs) (rdev : Nat), t.blkdevGet (devMinor rdev) = some b →
    b.Addressed b.opts.readBlock (t.blkdevRead rdev)
  write : ∀ (t : Blkdevs) (rdev : Nat), t.blkdevGet (devMinor rdev) = some b →
    b.Addressed b.opts.writeBlock (t.blkdevWrite rdev)

/-- The block numbers of the disk fit in 16 bits, or nothing is done with them. -/
def Blkdev.Narrow (b : Blkdev) (fn : Option Nat) : Prop :=
  b.size = 0 ∨ b.count ≤ 2 ^ 16 ∨ fn = none

/-! ## One operation -/

/-- The number of the last block is one below the count. -/
theorem Blkdev.addressed_iff {b : Blkdev} {fn : Option Nat} (hb : b.bytes < 2 ^ 32) :
    b.Addressed fn (b.transfer fn) ↔ b.Narrow fn := by
  constructor
  · intro h
    cases fn with
    | none => exact Or.inr (Or.inr rfl)
    | some f =>
        rcases Nat.eq_zero_or_pos b.size with hsize | hsize
        · exact Or.inl hsize
        refine Or.inr (Or.inl (Nat.not_lt.mp fun hcount => ?_))
        -- block 2 ^ 16 starts on the disk
        have hon : b.size * 2 ^ 16 < b.bytes := (Nat.mul_lt_mul_left hsize).mpr hcount
        have hcall := h f rfl (b.size * 2 ^ 16) 0 (hon.trans hb) hon
        rw [transfer, if_neg hsize.ne', Nat.mul_div_cancel_left _ hsize] at hcall
        injection hcall with _ _ hblock
        exact absurd hblock (by decide)
  · intro h f hf offset size _ hon
    subst hf
    have hsize : 0 < b.size := Nat.pos_of_mul_pos_right (Nat.zero_lt_of_lt hon)
    have hblock : offset / b.size < b.count := Nat.div_lt_of_lt_mul hon
    have hcount : b.count ≤ 2 ^ 16 := by
      rcases h with hzero | hcount | hnone
      · exact absurd hzero hsize.ne'
      · exact hcount
      · cases hnone
    rw [transfer, if_neg hsize.ne', Nat.mod_eq_of_lt (hblock.trans_le hcount)]

theorem Blkdevs.blkdevRead_of_get {t : Blkdevs} {rdev : Nat} {b : Blkdev}
    (h : t.blkdevGet (devMinor rdev) = some b) :
    t.blkdevRead rdev = b.transfer b.opts.readBlock := by
  funext offset size
  rw [blkdevRead, h]

theorem Blkdevs.blkdevWrite_of_get {t : Blkdevs} {rdev : Nat} {b : Blkdev}
    (h : t.blkdevGet (devMinor rdev) = some b) :
    t.blkdevWrite rdev = b.transfer b.opts.writeBlock := by
  funext offset size
  rw [blkdevWrite, h]

/-! ## A registration -/

section Accepted

variable {s s' : BlkState} {name : List UInt8} {blksize blkcnt : Nat} {opts : BlkdevOpts}
  {mem mem' : Bool}

/-- What an accepted registration leaves. -/
theorem BlkState.registerBlkdev_accepted
    (h : s.registerBlkdev name blksize blkcnt opts mem mem' = some (0, s')) :
    name.length < NAME_MAX ∧
      s' = ⟨⟨⟨mkdev DEVMAJ_BLOCK s.blk.blockDeviceCount, blksize * blkcnt % 2 ^ 32, name,
            .blkdev⟩ :: s.reg.devices, s.reg.devCount + 1⟩,
        ⟨⟨blksize, blkcnt, name, opts⟩ :: s.blk.blockDevices, s.blk.blockDeviceCount + 1⟩⟩ := by
  have herror : ∀ {r : Int} {t : BlkState}, r < 0 → some (r, t) ≠ some (0, s') := by
    intro r t hr h
    exact hr.ne (Prod.mk.inj (Option.some.inj h)).1
  rw [registerBlkdev] at h
  split at h
  · exact absurd h (herror (by decide))
  · split at h
    · exact absurd h (herror (by decide))
    · split at h
      · cases h
      · rename_i hlen
        dsimp only at h
        split at h
        · cases h
        · rename_i r reg hreg
          rcases Devices.registerDevice_cases hreg with ⟨hr, rfl⟩ | ⟨rfl, -, -, -, rfl⟩
          · rw [if_pos hr] at h
            exact absurd h (herror hr)
          · obtain ⟨-, rfl⟩ := Prod.mk.inj (Option.some.inj h)
            exact ⟨Nat.not_le.mp hlen, rfl⟩

/-- Both operations, on the nodes that lead to the disk. -/
theorem Blkdev.addressed_nodes {b : Blkdev} (hb : b.bytes < 2 ^ 32) :
    (∀ (t : Blkdevs) (rdev : Nat), t.blkdevGet (devMinor rdev) = some b →
      b.Addressed b.opts.readBlock (t.blkdevRead rdev) ∧
        b.Addressed b.opts.writeBlock (t.blkdevWrite rdev)) ↔
      b.Narrow b.opts.readBlock ∧ b.Narrow b.opts.writeBlock := by
  rw [← addressed_iff hb, ← addressed_iff hb]
  constructor
  · intro h
    -- the node with minor number 0, while the disk is the newest
    exact h ⟨[b], 1⟩ 0 rfl
  · intro h t rdev hget
    rw [Blkdevs.blkdevRead_of_get hget, Blkdevs.blkdevWrite_of_get hget]
    exact h

/-- An accepted disk is addressed as it should be exactly when its size fits in
32 bits and its block numbers in 16. -/
theorem registerBlkdev_addresses
    (h : s.registerBlkdev name blksize blkcnt opts mem mem' = some (0, s')) :
    Addresses s'.reg ⟨blksize, blkcnt, name, opts⟩ ↔
      blksize * blkcnt < 2 ^ 32 ∧
        (blksize = 0 ∨ blkcnt ≤ 2 ^ 16 ∨ opts.readBlock = none ∧ opts.writeBlock = none) := by
  obtain ⟨hlen, rfl⟩ := BlkState.registerBlkdev_accepted h
  have hcentral : (Devices.mk (⟨mkdev DEVMAJ_BLOCK s.blk.blockDeviceCount,
      blksize * blkcnt % 2 ^ 32, name, .blkdev⟩ :: s.reg.devices)
        (s.reg.devCount + 1)).deviceFromname name = some ⟨_, _, _, _⟩ :=
    Devices.deviceFromname_head hlen
  have hnarrow : (Blkdev.Narrow ⟨blksize, blkcnt, name, opts⟩ opts.readBlock ∧
      Blkdev.Narrow ⟨blksize, blkcnt, name, opts⟩ opts.writeBlock) ↔
        (blksize = 0 ∨ blkcnt ≤ 2 ^ 16 ∨ opts.readBlock = none ∧ opts.writeBlock = none) := by
    rw [Blkdev.Narrow, Blkdev.Narrow, ← or_and_left, ← or_and_left]
  rw [← hnarrow]
  constructor
  · intro hok
    obtain ⟨d, hd, hsize⟩ := hok.central
    obtain rfl := Option.some.inj (hcentral.symm.trans hd)
    have hfits : blksize * blkcnt < 2 ^ 32 := by
      rw [show blksize * blkcnt = _ from hsize.symm]
      exact Nat.mod_lt _ (by decide)
    have hnodes := Blkdev.addressed_nodes (b := ⟨blksize, blkcnt, name, opts⟩) hfits
    exact ⟨hfits, hnodes.mp fun t rdev hget => ⟨hok.read t rdev hget, hok.write t rdev hget⟩⟩
  · intro ⟨hfits, hok⟩
    have hnodes := (Blkdev.addressed_nodes (b := ⟨blksize, blkcnt, name, opts⟩) hfits).mpr hok
    exact ⟨⟨_, hcentral, Nat.mod_eq_of_lt hfits⟩, fun t rdev hget => (hnodes t rdev hget).1,
      fun t rdev hget => (hnodes t rdev hget).2⟩

end Accepted

/-- The disk `a` of 100 blocks. -/
theorem registerBlkdev_addresses_small :
    Addresses ⟨[⟨256, 51200, [97], .blkdev⟩], 1⟩ diskA := by
  have h : noDevices.registerBlkdev [97] 512 100 diskA.opts true true =
      some (0, ⟨⟨[⟨256, 51200, [97], .blkdev⟩], 1⟩, ⟨[diskA], 1⟩⟩) := by decide
  exact (registerBlkdev_addresses h).mpr ⟨by decide, Or.inr (Or.inl (by decide))⟩

/-- A disk of one block more than there are block numbers. -/
def bigDisk : Blkdev := ⟨512, 65537, [97], ⟨some 1, some 2⟩⟩

/-- Its last block is taken for the first, and the size of a disk of `2 ^ 23`
blocks for 0. -/
theorem addresses_wrong :
    (∃ s', noDevices.registerBlkdev [97] 512 65537 bigDisk.opts true true = some (0, s') ∧
      s'.blk.blkdevWrite 256 (512 * 65536) 512 = .call 2 bigDisk 0 512 ∧
      ¬ Addresses s'.reg bigDisk) ∧
    ∃ s', noDevices.registerBlkdev [97] 512 (2 ^ 23) bigDisk.opts true true = some (0, s') ∧
      (s'.reg.deviceFromname [97]).map Device.size = some 0 := by
  refine ⟨⟨_, rfl, by decide, ?_⟩, _, rfl, by decide⟩
  intro h
  have hcall := h.write ⟨[bigDisk], 1⟩ 256 rfl 2 rfl (512 * 65536) 512 (by decide) (by decide)
  exact absurd hcall (by decide)

end StardustOS.Dev
