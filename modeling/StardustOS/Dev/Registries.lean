import StardustOS.Dev.InStep

/-!
# The registries of block devices and terminals

Each call of `block.c` and `tty.c` is a registration or a removal of its kind
(`Registers`, `Removes`), and leaves the other kind as it is.  In a run whose removals find
a central device of the right name and which registers no 257th terminal, the
central registry and the two lists agree in every state.
-/

namespace StardustOS.Dev

open Lib

/-- The two kinds of device. -/
inductive Kind where
  | block
  | tty
deriving DecidableEq, Repr

/-- The major number of a kind. -/
def Kind.major : Kind → Nat
  | .block => DEVMAJ_BLOCK
  | .tty => DEVMAJ_TTY

theorem Kind.major_ne : Kind.tty.major ≠ Kind.block.major := by decide

theorem Kind.major_inj {k k' : Kind} (h : k'.major = k.major) : k' = k := by
  cases k with
  | block =>
      cases k' with
      | block => rfl
      | tty => exact absurd h major_ne
  | tty =>
      cases k' with
      | block => exact absurd h.symm major_ne
      | tty => rfl

/-- The kind and the name that a call is to remove. -/
def DevOp.removal : DevOp → Option (Kind × List UInt8)
  | .unregisterBlkdev name => some (.block, name)
  | .unregisterTty name => some (.tty, name)
  | _ => none

namespace DevState

variable (s : DevState)

/-- The names in the list of a kind. -/
def names : Kind → List (List UInt8)
  | .block => s.blk.blockDevices.map Blkdev.name
  | .tty => s.tty.ttys.map Tty.name

/-- The counts are those of the lists. -/
structure Counted : Prop where
  block : s.blk.blockDeviceCount = s.blk.blockDevices.length
  tty : s.tty.ttyCnt = s.tty.ttys.length

/-- A registration of the kind, which leaves the other kind as it is, and
changes nothing when it returns an error. -/
structure Registers (k : Kind) (name : List UInt8) (r : Int) (s' : DevState) : Prop where
  kind : Registered k.major s.reg (s.names k) name r s'.reg (s'.names k)
  others : ∀ k', k' ≠ k → s'.names k' = s.names k'
  same : r < 0 → s' = s
  counted : s'.Counted

/-- A removal from the kind. -/
structure Removes (k : Kind) (name : List UInt8) (r : Int) (s' : DevState) : Prop where
  kind : Unregistered k.major s.reg (s.names k) name r s'.reg (s'.names k)
  others : ∀ k', k' ≠ k → s'.names k' = s.names k'
  same : r < 0 → s' = s
  counted : s'.Counted

end DevState

/-! ## The central registry -/

namespace Devices

variable {s s' : Devices} {name : List UInt8} {r : Int} {dev size : Nat} {opts : DevOpts}
  {mem : Bool}

/-- What `register_device` does. -/
theorem registerDevice_cases (h : s.registerDevice dev name opts size mem = some (r, s')) :
    (r < 0 ∧ s' = s) ∨
      (r = 0 ∧ name.length < NAME_MAX ∧ (∀ e ∈ s.devices, e.name ≠ name) ∧
        (∀ e ∈ s.devices, e.dev ≠ dev) ∧
        s' = ⟨⟨dev, size, name, opts⟩ :: s.devices, s.devCount + 1⟩) := by
  rw [registerDevice] at h
  split at h
  · obtain ⟨rfl, rfl⟩ := Prod.mk.inj (Option.some.inj h)
    exact Or.inl ⟨by decide, rfl⟩
  · rename_i hlen
    split at h
    · obtain ⟨rfl, rfl⟩ := Prod.mk.inj (Option.some.inj h)
      exact Or.inl ⟨by decide, rfl⟩
    · rename_i hknown
      split at h
      · obtain ⟨rfl, rfl⟩ := Prod.mk.inj (Option.some.inj h)
        exact Or.inl ⟨by decide, rfl⟩
      · split at h
        · cases h
        · rename_i hfull
          obtain ⟨rfl, rfl⟩ := Prod.mk.inj (Option.some.inj h)
          have hnone : (∀ e ∈ s.devices, e.name ≠ name) ∧ ∀ e ∈ s.devices, e.dev ≠ dev := by
            simpa [deviceFromname, hlen, deviceFromdev] using hknown
          exact Or.inr ⟨rfl, by omega, hnone.1, hnone.2, rfl⟩

variable (name) in
/-- A name that fits its field is registered, or refused. -/
theorem registerDevice_defined (s : Devices) (dev size : Nat) (opts : DevOpts) (mem : Bool)
    (hlen : name.length < NAME_MAX) :
    ∃ r s', s.registerDevice dev name opts size mem = some (r, s') := by
  rw [registerDevice]
  split
  · exact ⟨_, _, rfl⟩
  · split
    · exact ⟨_, _, rfl⟩
    · split
      · exact ⟨_, _, rfl⟩
      · exact ⟨_, _, if_neg hlen.ne⟩

/-- What `unregister_device` does. -/
theorem unregisterDevice_cases (s : Devices) (dev : Nat) :
    ((s.unregisterDevice dev).1 < 0 ∧ (s.unregisterDevice dev).2 = s) ∨
      ∃ d, s.deviceFromdev dev = some d ∧ (s.unregisterDevice dev).1 = 0 ∧
        (s.unregisterDevice dev).2 =
          ⟨s.devices.eraseP fun d => d.dev = dev, s.devCount - 1⟩ := by
  cases hd : s.deviceFromdev dev with
  | none =>
      rw [unregisterDevice, hd]
      exact Or.inl ⟨show -ENODEV < 0 by decide, rfl⟩
  | some d =>
      rw [unregisterDevice, hd]
      exact Or.inr ⟨d, rfl, rfl, rfl⟩

end Devices

/-! ## Records and names -/

section Names

variable {α : Type*} {f : α → List UInt8} {name : List UInt8}

/-- A record that is found by its name. -/
theorem mem_names_of_find? {l : List α} {a : α} (h : l.find? (fun b => f b = name) = some a) :
    f a = name ∧ name ∈ l.map f := by
  have hname : f a = name := by simpa using List.find?_some h
  exact ⟨hname, List.mem_map.mpr ⟨a, List.mem_of_find?_eq_some h, hname⟩⟩

theorem notMem_names_of_find? {l : List α} (h : l.find? (fun b => f b = name) = none) :
    name ∉ l.map f := by
  simpa using h

/-- The position of a record is that of its name. -/
theorem findIdx?_eq_idxOf {l : List α} (h : name ∈ l.map f) :
    l.findIdx? (fun b => f b = name) = some ((l.map f).idxOf name) := by
  induction l with
  | nil => cases h
  | cons a l ih =>
      by_cases ha : f a = name
      · simp [List.findIdx?_cons, ha]
      · have hl : name ∈ l.map f := by
          simpa [Ne.symm ha] using h
        simp [List.findIdx?_cons, ha, ih hl, List.idxOf_cons_ne _ ha]

/-- The removal of the record removes its name. -/
theorem map_eraseP_name (l : List α) :
    (l.eraseP fun b => f b = name).map f = (l.map f).erase name := by
  rw [List.erase_eq_eraseP, List.eraseP_map]
  congr 2
  funext b
  simp [beq_eq_decide, eq_comm]

/-- It leaves one record less. -/
theorem length_eraseP_name {l : List α} (h : name ∈ l.map f) :
    (l.eraseP fun b => f b = name).length = l.length - 1 := by
  obtain ⟨b, hb, hname⟩ := List.mem_map.mp h
  exact List.length_eraseP_of_mem hb (by simpa using hname)

end Names

/-! ## The four calls -/

namespace BlkState

variable {s s' : BlkState} {name : List UInt8} {r : Int}

/-- `block_device_count` is the length of the list. -/
def Counted (s : BlkState) : Prop := s.blk.blockDeviceCount = s.blk.blockDevices.length

/-- The names of the block devices. -/
def names (s : BlkState) : List (List UInt8) := s.blk.blockDevices.map Blkdev.name

theorem registerBlkdev_spec {blksize blkcnt : Nat} {opts : BlkdevOpts} {mem mem' : Bool}
    (hs : s.Counted) (h : s.registerBlkdev name blksize blkcnt opts mem mem' = some (r, s')) :
    Registered DEVMAJ_BLOCK s.reg s.names name r s'.reg s'.names ∧ (r < 0 → s' = s) ∧
      s'.Counted := by
  have herror : ∀ {r' : Int}, r' < 0 → some (r', s) = some (r, s') →
      Registered DEVMAJ_BLOCK s.reg s.names name r s'.reg s'.names ∧ (r < 0 → s' = s) ∧
        s'.Counted := by
    intro r' hr h
    obtain ⟨rfl, rfl⟩ := Prod.mk.inj (Option.some.inj h)
    exact ⟨.refused hr, fun _ => rfl, hs⟩
  rw [registerBlkdev] at h
  split at h
  · exact herror (by decide) h
  · rename_i hknown
    split at h
    · exact herror (by decide) h
    · split at h
      · cases h
      · dsimp only at h
        split at h
        · cases h
        · rename_i r' reg hreg
          rcases Devices.registerDevice_cases hreg with ⟨hr, rfl⟩ | ⟨rfl, -, hname, hdev, rfl⟩
          · rw [if_pos hr] at h
            exact herror hr h
          · obtain ⟨rfl, rfl⟩ := Prod.mk.inj (Option.some.inj h)
            have hnew : name ∉ s.names := by
              refine notMem_names_of_find? (Option.not_isSome_iff_eq_none.mp fun hsome => ?_)
              exact hknown (Or.inl hsome)
            refine ⟨.done ?_ rfl hname hdev hnew, fun hr => absurd hr (by decide), ?_⟩
            · rw [names, List.length_map, ← hs]
            · exact congrArg (· + 1) hs

theorem unregisterBlkdev_spec (hs : s.Counted) (h : s.unregisterBlkdev name = (r, s')) :
    Unregistered DEVMAJ_BLOCK s.reg s.names name r s'.reg s'.names ∧ (r < 0 → s' = s) ∧
      s'.Counted := by
  have herror : ∀ {r' : Int}, r' < 0 → (r', s) = (r, s') →
      Unregistered DEVMAJ_BLOCK s.reg s.names name r s'.reg s'.names ∧ (r < 0 → s' = s) ∧
        s'.Counted := by
    intro r' hr h
    obtain ⟨rfl, rfl⟩ := Prod.mk.inj h
    exact ⟨.refused hr, fun _ => rfl, hs⟩
  cases hb : s.blk.blkdevFromname name with
  | none =>
      rw [unregisterBlkdev, hb] at h
      exact herror (by decide) h
  | some b =>
      obtain ⟨rfl, hmem⟩ := mem_names_of_find? (f := Blkdev.name) hb
      rw [unregisterBlkdev, hb] at h
      dsimp only at h
      split at h
      · exact herror (by decide) h
      · have hidx : s.blk.blkdevIndexof b = s.names.idxOf b.name := by
          rw [Blkdevs.blkdevIndexof, findIdx?_eq_idxOf hmem, names]
        rw [hidx] at h
        rcases s.reg.unregisterDevice_cases (mkdev DEVMAJ_BLOCK (s.names.idxOf b.name)) with
          ⟨hr, hsame⟩ | ⟨d, hd, hr, hsame⟩
        · rw [if_pos hr, hsame] at h
          exact herror hr h
        · rw [if_neg (by rw [hr]; decide), hsame] at h
          obtain ⟨rfl, rfl⟩ := Prod.mk.inj h
          refine ⟨?_, fun hr => absurd hr (by decide), ?_⟩
          · show Unregistered _ _ _ _ _ _ ((s.blk.blockDevices.eraseP _).map Blkdev.name)
            rw [map_eraseP_name (f := Blkdev.name)]
            exact .done hmem hd
          · rw [Counted, length_eraseP_name hmem, hs]

end BlkState

namespace DevState

variable {s s' : DevState} {name : List UInt8} {r : Int}

theorem registerTty_spec {opts : TtyOpts} {mem mem' : Bool} (hs : s.Counted)
    (h : s.registerTty name opts mem mem' = some (r, s')) :
    s.Registers .tty name r s' := by
  have herror : ∀ {r' : Int}, r' < 0 → some (r', s) = some (r, s') →
      s.Registers .tty name r s' := by
    intro r' hr h
    obtain ⟨rfl, rfl⟩ := Prod.mk.inj (Option.some.inj h)
    exact ⟨.refused hr, fun _ _ => rfl, fun _ => rfl, hs⟩
  rw [registerTty] at h
  split at h
  · exact herror (by decide) h
  · rename_i hknown
    split at h
    · exact herror (by decide) h
    · split at h
      · cases h
      · split at h
        · cases h
        · rename_i r' reg hreg
          rcases Devices.registerDevice_cases hreg with ⟨hr, rfl⟩ | ⟨rfl, -, hname, hdev, rfl⟩
          · rw [if_pos hr] at h
            exact herror hr h
          · obtain ⟨rfl, rfl⟩ := Prod.mk.inj (Option.some.inj h)
            have hnew : name ∉ s.names .tty := by
              refine notMem_names_of_find? (Option.not_isSome_iff_eq_none.mp fun hsome => ?_)
              exact hknown (Or.inl hsome)
            refine ⟨.done ?_ rfl hname hdev hnew, ?_, fun hr => absurd hr (by decide),
              ⟨hs.block, congrArg (· + 1) hs.tty⟩⟩
            · show mkdev DEVMAJ_TTY s.tty.ttyCnt = mkdev DEVMAJ_TTY (s.tty.ttys.map Tty.name).length
              rw [List.length_map, hs.tty]
            · rintro (_ | _) hk
              · rfl
              · exact absurd rfl hk

theorem unregisterTty_spec (hs : s.Counted) (h : s.unregisterTty name = (r, s')) :
    s.Removes .tty name r s' := by
  have herror : ∀ {r' : Int}, r' < 0 → (r', s) = (r, s') →
      s.Removes .tty name r s' := by
    intro r' hr h
    obtain ⟨rfl, rfl⟩ := Prod.mk.inj h
    exact ⟨.refused hr, fun _ _ => rfl, fun _ => rfl, hs⟩
  cases ht : s.tty.ttyFromname name with
  | none =>
      rw [unregisterTty, ht] at h
      exact herror (by decide) h
  | some t =>
      obtain ⟨rfl, hmem⟩ := mem_names_of_find? (f := Tty.name) ht
      rw [unregisterTty, ht] at h
      dsimp only at h
      split at h
      · exact herror (by decide) h
      · have hidx : s.tty.ttyIndexof t = (s.names .tty).idxOf t.name := by
          rw [Ttys.ttyIndexof, findIdx?_eq_idxOf hmem, names]
        rw [hidx] at h
        rcases s.reg.unregisterDevice_cases (mkdev DEVMAJ_TTY ((s.names .tty).idxOf t.name)) with
          ⟨hr, hsame⟩ | ⟨d, hd, hr, hsame⟩
        · rw [if_pos hr, hsame] at h
          exact herror hr h
        · rw [if_neg (by rw [hr]; decide), hsame] at h
          obtain ⟨rfl, rfl⟩ := Prod.mk.inj h
          refine ⟨?_, ?_, fun hr => absurd hr (by decide), ⟨hs.block, ?_⟩⟩
          · show Unregistered _ _ _ _ _ _ ((s.tty.ttys.eraseP _).map Tty.name)
            rw [map_eraseP_name (f := Tty.name)]
            exact .done hmem hd
          · rintro (_ | _) hk
            · rfl
            · exact absurd rfl hk
          · show s.tty.ttyCnt - 1 = _
            rw [length_eraseP_name hmem, hs.tty]

/-- The other kind does not notice what `block.c` does. -/
theorem names_withBlk (s : DevState) (b : BlkState) {k : Kind} (hk : k ≠ .block) :
    (s.withBlk b).names k = s.names k := by
  cases k with
  | block => exact absurd rfl hk
  | tty => rfl

theorem registerBlkdev_spec {blksize blkcnt : Nat} {opts : BlkdevOpts} {mem mem' : Bool}
    (hs : s.Counted)
    (h : s.call (.registerBlkdev name blksize blkcnt opts mem mem') = some (r, s')) :
    s.Registers .block name r s' := by
  obtain ⟨⟨r', b⟩, hb, heq⟩ := Option.map_eq_some_iff.mp h
  obtain ⟨rfl, rfl⟩ := Prod.mk.inj heq
  obtain ⟨hkind, hsame, hcount⟩ := BlkState.registerBlkdev_spec (s := s.blkState) hs.block hb
  refine ⟨hkind, fun _ hk => s.names_withBlk b hk, fun hr => ?_, ⟨hcount, hs.tty⟩⟩
  rw [hsame hr]
  rfl

theorem unregisterBlkdev_spec (hs : s.Counted)
    (h : s.call (.unregisterBlkdev name) = some (r, s')) : s.Removes .block name r s' := by
  obtain ⟨rfl, rfl⟩ := Prod.mk.inj (Option.some.inj h)
  have hblock : s.blkState.Counted := hs.block
  have hcall : s.blkState.unregisterBlkdev name = (_, _) := rfl
  obtain ⟨hkind, hsame, hcount⟩ := BlkState.unregisterBlkdev_spec hblock hcall
  refine ⟨hkind, fun _ hk => s.names_withBlk _ hk, fun hr => ?_, ⟨hcount, hs.tty⟩⟩
  rw [hsame hr]
  rfl

end DevState

/-! ## Runs -/

namespace DevState

variable {s s' : DevState} {name : List UInt8} {r : Int}

/-- The central devices of each kind have the names in its list. -/
def InStep (s : DevState) : Prop := ∀ k x, x ∈ s.names k ↔ x ∈ s.reg.namesOf k.major

/-- The name is taken from the list and the central devices of its kind, and
nothing else is. -/
def Loses (s : DevState) (k : Kind) (name : List UInt8) (s' : DevState) : Prop :=
  ∀ k' x, (x ∈ s'.names k' ↔ x ∈ s.names k' ∧ ¬ (k' = k ∧ x = name)) ∧
    (x ∈ s'.reg.namesOf k'.major ↔ x ∈ s.reg.namesOf k'.major ∧ ¬ (k' = k ∧ x = name))

/-- A call that returns an error changes nothing, and a removal that returns
none removes its name. -/
structure CallOk (s : DevState) (op : DevOp) (r : Int) (s' : DevState) : Prop where
  error : r < 0 → s' = s
  removed : 0 ≤ r → ∀ k name, op.removal = some (k, name) → s.Loses k name s'

/-- A registration stores a name that fits its field, and a terminal is the
257th only if it is refused.  A removal finds a central device of its name at
the position in the list, or none. -/
def KeepsStep (s : DevState) : DevOp → Prop
  | .registerBlkdev name _ _ _ _ _ => name.length < NAME_MAX
  | .registerTty name _ mem mem' =>
      name.length < NAME_MAX ∧
        (s.tty.ttyCnt < 256 ∨ (s.tty.ttyFromname name).isSome ∨
          (s.reg.deviceFromname name).isSome ∨ mem = false ∨ mem' = false)
  | .unregisterBlkdev name => Matches DEVMAJ_BLOCK s.reg (s.names .block) name
  | .unregisterTty name => Matches DEVMAJ_TTY s.reg (s.names .tty) name

instance {op : DevOp} : Decidable (s.KeepsStep op) :=
  match op with
  | .registerBlkdev name _ _ _ _ _ => inferInstanceAs (Decidable (name.length < NAME_MAX))
  | .registerTty _ _ _ _ => inferInstanceAs (Decidable (_ ∧ (_ ∨ _ ∨ _ ∨ _ ∨ _)))
  | .unregisterBlkdev name =>
      inferInstanceAs (Decidable (Matches DEVMAJ_BLOCK s.reg (s.names .block) name))
  | .unregisterTty name =>
      inferInstanceAs (Decidable (Matches DEVMAJ_TTY s.reg (s.names .tty) name))

/-- What the calls keep. -/
structure DevOk (s : DevState) : Prop where
  distinct : s.reg.Distinct
  counted : s.Counted
  inStep : ∀ k : Kind, Dev.InStep k.major s.reg (s.names k)

theorem empty_devOk : empty.DevOk where
  distinct := ⟨List.nodup_nil, List.nodup_nil⟩
  counted := ⟨rfl, rfl⟩
  inStep k := by
    cases k with
    | block => exact ⟨fun _ => Iff.rfl, List.nodup_nil⟩
    | tty => exact ⟨fun _ => Iff.rfl, List.nodup_nil⟩

/-- A registration with a minor number below 256. -/
theorem Registers.devOk {k : Kind} (h : s.Registers k name r s') (hs : s.DevOk)
    (hlen : 0 ≤ r → (s.names k).length < 256) : s'.DevOk := by
  refine ⟨h.kind.distinct hs.distinct, h.counted, ?_⟩
  intro k'
  by_cases hk : k' = k
  · subst hk
    exact h.kind.inStep (hs.inStep k') hlen
  · refine ⟨fun x => ?_, h.others k' hk ▸ (hs.inStep k').nodup⟩
    rw [h.others k' hk, (hs.inStep k').mem_iff, h.kind.namesOf_ne hlen (mt Kind.major_inj hk)]

/-- A removal that matches. -/
theorem Removes.loses {k : Kind} (h : s.Removes k name r s') (hs : s.DevOk)
    (hm : Matches k.major s.reg (s.names k) name) (hr : 0 ≤ r) : s.Loses k name s' := by
  obtain ⟨hnames, hcentral⟩ := h.kind.removes (hs.inStep k) hs.distinct hm hr
  intro k' x
  constructor
  · by_cases hk : k' = k
    · subst hk
      simpa using hnames x
    · simp [h.others k' hk, hk]
  · rw [hcentral]
    refine and_congr_right fun _ => not_congr (and_congr_left fun _ => ?_)
    exact ⟨Kind.major_inj, congrArg Kind.major⟩

theorem Removes.devOk {k : Kind} (h : s.Removes k name r s') (hs : s.DevOk)
    (hm : Matches k.major s.reg (s.names k) name) : s'.DevOk := by
  by_cases hr : r < 0
  · rw [h.same hr]
    exact hs
  · have hloses := h.loses hs hm (Int.not_lt.mp hr)
    refine ⟨h.kind.distinct hs.distinct, h.counted, fun k' => ⟨fun x => ?_, ?_⟩⟩
    · rw [(hloses k' x).1, (hloses k' x).2, (hs.inStep k').mem_iff]
    · by_cases hk : k' = k
      · subst hk
        exact (h.kind.inStep (hs.inStep k') hs.distinct hm).nodup
      · rw [h.others k' hk]
        exact (hs.inStep k').nodup

theorem registerBlkdev_defined (s : DevState) (blksize blkcnt : Nat) (opts : BlkdevOpts)
    (mem mem' : Bool) (hlen : name.length < NAME_MAX) :
    ∃ r s', s.call (.registerBlkdev name blksize blkcnt opts mem mem') = some (r, s') := by
  obtain ⟨r, reg, hreg⟩ := s.reg.registerDevice_defined name
    (mkdev DEVMAJ_BLOCK s.blk.blockDeviceCount) (blksize * blkcnt % 2 ^ 32) .blkdev mem' hlen
  have hdef : ∃ x, s.blkState.registerBlkdev name blksize blkcnt opts mem mem' = some x := by
    simp only [BlkState.registerBlkdev, blkState, hreg, if_neg (Nat.not_le.mpr hlen)]
    split
    · exact ⟨_, rfl⟩
    · split
      · exact ⟨_, rfl⟩
      · split
        · exact ⟨_, rfl⟩
        · exact ⟨_, rfl⟩
  obtain ⟨x, hx⟩ := hdef
  exact ⟨x.1, s.withBlk x.2, by simp only [call, hx, Option.map_some]⟩

theorem registerTty_defined (s : DevState) (opts : TtyOpts) (mem mem' : Bool)
    (hlen : name.length < NAME_MAX) : ∃ r s', s.registerTty name opts mem mem' = some (r, s') := by
  obtain ⟨r, reg, hreg⟩ := s.reg.registerDevice_defined name
    (mkdev DEVMAJ_TTY s.tty.ttyCnt) 0 .tty mem' hlen
  simp only [registerTty, hreg, if_neg (Nat.not_le.mpr hlen)]
  split
  · exact ⟨_, _, rfl⟩
  · split
    · exact ⟨_, _, rfl⟩
    · split
      · exact ⟨_, _, rfl⟩
      · exact ⟨_, _, rfl⟩

/-- A registration that finds the name known or no memory is refused. -/
theorem registerTty_refused {opts : TtyOpts} {mem mem' : Bool} (hlen : name.length < NAME_MAX)
    (h : s.registerTty name opts mem mem' = some (r, s'))
    (hcase : (s.tty.ttyFromname name).isSome ∨ (s.reg.deviceFromname name).isSome ∨
      mem = false ∨ mem' = false) : r < 0 := by
  rw [registerTty] at h
  split at h
  · obtain ⟨rfl, -⟩ := Prod.mk.inj (Option.some.inj h)
    decide
  · rename_i hknown
    split at h
    · obtain ⟨rfl, -⟩ := Prod.mk.inj (Option.some.inj h)
      decide
    · rename_i hmem
      have hmem' : mem' = false := by
        rcases hcase with hc | hc | hc | hc
        · exact absurd (Or.inl hc) hknown
        · exact absurd (Or.inr hc) hknown
        · simp [hc] at hmem
        · exact hc
      subst hmem'
      obtain ⟨r', hr', hreg⟩ :=
        s.reg.registerDevice_noMem (mkdev DEVMAJ_TTY s.tty.ttyCnt) 0 .tty hlen
      rw [if_neg (Nat.not_le.mpr hlen), hreg] at h
      simp only [hr', ↓reduceIte] at h
      obtain ⟨rfl, -⟩ := Prod.mk.inj (Option.some.inj h)
      exact hr'

/-- What a call that keeps step does. -/
theorem call_keeps (hs : s.DevOk) {op : DevOp} (hop : s.KeepsStep op) :
    ∃ r s', s.call op = some (r, s') ∧ s'.DevOk ∧ s.CallOk op r s' := by
  cases op with
  | registerBlkdev name blksize blkcnt opts mem mem' =>
      obtain ⟨r, s', h⟩ := s.registerBlkdev_defined blksize blkcnt opts mem mem' hop
      have hspec := registerBlkdev_spec hs.counted h
      exact ⟨r, s', h, hspec.devOk hs (hspec.kind.length_lt (hs.inStep .block) hs.distinct),
        hspec.same, nofun⟩
  | registerTty name opts mem mem' =>
      obtain ⟨r, s', h⟩ := s.registerTty_defined opts mem mem' hop.1
      have hspec := registerTty_spec hs.counted h
      refine ⟨r, s', h, hspec.devOk hs fun hr => ?_, hspec.same, nofun⟩
      rcases hop.2 with hlt | hcase
      · rw [hs.counted.tty] at hlt
        simpa [names] using hlt
      · exact absurd hr (Int.not_le.mpr (registerTty_refused hop.1 h hcase))
  | unregisterBlkdev name =>
      obtain ⟨r, s', h⟩ : ∃ r s', s.call (.unregisterBlkdev name) = some (r, s') := ⟨_, _, rfl⟩
      have hspec := unregisterBlkdev_spec hs.counted h
      refine ⟨r, s', h, hspec.devOk hs hop, hspec.same, ?_⟩
      rintro hr k x ⟨⟩
      exact hspec.loses hs hop hr
  | unregisterTty name =>
      obtain ⟨r, s', h⟩ : ∃ r s', s.call (.unregisterTty name) = some (r, s') := ⟨_, _, rfl⟩
      have hspec := unregisterTty_spec hs.counted (Option.some.inj h)
      refine ⟨r, s', h, hspec.devOk hs hop, hspec.same, ?_⟩
      rintro hr k x ⟨⟩
      exact hspec.loses hs hop hr

/-- In every run from empty registries that keeps step, the registries agree in
the state reached, and the next call that keeps step does what it should. -/
theorem runs_inStep (ops : List DevOp) (hops : Meets step KeepsStep empty ops) :
    ∃ s, run step empty ops = some s ∧ s.InStep ∧
      ∀ op, s.KeepsStep op → ∃ r s', s.call op = some (r, s') ∧ s'.InStep ∧ s.CallOk op r s' := by
  have hstep : ∀ s op, DevOk s → s.KeepsStep op → ∃ s', s.step op = some s' ∧ DevOk s' := by
    intro s op hs hop
    obtain ⟨r, s', h, hs', -⟩ := call_keeps hs hop
    exact ⟨s', by rw [step, h, Option.map_some], hs'⟩
  obtain ⟨s, hrun, hs⟩ := run_defined hstep ops empty_devOk hops
  refine ⟨s, hrun, fun k => (hs.inStep k).mem_iff, ?_⟩
  intro op hop
  obtain ⟨r, s', h, hs', hok⟩ := call_keeps hs hop
  exact ⟨r, s', h, fun k => (hs'.inStep k).mem_iff, hok⟩

/-! ## Disks and terminals -/

/-- A disk of the given name. -/
def disk (name : List UInt8) : DevOp := .registerBlkdev name 512 100 ⟨some 1, some 2⟩ true true

/-- A terminal of the given name. -/
def terminal (name : List UInt8) : DevOp :=
  .registerTty name ⟨some 1, some 2, none, none, none, none, none⟩ true true

/-- Of three disks and of three terminals the middle one is removed, whose position is its
minor number.  The number of the next disk is taken. -/
theorem runs_inStep_middle :
    ∃ s, run step empty [disk [97], disk [98], terminal [116], disk [99], terminal [117],
        .unregisterBlkdev [98], terminal [118], .unregisterTty [117], disk [100]] = some s ∧
      s.InStep ∧
      ∀ op, s.KeepsStep op → ∃ r s', s.call op = some (r, s') ∧ s'.InStep ∧ s.CallOk op r s' :=
  runs_inStep _ (by decide)

/-- Of two disks the first is removed.  Its position is 1, the minor number of
the second. -/
theorem runs_inStep_wrong :
    ∃ s, run step empty [disk [97], disk [98], .unregisterBlkdev [97]] = some s ∧
      s.names .block = [[98]] ∧ s.reg.namesOf DEVMAJ_BLOCK = [[97]] ∧ ¬ s.InStep := by
  refine ⟨_, rfl, by decide, by decide, ?_⟩
  intro h
  exact absurd (h .block [98]) (by decide)

end DevState

end StardustOS.Dev
