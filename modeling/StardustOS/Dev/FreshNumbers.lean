import StardustOS.Dev.Registries
import Mathlib.Data.Finset.Basic

/-!
# The numbers of new devices

A device gets the population of its kind for a minor number.  A removal gives
back the position of the record in the list, which grows at its head, and that
is rarely the number the record was given.

`Numbered` keeps, beside the registries, the numbers of each kind that were given
out and not given back.  They are the minor numbers of the central devices
(`Numbered.Held`), so a fresh name is registered exactly when the population is
not among them (`fresh_iff`), in one call and along runs (`runs_fresh`).
-/

namespace StardustOS.Dev

open Lib

theorem devMinor_mkdev {maj mi : Nat} (h : mi < 256) : devMinor (mkdev maj mi) = mi := by
  have hlow : (maj <<< 8) &&& 0xFF = 0 := by
    rw [show 0xFF = 2 ^ 8 - 1 from rfl, Nat.and_two_pow_sub_one_eq_mod, Nat.shiftLeft_eq,
      Nat.mul_mod_left]
  rw [devMinor, mkdev, Nat.and_or_distrib_right, hlow, Nat.zero_or,
    show 0xFF = 2 ^ 8 - 1 from rfl, Nat.and_two_pow_sub_one_eq_mod, Nat.mod_eq_of_lt h]

/-- A value that is given back has the kind and the number it was made of. -/
theorem mkdev_inj {k k' : Kind} {n n' : Nat} (hn : n < 256) (hn' : n' < 256)
    (h : mkdev k.major n = mkdev k'.major n') : k = k' ∧ n = n' := by
  have hmajor : devMajor (mkdev k.major n) = k.major := devMajor_mkdev hn
  have hminor : devMinor (mkdev k.major n) = n := devMinor_mkdev hn
  constructor
  · refine Kind.major_inj ?_
    rw [← hmajor, h, devMajor_mkdev hn']
  · rw [← hminor, h, devMinor_mkdev hn']

/-- The kind and the name that a call is to register, and whether there is memory
for both records. -/
def DevOp.registration : DevOp → Option (Kind × List UInt8 × Bool)
  | .registerBlkdev name _ _ _ mem mem' => some (.block, name, mem && mem')
  | .registerTty name _ mem mem' => some (.tty, name, mem && mem')
  | _ => none

/-! ## What is promised -/

namespace DevState

variable (s : DevState)

/-- The name is in neither registry. -/
def Fresh (k : Kind) (name : List UInt8) : Prop :=
  name ∉ s.names k ∧ ∀ d ∈ s.reg.devices, d.name ≠ name

instance {k : Kind} {name : List UInt8} : Decidable (s.Fresh k name) :=
  inferInstanceAs (Decidable (_ ∧ _))

/-- The call enters the name under a new value, made of the major number of its
kind and the population. -/
def Enters (k : Kind) (name : List UInt8) (op : DevOp) : Prop :=
  ∃ s' d, s.call op = some (0, s') ∧ d ∈ s'.reg.devices ∧ d.name = name ∧
    (∀ e ∈ s.reg.devices, e.dev ≠ d.dev) ∧
    devMajor d.dev = k.major ∧ devMinor d.dev = (s.names k).length

/-- A fresh name is entered. -/
def FreshEntered (op : DevOp) : Prop :=
  ∀ k name mem, op.registration = some (k, name, mem) → s.Fresh k name → s.Enters k name op

/-- There is memory, and no fresh name is registered for a 257th device. -/
def Within (op : DevOp) : Prop :=
  ∀ k name mem, op.registration = some (k, name, mem) →
    mem = true ∧ (s.Fresh k name → (s.names k).length < 256)

instance {op : DevOp} : Decidable (s.Within op) :=
  decidable_of_iff (∀ x ∈ op.registration, x.2.2 = true ∧
      (s.Fresh x.1 x.2.1 → (s.names x.1).length < 256))
    (by simp only [Within, Prod.forall, Option.mem_def])

/-- No device of the two kinds is registered.  Other devices may be. -/
structure Boot : Prop where
  blk : s.blk = ⟨[], 0⟩
  tty : s.tty = ⟨[], 0⟩
  distinct : s.reg.Distinct
  others : ∀ d ∈ s.reg.devices, ∀ k : Kind, devMajor d.dev ≠ k.major

end DevState

/-! ## The numbers that are out -/

/-- The registries, with the numbers that were given out and not given back. -/
structure Numbered where
  state : DevState
  out : Kind → Finset Nat

namespace Numbered

variable (t : Numbered)

/-- The numbers after a call that returned no error. -/
def outAfter : DevOp → Kind → Finset Nat
  | .registerBlkdev _ _ _ _ _ _ =>
      Function.update t.out .block (insert (t.state.names .block).length (t.out .block))
  | .registerTty _ _ _ _ =>
      Function.update t.out .tty (insert (t.state.names .tty).length (t.out .tty))
  | .unregisterBlkdev name =>
      Function.update t.out .block ((t.out .block).erase ((t.state.names .block).idxOf name))
  | .unregisterTty name =>
      Function.update t.out .tty ((t.out .tty).erase ((t.state.names .tty).idxOf name))

/-- One call. -/
def step (op : DevOp) : Option Numbered :=
  (t.state.call op).map fun (r, s') => ⟨s', if r < 0 then t.out else t.outAfter op⟩

/-- A fresh name that is registered fits its field, and the population is not the
number of another device. -/
def NumberFree (op : DevOp) : Prop :=
  ∀ k name mem, op.registration = some (k, name, mem) → t.state.Fresh k name →
    name.length < NAME_MAX ∧ (t.state.names k).length ∉ t.out k

instance {op : DevOp} : Decidable (t.NumberFree op) :=
  decidable_of_iff (∀ x ∈ op.registration, t.state.Fresh x.1 x.2.1 →
      x.2.1.length < NAME_MAX ∧ (t.state.names x.1).length ∉ t.out x.1)
    (by simp only [NumberFree, Prod.forall, Option.mem_def])

/-- What the calls keep. -/
structure Held : Prop where
  distinct : t.state.reg.Distinct
  counted : t.state.Counted
  few : ∀ k, (t.state.names k).length ≤ 256
  devs : ∀ (k : Kind) (n : Nat), n < 256 →
    ((∃ d ∈ t.state.reg.devices, d.dev = mkdev k.major n) ↔ n ∈ t.out k)

end Numbered

/-! ## The calls -/

/-- What a registration without an error does. -/
theorem Registered.done_of_nonneg {maj : Nat} {reg reg' : Devices}
    {names names' : List (List UInt8)} {name : List UInt8} {r : Int}
    (h : Registered maj reg names name r reg' names') (hr : 0 ≤ r) :
    r = 0 ∧ names' = name :: names ∧ ∃ d, reg'.devices = d :: reg.devices ∧
      d.dev = mkdev maj names.length ∧ d.name = name ∧ (∀ e ∈ reg.devices, e.name ≠ name) ∧
      (∀ e ∈ reg.devices, e.dev ≠ d.dev) ∧ name ∉ names := by
  cases h with
  | refused error => exact absurd error (Int.not_lt.mpr hr)
  | done dev devName newName newDev notListed =>
      exact ⟨rfl, rfl, _, rfl, dev, devName, newName, newDev, notListed⟩

/-- What a removal without an error does. -/
theorem Unregistered.done_of_nonneg {maj : Nat} {reg reg' : Devices}
    {names names' : List (List UInt8)} {name : List UInt8} {r : Int}
    (h : Unregistered maj reg names name r reg' names') (hr : 0 ≤ r) :
    name ∈ names ∧ names' = names.erase name ∧
      reg'.devices = reg.devices.eraseP fun e => e.dev = mkdev maj (names.idxOf name) := by
  cases h with
  | refused error => exact absurd error (Int.not_lt.mpr hr)
  | done listed found => exact ⟨listed, rfl, rfl⟩

namespace DevState

variable {s s' : DevState} {op : DevOp} {k : Kind} {name : List UInt8} {mem : Bool} {r : Int}

theorem call_registers (hs : s.Counted) (hop : op.registration = some (k, name, mem))
    (h : s.call op = some (r, s')) : s.Registers k name r s' := by
  cases op with
  | registerBlkdev n blksize blkcnt opts m m' =>
      cases hop
      exact registerBlkdev_spec hs h
  | registerTty n opts m m' =>
      cases hop
      exact registerTty_spec hs h
  | unregisterBlkdev n => cases hop
  | unregisterTty n => cases hop

theorem call_removes (hs : s.Counted) (hop : op.removal = some (k, name))
    (h : s.call op = some (r, s')) : s.Removes k name r s' := by
  cases op with
  | registerBlkdev n blksize blkcnt opts m m' => cases hop
  | registerTty n opts m m' => cases hop
  | unregisterBlkdev n =>
      cases hop
      exact unregisterBlkdev_spec hs h
  | unregisterTty n =>
      cases hop
      exact unregisterTty_spec hs (Option.some.inj h)

/-- The look-ups for a fresh name find nothing. -/
theorem Fresh.deviceFromname (h : s.Fresh k name) : s.reg.deviceFromname name = none := by
  rw [Devices.deviceFromname]
  split
  · rfl
  · simpa using h.2

theorem Fresh.blkdevFromname (h : s.Fresh .block name) : s.blk.blkdevFromname name = none := by
  simpa [names, Blkdevs.blkdevFromname] using h.1

theorem Fresh.ttyFromname (h : s.Fresh .tty name) : s.tty.ttyFromname name = none := by
  simpa [names, Ttys.ttyFromname] using h.1

/-- The two registrations that there is memory for. -/
theorem registration_cases (hop : op.registration = some (k, name, true)) :
    (∃ blksize blkcnt opts, k = .block ∧
        op = .registerBlkdev name blksize blkcnt opts true true) ∨
      ∃ opts, k = .tty ∧ op = .registerTty name opts true true := by
  cases op with
  | registerBlkdev n blksize blkcnt opts m m' =>
      obtain ⟨rfl, rfl, hm⟩ : Kind.block = k ∧ n = name ∧ (m && m') = true := by
        simpa [DevOp.registration] using hop
      obtain ⟨rfl, rfl⟩ := Bool.and_eq_true_iff.mp hm
      exact Or.inl ⟨blksize, blkcnt, opts, rfl, rfl⟩
  | registerTty n opts m m' =>
      obtain ⟨rfl, rfl, hm⟩ : Kind.tty = k ∧ n = name ∧ (m && m') = true := by
        simpa [DevOp.registration] using hop
      obtain ⟨rfl, rfl⟩ := Bool.and_eq_true_iff.mp hm
      exact Or.inr ⟨opts, rfl, rfl⟩
  | unregisterBlkdev n => cases hop
  | unregisterTty n => cases hop

/-- A name that does not fit is stored before anything looks at it. -/
theorem call_long (hop : op.registration = some (k, name, true)) (hfresh : s.Fresh k name)
    (hlen : NAME_MAX ≤ name.length) : s.call op = none := by
  obtain ⟨blksize, blkcnt, opts, rfl, rfl⟩ | ⟨opts, rfl, rfl⟩ := registration_cases hop
  · simp [call, BlkState.registerBlkdev, blkState, hfresh.blkdevFromname, hfresh.deviceFromname,
      hlen]
  · simp [call, registerTty, hfresh.ttyFromname, hfresh.deviceFromname, hlen]

/-- A name that fits is registered under a free value. -/
theorem call_free (hs : s.Counted) (hop : op.registration = some (k, name, true))
    (hfresh : s.Fresh k name) (hlen : name.length < NAME_MAX)
    (hfree : s.reg.deviceFromdev (mkdev k.major (s.names k).length) = none) :
    ∃ s', s.call op = some (0, s') := by
  obtain ⟨blksize, blkcnt, opts, rfl, rfl⟩ | ⟨opts, rfl, rfl⟩ := registration_cases hop
  · rw [names, List.length_map, ← hs.block] at hfree
    have hreg : ∀ size, s.reg.registerDevice (mkdev DEVMAJ_BLOCK s.blk.blockDeviceCount) name
        .blkdev size true = some (0, ⟨_, _⟩) := fun size =>
      s.reg.registerDevice_fresh hlen hfresh.deviceFromname hfree
    simp [call, BlkState.registerBlkdev, blkState, hfresh.blkdevFromname, hfresh.deviceFromname,
      Nat.not_le.mpr hlen, hreg]
  · rw [names, List.length_map, ← hs.tty] at hfree
    have hreg : s.reg.registerDevice (mkdev DEVMAJ_TTY s.tty.ttyCnt) name .tty 0 true =
        some (0, ⟨_, _⟩) := s.reg.registerDevice_fresh hlen hfresh.deviceFromname hfree
    simp [call, registerTty, hfresh.ttyFromname, hfresh.deviceFromname, Nat.not_le.mpr hlen, hreg]

end DevState

/-! ## What the calls keep -/

namespace Numbered

variable {t t' : Numbered} {op : DevOp} {k : Kind} {name : List UInt8} {mem : Bool}

theorem step_eq_some : t.step op = some t' ↔ ∃ r s', t.state.call op = some (r, s') ∧
    t' = ⟨s', if r < 0 then t.out else t.outAfter op⟩ := by
  rw [step, Option.map_eq_some_iff]
  constructor
  · rintro ⟨⟨r, s'⟩, hcall, rfl⟩
    exact ⟨r, s', hcall, rfl⟩
  · rintro ⟨r, s', hcall, rfl⟩
    exact ⟨(r, s'), hcall, rfl⟩

/-- The numbers are recorded beside the calls. -/
theorem step_state (t : Numbered) (op : DevOp) :
    (t.step op).map Numbered.state = t.state.step op := by
  rw [step, DevState.step, Option.map_map]
  rfl

theorem outAfter_registration (hop : op.registration = some (k, name, mem)) :
    t.outAfter op = Function.update t.out k (insert (t.state.names k).length (t.out k)) := by
  cases op with
  | registerBlkdev n blksize blkcnt opts m m' =>
      cases hop
      rfl
  | registerTty n opts m m' =>
      cases hop
      rfl
  | unregisterBlkdev n => cases hop
  | unregisterTty n => cases hop

theorem outAfter_removal (hop : op.removal = some (k, name)) :
    t.outAfter op =
      Function.update t.out k ((t.out k).erase ((t.state.names k).idxOf name)) := by
  cases op with
  | registerBlkdev n blksize blkcnt opts m m' => cases hop
  | registerTty n opts m m' => cases hop
  | unregisterBlkdev n =>
      cases hop
      rfl
  | unregisterTty n =>
      cases hop
      rfl

/-- A call registers or removes. -/
theorem registration_or_removal (op : DevOp) :
    (∃ k name mem, op.registration = some (k, name, mem)) ∨
      ∃ k name, op.removal = some (k, name) := by
  cases op with
  | registerBlkdev n blksize blkcnt opts m m' => exact Or.inl ⟨_, _, _, rfl⟩
  | registerTty n opts m m' => exact Or.inl ⟨_, _, _, rfl⟩
  | unregisterBlkdev n => exact Or.inr ⟨_, _, rfl⟩
  | unregisterTty n => exact Or.inr ⟨_, _, rfl⟩

theorem boot_held {s : DevState} (hs : s.Boot) : Held ⟨s, fun _ => ∅⟩ where
  distinct := hs.distinct
  counted := ⟨by rw [hs.blk]; rfl, by rw [hs.tty]; rfl⟩
  few k := by
    cases k with
    | block => simp [DevState.names, hs.blk]
    | tty => simp [DevState.names, hs.tty]
  devs k n hn := by
    refine iff_of_false ?_ (Finset.notMem_empty n)
    rintro ⟨d, hd, hdev⟩
    exact hs.others d hd k (by rw [hdev, devMajor_mkdev hn])

/-- A registration gives out the number of its device. -/
theorem Held.registers (h : t.Held) {r : Int} {s' : DevState}
    (hspec : t.state.Registers k name r s') (hr : 0 ≤ r) (hlen : (t.state.names k).length < 256) :
    Held ⟨s', Function.update t.out k (insert (t.state.names k).length (t.out k))⟩ := by
  obtain ⟨-, hnames, d, hdevs, hdev, -, -, -, -⟩ := hspec.kind.done_of_nonneg hr
  refine ⟨hspec.kind.distinct h.distinct, hspec.counted, fun k' => ?_, fun k' n hn => ?_⟩
  · rcases eq_or_ne k' k with rfl | hk
    · rw [hnames]
      exact hlen
    · rw [hspec.others k' hk]
      exact h.few k'
  · dsimp only
    rw [hdevs, List.exists_mem_cons_iff, h.devs k' n hn, hdev]
    rcases eq_or_ne k' k with rfl | hk
    · rw [Function.update_self, Finset.mem_insert]
      refine or_congr_left ⟨fun heq => ?_, fun heq => by rw [heq]⟩
      exact (mkdev_inj hlen hn heq).2.symm
    · rw [Function.update_of_ne hk]
      exact or_iff_right fun heq => hk (mkdev_inj hlen hn heq).1.symm

/-- A removal gives back the position of its record. -/
theorem Held.removes (h : t.Held) {r : Int} {s' : DevState}
    (hspec : t.state.Removes k name r s') (hr : 0 ≤ r) :
    Held ⟨s', Function.update t.out k ((t.out k).erase ((t.state.names k).idxOf name))⟩ := by
  obtain ⟨hlisted, hnames, hdevs⟩ := hspec.kind.done_of_nonneg hr
  have hidx : (t.state.names k).idxOf name < 256 :=
    (List.idxOf_lt_length_of_mem hlisted).trans_le (h.few k)
  refine ⟨hspec.kind.distinct h.distinct, hspec.counted, fun k' => ?_, fun k' n hn => ?_⟩
  · rcases eq_or_ne k' k with rfl | hk
    · rw [hnames]
      exact List.erase_sublist.length_le.trans (h.few k')
    · rw [hspec.others k' hk]
      exact h.few k'
  · have hleft : (∃ d ∈ s'.reg.devices, d.dev = mkdev k'.major n) ↔
        mkdev k'.major n ≠ mkdev k.major ((t.state.names k).idxOf name) ∧ n ∈ t.out k' := by
      rw [hdevs, ← h.devs k' n hn]
      simp only [h.distinct.mem_eraseP]
      constructor
      · rintro ⟨d, ⟨hd, hne⟩, hdev⟩
        exact ⟨hdev ▸ hne, d, hd, hdev⟩
      · rintro ⟨hne, d, hd, hdev⟩
        exact ⟨d, ⟨hd, hdev ▸ hne⟩, hdev⟩
    rw [hleft]
    dsimp only
    rcases eq_or_ne k' k with rfl | hk
    · rw [Function.update_self, Finset.mem_erase]
      refine and_congr_left fun _ => not_congr ⟨fun heq => ?_, fun heq => by rw [heq]⟩
      exact (mkdev_inj hn hidx heq).2
    · rw [Function.update_of_ne hk]
      exact and_iff_right fun heq => hk (mkdev_inj hn hidx heq).1

/-- Every call within the domain keeps the numbers those of the central devices. -/
theorem step_held (h : t.Held) (hop : t.state.Within op) (hstep : t.step op = some t') :
    t'.Held := by
  obtain ⟨r, s', hcall, rfl⟩ := step_eq_some.mp hstep
  rcases registration_or_removal op with ⟨k, name, mem, hkind⟩ | ⟨k, name, hkind⟩
  · have hspec := DevState.call_registers h.counted hkind hcall
    split
    · rename_i hr
      rw [hspec.same hr]
      exact h
    · rename_i hr
      obtain ⟨-, -, d, -, -, -, hnew, -, hlisted⟩ := hspec.kind.done_of_nonneg (Int.not_lt.mp hr)
      rw [outAfter_registration hkind]
      exact h.registers hspec (Int.not_lt.mp hr) ((hop k name mem hkind).2 ⟨hlisted, hnew⟩)
  · have hspec := DevState.call_removes h.counted hkind hcall
    split
    · rename_i hr
      rw [hspec.same hr]
      exact h
    · rename_i hr
      rw [outAfter_removal hkind]
      exact h.removes hspec (Int.not_lt.mp hr)

/-! ## Fresh names -/

/-- A fresh name is entered exactly when it fits and the population is a free
number. -/
theorem fresh_iff (h : t.Held) (hop : op.registration = some (k, name, true))
    (hfresh : t.state.Fresh k name) (hlen : (t.state.names k).length < 256) :
    t.state.Enters k name op ↔
      name.length < NAME_MAX ∧ (t.state.names k).length ∉ t.out k := by
  constructor
  · rintro ⟨s', d, hcall, -⟩
    constructor
    · refine Nat.not_le.mp fun hlong => ?_
      rw [DevState.call_long hop hfresh hlong] at hcall
      cases hcall
    · intro hout
      obtain ⟨e, he, hdev⟩ := (h.devs k _ hlen).mpr hout
      have hspec := DevState.call_registers h.counted hop hcall
      obtain ⟨-, -, d, -, hd, -, -, hnew, -⟩ := hspec.kind.done_of_nonneg le_rfl
      exact hnew e he (hdev.trans hd.symm)
  · intro ⟨hfits, hout⟩
    have hfree : t.state.reg.deviceFromdev (mkdev k.major (t.state.names k).length) = none := by
      rw [Devices.deviceFromdev_eq_none]
      intro e he hdev
      exact hout ((h.devs k _ hlen).mp ⟨e, he, hdev⟩)
    obtain ⟨s', hcall⟩ := DevState.call_free h.counted hop hfresh hfits hfree
    have hspec := DevState.call_registers h.counted hop hcall
    obtain ⟨-, -, d, hdevs, hdev, hname, -, hnew, -⟩ := hspec.kind.done_of_nonneg le_rfl
    refine ⟨s', d, hcall, hdevs ▸ List.mem_cons_self, hname, hnew, ?_, ?_⟩
    · rw [hdev, devMajor_mkdev hlen]
    · rw [hdev, devMinor_mkdev hlen]

theorem freshEntered_iff (h : t.Held) (hop : t.state.Within op) :
    t.state.FreshEntered op ↔ t.NumberFree op := by
  refine forall_congr' fun k => forall_congr' fun name => forall_congr' fun mem => ?_
  refine forall_congr' fun hkind => forall_congr' fun hfresh => ?_
  obtain ⟨rfl, hlen⟩ := hop k name mem hkind
  exact fresh_iff h hkind hfresh (hlen hfresh)

end Numbered

/-- In a run with memory and at most 256 devices of a kind, every fresh name is
entered under a free number exactly when at each of its registrations the
population is not a number that is out. -/
theorem runs_fresh {s : DevState} (hs : s.Boot) (ops : List DevOp)
    (hops : Meets DevState.step DevState.Within s ops) :
    Meets DevState.step DevState.FreshEntered s ops ↔
      Meets Numbered.step Numbered.NumberFree ⟨s, fun _ => ∅⟩ ops := by
  have hmap := fun C : DevState → DevOp → Prop =>
    meets_map (C := C) Numbered.step_state ops ⟨s, fun _ => ∅⟩
  rw [← hmap]
  refine meets_congr_within (I := Numbered.Held) (D := fun t op => t.state.Within op) ?_ ?_ ops
    (Numbered.boot_held hs) ((hmap DevState.Within).mpr hops)
  · exact fun _ _ h hop => Numbered.freshEntered_iff h hop
  · exact fun _ _ _ h hop _ hstep => Numbered.step_held h hop hstep

/-! ## Two disks -/

theorem empty_boot : DevState.empty.Boot :=
  ⟨rfl, rfl, ⟨List.nodup_nil, List.nodup_nil⟩, nofun⟩

open DevState (disk) in
/-- The last record of the list has the number of the last device. -/
theorem runs_fresh_oldest :
    Meets DevState.step DevState.FreshEntered .empty
      [disk [97], disk [98], .unregisterBlkdev [97], disk [99]] :=
  (runs_fresh empty_boot _ (by decide)).mpr (by decide)

open DevState (disk) in
/-- Of two disks the newer one is removed, which gives back number 0.  The next
disk is to have number 1, and that is out. -/
theorem runs_fresh_wrong :
    Meets DevState.step DevState.Within .empty
        [disk [97], disk [98], .unregisterBlkdev [98], disk [99]] ∧
      (∃ s, run DevState.step .empty [disk [97], disk [98], .unregisterBlkdev [98]] = some s ∧
        s.Fresh .block [99] ∧ s.call (disk [99]) = some (-EEXIST, s)) ∧
      ¬ Meets DevState.step DevState.FreshEntered .empty
        [disk [97], disk [98], .unregisterBlkdev [98], disk [99]] := by
  refine ⟨by decide, ⟨_, rfl, by decide, by decide⟩, ?_⟩
  intro h
  obtain ⟨s', d, hcall, -⟩ := (((h.2 _ rfl).2 _ rfl).2 _ rfl).1 .block [99] true rfl (by decide)
  obtain ⟨hr, -⟩ := Prod.mk.inj (Option.some.inj hcall)
  exact absurd hr (by decide)

end StardustOS.Dev
