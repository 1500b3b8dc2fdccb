import StardustOS.Dev.Registries
import StardustOS.Dev.BootModules
import StardustOS.Dev.BusDrivers
import StardustOS.Dev.BlockRuns
import StardustOS.Fs.Filesystems
import StardustOS.Fs.Initrd
import StardustOS.Fs.MountTable

/-!
# Names in their fields

Nine functions store a string in a field of `NAME_MAX` or `PATH_MAX` bytes, all with
`strcpy`.  A string leaves room for its NUL when it is shorter than the field
(`strcpy_inside_iff`).  `none` is a call that stores a string without room for its
NUL, or that follows a pointer which leads nowhere.

The functions that look at the length at all let one pass that is as long as the
field, and `register_blkdev` and `register_tty` look after the string is stored.
`nameOk_iff` says for each function which strings are stored as they should be: the
boundary, and what else the function finds in its way.
-/

namespace StardustOS

open Libc Dev
open Process (PATH_MAX)

/-! ## A field -/

/-- What `strcpy` stores at `i` stays inside a field of `size` bytes, whatever was in
memory, exactly when the string is shorter than the field. -/
theorem strcpy_inside_iff (i size : Nat) (text : List UInt8) :
    (∀ mem : Nat → UInt8, ∀ j, j < i ∨ i + size ≤ j → strcpyAt mem i text j = mem j) ↔
      text.length < size := by
  constructor
  · intro h
    by_contra hlong
    -- the NUL lands behind the field
    have hnul := h (fun _ => 1) (i + text.length) (Or.inr (by omega))
    rw [strcpyAt, if_pos (Nat.le_add_right _ _), Nat.add_sub_cancel_left] at hnul
    simp at hnul
  · intro hlen mem j hj
    rw [strcpyAt]
    split
    · rename_i hij
      have hout : (text ++ [0]).length ≤ j - i := by
        rw [List.length_append, List.length_singleton]
        omega
      exact List.getD_eq_default _ _ hout
    · rfl

/-! ## The functions of `fs.c` -/

namespace Fs

/-- The `mount` operation, which is all that is used here of the operations of a file system. -/
abbrev FsMount :=
  Option FsNode → Option FsNode → Nat → Option (List UInt8) → Int × Option FsNode

/-- The `int` of a result. -/
def intOf : Except ErrorCode Nat → Int
  | .ok n => n
  | .error e => e.1

/-- `fs_node_create`, with the name of the node that `*nodeptr` points to, before and
after. -/
def fsNodeCreateAt (mem : Bool) (name : List UInt8) (nodeptr : Option (List UInt8))
    (nextInode : UInt32) : Option (Int × Option (List UInt8)) :=
  let r := intOf (asInt (fsNodeCreate mem name nextInode).1)
  if NAME_MAX < name.length then some (r, nodeptr)
  else if !mem then some (r, none)
  else if name.length < NAME_MAX then some (r, some name)
  else none

namespace Mounts

variable (s : Mounts) (mem : Option Mountpoint) (fs : Option FsType) (src target : List UInt8)
  (flags : Nat)

/-- `mountpoint_create` comes to look for the source. -/
def ComesToResolve : Prop :=
  (flags.testBit MS_BIND = true ∨ fs.isSome) ∧ mountpointFromsrc s.mountpoints src = none ∧
    mountpointFromtarget s.mountpoints target 0 = none

instance : Decidable (ComesToResolve s fs src target flags) :=
  inferInstanceAs (Decidable (_ ∧ _ ∧ _))

/-- The node of the source. -/
def sourceNode : Option FsNode :=
  match (fsResolve s.mountpoints (some src)).1 with
  | .found node => some node
  | _ => none

/-- The target that `mountpoint_create_fromnode` stores: both functions skip a slash. -/
def storedTarget : List UInt8 := cstr target (skipSlash target (skipSlash target 0))

/-- `mountpoint_create`, with the sizes of the fields. -/
def mountpointCreateSized (data : Option (List UInt8)) :
    Option (Int × Option (List UInt8) × Mounts) :=
  if ComesToResolve s fs src target flags ∧ (sourceNode s src).isSome ∧ mem.isSome ∧
      PATH_MAX ≤ (storedTarget target).length then none
  else
    (s.mountpointCreate mem fs (some src) target flags data).bind fun (r, src, s) =>
      if 0 ≤ r ∧ PATH_MAX ≤ strlen (src.getD []) 0 then none else some (r, src, s)

end Mounts

end Fs

/-! ## Mountpoints -/

section Mount

variable {s : Mounts} {mem : Option Mountpoint} {fs : Option FsType} {src target : List UInt8}
  {flags : Nat} {data : Option (List UInt8)} {node : FsNode}

namespace Fs.Mounts

theorem cstr_slash {p : Nat} (h : byteAt target p = slash) :
    cstr target p = slash :: cstr target (p + 1) := by
  have hlt : p < target.length := by
    by_contra hge
    rw [byteAt, List.getD_eq_default _ _ (Nat.not_lt.mp hge)] at h
    exact absurd h (by decide)
  have hget : target.get ⟨p, hlt⟩ = slash := by
    rw [← h, byteAt, List.getD_eq_getElem _ _ hlt]
    rfl
  have hdrop : target.drop p = slash :: target.drop (p + 1) := by
    rw [← hget]
    exact List.drop_eq_getElem_cons hlt
  have hne : (slash ≠ 0) := by decide
  rw [cstr, cstr, hdrop, List.takeWhile_cons, if_pos (by simpa using hne)]

variable (target) in
/-- A target loses its slashes. -/
theorem length_storedTarget_le (p : Nat) :
    (cstr target (skipSlash target p)).length ≤ (cstr target p).length := by
  rw [skipSlash]
  split
  · rename_i h
    rw [cstr_slash h, List.length_cons]
    exact Nat.le_succ _
  · exact Nat.le_refl _

theorem storedTarget_eq_iff : storedTarget target = cstr target 0 ↔ byteAt target 0 ≠ slash := by
  constructor
  · intro h hslash
    have hle := length_storedTarget_le target (skipSlash target 0)
    have hone : skipSlash target 0 = 1 := if_pos hslash
    rw [hone] at hle
    rw [storedTarget, hone, cstr_slash hslash] at h
    rw [h, List.length_cons] at hle
    exact Nat.not_succ_le_self _ hle
  · intro h
    have hzero : skipSlash target 0 = 0 := if_neg h
    rw [storedTarget, hzero, hzero]

/-- The new mountpoint is the first with its target, unless that has a slash. -/
theorem findIdx_stored {mp : Mountpoint} {mps : List Mountpoint}
    (hmp : mp.target.1 = storedTarget target) (h : byteAt target 0 ≠ slash) :
    (mp :: mps).findIdx? (fun mp => strcmp mp.target.1 (cstr target (skipSlash target 0)) = 0) =
      some 0 := by
  have hzero : skipSlash target 0 = 0 := if_neg h
  rw [List.findIdx?_cons, if_pos]
  rw [decide_eq_true_eq, CStr.strcmp_eq_zero, hmp, hzero]
  exact storedTarget_eq_iff.mpr h

/-- A call that does not come to look for the source is refused. -/
theorem create_early (h : ¬ ComesToResolve s fs src target flags) :
    ∃ r < 0, s.mountpointCreate mem fs (some src) target flags data = some (r, some src, s) := by
  rw [mountpointCreate]
  split
  · exact ⟨_, by decide, rfl⟩
  · rename_i hfs
    split
    · exact ⟨_, by decide, rfl⟩
    · rename_i hbusy
      refine absurd ⟨?_, ?_, ?_⟩ h
      · simp only [Bool.and_eq_true, Bool.not_eq_true', not_and, Option.isNone_iff_eq_none] at hfs
        rcases Bool.eq_false_or_eq_true (flags.testBit MS_BIND) with hbind | hbind
        · exact Or.inl hbind
        · exact Or.inr (Option.isSome_iff_ne_none.mpr (hfs hbind))
      · simp only [Option.bind_some, Bool.or_eq_true, not_or] at hbusy
        exact Option.not_isSome_iff_eq_none.mp hbusy.1
      · simp only [Option.bind_some, Bool.or_eq_true, not_or] at hbusy
        exact Option.not_isSome_iff_eq_none.mp hbusy.2

/-- The checks pass in a call that looks for the source. -/
theorem ComesToResolve.checks (h : ComesToResolve s fs src target flags) :
    (!flags.testBit MS_BIND && fs.isNone) = false ∧
      (((some src).bind (mountpointFromsrc s.mountpoints)).isSome ||
        (mountpointFromtarget s.mountpoints target 0).isSome) = false := by
  obtain ⟨hfs, hsrc, htarget⟩ := h
  constructor
  · rcases hfs with hbind | hsome
    · rw [hbind, Bool.not_true, Bool.false_and]
    · obtain ⟨f, rfl⟩ := Option.isSome_iff_exists.mp hsome
      rw [Option.isNone_some, Bool.and_false]
  · rw [Option.bind_some, hsrc, htarget]
    rfl

/-- What a call does whose source is no node. -/
theorem create_unresolved {src' : Option (List UInt8)} (h : ComesToResolve s fs src target flags) :
    (fsResolve s.mountpoints (some src) = (.fault, src') →
      s.mountpointCreate mem fs (some src) target flags data = none) ∧
    ∀ r, fsResolve s.mountpoints (some src) = (.error r, src') →
      s.mountpointCreate mem fs (some src) target flags data = some (r, src', s) := by
  constructor
  · intro hres
    simp only [mountpointCreate, h.checks, Bool.false_eq_true, ↓reduceIte, hres]
  · intro r hres
    simp only [mountpointCreate, h.checks, Bool.false_eq_true, ↓reduceIte, hres]

/-- What a call does that cannot mount the node of the source. -/
theorem create_unmountable {src' : Option (List UInt8)} (h : ComesToResolve s fs src target flags)
    (hres : fsResolve s.mountpoints (some src) = (.found node, src'))
    (hmount : ¬ Mountable mem fs (some node) flags data) :
    ∃ r < 0, ∃ s', s.Unchanged s' ∧
      s.mountpointCreate mem fs (some src) target flags data = some (r, src', s') := by
  cases hcreate : s.mountpointCreateFromnode mem fs (some node) target (skipSlash target 0)
    flags data with
  | mk r s' =>
      obtain ⟨hneg, hsame⟩ := createFromnode_refused hmount hcreate
      refine ⟨r, hneg, s', hsame, ?_⟩
      simp only [mountpointCreate, h.checks, Bool.false_eq_true, ↓reduceIte, hres, hcreate, hneg]

/-- What a call that finds nothing in its way does. -/
theorem create_mountable {src' : Option (List UInt8)} (h : ComesToResolve s fs src target flags)
    (hres : fsResolve s.mountpoints (some src) = (.found node, src'))
    (hmount : Mountable mem fs (some node) flags data) :
    ∃ (mp : Mountpoint) (s₁ : Mounts), mp.target.1 = storedTarget target ∧
      s.mountpointCreate mem fs (some src) target flags data =
        ((mp :: s.mountpoints).findIdx? fun mp =>
            strcmp mp.target.1 (cstr target (skipSlash target 0)) = 0).map fun i =>
          (0, src', { s₁ with
            mountpoints := (mp :: s.mountpoints).modify i fun mp =>
              { mp with source := .read (src'.getD []) 0 } }) := by
  obtain ⟨mp, s₁, hcreate, hlist, hmp⟩ :=
    createFromnode_mountable s target (skipSlash target 0) hmount
  refine ⟨mp, s₁, by rw [hmp]; rfl, ?_⟩
  simp only [mountpointCreate, h.checks, Bool.false_eq_true, ↓reduceIte, hres, hcreate, lt_irrefl,
    hlist]
  cases (mp :: s.mountpoints).findIdx? fun mp =>
      strcmp mp.target.1 (cstr target (skipSlash target 0)) = 0 with
  | none => rfl
  | some i => rfl

end Fs.Mounts

end Mount

/-! ## The calls -/

namespace Sys

open Fs

/-- `bus_fromname`. -/
def busFromname (buses : List Bus) (name : List UInt8) : Option Bus :=
  buses.find? fun bus => bus.name = name

/-- `register_bus`, on the list of the buses. -/
def registerBusIn (buses : List Bus) (type : Option (List UInt8)) (name : List UInt8)
    (block : Option Nat) : Option (Int × List Bus) :=
  (Bus.registerBus type name block).map fun (r, bus) => (r, bus.toList ++ buses)

/-- A call that is passed a name, with the state it is made in. -/
inductive NameCall where
  | fsNodeCreate (mem : Bool) (name : List UInt8) (nodeptr : Option (List UInt8))
      (nextInode : UInt32)
  | registerFs (s : FsTable FsMount) (name : CStr) (type : Nat) (opts : FsMount) (mem : Bool)
  | registerDevice (s : Devices) (dev : Nat) (name : List UInt8) (opts : DevOpts) (size : Nat)
      (mem : Bool)
  | registerBlkdev (s : BlkState) (name : List UInt8) (blksize blkcnt : Nat) (opts : BlkdevOpts)
      (mem mem' : Bool)
  | registerTty (s : DevState) (name : List UInt8) (opts : TtyOpts) (mem mem' : Bool)
  | registerBus (buses : List Bus) (type : Option (List UInt8)) (name : List UInt8)
      (block : Option Nat)
  | busAdddev (bus : Bus) (name : List UInt8) (block : Option BusDev)
  | busRegdev (devs : Devices) (bus : Bus) (name dname : List UInt8)
  | mountpointCreate (s : Mounts) (mem : Option Mountpoint) (fs : Option FsType)
      (src target : List UInt8) (flags : Nat) (data : Option (List UInt8))

/-- The call returns, with an error code and nothing new stored, or with the record
found. -/
def Stores {σ : Type*} (o : Option (Int × σ)) (same found : σ → Prop) : Prop :=
  ∃ r s', o = some (r, s') ∧ (r < 0 ∧ same s' ∨ found s')

/-- The names are stored whole, and found again. -/
def NameCall.NameOk : NameCall → Prop
  | .fsNodeCreate mem name nodeptr ino =>
      Stores (fsNodeCreateAt mem name nodeptr ino) (fun node => node = nodeptr ∨ node = none)
        fun node => node = some name
  | .registerFs s name type opts mem =>
      Stores (s.registerFs name type opts mem) (· = s) fun s' =>
        ∃ fs, s'.filesystems.head? = some fs ∧ s'.fsFromname name = some fs
  | .registerDevice s dev name opts size mem =>
      Stores (s.registerDevice dev name opts size mem) (· = s) fun s' =>
        s'.deviceFromname name = some ⟨dev, size, name, opts⟩
  | .registerBlkdev s name blksize blkcnt opts mem mem' =>
      Stores (s.registerBlkdev name blksize blkcnt opts mem mem') (· = s) fun s' =>
        s'.blk.blkdevFromname name = some ⟨blksize, blkcnt, name, opts⟩ ∧
          ∃ d, s'.reg.devices.head? = some d ∧ s'.reg.deviceFromname name = some d
  | .registerTty s name opts mem mem' =>
      Stores (s.registerTty name opts mem mem') (· = s) fun s' =>
        s'.tty.ttyFromname name = some ⟨name, opts⟩ ∧
          ∃ d, s'.reg.devices.head? = some d ∧ s'.reg.deviceFromname name = some d
  | .registerBus buses type name block =>
      Stores (registerBusIn buses type name block) (· = buses) fun buses' =>
        ∃ bus, buses'.head? = some bus ∧ busFromname buses' name = some bus
  | .busAdddev bus name block =>
      Stores (bus.busAdddev name block) (· = bus) fun bus' =>
        ∃ dev, bus'.devList.head? = some dev ∧ bus'.busGetdevbyname name = some (some dev)
  | .busRegdev devs bus name dname =>
      Stores (bus.busRegdev devs name dname) (· = bus) fun bus' =>
        (∃ dev, bus'.busGetdevbyname name = some (some dev) ∧ dev.dname = dname) ∧
          ((devs.deviceFromname dname).isSome → dname ≠ [] →
            ∃ d, bus'.busGetdev devs dname = some (some d))
  | .mountpointCreate s mem fs src target flags data =>
      Stores (Mounts.mountpointCreateSized s mem fs src target flags data)
        (fun (_, s') => s.Unchanged s') fun (_, s') =>
          ∃ mp, s'.mountpoints.head? = some mp ∧
            mountpointFromtarget s'.mountpoints target 0 = some mp ∧
            mountpointFromsrc s'.mountpoints src = some mp

/-- The strings that the call comes to store are shorter than their fields, and so are
stored as they are: the target of a mountpoint has no slash to lose, and the walk for
the source leaves it whole.  A list of bus devices that is walked to its end has one,
and the walk for the source does not come to a directory that cannot be listed. -/
def NameCall.Fits : NameCall → Prop
  | .fsNodeCreate mem name _ _ => mem = true → name.length ≠ NAME_MAX
  | .registerFs s name _ _ mem =>
      mem = true → (s.fsFromname name).isNone → name.1.length ≠ NAME_MAX
  | .registerDevice s dev name _ _ mem =>
      mem = true → (s.deviceFromname name).isNone → (s.deviceFromdev dev).isNone →
        name.length ≠ NAME_MAX
  | .registerBlkdev s name _ _ _ mem _ =>
      mem = true → (s.blk.blkdevFromname name).isNone → (s.reg.deviceFromname name).isNone →
        name.length < NAME_MAX
  | .registerTty s name _ mem _ =>
      mem = true → (s.tty.ttyFromname name).isNone → (s.reg.deviceFromname name).isNone →
        name.length < NAME_MAX
  | .registerBus _ type name block =>
      block.isSome → (∀ t ∈ type, t.length ≤ NAME_MAX) → name.length ≤ NAME_MAX →
        (∀ t ∈ type, t.length < NAME_MAX) ∧ name.length < NAME_MAX
  | .busAdddev bus name block =>
      ¬ bus.Known name → bus.devEnd = 0 ∧ (block.isSome → name.length < NAME_MAX)
  | .busRegdev devs bus name dname =>
      (Bus.getdevLoop devs dname bus.devList).isNone →
        bus.devEnd = 0 ∧ (bus.Known name → dname.length < NAME_MAX)
  | .mountpointCreate s mem fs src target flags data =>
      Mounts.ComesToResolve s fs src target flags →
        (fsResolve s.mountpoints (some src)).1 ≠ .fault ∧
        ∀ node ∈ Mounts.sourceNode s src,
          (mem.isSome → (Mounts.storedTarget target).length < PATH_MAX) ∧
          (Mounts.Mountable mem fs (some node) flags data →
            byteAt target 0 ≠ slash ∧
            cstr ((fsResolve s.mountpoints (some src)).2.getD []) 0 = cstr src 0 ∧
            strlen src 0 < PATH_MAX)

/-! ## One function after the other -/

section Stores

variable {σ : Type*} {same found : σ → Prop} {r : Int} {s' : σ}

@[simp] theorem stores_none : ¬ Stores none same found := by
  rintro ⟨r, s', h, -⟩
  cases h

@[simp] theorem stores_some :
    Stores (some (r, s')) same found ↔ r < 0 ∧ same s' ∨ found s' := by
  simp [Stores]

/-- A refusal stores nothing. -/
theorem stores_refused (hr : r < 0) (h : same s') : Stores (some (r, s')) same found :=
  stores_some.mpr (Or.inl ⟨hr, h⟩)

end Stores

theorem fsNodeCreate_ok_iff (mem : Bool) (name : List UInt8) (nodeptr : Option (List UInt8))
    (ino : UInt32) :
    (NameCall.fsNodeCreate mem name nodeptr ino).NameOk ↔
      (NameCall.fsNodeCreate mem name nodeptr ino).Fits := by
  simp only [NameCall.NameOk, NameCall.Fits, fsNodeCreateAt, fsNodeCreate]
  split
  · rename_i hlong
    exact iff_of_true (stores_refused (errno ENAMETOOLONG).2.2 (Or.inl rfl)) fun _ => hlong.ne'
  · rename_i hlong
    cases mem with
    | false =>
        exact iff_of_true (stores_refused (errno ENOMEM).2.2 (Or.inr rfl)) fun h => by cases h
    | true =>
        simp only [Bool.not_true, Bool.false_eq_true, ↓reduceIte, forall_const]
        split
        · rename_i hlt
          exact iff_of_true (stores_some.mpr (Or.inr rfl)) hlt.ne
        · rename_i hge
          exact iff_of_false stores_none fun h => h (by omega)

theorem registerFs_ok_iff (s : FsTable FsMount) (name : CStr) (type : Nat) (opts : FsMount)
    (mem : Bool) :
    (NameCall.registerFs s name type opts mem).NameOk ↔
      (NameCall.registerFs s name type opts mem).Fits := by
  simp only [NameCall.NameOk, NameCall.Fits, FsTable.registerFs]
  split
  · rename_i hknown
    refine iff_of_true (stores_refused (by decide) rfl) fun _ hnew => ?_
    rw [Option.isNone_iff_eq_none] at hnew
    rw [hnew] at hknown
    cases hknown
  · rename_i hknown
    split
    · rename_i hlong
      exact iff_of_true (stores_refused (by decide) rfl) fun _ _ => hlong.ne'
    · rename_i hlong
      cases mem with
      | false => exact iff_of_true (stores_refused (by decide) rfl) fun h => by cases h
      | true =>
          simp only [Bool.not_true, Bool.false_eq_true, ↓reduceIte, forall_const]
          split
          · rename_i hfull
            have hnew : (s.fsFromname name).isNone := by
              simpa using hknown
            exact iff_of_false stores_none fun h => h hnew hfull
          · rename_i hne
            refine iff_of_true (stores_some.mpr (Or.inr ⟨_, rfl, ?_⟩)) fun _ => hne
            have hself : strcmp name.1 name.1 = 0 := (strcmp_eq_zero name.2 name.2).mpr rfl
            simp [FsTable.fsFromname, hself]

theorem registerDevice_ok_iff (s : Devices) (dev : Nat) (name : List UInt8) (opts : DevOpts)
    (size : Nat) (mem : Bool) :
    (NameCall.registerDevice s dev name opts size mem).NameOk ↔
      (NameCall.registerDevice s dev name opts size mem).Fits := by
  simp only [NameCall.NameOk, NameCall.Fits, Devices.registerDevice]
  split
  · rename_i hlong
    exact iff_of_true (stores_refused (by decide) rfl) fun _ _ _ => hlong.ne'
  · rename_i hlong
    split
    · rename_i hknown
      refine iff_of_true (stores_refused (by decide) rfl) fun _ hname hdev => ?_
      rw [Option.isNone_iff_eq_none] at hname hdev
      rw [hname, hdev] at hknown
      exact absurd hknown (by simp)
    · rename_i hknown
      cases mem with
      | false => exact iff_of_true (stores_refused (by decide) rfl) fun h => by cases h
      | true =>
          simp only [Bool.not_true, Bool.false_eq_true, ↓reduceIte, forall_const]
          split
          · rename_i hfull
            obtain ⟨hname, hdev⟩ := not_or.mp hknown
            exact iff_of_false stores_none fun h =>
              h (by simpa using hname) (by simpa using hdev) hfull
          · rename_i hfull
            refine iff_of_true (stores_some.mpr (Or.inr ?_)) fun _ _ => hfull
            rw [Devices.deviceFromname, if_neg hlong]
            simp

/-- A name that fits is registered with the central registry or refused by it. -/
theorem registerDevice_fits (s : Devices) (dev : Nat) {name : List UInt8} (opts : DevOpts)
    (size : Nat) (mem : Bool) (hlen : name.length < NAME_MAX) :
    (∃ r < 0, s.registerDevice dev name opts size mem = some (r, s)) ∨
      ∃ s', s.registerDevice dev name opts size mem = some (0, s') ∧
        ∃ d, s'.devices.head? = some d ∧ s'.deviceFromname name = some d := by
  obtain ⟨r, s', h⟩ := s.registerDevice_defined name dev size opts mem hlen
  rcases Devices.registerDevice_cases h with ⟨hr, rfl⟩ | ⟨rfl, -, -, -, rfl⟩
  · exact Or.inl ⟨r, hr, h⟩
  · exact Or.inr ⟨_, h, _, rfl, Devices.deviceFromname_head hlen⟩

theorem registerBlkdev_ok_iff (s : BlkState) (name : List UInt8) (blksize blkcnt : Nat)
    (opts : BlkdevOpts) (mem mem' : Bool) :
    (NameCall.registerBlkdev s name blksize blkcnt opts mem mem').NameOk ↔
      (NameCall.registerBlkdev s name blksize blkcnt opts mem mem').Fits := by
  simp only [NameCall.NameOk, NameCall.Fits, BlkState.registerBlkdev]
  split
  · rename_i hknown
    refine iff_of_true (stores_refused (by decide) rfl) fun _ hblk hreg => ?_
    rw [Option.isNone_iff_eq_none] at hblk hreg
    rw [hblk, hreg] at hknown
    exact absurd hknown (by simp)
  · rename_i hknown
    obtain ⟨hblk, hreg⟩ := not_or.mp hknown
    cases mem with
    | false => exact iff_of_true (stores_refused (by decide) rfl) fun h => by cases h
    | true =>
        simp only [Bool.not_true, Bool.false_eq_true, ↓reduceIte, forall_const]
        split
        · rename_i hlong
          refine iff_of_false stores_none fun h => ?_
          exact absurd (h (by simpa using hblk) (by simpa using hreg)) (Nat.not_lt.mpr hlong)
        · rename_i hlt
          refine iff_of_true ?_ fun _ _ => Nat.not_le.mp hlt
          rcases registerDevice_fits s.reg (mkdev DEVMAJ_BLOCK s.blk.blockDeviceCount) .blkdev
            (blksize * blkcnt % 2 ^ 32) mem' (Nat.not_le.mp hlt) with
            ⟨r, hr, hcall⟩ | ⟨reg, hcall, hfound⟩
          · simp only [hcall, hr, ↓reduceIte]
            exact stores_refused hr rfl
          · simp only [hcall, lt_irrefl, ↓reduceIte]
            refine stores_some.mpr (Or.inr ⟨?_, hfound⟩)
            simp [Blkdevs.blkdevFromname]

theorem registerTty_ok_iff (s : DevState) (name : List UInt8) (opts : TtyOpts) (mem mem' : Bool) :
    (NameCall.registerTty s name opts mem mem').NameOk ↔
      (NameCall.registerTty s name opts mem mem').Fits := by
  simp only [NameCall.NameOk, NameCall.Fits, DevState.registerTty]
  split
  · rename_i hknown
    refine iff_of_true (stores_refused (by decide) rfl) fun _ htty hreg => ?_
    rw [Option.isNone_iff_eq_none] at htty hreg
    rw [htty, hreg] at hknown
    exact absurd hknown (by simp)
  · rename_i hknown
    obtain ⟨htty, hreg⟩ := not_or.mp hknown
    cases mem with
    | false => exact iff_of_true (stores_refused (by decide) rfl) fun h => by cases h
    | true =>
        simp only [Bool.not_true, Bool.false_eq_true, ↓reduceIte, forall_const]
        split
        · rename_i hlong
          refine iff_of_false stores_none fun h => ?_
          exact absurd (h (by simpa using htty) (by simpa using hreg)) (Nat.not_lt.mpr hlong)
        · rename_i hlt
          refine iff_of_true ?_ fun _ _ => Nat.not_le.mp hlt
          rcases registerDevice_fits s.reg (mkdev DEVMAJ_TTY s.tty.ttyCnt) .tty 0 mem'
            (Nat.not_le.mp hlt) with ⟨r, hr, hcall⟩ | ⟨reg, hcall, hfound⟩
          · simp only [hcall, hr, ↓reduceIte]
            exact stores_refused hr rfl
          · simp only [hcall, lt_irrefl, ↓reduceIte]
            refine stores_some.mpr (Or.inr ⟨?_, hfound⟩)
            simp [Ttys.ttyFromname]

theorem registerBus_ok_iff (buses : List Bus) (type : Option (List UInt8)) (name : List UInt8)
    (block : Option Nat) :
    (NameCall.registerBus buses type name block).NameOk ↔
      (NameCall.registerBus buses type name block).Fits := by
  simp only [NameCall.NameOk, NameCall.Fits, registerBusIn, Bus.registerBus]
  split
  · rename_i hlong
    refine iff_of_true (stores_refused (by decide) rfl) fun _ htype hname => ?_
    rcases hlong with ⟨t, ht, hlt⟩ | hlt
    · exact absurd (htype t ht) (Nat.not_le.mpr hlt)
    · exact absurd hname (Nat.not_le.mpr hlt)
  · rename_i hshort
    cases block with
    | none => exact iff_of_true (stores_refused (by decide) rfl) fun h => by cases h
    | some head =>
        obtain ⟨htype, hname⟩ := not_or.mp hshort
        have htype' : ∀ t ∈ type, t.length ≤ NAME_MAX := fun t ht =>
          Nat.not_lt.mp fun hlt => htype ⟨t, ht, hlt⟩
        dsimp only
        split
        · rename_i hfull
          refine iff_of_false stores_none fun h => ?_
          obtain ⟨htypes, hlt⟩ := h rfl htype' (Nat.not_lt.mp hname)
          rcases hfull with ⟨t, ht, heq⟩ | heq
          · exact absurd heq (htypes t ht).ne
          · exact absurd heq hlt.ne
        · rename_i hfull
          obtain ⟨htypes, hne⟩ := not_or.mp hfull
          refine iff_of_true (stores_some.mpr (Or.inr ⟨_, rfl, ?_⟩)) fun _ _ _ => ⟨?_, by omega⟩
          · simp [busFromname]
          · exact fun t ht => lt_of_le_of_ne (htype' t ht) fun heq => htypes ⟨t, ht, heq⟩

theorem busAdddev_ok_iff (bus : Bus) (name : List UInt8) (block : Option BusDev) :
    (NameCall.busAdddev bus name block).NameOk ↔ (NameCall.busAdddev bus name block).Fits := by
  simp only [NameCall.NameOk, NameCall.Fits]
  by_cases hknown : bus.Known name
  · obtain ⟨dev, hdev⟩ := Bus.mem_names_iff.mp hknown
    have hcall : bus.busAdddev name block = some (-EEXIST, bus) := by
      unfold Bus.busAdddev
      rw [Bus.busGetdevbyname, hdev]
      rfl
    rw [hcall]
    exact iff_of_true (stores_refused (by decide) rfl) fun hnew => absurd hknown hnew
  · rw [forall_prop_of_true hknown]
    by_cases hend : bus.devEnd = 0
    · rw [Bus.busAdddev_new hend hknown, and_iff_right hend]
      cases block with
      | none => exact iff_of_true (stores_refused (by decide) rfl) fun h => by cases h
      | some mem =>
          dsimp only
          split
          · rename_i hlt
            refine iff_of_true (stores_some.mpr (Or.inr ⟨_, rfl, ?_⟩)) fun _ => hlt
            simp [Bus.busGetdevbyname, Bus.withDev, Bus.found]
          · rename_i hge
            exact iff_of_false stores_none fun h => hge (h rfl)
    · have hcall : bus.busAdddev name block = none := by
        unfold Bus.busAdddev
        rw [Bus.busGetdevbyname, Bus.not_known_iff.mp hknown, Bus.found, if_neg hend]
        rfl
      rw [hcall]
      exact iff_of_false stores_none fun h => hend h.1

theorem busRegdev_ok_iff (devs : Devices) (bus : Bus) (name dname : List UInt8) :
    (NameCall.busRegdev devs bus name dname).NameOk ↔
      (NameCall.busRegdev devs bus name dname).Fits := by
  simp only [NameCall.NameOk, NameCall.Fits]
  cases hget : Bus.getdevLoop devs dname bus.devList with
  | some d =>
      have hcall : bus.busRegdev devs name dname = some (-EEXIST, bus) := by
        unfold Bus.busRegdev
        rw [Bus.busGetdev, hget]
        rfl
      rw [hcall]
      exact iff_of_true (stores_refused (by decide) rfl) fun h => by cases h
  | none =>
      simp only [Option.isNone_none, forall_const]
      by_cases hend : bus.devEnd = 0
      · rw [and_iff_right hend]
        have hcall : bus.busRegdev devs name dname =
            (bus.devList.find? fun dev => dev.name = name).elim (some (-ENOENT, bus)) fun _ =>
              if dname.length < NAME_MAX then some (0, bus.withDname name dname) else none := by
          unfold Bus.busRegdev
          rw [Bus.busGetdev, hget, Bus.busGetdevbyname, Bus.found_eq hend, Bus.found_eq hend]
          cases bus.devList.find? fun dev => dev.name = name with
          | none => rfl
          | some dev => rfl
        rw [hcall]
        cases hdev : bus.devList.find? fun dev => dev.name = name with
        | none =>
            exact iff_of_true (stores_refused (by decide) rfl) fun hknown =>
              absurd hdev (mt Bus.not_known_iff.mpr (not_not_intro hknown))
        | some dev =>
            have hknown : bus.Known name := Bus.mem_names_iff.mpr ⟨dev, hdev⟩
            rw [forall_prop_of_true hknown, Option.elim_some]
            split
            · rename_i hlt
              refine iff_of_true
                (stores_some.mpr (Or.inr ⟨⟨{ dev with dname := dname }, ?_, rfl⟩, ?_⟩)) hlt
              · rw [Bus.busGetdevbyname, Bus.withDname, Bus.find?_setDname, if_pos rfl, hdev]
                rfl
              · intro hreg hne
                have hdriver := Bus.driverOf_withDname hknown hne hreg
                obtain ⟨dev', hdev', hd⟩ := Option.bind_eq_some_iff.mp hdriver
                obtain ⟨d, hloop⟩ := Option.isSome_iff_exists.mp (Bus.getdevLoop_isSome.mpr
                  ⟨dev', List.mem_of_find?_eq_some hdev', hd⟩)
                exact ⟨d, by rw [Bus.busGetdev, hloop]; rfl⟩
            · rename_i hge
              exact iff_of_false stores_none hge
      · have hcall : bus.busRegdev devs name dname = none := by
          unfold Bus.busRegdev
          rw [Bus.busGetdev, hget, Bus.found, if_neg hend]
          rfl
        rw [hcall]
        exact iff_of_false stores_none fun h => hend h.1

section Mount

variable {s : Mounts} {mem : Option Mountpoint} {fs : Option FsType} {src target : List UInt8}
  {flags : Nat} {data : Option (List UInt8)} {node : FsNode}

/-- A call that is refused before it stores a target which is too long. -/
theorem refused_ok {r : Int} {src' : Option (List UInt8)} {s' : Mounts}
    (hguard : ¬ (Mounts.ComesToResolve s fs src target flags ∧ (Mounts.sourceNode s src).isSome ∧
      mem.isSome ∧ PATH_MAX ≤ (Mounts.storedTarget target).length)) (hr : r < 0)
    (hcall : s.mountpointCreate mem fs (some src) target flags data = some (r, src', s'))
    (hsame : s.Unchanged s') :
    (NameCall.mountpointCreate s mem fs src target flags data).NameOk := by
  simp only [NameCall.NameOk, Mounts.mountpointCreateSized, if_neg hguard, hcall, Option.bind_some,
    Int.not_le.mpr hr, false_and, ↓reduceIte]
  exact stores_refused hr hsame

/-- The strings of a call that mounts the node of its source. -/
theorem mountable_ok_iff {src' : Option (List UInt8)}
    (h : Mounts.ComesToResolve s fs src target flags)
    (hres : fsResolve s.mountpoints (some src) = (.found node, src'))
    (hmount : Mounts.Mountable mem fs (some node) flags data)
    (hlen : (Mounts.storedTarget target).length < PATH_MAX) :
    (NameCall.mountpointCreate s mem fs src target flags data).NameOk ↔
      byteAt target 0 ≠ slash ∧ cstr (src'.getD []) 0 = cstr src 0 ∧ strlen src 0 < PATH_MAX := by
  obtain ⟨mp, s₁, hmp, hcreate⟩ := Mounts.create_mountable h hres hmount
  have hguard : ¬ (Mounts.ComesToResolve s fs src target flags ∧
      (Mounts.sourceNode s src).isSome ∧ mem.isSome ∧
        PATH_MAX ≤ (Mounts.storedTarget target).length) :=
    fun hg => absurd hlen (Nat.not_lt.mpr hg.2.2.2)
  simp only [NameCall.NameOk, Mounts.mountpointCreateSized, if_neg hguard, hcreate]
  constructor
  · rintro ⟨r, ⟨src'', s'⟩, hcall, hok⟩
    obtain ⟨⟨r', src₁, s₂⟩, hmap, hsized⟩ := Option.bind_eq_some_iff.mp hcall
    obtain ⟨i, hi, heq⟩ := Option.map_eq_some_iff.mp hmap
    obtain ⟨rfl, rfl, rfl⟩ : 0 = r' ∧ src' = src₁ ∧ _ = s₂ := by simpa using heq
    split at hsized
    · cases hsized
    · rename_i hfits
      obtain ⟨rfl, rfl, rfl⟩ : 0 = r ∧ src' = src'' ∧ _ = s' := by simpa using hsized
      obtain ⟨mp', hhead, htarget, hsource⟩ := hok.resolve_left fun hneg => lt_irrefl 0 hneg.1
      have hfound : mp'.target.1 = cstr target 0 := by
        simpa [CStr.strcmp_eq_zero] using List.find?_some htarget
      have hsrc : mp'.source.1 = cstr src 0 := by
        simpa [CStr.strcmp_eq_zero] using List.find?_some hsource
      -- the new mountpoint is found, so its target is as it was given
      have htarget' : mp'.target = mp.target := by
        cases i with
        | zero =>
            obtain rfl := Option.some.inj hhead
            rfl
        | succ i =>
            obtain rfl := Option.some.inj hhead
            rfl
      have hslash : byteAt target 0 ≠ slash :=
        Mounts.storedTarget_eq_iff.mp (by rw [← hmp, ← htarget', hfound])
      rw [Mounts.findIdx_stored hmp hslash] at hi
      obtain rfl := Option.some.inj hi
      obtain rfl := Option.some.inj hhead
      refine ⟨hslash, hsrc, ?_⟩
      rw [not_and, Nat.not_le] at hfits
      rw [strlen, ← hsrc]
      exact hfits le_rfl
  · rintro ⟨hslash, hsrc, hfits⟩
    have hshort : ¬ (0 ≤ (0 : Int) ∧ PATH_MAX ≤ strlen (src'.getD []) 0) := by
      rw [not_and, Nat.not_le, strlen, hsrc]
      exact fun _ => hfits
    rw [Mounts.findIdx_stored hmp hslash, Option.map_some, Option.bind_some]
    dsimp only
    rw [if_neg hshort]
    refine stores_some.mpr (Or.inr ⟨_, rfl, ?_, ?_⟩)
    · rw [mountpointFromtarget]
      exact List.find?_cons_of_pos (by
        rw [decide_eq_true_eq, CStr.strcmp_eq_zero]
        exact hmp.trans (Mounts.storedTarget_eq_iff.mpr hslash))
    · rw [mountpointFromsrc]
      exact List.find?_cons_of_pos (by
        rw [decide_eq_true_eq, CStr.strcmp_eq_zero]
        exact hsrc)

/-- The strings of a call whose source is a node. -/
theorem found_ok_iff {src' : Option (List UInt8)}
    (h : Mounts.ComesToResolve s fs src target flags)
    (hres : fsResolve s.mountpoints (some src) = (.found node, src')) :
    (NameCall.mountpointCreate s mem fs src target flags data).NameOk ↔
      (mem.isSome → (Mounts.storedTarget target).length < PATH_MAX) ∧
      (Mounts.Mountable mem fs (some node) flags data →
        byteAt target 0 ≠ slash ∧ cstr (src'.getD []) 0 = cstr src 0 ∧
          strlen src 0 < PATH_MAX) := by
  have hnode : Mounts.sourceNode s src = some node := by rw [Mounts.sourceNode, hres]
  by_cases hlong : mem.isSome ∧ PATH_MAX ≤ (Mounts.storedTarget target).length
  · refine iff_of_false ?_ fun hfits => Nat.not_lt.mpr hlong.2 (hfits.1 hlong.1)
    simp only [NameCall.NameOk, Mounts.mountpointCreateSized]
    rw [if_pos ⟨h, by rw [hnode]; rfl, hlong⟩]
    exact stores_none
  · have hshort : mem.isSome → (Mounts.storedTarget target).length < PATH_MAX :=
      fun hmem => Nat.not_le.mp fun hle => hlong ⟨hmem, hle⟩
    rw [and_iff_right hshort]
    by_cases hmount : Mounts.Mountable mem fs (some node) flags data
    · have hmem : mem.isSome := by
        obtain ⟨mp, rfl, -⟩ := hmount
        rfl
      rw [forall_prop_of_true hmount]
      exact mountable_ok_iff h hres hmount (hshort hmem)
    · obtain ⟨r, hr, s', hsame, hcall⟩ := Mounts.create_unmountable h hres hmount
      exact iff_of_true (refused_ok (fun hg => hlong hg.2.2) hr hcall hsame)
        fun hm => absurd hm hmount

theorem mountpointCreate_ok_iff (s : Mounts) (mem : Option Mountpoint) (fs : Option FsType)
    (src target : List UInt8) (flags : Nat) (data : Option (List UInt8)) :
    (NameCall.mountpointCreate s mem fs src target flags data).NameOk ↔
      (NameCall.mountpointCreate s mem fs src target flags data).Fits := by
  by_cases hcome : Mounts.ComesToResolve s fs src target flags
  · rw [NameCall.Fits, forall_prop_of_true hcome]
    cases hres : fsResolve s.mountpoints (some src) with
    | mk res src' =>
        cases res with
        | fault =>
            have hcall : s.mountpointCreate mem fs (some src) target flags data = none :=
              (Mounts.create_unresolved hcome).1 hres
            refine iff_of_false ?_ fun h => h.1 rfl
            simp only [NameCall.NameOk, Mounts.mountpointCreateSized, hcall, Option.bind_none,
              ite_self, stores_none, not_false_eq_true]
        | error r =>
            have hnode : Mounts.sourceNode s src = none := by rw [Mounts.sourceNode, hres]
            have hcall : s.mountpointCreate mem fs (some src) target flags data =
              some (r, src', s) := (Mounts.create_unresolved hcome).2 r hres
            rw [hnode]
            refine iff_of_true (refused_ok ?_ (Mounts.fsResolve_error hres) hcall ⟨rfl, rfl⟩)
              ⟨nofun, nofun⟩
            rw [hnode]
            exact fun h => absurd h.2.1 (by decide)
        | found node =>
            have hnode : Mounts.sourceNode s src = some node := by rw [Mounts.sourceNode, hres]
            rw [hnode, found_ok_iff hcome hres]
            simp
  · obtain ⟨r, hr, hcall⟩ : ∃ r < 0, s.mountpointCreate mem fs (some src) target flags data =
        some (r, some src, s) := Mounts.create_early hcome
    exact iff_of_true (refused_ok (fun h => hcome h.1) hr hcall ⟨rfl, rfl⟩) fun h => absurd h hcome

end Mount

/-- Every function stores its names whole and finds them again exactly when they
fit. -/
theorem nameOk_iff (c : NameCall) : c.NameOk ↔ c.Fits := by
  cases c with
  | fsNodeCreate mem name nodeptr ino => exact fsNodeCreate_ok_iff mem name nodeptr ino
  | registerFs s name type opts mem => exact registerFs_ok_iff s name type opts mem
  | registerDevice s dev name opts size mem => exact registerDevice_ok_iff s dev name opts size mem
  | registerBlkdev s name blksize blkcnt opts mem mem' =>
      exact registerBlkdev_ok_iff s name blksize blkcnt opts mem mem'
  | registerTty s name opts mem mem' => exact registerTty_ok_iff s name opts mem mem'
  | registerBus buses type name block => exact registerBus_ok_iff buses type name block
  | busAdddev bus name block => exact busAdddev_ok_iff bus name block
  | busRegdev devs bus name dname => exact busRegdev_ok_iff devs bus name dname
  | mountpointCreate s mem fs src target flags data =>
      exact mountpointCreate_ok_iff s mem fs src target flags data

/-- A name of 128 bytes passes the check of `fs_node_create`, and one of 200 bytes is
stored by `register_blkdev` before it is checked. -/
theorem nameOk_wrong :
    ¬ (NameCall.fsNodeCreate true (List.replicate 128 97) none 0).NameOk ∧
      ¬ (NameCall.registerBlkdev noDevices (List.replicate 200 97) 512 100 ⟨none, none⟩ true
        true).NameOk := by
  rw [fsNodeCreate_ok_iff, registerBlkdev_ok_iff]
  constructor
  · intro h
    exact h rfl (List.length_replicate)
  · have hreg : (noDevices.reg.deviceFromname (List.replicate 200 97)).isNone := by
      rw [Devices.deviceFromname]
      split
      · rfl
      · rfl
    intro h
    have hlt := h rfl (by simp [noDevices, Blkdevs.blkdevFromname]) hreg
    rw [List.length_replicate] at hlt
    exact absurd hlt (by decide)

end Sys

end StardustOS
