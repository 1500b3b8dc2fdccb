import StardustOS.Dev.Registry
import StardustOS.Lib.Run
import StardustOS.Lib.SList

/-!
# The devices of the central registry

`dev.c` once more, with each record at the address that `kmalloc` returned: the
list is linked through the records, and a lookup returns a pointer.
`registerDevice_devices` and `unregisterDevice_devices` say that the records
alone behave as `Devices`.

A device has two keys, its device value and its name.  `register_device` refuses
a known key of either kind, so each of them leads to one record, which stays
where it is until it is removed.

`registered` says which devices the calls of a run leave, without a look at the list.
`runs_deviceTable` says that the registry has those and no others, and that every function
answers for them.
-/

namespace StardustOS.Dev

open Lib

/-- The static data of `dev.c`. -/
structure DevTable where
  devices : SList Device
  devCount : Nat

namespace DevTable

/-- No device is registered. -/
def empty : DevTable := ⟨SList.empty, 0⟩

variable (s : DevTable)

/-! ## The functions of `dev.c` -/

/-- `device_count`. -/
def deviceCount : Nat := s.devCount

/-- `device_indexof`, by the name of the device. -/
def deviceIndexof (device : Device) : Nat :=
  match s.devices.contents.findIdx? fun d => d.name = device.name with
  | some i => i
  | none => asU32 (-1)

/-- `device_get`. -/
def deviceGet (i : Nat) : Option (Nat × Device) := s.devices.nth? i

/-- `device_fromdev`. -/
def deviceFromdev (dev : Nat) : Option (Nat × Device) := s.devices.find? fun d => d.dev = dev

/-- `device_fromname`. -/
def deviceFromname (name : List UInt8) : Option (Nat × Device) :=
  if name.length > NAME_MAX then none else s.devices.find? fun d => d.name = name

/-- `register_device`.  `block` is what `kmalloc` returns.  A block in use and a
name that is as long as its field are undefined. -/
def registerDevice (dev : Nat) (name : List UInt8) (opts : DevOpts) (size : Nat)
    (block : Option Nat) : Option (Int × DevTable) :=
  if name.length > NAME_MAX then some (-ENAMETOOLONG, s)
  else if (s.deviceFromname name).isSome ∨ (s.deviceFromdev dev).isSome then some (-EEXIST, s)
  else
    match block with
    | none => some (-ENOMEM, s)
    | some a =>
        if name.length = NAME_MAX then none
        else if h : a ∈ s.devices.addrs then none
        else some (0, ⟨s.devices.insertHead a ⟨dev, size, name, opts⟩ h, s.devCount + 1⟩)

/-- `unregister_device`. -/
def unregisterDevice (dev : Nat) : Int × DevTable :=
  match s.deviceFromdev dev with
  | none => (-ENODEV, s)
  | some (a, _) => (0, ⟨s.devices.remove a, s.devCount - 1⟩)

/-- The device values. -/
def devs : List Nat := s.devices.contents.map Device.dev

/-- The names. -/
def names : List (List UInt8) := s.devices.contents.map Device.name

end DevTable

/-- A call of `dev.c`. -/
inductive DevCall where
  | registerDevice (dev : Nat) (name : List UInt8) (opts : DevOpts) (size : Nat)
      (block : Option Nat)
  | unregisterDevice (dev : Nat)
deriving DecidableEq, Repr

/-! ## What is wanted -/

/-- A record, with its address, has the device value or the name. -/
def Known (reg : List (Nat × Device)) (dev : Nat) (name : List UInt8) : Prop :=
  ∃ n ∈ reg, n.2.dev = dev ∨ n.2.name = name

instance {reg : List (Nat × Device)} {dev : Nat} {name : List UInt8} :
    Decidable (Known reg dev name) :=
  inferInstanceAs (Decidable (∃ n ∈ reg, n.2.dev = dev ∨ n.2.name = name))

/-- What a call leaves of the registered devices.  A registration adds its device unless one
of the keys is taken, and a removal takes away the device of the value alone. -/
def DevCall.leaves (reg : List (Nat × Device)) : DevCall → List (Nat × Device)
  | .registerDevice dev name opts size (some a) =>
      if Known reg dev name then reg else (a, ⟨dev, size, name, opts⟩) :: reg
  | .registerDevice _ _ _ _ none => reg
  | .unregisterDevice dev => reg.filter fun n => n.2.dev ≠ dev

/-- The devices that the calls leave registered, newest first. -/
def DevTable.registered (calls : List DevCall) : List (Nat × Device) :=
  calls.foldl DevCall.leaves []

namespace DevTable

/-- One call. -/
def step (s : DevTable) : DevCall → Option DevTable
  | .registerDevice dev name opts size block =>
      (s.registerDevice dev name opts size block).map Prod.snd
  | .unregisterDevice dev => some (s.unregisterDevice dev).2

variable {s s' : DevTable} {dev size a : Nat} {name : List UInt8} {opts : DevOpts}
  {block : Option Nat} {r : Int} {d : Device}

/-! ## The records alone -/

/-- The registry without the addresses. -/
def toDevices (s : DevTable) : Devices := ⟨s.devices.contents, s.devCount⟩

theorem deviceFromdev_devices (s : DevTable) (dev : Nat) :
    s.toDevices.deviceFromdev dev = (s.deviceFromdev dev).map Prod.snd :=
  List.find?_map ..

theorem deviceFromname_devices (s : DevTable) (name : List UInt8) :
    s.toDevices.deviceFromname name = (s.deviceFromname name).map Prod.snd := by
  rw [Devices.deviceFromname, deviceFromname]
  split
  · rfl
  · exact List.find?_map ..

/-- In a fresh block a device is registered as by value. -/
theorem registerDevice_devices (s : DevTable) (dev size : Nat) (name : List UInt8)
    (opts : DevOpts) (hfresh : ∀ a ∈ block, a ∉ s.devices.addrs) :
    (s.registerDevice dev name opts size block).map (fun p => (p.1, p.2.toDevices)) =
      s.toDevices.registerDevice dev name opts size block.isSome := by
  unfold registerDevice Devices.registerDevice
  rw [deviceFromname_devices, deviceFromdev_devices, Option.isSome_map, Option.isSome_map]
  split
  · rfl
  · split
    · rfl
    · cases block with
      | none => rfl
      | some a =>
          have ha : a ∉ s.devices.addrs := hfresh a rfl
          simp only [ha, ↓reduceDIte, Option.isSome_some, Bool.not_true, Bool.false_eq_true,
            ↓reduceIte]
          split
          · rfl
          · rfl

theorem unregisterDevice_devices (s : DevTable) (dev : Nat) :
    ((s.unregisterDevice dev).1, (s.unregisterDevice dev).2.toDevices) =
      s.toDevices.unregisterDevice dev := by
  rw [unregisterDevice, Devices.unregisterDevice, deviceFromdev_devices]
  cases h : s.deviceFromdev dev with
  | none => rfl
  | some n =>
      obtain ⟨a, d⟩ := n
      have herase : (s.devices.remove a).contents =
          s.devices.contents.eraseP fun d => d.dev = dev := SList.contents_remove h
      simp only [Option.map_some, toDevices, herase]

/-! ## What the calls do -/

theorem mem_devs : dev ∈ s.devs ↔ ∃ n ∈ s.devices.nodes, n.2.dev = dev := by
  simp [devs, SList.contents]

theorem mem_names : name ∈ s.names ↔ ∃ n ∈ s.devices.nodes, n.2.name = name := by
  simp [names, SList.contents]

theorem deviceFromdev_isSome : (s.deviceFromdev dev).isSome ↔ dev ∈ s.devs := by
  simp [deviceFromdev, SList.find?, mem_devs]

theorem deviceFromname_isSome (hlen : name.length < NAME_MAX) :
    (s.deviceFromname name).isSome ↔ name ∈ s.names := by
  rw [deviceFromname, if_neg (by omega)]
  simp [SList.find?, mem_names]

theorem known_iff : Known s.devices.nodes dev name ↔ dev ∈ s.devs ∨ name ∈ s.names := by
  rw [mem_devs, mem_names, ← exists_or]
  refine exists_congr fun n => ?_
  rw [and_or_left]

/-- With a name that fits its field and a fresh block, a device is refused when
one of its keys is known, and registered otherwise. -/
theorem registerDevice_eq (dev size : Nat) (opts : DevOpts) (hlen : name.length < NAME_MAX)
    (ha : a ∉ s.devices.addrs) :
    s.registerDevice dev name opts size (some a) =
      if Known s.devices.nodes dev name then some (-EEXIST, s)
      else some (0, ⟨s.devices.insertHead a ⟨dev, size, name, opts⟩ ha, s.devCount + 1⟩) := by
  have hlong : ¬ name.length > NAME_MAX := by omega
  have hknown : ((s.deviceFromname name).isSome ∨ (s.deviceFromdev dev).isSome) ↔
      Known s.devices.nodes dev name := by
    rw [deviceFromname_isSome hlen, deviceFromdev_isSome, known_iff, or_comm]
  simp only [registerDevice, if_neg hlong, hknown, if_neg hlen.ne, dif_neg ha]

/-- A device that is removed had the device value; without one nothing changes. -/
theorem unregisterDevice_cases (s : DevTable) (dev : Nat) :
    dev ∉ s.devs ∧ s.unregisterDevice dev = (-ENODEV, s) ∨
      ∃ a d, (a, d) ∈ s.devices.nodes ∧ d.dev = dev ∧
        s.unregisterDevice dev = (0, ⟨s.devices.remove a, s.devCount - 1⟩) := by
  cases h : s.deviceFromdev dev with
  | none =>
      refine Or.inl ⟨?_, by rw [unregisterDevice, h]⟩
      rw [← deviceFromdev_isSome, h]
      exact Bool.false_ne_true
  | some n =>
      obtain ⟨hn, hdev⟩ := SList.find?_mem h
      exact Or.inr ⟨n.1, n.2, hn, by simpa using hdev, by rw [unregisterDevice, h]⟩

/-! ## The invariant -/

/-- Both keys are distinct, the names fit their field, and `dev_count` counts the
devices. -/
structure DevTableOk (s : DevTable) : Prop where
  devs : s.devs.Nodup
  names : s.names.Nodup
  short : ∀ n ∈ s.devices.nodes, n.2.name.length < NAME_MAX
  count : s.devCount = s.devices.nodes.length

/-- Names fit their field, and `kmalloc` finds a fresh block. -/
def Allocates (s : DevTable) : DevCall → Prop
  | .registerDevice _ name _ _ block =>
      name.length < NAME_MAX ∧ ∃ a, block = some a ∧ a ∉ s.devices.addrs
  | .unregisterDevice _ => True

instance {call : DevCall} : Decidable (Allocates s call) :=
  match call with
  | .registerDevice _ name _ _ none => isFalse fun ⟨_, _, h, _⟩ => by cases h
  | .registerDevice _ name _ _ (some a) =>
      decidable_of_iff (name.length < NAME_MAX ∧ a ∉ s.devices.addrs) (by simp [Allocates])
  | .unregisterDevice _ => isTrue trivial

theorem empty_devTableOk : DevTableOk empty :=
  ⟨List.nodup_nil, List.nodup_nil, fun _ hn => absurd hn List.not_mem_nil, rfl⟩

namespace DevTableOk

variable (h : DevTableOk s)

include h

/-- A device value leads to its device. -/
theorem deviceFromdev_eq (hd : (a, d) ∈ s.devices.nodes) : s.deviceFromdev d.dev = some (a, d) := by
  refine SList.find?_eq_some hd (by simp) ?_
  intro n hn hdev
  have hnodup : (s.devices.nodes.map fun n => n.2.dev).Nodup := by
    simpa [DevTable.devs, SList.contents, Function.comp_def] using h.devs
  exact List.inj_on_of_nodup_map hnodup hn hd (by simpa using hdev)

/-- A name leads to its device. -/
theorem deviceFromname_eq (hd : (a, d) ∈ s.devices.nodes) :
    s.deviceFromname d.name = some (a, d) := by
  have hlen : d.name.length < NAME_MAX := h.short _ hd
  rw [deviceFromname, if_neg (by omega)]
  refine SList.find?_eq_some hd (by simp) ?_
  intro n hn hname
  have hnodup : (s.devices.nodes.map fun n => n.2.name).Nodup := by
    simpa [DevTable.names, SList.contents, Function.comp_def] using h.names
  exact List.inj_on_of_nodup_map hnodup hn hd (by simpa using hname)

/-- The position of a device is found by its name. -/
theorem deviceIndexof_eq {i : Nat} {n : Nat × Device} (hi : s.deviceGet i = some n) :
    s.deviceIndexof n.2 = i := by
  obtain ⟨hlt, rfl⟩ := List.getElem?_eq_some_iff.mp hi
  have hfind : s.devices.contents.findIdx? (fun d => d.name = s.devices.nodes[i].2.name) =
      some i := by
    rw [List.findIdx?_eq_some_iff_getElem]
    refine ⟨by rwa [SList.contents, List.length_map], by simp [SList.contents], ?_⟩
    intro j hj hsame
    have hlen : s.names.length = s.devices.nodes.length := by
      simp [DevTable.names, SList.contents]
    have hi' : i < s.names.length := hlen ▸ hlt
    have hj' : j < s.names.length := hj.trans hi'
    have hname : s.names[j] = s.names[i] := by
      simpa [DevTable.names, SList.contents] using hsame
    exact hj.ne (h.names.getElem_inj_iff.mp hname)
  simp only [deviceIndexof, hfind]

theorem insertHead (ha : a ∉ s.devices.addrs) (hlen : d.name.length < NAME_MAX)
    (hdev : d.dev ∉ s.devs) (hname : d.name ∉ s.names) :
    DevTableOk ⟨s.devices.insertHead a d ha, s.devCount + 1⟩ where
  devs := List.nodup_cons.mpr ⟨hdev, h.devs⟩
  names := List.nodup_cons.mpr ⟨hname, h.names⟩
  short n hn := by
    obtain rfl | hn := List.mem_cons.mp hn
    · exact hlen
    · exact h.short n hn
  count := congrArg (· + 1) h.count

theorem remove (hd : (a, d) ∈ s.devices.nodes) :
    DevTableOk ⟨s.devices.remove a, s.devCount - 1⟩ where
  devs := h.devs.sublist (List.filter_sublist.map _ |>.map _)
  names := h.names.sublist (List.filter_sublist.map _ |>.map _)
  short n hn := h.short n (SList.mem_remove.mp hn).1
  count := by
    have hlen := (SList.perm_remove hd).length_eq
    rw [List.length_cons] at hlen
    show s.devCount - 1 = (s.devices.remove a).nodes.length
    rw [h.count, hlen, Nat.add_sub_cancel]

end DevTableOk

/-- Removing the record of a device value is removing the value. -/
theorem DevTableOk.nodes_remove (h : DevTableOk s) (hd : (a, d) ∈ s.devices.nodes) :
    (s.devices.remove a).nodes = s.devices.nodes.filter fun n => n.2.dev ≠ d.dev := by
  rw [SList.remove]
  refine List.filter_congr ?_
  intro n hn
  rw [decide_eq_decide]
  constructor
  · intro hne hdev
    have hfound := h.deviceFromdev_eq (a := n.1) (d := n.2) hn
    rw [hdev, h.deviceFromdev_eq hd, Option.some.injEq] at hfound
    exact hne (congrArg Prod.fst hfound).symm
  · rintro hne rfl
    exact hne (congrArg Device.dev (SList.unique hn hd))

theorem unregisterDevice_nodes (h : DevTableOk s) (dev : Nat) :
    (s.unregisterDevice dev).2.devices.nodes = s.devices.nodes.filter fun n => n.2.dev ≠ dev := by
  obtain ⟨hnew, hsame⟩ | ⟨a, d, hd, rfl, hgone⟩ := s.unregisterDevice_cases dev
  · rw [hsame, eq_comm, List.filter_eq_self]
    intro n hn
    rw [decide_eq_true_eq]
    rintro rfl
    exact hnew (mem_devs.mpr ⟨n, hn, rfl⟩)
  · rw [hgone]
    exact h.nodes_remove hd

/-- One call is defined, keeps the invariant, and leaves the devices that it should. -/
theorem step_devTableOk (s : DevTable) (call : DevCall) (h : DevTableOk s)
    (hcall : Allocates s call) :
    ∃ s', s.step call = some s' ∧ DevTableOk s' ∧
      s'.devices.nodes = call.leaves s.devices.nodes := by
  cases call with
  | registerDevice dev name opts size block =>
      obtain ⟨hlen, a, rfl, ha⟩ := hcall
      rw [step, registerDevice_eq dev size opts hlen ha, DevCall.leaves]
      split
      · exact ⟨s, rfl, h, rfl⟩
      · rename_i hnew
        obtain ⟨hdev, hname⟩ := not_or.mp (mt known_iff.mpr hnew)
        exact ⟨_, rfl, h.insertHead ha hlen hdev hname, rfl⟩
  | unregisterDevice dev =>
      refine ⟨_, rfl, ?_, unregisterDevice_nodes h dev⟩
      obtain ⟨-, hsame⟩ | ⟨a, d, hd, rfl, hgone⟩ := s.unregisterDevice_cases dev
      · rwa [hsame]
      · rw [hgone]
        exact h.remove hd

/-! ## Runs -/

/-- The registry has these devices, and its functions answer for them. -/
structure Consistent (s : DevTable) (reg : List (Nat × Device)) : Prop where
  devs : (reg.map fun n => n.2.dev).Nodup
  names : (reg.map fun n => n.2.name).Nodup
  count : s.deviceCount = reg.length
  get : ∀ i, s.deviceGet i = reg[i]?
  get_isSome : ∀ i, (s.deviceGet i).isSome ↔ i < s.deviceCount
  indexof : ∀ i n, s.deviceGet i = some n → s.deviceIndexof n.2 = i
  fromdev : ∀ dev a d, s.deviceFromdev dev = some (a, d) ↔ (a, d) ∈ reg ∧ d.dev = dev
  fromname : ∀ name a d, name.length < NAME_MAX →
    (s.deviceFromname name = some (a, d) ↔ (a, d) ∈ reg ∧ d.name = name)
  /-- A registration is refused exactly when one of its keys is known. -/
  exists_iff : ∀ dev name opts size a, name.length < NAME_MAX → a ∉ s.devices.addrs →
    ∃ r s', s.registerDevice dev name opts size (some a) = some (r, s') ∧
      (r = -EEXIST ↔ Known reg dev name) ∧ (r = 0 ↔ ¬ Known reg dev name)
  noDev_iff : ∀ dev, (s.unregisterDevice dev).1 = -ENODEV ↔ ∀ n ∈ reg, n.2.dev ≠ dev

/-- Both keys of a device lead to its record, after every run of calls that do
not unregister it. -/
def KeepsRecords (s : DevTable) : Prop :=
  ∀ dev name opts size a s', name.length < NAME_MAX → a ∉ s.devices.addrs →
    s.registerDevice dev name opts size (some a) = some (0, s') →
      ∀ calls, Meets step Allocates s' calls → .unregisterDevice dev ∉ calls →
      ∃ t, run step s' calls = some t ∧
        t.deviceFromdev dev = some (a, ⟨dev, size, name, opts⟩) ∧
        t.deviceFromname name = some (a, ⟨dev, size, name, opts⟩)

theorem DevTableOk.consistent (h : DevTableOk s) : Consistent s s.devices.nodes where
  devs := by simpa [DevTable.devs, SList.contents, Function.comp_def] using h.devs
  names := by simpa [DevTable.names, SList.contents, Function.comp_def] using h.names
  count := h.count
  get _ := rfl
  get_isSome i := by rw [deviceGet, SList.nth?_isSome, deviceCount, h.count]
  indexof i n hi := h.deviceIndexof_eq hi
  fromdev dev a d := by
    constructor
    · intro hfound
      obtain ⟨hd, hdev⟩ := SList.find?_mem hfound
      exact ⟨hd, by simpa using hdev⟩
    · rintro ⟨hd, rfl⟩
      exact h.deviceFromdev_eq hd
  fromname name a d hlen := by
    constructor
    · intro hfound
      rw [deviceFromname, if_neg (by omega)] at hfound
      obtain ⟨hd, hname⟩ := SList.find?_mem hfound
      exact ⟨hd, by simpa using hname⟩
    · rintro ⟨hd, rfl⟩
      exact h.deviceFromname_eq hd
  exists_iff dev name opts size a hlen ha := by
    rw [registerDevice_eq dev size opts hlen ha]
    split
    · rename_i hknown
      exact ⟨_, _, rfl, iff_of_true rfl hknown, iff_of_false (by decide) (not_not_intro hknown)⟩
    · rename_i hnew
      exact ⟨_, _, rfl, iff_of_false (by decide) hnew, iff_of_true rfl hnew⟩
  noDev_iff dev := by
    obtain ⟨hnew, hsame⟩ | ⟨a, d, hd, rfl, hgone⟩ := s.unregisterDevice_cases dev
    · refine iff_of_true (by rw [hsame]) ?_
      rintro n hn rfl
      exact hnew (mem_devs.mpr ⟨n, hn, rfl⟩)
    · have hzero : (0 : Int) ≠ -ENODEV := by decide
      rw [hgone]
      exact iff_of_false hzero fun hall => hall _ hd rfl

/-- A run leaves the devices that its calls should leave. -/
theorem run_devTableOk (hs : DevTableOk s) (calls : List DevCall)
    (hcalls : Meets step Allocates s calls) :
    ∃ t, run step s calls = some t ∧ DevTableOk t ∧
      t.devices.nodes = calls.foldl DevCall.leaves s.devices.nodes := by
  induction calls generalizing s with
  | nil => exact ⟨s, rfl, hs, rfl⟩
  | cons call calls ih =>
      obtain ⟨t, ht, hok, hleaves⟩ := step_devTableOk s call hs hcalls.1
      obtain ⟨t', hrun, hok', hnodes⟩ := ih hok (hcalls.2 t ht)
      exact ⟨t', run_cons.mpr ⟨t, ht, hrun⟩, hok', by rw [hnodes, hleaves, List.foldl_cons]⟩

/-- A device stays until its value is unregistered. -/
theorem mem_foldl_leaves {n : Nat × Device} (calls : List DevCall) {reg : List (Nat × Device)}
    (hn : n ∈ reg) (hkeep : .unregisterDevice n.2.dev ∉ calls) :
    n ∈ calls.foldl DevCall.leaves reg := by
  induction calls generalizing reg with
  | nil => exact hn
  | cons call calls ih =>
      obtain ⟨hcall, hrest⟩ := not_or.mp (mt List.mem_cons.mpr hkeep)
      refine ih ?_ hrest
      cases call with
      | registerDevice dev name opts size block =>
          cases block with
          | none => exact hn
          | some a =>
              rw [DevCall.leaves]
              split
              · exact hn
              · exact List.mem_cons_of_mem _ hn
      | unregisterDevice dev =>
          refine List.mem_filter.mpr ⟨hn, ?_⟩
          rw [decide_eq_true_eq]
          rintro rfl
          exact hcall rfl

theorem DevTableOk.keepsRecords (h : DevTableOk s) : KeepsRecords s := by
  intro dev name opts size a s' hlen ha hreg calls hcalls hkeep
  rw [registerDevice_eq dev size opts hlen ha] at hreg
  split at hreg
  · cases hreg
  · rename_i hnew
    obtain ⟨hdev, hname⟩ := not_or.mp (mt known_iff.mpr hnew)
    obtain ⟨-, rfl⟩ := Prod.mk.inj (Option.some.inj hreg)
    obtain ⟨t, hrun, hok, hnodes⟩ := run_devTableOk (h.insertHead ha hlen hdev hname) calls hcalls
    have hd : (a, ⟨dev, size, name, opts⟩) ∈ t.devices.nodes := by
      rw [hnodes]
      exact mem_foldl_leaves calls List.mem_cons_self hkeep
    exact ⟨t, hrun, hok.deviceFromdev_eq hd, hok.deviceFromname_eq hd⟩

/-- In every run with names that fit and memory for them, the registry has the devices that
the calls leave registered, answers for them, and keeps their records. -/
theorem runs_deviceTable (calls : List DevCall) (h : Meets step Allocates empty calls) :
    ∃ s, run step empty calls = some s ∧ Consistent s (registered calls) ∧ KeepsRecords s := by
  obtain ⟨s, hs, hok, hnodes⟩ := run_devTableOk empty_devTableOk calls h
  refine ⟨s, hs, ?_, hok.keepsRecords⟩
  have hreg : registered calls = s.devices.nodes := hnodes.symm
  rw [hreg]
  exact hok.consistent

/-- Three devices are registered, the first is refused once more, and the second is
removed. -/
theorem runs_deviceTable_three :
    ∃ s, run step empty
      [.registerDevice 256 [97] .blkdev 512 (some 0x1000),
        .registerDevice 512 [98] .tty 0 (some 0x2000),
        .registerDevice 257 [99] .blkdev 512 (some 0x3000),
        .registerDevice 256 [100] .blkdev 512 (some 0x4000), .unregisterDevice 512] = some s ∧
      Consistent s [(0x3000, ⟨257, 512, [99], .blkdev⟩), (0x1000, ⟨256, 512, [97], .blkdev⟩)] ∧
      KeepsRecords s :=
  runs_deviceTable [.registerDevice 256 [97] .blkdev 512 (some 0x1000),
    .registerDevice 512 [98] .tty 0 (some 0x2000),
    .registerDevice 257 [99] .blkdev 512 (some 0x3000),
    .registerDevice 256 [100] .blkdev 512 (some 0x4000), .unregisterDevice 512] (by decide)

end DevTable

end StardustOS.Dev
