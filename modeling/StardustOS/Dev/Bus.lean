import StardustOS.Dev.Registry
import StardustOS.Lib.Run

/-!
# Buses

`bus.c`: a bus has a list of bus devices, and a driver is attached to a bus device
by storing the name of the driver's device in it.

A record that `kmalloc` returns holds what was in memory there before.  A call that
allocates one is given that content as a record, and stores the fields it sets.
The list of a bus ends with a pointer, `devEnd`.  It is NULL in a list that was
built up from an empty one, and a walk that comes to any other is undefined.

Bus devices are found by their names: the lookups return the first one of a name,
and so a pointer to one is its name.  `driverOf` is the driver attached to the bus
device of a name; the equations of this file say what each update makes of it.
-/

namespace StardustOS.Dev

/-- `bus_dev_t`, less the fields that nothing reads. -/
structure BusDev where
  name : List UInt8
  /-- The string in the field: the bytes up to the first NUL. -/
  dname : List UInt8
  /-- `res_list.slh_first`. -/
  resList : Nat
  flags : UInt8
deriving DecidableEq, Repr

/-- `bus_t`, less its place in the list of buses. -/
structure Bus where
  name : List UInt8
  devList : List BusDev
  /-- The pointer at the end of the list. -/
  devEnd : Nat
  devCount : Nat
deriving DecidableEq, Repr

namespace Bus

variable (devs : Devices) (bus : Bus)

/-! ## The source -/

/-- What a walk over the list that has found `found` returns. -/
def found {α : Type} (found : Option α) : Option (Option α) :=
  match found with
  | some x => some (some x)
  | none => if bus.devEnd = 0 then some none else none

/-- `bus_getdevbyname`. -/
def busGetdevbyname (name : List UInt8) : Option (Option BusDev) :=
  bus.found (bus.devList.find? fun dev => dev.name = name)

/-- The loop of `bus_getdev`. -/
def getdevLoop (name : List UInt8) : List BusDev → Option Device
  | [] => none
  | bdev :: rest =>
      if bdev.dname.length = 0 then getdevLoop name rest
      else
        match devs.deviceFromname bdev.dname with
        | none => getdevLoop name rest
        | some dev => if dev.name = name then some dev else getdevLoop name rest

/-- `bus_getdev`. -/
def busGetdev (name : List UInt8) : Option (Option Device) :=
  bus.found (getdevLoop devs name bus.devList)

/-- The first bus device of the name gets a new `dname`. -/
def setDname (name dname : List UInt8) : List BusDev → List BusDev
  | [] => []
  | dev :: rest =>
      if dev.name = name then { dev with dname := dname } :: rest
      else dev :: setDname name dname rest

/-- `bus_regdev`.  A name that leaves no room for its NUL is undefined. -/
def busRegdev (name dname : List UInt8) : Option (Int × Bus) := do
  match ← bus.busGetdev devs dname with
  | some _ => some (-EEXIST, bus)
  | none =>
      match ← bus.busGetdevbyname name with
      | none => some (-ENOENT, bus)
      | some _ =>
          if dname.length < NAME_MAX then
            some (0, { bus with devList := setDname name dname bus.devList })
          else none

/-- `bus_unregdev`.  The whole field is cleared. -/
def busUnregdev (name dname : List UInt8) : Option (Int × Bus) := do
  match ← bus.busGetdev devs dname with
  | none => some (-ENOENT, bus)
  | some _ =>
      match ← bus.busGetdevbyname name with
      | none => some (-ENOENT, bus)
      | some _ => some (0, { bus with devList := setDname name [] bus.devList })

/-- `register_bus`, less the list of the buses.  `block` is the pointer that the memory
which `kmalloc` returns holds where `dev_list` is. -/
def registerBus (type : Option (List UInt8)) (name : List UInt8) (block : Option Nat) :
    Option (Int × Option Bus) :=
  if (∃ t ∈ type, t.length > NAME_MAX) ∨ name.length > NAME_MAX then some (-ENAMETOOLONG, none)
  else
    match block with
    | none => some (-ENOMEM, none)
    | some head =>
        if (∃ t ∈ type, t.length = NAME_MAX) ∨ name.length = NAME_MAX then none
        else some (0, some { name, devList := [], devEnd := head, devCount := 0 })

/-- `bus_adddev`.  `block` is what the memory that `kmalloc` returns holds. -/
def busAdddev (name : List UInt8) (block : Option BusDev) : Option (Int × Bus) := do
  match ← bus.busGetdevbyname name with
  | some _ => some (-EEXIST, bus)
  | none =>
      match block with
      | none => some (-ENOMEM, bus)
      | some mem =>
          if name.length < NAME_MAX then
            some (0, { bus with
              devList := { mem with name := name } :: bus.devList
              devCount := bus.devCount + 1 })
          else none

/-- `bus_remdev`. -/
def busRemdev (name : List UInt8) : Option (Int × Bus) := do
  match ← bus.busGetdevbyname name with
  | none => some (-ENOENT, bus)
  | some _ =>
      some (0, { bus with
        devList := bus.devList.eraseP fun dev => dev.name = name
        devCount := bus.devCount - 1 })

end Bus

/-- A call on a bus. -/
inductive BusCall
  | adddev (name : List UInt8) (block : Option BusDev)
  | remdev (name : List UInt8)
  | regdev (name dname : List UInt8)
  | unregdev (name dname : List UInt8)

namespace Bus

/-- The call, with its result. -/
def call (devs : Devices) (bus : Bus) : BusCall → Option (Int × Bus)
  | .adddev name block => bus.busAdddev name block
  | .remdev name => bus.busRemdev name
  | .regdev name dname => bus.busRegdev devs name dname
  | .unregdev name dname => bus.busUnregdev devs name dname

def step (devs : Devices) (bus : Bus) (c : BusCall) : Option Bus := (bus.call devs c).map Prod.snd

/-! ## Drivers -/

/-- The driver of a bus device: the registered device that its `dname` names. -/
def driver (devs : Devices) (dev : BusDev) : Option (List UInt8) :=
  if dev.dname.length = 0 then none else (devs.deviceFromname dev.dname).map Device.name

/-- The driver that is attached to the bus device of the name. -/
def driverOf (devs : Devices) (bus : Bus) (name : List UInt8) : Option (List UInt8) :=
  (bus.devList.find? fun dev => dev.name = name).bind (driver devs)

/-! ## Lookups -/

variable {devs : Devices} {bus : Bus} {name n d : List UInt8}

theorem found_eq {α : Type} (h : bus.devEnd = 0) (x : Option α) : bus.found x = some x := by
  cases x with
  | none => exact if_pos h
  | some x => rfl

theorem deviceFromname_name {dev : Device} (h : devs.deviceFromname n = some dev) :
    dev.name = n := by
  rw [Devices.deviceFromname] at h
  split at h
  · cases h
  · simpa using List.find?_some h

theorem driver_eq_some {dev : BusDev} :
    driver devs dev = some d ↔ dev.dname = d ∧ d ≠ [] ∧ (devs.deviceFromname d).isSome := by
  rw [driver]
  split
  · rename_i hempty
    rw [List.length_eq_zero_iff] at hempty
    simp only [hempty, reduceCtorEq, false_iff]
    rintro ⟨rfl, hne, -⟩
    exact hne rfl
  · rename_i hempty
    rw [List.length_eq_zero_iff] at hempty
    constructor
    · intro h
      obtain ⟨x, hx, hd⟩ := Option.map_eq_some_iff.mp h
      obtain rfl : dev.dname = d := (deviceFromname_name hx).symm.trans hd
      exact ⟨rfl, hempty, by rw [hx]; rfl⟩
    · rintro ⟨rfl, -, hsome⟩
      obtain ⟨x, hx⟩ := Option.isSome_iff_exists.mp hsome
      rw [hx, Option.map_some, deviceFromname_name hx]

theorem driver_dname_nil (dev : BusDev) : driver devs { dev with dname := [] } = none := rfl

/-- `bus_getdev` finds a device when it is the driver of some bus device. -/
theorem getdevLoop_isSome {l : List BusDev} :
    (getdevLoop devs d l).isSome ↔ ∃ dev ∈ l, driver devs dev = some d := by
  induction l with
  | nil => simp [getdevLoop]
  | cons dev l ih =>
      simp only [List.mem_cons, exists_eq_or_imp]
      rw [← ih, getdevLoop, driver]
      split
      · simp
      · cases hdev : devs.deviceFromname dev.dname with
        | none => simp
        | some x =>
            by_cases hx : x.name = d
            · simp [hx]
            · simp [hx]

/-! ## Updates -/

section Updates

variable {dname : List UInt8} {l : List BusDev}

theorem map_name_setDname (name dname : List UInt8) (l : List BusDev) :
    (setDname name dname l).map BusDev.name = l.map BusDev.name := by
  induction l with
  | nil => rfl
  | cons dev l ih =>
      rw [setDname]
      split
      · rfl
      · rw [List.map_cons, List.map_cons, ih]

theorem find?_setDname : (setDname name dname l).find? (fun dev => dev.name = n) =
    if n = name then (l.find? fun dev => dev.name = n).map ({ · with dname := dname })
    else l.find? fun dev => dev.name = n := by
  induction l with
  | nil => simp [setDname]
  | cons dev l ih =>
      rw [setDname]
      by_cases hdev : dev.name = name
      · by_cases hn : n = name
        · simp [hdev, hn]
        · simp [hdev, hn, Ne.symm hn]
      · by_cases hn : n = name
        · subst hn
          simpa [hdev] using ih
        · by_cases hdn : dev.name = n
          · simp [hn, hdn]
          · simpa [hdev, hn, hdn] using ih

theorem find?_eraseP_name (h : (l.map BusDev.name).Nodup) :
    (l.eraseP fun dev => dev.name = name).find? (fun dev => dev.name = n) =
      if n = name then none else l.find? fun dev => dev.name = n := by
  induction l with
  | nil => simp
  | cons dev l ih =>
      rw [List.map_cons, List.nodup_cons] at h
      by_cases hdev : dev.name = name
      · by_cases hn : n = name
        · have hnone : l.find? (fun dev => dev.name = name) = none := by
            rw [List.find?_eq_none]
            intro x hx
            have hne : x.name ≠ name := fun hx' =>
              h.1 (hdev ▸ hx' ▸ List.mem_map_of_mem hx)
            simpa using hne
          simp [hdev, hn, hnone]
        · simp [hdev, hn, Ne.symm hn]
      · by_cases hdn : dev.name = n
        · subst hdn
          simp [hdev]
        · simpa [hdev, hdn] using ih h.2

end Updates

end Bus

end StardustOS.Dev
