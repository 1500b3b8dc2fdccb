import Mathlib.Data.List.Nodup
import StardustOS.Dev.Bus

/-!
# Drivers of bus devices

A driver should be attached to one bus device at most, and to attach or detach one
should leave the others alone.  The checks of `bus_regdev` and `bus_unregdev` look
for the driver on the whole bus, while the update is made to the bus device that is
named.  So `bus_regdev` replaces the driver of a bus device that has another one,
and `bus_unregdev` clears a bus device for a driver that is attached elsewhere.  A
new bus device has whatever driver the memory for it spells.

`callRight_iff` says for each call when none of this happens, and `meets_callRight_iff`
carries it to runs.
-/

namespace StardustOS.Dev.Bus

open Lib

/-- No two bus devices have one name or one driver, and `dev_count` counts them. -/
structure BusOk (devs : Devices) (bus : Bus) : Prop where
  ends : bus.devEnd = 0
  names : (bus.devList.map BusDev.name).Nodup
  count : bus.devCount = bus.devList.length
  drivers : ∀ name name' d, bus.driverOf devs name = some d → bus.driverOf devs name' = some d →
    name = name'

/-- What a call should do.  It is defined and leaves names and drivers distinct.  A
`bus_regdev` that succeeds attaches the driver and detaches none.  A `bus_unregdev`
succeeds exactly when the driver is attached to that bus device; it detaches it and
changes no other. -/
def CallRight (devs : Devices) (bus : Bus) (c : BusCall) : Prop :=
  ∃ r bus', bus.call devs c = some (r, bus') ∧ BusOk devs bus' ∧
    match c with
    | .adddev .. | .remdev _ => True
    | .regdev name d =>
        r = 0 → bus'.driverOf devs name = some d ∧
          ∀ n e, bus.driverOf devs n = some e → bus'.driverOf devs n = some e
    | .unregdev name d =>
        (r = 0 ↔ bus.driverOf devs name = some d) ∧
          (r = 0 → bus'.driverOf devs name = none ∧
            ∀ n ≠ name, bus'.driverOf devs n = bus.driverOf devs n)

/-- The driver is attached to some bus device. -/
def Attached (devs : Devices) (bus : Bus) (d : List UInt8) : Prop :=
  ∃ name, bus.driverOf devs name = some d

/-- There is a bus device of the name. -/
def Known (bus : Bus) (name : List UInt8) : Prop := name ∈ bus.devList.map BusDev.name

/-- What the callers should see to.  A driver is attached only where there is none.
It is detached where it is attached and not elsewhere.  The memory for a new bus
device does not spell a driver that is attached already. -/
def Careful (devs : Devices) (bus : Bus) : BusCall → Prop
  | .adddev name block =>
      bus.Known name ∨ ∀ mem ∈ block, name.length < NAME_MAX ∧
        ∀ d, driver devs mem = some d → ¬ bus.Attached devs d
  | .remdev _ => True
  | .regdev name d =>
      bus.Attached devs d ∨ ¬ bus.Known name ∨
        d ≠ [] ∧ d.length < NAME_MAX ∧ bus.driverOf devs name = none
  | .unregdev name d =>
      ¬ bus.Attached devs d ∨ ¬ bus.Known name ∨ bus.driverOf devs name = some d

/-- The driver of the call is a registered device. -/
def OfDriver (devs : Devices) : BusCall → Prop
  | .adddev .. | .remdev _ => True
  | .regdev _ d | .unregdev _ d => (devs.deviceFromname d).isSome

/-- `register_bus` has just made the bus. -/
def Made (bus : Bus) : Prop :=
  ∃ type name block, registerBus type name block = some (0, some bus)

variable {devs : Devices} {bus : Bus} {name n d : List UInt8}

/-! ## Lookups on a bus -/

theorem mem_names_iff : bus.Known name ↔ ∃ dev, bus.devList.find? (fun dev => dev.name = name) =
    some dev := by
  rw [Known, ← Option.isSome_iff_exists, List.find?_isSome]
  simp

theorem not_known_iff : ¬ bus.Known name ↔
    bus.devList.find? (fun dev => dev.name = name) = none := by
  rw [mem_names_iff, ← Option.isSome_iff_exists, Option.not_isSome_iff_eq_none]

/-- A driver that a bus device has is attached under the name of that device. -/
theorem driverOf_of_mem (h : (bus.devList.map BusDev.name).Nodup) {dev : BusDev}
    (hdev : dev ∈ bus.devList) : bus.driverOf devs dev.name = driver devs dev := by
  have hfind : bus.devList.find? (fun x => x.name = dev.name) = some dev := by
    obtain ⟨x, hx⟩ := mem_names_iff.mp (List.mem_map_of_mem hdev)
    have hname : x.name = dev.name := by simpa using List.find?_some hx
    rw [hx, List.inj_on_of_nodup_map h (List.mem_of_find?_eq_some hx) hdev hname]
  rw [driverOf, hfind, Option.bind_some]

theorem driverOf_known (h : bus.driverOf devs name = some d) : bus.Known name := by
  obtain ⟨dev, hdev, -⟩ := Option.bind_eq_some_iff.mp h
  exact mem_names_iff.mpr ⟨dev, hdev⟩

theorem driverOf_ne_nil (h : bus.driverOf devs name = some d) : d ≠ [] := by
  obtain ⟨dev, -, hd⟩ := Option.bind_eq_some_iff.mp h
  exact (driver_eq_some.mp hd).2.1

theorem getdevLoop_isSome_iff (h : BusOk devs bus) :
    (getdevLoop devs d bus.devList).isSome ↔ bus.Attached devs d := by
  rw [getdevLoop_isSome]
  constructor
  · rintro ⟨dev, hdev, hd⟩
    exact ⟨dev.name, (driverOf_of_mem h.names hdev).trans hd⟩
  · rintro ⟨name, hname⟩
    obtain ⟨dev, hdev, hd⟩ := Option.bind_eq_some_iff.mp hname
    exact ⟨dev, List.mem_of_find?_eq_some hdev, hd⟩

/-! ## Updates of the list -/

/-- The bus with a new `dname` at a bus device. -/
def withDname (bus : Bus) (name dname : List UInt8) : Bus :=
  { bus with devList := setDname name dname bus.devList }

/-- The bus with a new bus device. -/
def withDev (bus : Bus) (dev : BusDev) : Bus :=
  { bus with devList := dev :: bus.devList, devCount := bus.devCount + 1 }

theorem driverOf_withDname_ne {dname : List UInt8} (hn : n ≠ name) :
    (bus.withDname name dname).driverOf devs n = bus.driverOf devs n := by
  rw [driverOf, withDname, find?_setDname, if_neg hn, driverOf]

theorem driverOf_withDname (hname : bus.Known name) (hd : d ≠ [])
    (hreg : (devs.deviceFromname d).isSome) :
    (bus.withDname name d).driverOf devs name = some d := by
  obtain ⟨dev, hdev⟩ := mem_names_iff.mp hname
  rw [driverOf, withDname, find?_setDname, if_pos rfl, hdev, Option.map_some, Option.bind_some]
  exact driver_eq_some.mpr ⟨rfl, hd, hreg⟩

theorem driverOf_withDname_nil : (bus.withDname name []).driverOf devs name = none := by
  rw [driverOf, withDname, find?_setDname, if_pos rfl]
  cases bus.devList.find? fun dev => dev.name = name with
  | none => rfl
  | some dev => exact driver_dname_nil dev

/-- Drivers stay distinct when one bus device gets none, or one that is attached nowhere. -/
theorem BusOk.drivers_update (h : BusOk devs bus) (name : List UInt8) {bus' : Bus}
    {x : Option (List UInt8)}
    (hdriver : ∀ n, bus'.driverOf devs n = if n = name then x else bus.driverOf devs n)
    (hx : ∀ e, x = some e → ¬ bus.Attached devs e) (m m' : List UInt8) (e : List UInt8)
    (hm : bus'.driverOf devs m = some e) (hm' : bus'.driverOf devs m' = some e) : m = m' := by
  rw [hdriver] at hm hm'
  split at hm
  · next hmn =>
      split at hm'
      · next hmn' => rw [hmn, hmn']
      · exact absurd ⟨m', hm'⟩ (hx e hm)
  · split at hm'
    · exact absurd ⟨m, hm⟩ (hx e hm')
    · exact h.drivers m m' e hm hm'

/-- Names and count stay. -/
theorem BusOk.withDname (h : BusOk devs bus) {dname : List UInt8}
    (hfresh : ∀ e, (bus.withDname name dname).driverOf devs name = some e →
      ¬ bus.Attached devs e) :
    BusOk devs (bus.withDname name dname) where
  ends := h.ends
  names := by
    rw [Bus.withDname, map_name_setDname]
    exact h.names
  count := by
    have hlen := congrArg List.length (map_name_setDname name dname bus.devList)
    rw [List.length_map, List.length_map] at hlen
    exact h.count.trans hlen.symm
  drivers := by
    refine h.drivers_update name (fun n => ?_) hfresh
    split
    · next hn => rw [hn]
    · next hn => exact driverOf_withDname_ne hn

/-! ## What the calls do -/

theorem busGetdev_eq (h : BusOk devs bus) (d : List UInt8) :
    bus.busGetdev devs d = some (getdevLoop devs d bus.devList) := found_eq h.ends _

theorem busGetdevbyname_eq (h : BusOk devs bus) (name : List UInt8) :
    bus.busGetdevbyname name = some (bus.devList.find? fun dev => dev.name = name) :=
  found_eq h.ends _

/-- `bus_regdev` fails and changes nothing, or stores the name. -/
theorem busRegdev_cases (h : BusOk devs bus) (name d : List UInt8) :
    (bus.Attached devs d ∧ bus.busRegdev devs name d = some (-EEXIST, bus)) ∨
      (¬ bus.Known name ∧ bus.busRegdev devs name d = some (-ENOENT, bus)) ∨
      ¬ bus.Attached devs d ∧ bus.Known name ∧ bus.busRegdev devs name d =
        if d.length < NAME_MAX then some (0, bus.withDname name d) else none := by
  have hatt := getdevLoop_isSome_iff (d := d) h
  simp only [busRegdev, busGetdev_eq h, busGetdevbyname_eq h, Option.bind_eq_bind, Option.bind_some]
  cases hget : getdevLoop devs d bus.devList with
  | some dev => exact Or.inl ⟨hatt.mp (by rw [hget]; rfl), rfl⟩
  | none =>
      have hnot : ¬ bus.Attached devs d := fun ha => by simpa [hget] using hatt.mpr ha
      cases hname : bus.devList.find? fun dev => dev.name = name with
      | none => exact Or.inr (Or.inl ⟨not_known_iff.mpr hname, rfl⟩)
      | some dev => exact Or.inr (Or.inr ⟨hnot, mem_names_iff.mpr ⟨dev, hname⟩, rfl⟩)

/-- `bus_unregdev` fails and changes nothing, or clears the name. -/
theorem busUnregdev_cases (h : BusOk devs bus) (name d : List UInt8) :
    (¬ (bus.Attached devs d ∧ bus.Known name) ∧
        bus.busUnregdev devs name d = some (-ENOENT, bus)) ∨
      bus.Attached devs d ∧ bus.Known name ∧
        bus.busUnregdev devs name d = some (0, bus.withDname name []) := by
  have hatt := getdevLoop_isSome_iff (d := d) h
  simp only [busUnregdev, busGetdev_eq h, busGetdevbyname_eq h, Option.bind_eq_bind,
    Option.bind_some]
  cases hget : getdevLoop devs d bus.devList with
  | none =>
      have hnot : ¬ bus.Attached devs d := fun ha => by simpa [hget] using hatt.mpr ha
      exact Or.inl ⟨fun ha => hnot ha.1, rfl⟩
  | some dev =>
      cases hname : bus.devList.find? fun dev => dev.name = name with
      | none => exact Or.inl ⟨fun ha => not_known_iff.mpr hname ha.2, rfl⟩
      | some x =>
          exact Or.inr ⟨hatt.mp (by rw [hget]; rfl), mem_names_iff.mpr ⟨x, hname⟩, rfl⟩

theorem busAdddev_known (hend : bus.devEnd = 0) (hname : bus.Known name)
    (block : Option BusDev) : bus.busAdddev name block = some (-EEXIST, bus) := by
  obtain ⟨dev, hdev⟩ := mem_names_iff.mp hname
  unfold busAdddev
  rw [busGetdevbyname, found_eq hend, hdev]
  rfl

theorem busAdddev_new (hend : bus.devEnd = 0) (hname : ¬ bus.Known name)
    (block : Option BusDev) : bus.busAdddev name block =
      match block with
      | none => some (-ENOMEM, bus)
      | some mem =>
          if name.length < NAME_MAX then some (0, bus.withDev { mem with name := name })
          else none := by
  unfold busAdddev
  rw [busGetdevbyname, found_eq hend, not_known_iff.mp hname]
  rfl

/-- `bus_adddev` fails and changes nothing, or puts the new bus device first. -/
theorem busAdddev_cases (h : BusOk devs bus) (name : List UInt8) (block : Option BusDev) :
    ((bus.Known name ∨ block = none) ∧ ∃ r, bus.busAdddev name block = some (r, bus)) ∨
      ∃ mem, ¬ bus.Known name ∧ block = some mem ∧ bus.busAdddev name block =
        if name.length < NAME_MAX then
          some (0, { bus with
            devList := { mem with name := name } :: bus.devList
            devCount := bus.devCount + 1 })
        else none := by
  by_cases hname : bus.Known name
  · exact Or.inl ⟨Or.inl hname, _, busAdddev_known h.ends hname block⟩
  · cases block with
    | none => exact Or.inl ⟨Or.inr rfl, _, busAdddev_new h.ends hname none⟩
    | some mem => exact Or.inr ⟨mem, hname, rfl, busAdddev_new h.ends hname (some mem)⟩

/-- `bus_remdev` fails and changes nothing, or takes the bus device out. -/
theorem busRemdev_cases (h : BusOk devs bus) (name : List UInt8) :
    bus.busRemdev name = some (-ENOENT, bus) ∨
      bus.Known name ∧ bus.busRemdev name = some (0, { bus with
        devList := bus.devList.eraseP fun dev => dev.name = name
        devCount := bus.devCount - 1 }) := by
  simp only [busRemdev, busGetdevbyname_eq h, Option.bind_eq_bind, Option.bind_some]
  cases hname : bus.devList.find? fun dev => dev.name = name with
  | none => exact Or.inl rfl
  | some dev => exact Or.inr ⟨mem_names_iff.mpr ⟨dev, hname⟩, rfl⟩

/-! ## One call -/

theorem callRight_regdev_iff (h : BusOk devs bus) (hd : (devs.deviceFromname d).isSome) :
    CallRight devs bus (.regdev name d) ↔ Careful devs bus (.regdev name d) := by
  rcases busRegdev_cases h name d with ⟨hatt, heq⟩ | ⟨hknown, heq⟩ | ⟨hnot, hknown, heq⟩
  · exact iff_of_true ⟨_, _, heq, h, fun hr => absurd hr (by decide)⟩ (Or.inl hatt)
  · exact iff_of_true ⟨_, _, heq, h, fun hr => absurd hr (by decide)⟩ (Or.inr (Or.inl hknown))
  · constructor
    · rintro ⟨r, bus', hcall, -, hright⟩
      rw [call, heq] at hcall
      split at hcall
      · rename_i hlen
        obtain ⟨rfl, rfl⟩ := Prod.mk.inj (Option.some.inj hcall)
        obtain ⟨hnew, hkeep⟩ := hright rfl
        refine Or.inr (Or.inr ⟨driverOf_ne_nil hnew, hlen, ?_⟩)
        -- a driver that was there would be the new one, which is attached nowhere
        cases hold : bus.driverOf devs name with
        | none => rfl
        | some e =>
            obtain rfl := Option.some.inj (hnew.symm.trans (hkeep name e hold))
            exact absurd ⟨name, hold⟩ hnot
      · cases hcall
    · rintro (hatt | hunknown | ⟨hne, hlen, hnone⟩)
      · exact absurd hatt hnot
      · exact absurd hknown hunknown
      · have hnew := driverOf_withDname hknown hne hd
        refine ⟨0, bus.withDname name d, by rw [call, heq, if_pos hlen], h.withDname ?_, ?_⟩
        · intro e he
          obtain rfl := Option.some.inj (hnew.symm.trans he)
          exact hnot
        · intro _
          refine ⟨hnew, fun n e hn => ?_⟩
          rw [driverOf_withDname_ne, hn]
          rintro rfl
          cases hnone.symm.trans hn

theorem callRight_unregdev_iff (h : BusOk devs bus) :
    CallRight devs bus (.unregdev name d) ↔ Careful devs bus (.unregdev name d) := by
  rcases busUnregdev_cases h name d with ⟨hnot, heq⟩ | ⟨hatt, hknown, heq⟩
  · have hdriver : bus.driverOf devs name ≠ some d := fun hd =>
      hnot ⟨⟨name, hd⟩, driverOf_known hd⟩
    refine iff_of_true ⟨_, _, heq, h, iff_of_false (by decide) hdriver, ?_⟩ ?_
    · exact fun hr => absurd hr (by decide)
    · rcases not_and_or.mp hnot with hatt | hknown
      · exact Or.inl hatt
      · exact Or.inr (Or.inl hknown)
  · constructor
    · rintro ⟨r, bus', hcall, -, hright, -⟩
      rw [call, heq] at hcall
      obtain ⟨rfl, rfl⟩ := Prod.mk.inj (Option.some.inj hcall)
      exact Or.inr (Or.inr (hright.mp rfl))
    · rintro (hunatt | hunknown | hd)
      · exact absurd hatt hunatt
      · exact absurd hknown hunknown
      · refine ⟨0, bus.withDname name [], heq, h.withDname ?_, iff_of_true rfl hd, fun _ =>
          ⟨driverOf_withDname_nil, fun n hn => driverOf_withDname_ne hn⟩⟩
        intro e he
        cases driverOf_withDname_nil.symm.trans he

theorem driverOf_withDev (mem : BusDev) (name n : List UInt8) :
    (bus.withDev { mem with name := name }).driverOf devs n =
      if n = name then driver devs mem else bus.driverOf devs n := by
  rw [driverOf, withDev, List.find?_cons]
  by_cases hn : n = name
  · rw [if_pos hn, hn]
    simp [driver]
  · rw [if_neg hn, driverOf]
    simp [Ne.symm hn]

/-- The driver that the memory of the new bus device spells is the one thing that
could be attached twice. -/
theorem BusOk.withDev_iff (h : BusOk devs bus) (hname : ¬ bus.Known name) (mem : BusDev) :
    BusOk devs (bus.withDev { mem with name := name }) ↔
      ∀ d, driver devs mem = some d → ¬ bus.Attached devs d := by
  constructor
  · rintro hok d hd ⟨n, hn⟩
    have hne : n ≠ name := by
      rintro rfl
      exact hname (driverOf_known hn)
    refine hne (hok.drivers n name d ?_ ?_)
    · rw [driverOf_withDev, if_neg hne, hn]
    · rw [driverOf_withDev, if_pos rfl, hd]
  · intro hfresh
    refine ⟨h.ends, List.nodup_cons.mpr ⟨hname, h.names⟩, congrArg (· + 1) h.count, ?_⟩
    exact h.drivers_update name (driverOf_withDev mem name) hfresh

theorem callRight_adddev_iff (h : BusOk devs bus) (block : Option BusDev) :
    CallRight devs bus (.adddev name block) ↔ Careful devs bus (.adddev name block) := by
  rcases busAdddev_cases h name block with ⟨hcase, r, heq⟩ | ⟨mem, hname, rfl, heq⟩
  · refine iff_of_true ⟨r, bus, heq, h, trivial⟩ ?_
    rcases hcase with hknown | rfl
    · exact Or.inl hknown
    · exact Or.inr fun mem hmem => by cases hmem
  · constructor
    · rintro ⟨r, bus', hcall, hok, -⟩
      rw [call, heq] at hcall
      split at hcall
      · rename_i hlen
        obtain ⟨rfl, rfl⟩ := Prod.mk.inj (Option.some.inj hcall)
        refine Or.inr fun mem' hmem => ?_
        obtain rfl := Option.some.inj hmem
        exact ⟨hlen, (h.withDev_iff hname mem).mp hok⟩
      · cases hcall
    · rintro (hknown | hmem)
      · exact absurd hknown hname
      · obtain ⟨hlen, hfresh⟩ := hmem mem rfl
        exact ⟨0, bus.withDev { mem with name := name }, by rw [call, heq, if_pos hlen]; rfl,
          (h.withDev_iff hname mem).mpr hfresh, trivial⟩

theorem callRight_remdev (h : BusOk devs bus) (name : List UInt8) :
    CallRight devs bus (.remdev name) := by
  rcases busRemdev_cases h name with heq | ⟨hknown, heq⟩
  · exact ⟨_, _, heq, h, trivial⟩
  · refine ⟨_, _, heq, ⟨h.ends, ?_, ?_, ?_⟩, trivial⟩
    · exact h.names.sublist (List.eraseP_sublist.map BusDev.name)
    · obtain ⟨dev, hdev, hn⟩ := List.mem_map.mp hknown
      have hlen := List.length_eraseP_of_mem (p := fun dev => dev.name = name) hdev
        (by simpa using hn)
      show bus.devCount - 1 = _
      rw [hlen, h.count]
    · refine h.drivers_update name (x := none) (fun n => ?_) fun e he => by cases he
      rw [driverOf, find?_eraseP_name h.names]
      split
      · rfl
      · rfl

/-- A call does what it should exactly when it is made with care. -/
theorem callRight_iff (h : BusOk devs bus) {c : BusCall} (hc : OfDriver devs c) :
    CallRight devs bus c ↔ Careful devs bus c := by
  cases c with
  | adddev name block => exact callRight_adddev_iff h block
  | remdev name => exact iff_of_true (callRight_remdev h name) trivial
  | regdev name d => exact callRight_regdev_iff h hc
  | unregdev name d => exact callRight_unregdev_iff h

/-! ## Runs -/

theorem Made.fields (h : bus.Made) : bus.devList = [] ∧ bus.devCount = 0 := by
  obtain ⟨type, name, block, hreg⟩ := h
  unfold registerBus at hreg
  split at hreg
  · cases hreg
  · split at hreg
    · cases hreg
    · split at hreg
      · cases hreg
      · cases hreg
        exact ⟨rfl, rfl⟩

/-- A bus that was made in zeroed memory is in order. -/
theorem Made.busOk (h : bus.Made) (hend : bus.devEnd = 0) : BusOk devs bus := by
  obtain ⟨hlist, hcount⟩ := h.fields
  refine ⟨hend, by simp [hlist], by simp [hlist, hcount], ?_⟩
  intro n n' d hn
  simp [driverOf, hlist] at hn

/-- On an empty list that does not end with NULL no call is defined. -/
theorem call_eq_none (hlist : bus.devList = []) (hend : bus.devEnd ≠ 0) (c : BusCall) :
    bus.call devs c = none := by
  have hname : ∀ n, bus.busGetdevbyname n = none := by
    intro n
    rw [busGetdevbyname, hlist]
    exact if_neg hend
  have hdev : ∀ n, bus.busGetdev devs n = none := by
    intro n
    rw [busGetdev, hlist]
    exact if_neg hend
  cases c with
  | adddev name block => simp [call, busAdddev, hname]
  | remdev name => simp [call, busRemdev, hname]
  | regdev name d => simp [call, busRegdev, hdev]
  | unregdev name d => simp [call, busUnregdev, hdev]

/-- A bus whose calls are right stays in order. -/
theorem BusOk.step {c : BusCall} {bus' : Bus} (h : CallRight devs bus c)
    (hstep : bus.step devs c = some bus') :
    BusOk devs bus' := by
  obtain ⟨r, bus'', hcall, hok, -⟩ := h
  rw [Bus.step, hcall] at hstep
  obtain rfl := Option.some.inj hstep
  exact hok

/-- A run of calls on a bus whose drivers are registered devices does what it should
at every call exactly when the list ends with NULL and every call is made with care. -/
theorem meets_callRight_iff (devs : Devices) (bus : Bus) (h : BusOk devs bus ∨ bus.Made)
    (calls : List BusCall) (hcalls : ∀ c ∈ calls, OfDriver devs c) :
    Meets (step devs) (CallRight devs) bus calls ↔
      Meets (step devs) (fun bus c => bus.devEnd = 0 ∧ Careful devs bus c) bus calls := by
  let I (b : Bus) : Prop := BusOk devs b ∨ b.devList = [] ∧ b.devEnd ≠ 0
  have hiff : ∀ b c, I b → OfDriver devs c →
      (CallRight devs b c ↔ b.devEnd = 0 ∧ Careful devs b c) := by
    rintro b c (hb | ⟨hlist, hend⟩) hc
    · rw [callRight_iff hb hc, and_iff_right hb.ends]
    · refine iff_of_false ?_ fun hcare => hend hcare.1
      rintro ⟨r, b', hcall, -⟩
      cases (call_eq_none hlist hend c).symm.trans hcall
  have hstart : I bus := by
    rcases h with hok | hmade
    · exact Or.inl hok
    · by_cases hend : bus.devEnd = 0
      · exact Or.inl (hmade.busOk hend)
      · exact Or.inr ⟨hmade.fields.1, hend⟩
  exact meets_congr hiff (fun _ _ _ _ _ hright hstep => Or.inl (BusOk.step hright hstep)) calls
    hstart hcalls

/-- A driver "d" and a driver "e". -/
def twoDrivers : Devices where
  devices := [⟨0x101, 0, [100], .other 0⟩, ⟨0x102, 0, [101], .other 0⟩]
  devCount := 2

/-- A bus device without driver. -/
def noDriver : BusDev := ⟨[], [], 0, 0⟩

/-- The bus "p", just made. -/
def freshBus : Bus := ⟨[112], [], 0, 0⟩

theorem freshBus_made : freshBus.Made := ⟨none, [112], some 0, rfl⟩

/-- Two bus devices, each with its driver. -/
theorem meets_callRight_iff_twoDrivers :
    Meets (step twoDrivers) (CallRight twoDrivers) freshBus
      [.adddev [1] (some noDriver), .adddev [2] (some noDriver), .regdev [1] [100],
        .regdev [2] [101]] ↔
    Meets (step twoDrivers) (fun bus c => bus.devEnd = 0 ∧ Careful twoDrivers bus c) freshBus
      [.adddev [1] (some noDriver), .adddev [2] (some noDriver), .regdev [1] [100],
        .regdev [2] [101]] :=
  meets_callRight_iff twoDrivers freshBus (Or.inr freshBus_made) _ (by
    intro c hc
    simp only [List.mem_cons, List.not_mem_nil, or_false] at hc
    rcases hc with rfl | rfl | rfl | rfl
    · trivial
    · trivial
    · rfl
    · rfl)

/-- The driver "d" is attached to the first bus device, and `bus_unregdev` takes the
driver "e" from the second one when it is asked to detach "d" from there. -/
theorem not_meets_callRight :
    ¬ Meets (step twoDrivers) (CallRight twoDrivers) freshBus
      [.adddev [1] (some noDriver), .adddev [2] (some noDriver), .regdev [1] [100],
        .regdev [2] [101], .unregdev [2] [100]] := by
  intro h
  obtain ⟨-, h⟩ := h
  obtain ⟨-, h⟩ := h _ rfl
  obtain ⟨-, h⟩ := h _ rfl
  obtain ⟨-, h⟩ := h _ rfl
  obtain ⟨⟨r, bus', hcall, -, hr, -⟩, -⟩ := h _ rfl
  obtain ⟨rfl, -⟩ := Prod.mk.inj (Option.some.inj hcall)
  cases hr.mp rfl

end StardustOS.Dev.Bus
