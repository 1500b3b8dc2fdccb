import StardustOS.Pci.Bars
import StardustOS.Pci.Names
import StardustOS.Pci.Scan

/-!
# Devices of PCI functions

`found_dev` adds a bus device to the bus `pci` under the name of a function, looks it up
again and stores what it knows of the function in it.  It does not look at the result of
`bus_adddev`, so a function whose name is there already takes the device over
(`foundDev_present`).

A record that `kmalloc` returns holds what was in memory there before, and only some of its
fields are set.  So each function ends up with a device of its own exactly when no two have
one name, and memory is there and clear (`foundDev_iff`).
-/

namespace StardustOS.Pci

open Libc

/-! ## The source -/

/-- `BUSDEV_INT`. -/
def BUSDEV_INT : UInt8 := 1

/-- `bus_dev_t`, less the driver's name. -/
structure BusDev where
  name : List UInt8
  addr : UInt32
  res : Resources
  flags : UInt8
  interrupt : UInt16
deriving DecidableEq, Repr

/-- `bus_t`, less its names. -/
structure Bus where
  devList : List BusDev
  /-- The pointer at the end of the list. -/
  devEnd : Nat
  devCount : Nat
deriving DecidableEq, Repr

/-- What the memory for a `bus_dev_t` holds, with the pointer where `res_list` is. -/
structure Block where
  addr : UInt32
  first : Nat
  count : UInt32
  flags : UInt8
  interrupt : UInt16
deriving DecidableEq, Repr

/-- The bus device in the memory, when its name is stored. -/
def Block.dev (mem : Block) (name : List UInt8) : BusDev where
  name := name
  addr := mem.addr
  res := ⟨[], mem.first, mem.count⟩
  flags := mem.flags
  interrupt := mem.interrupt

/-- A function that is there: its registers, what `pci_getint` returns for it, and what
`kmalloc` returns for its bus device and for the resource of each of its BARs. -/
structure Found where
  dev : PciDev
  regs : Regs
  intr : UInt8
  block : Option Block
  resBlock : UInt8 → Bool
  present : ((regs 0).value &&& 0xFFFF).toUInt16 ≠ 0xFFFF

namespace Bus

variable (bus : Bus)

/-- `bus_getdevbyname`. -/
def busGetdevbyname (name : List UInt8) : Option (Option BusDev) :=
  match bus.devList.find? fun dev => dev.name = name with
  | some dev => some (some dev)
  | none => if bus.devEnd = 0 then some none else none

/-- `bus_adddev`. -/
def busAdddev (name : List UInt8) (block : Option Block) : Option (Int × Bus) := do
  match ← bus.busGetdevbyname name with
  | some _ => some (-EEXIST, bus)
  | none =>
      match block with
      | none => some (-ENOMEM, bus)
      | some mem =>
          if name.length < NAME_MAX then
            some (0, { bus with
              devList := mem.dev name :: bus.devList
              devCount := bus.devCount + 1 })
          else none

/-- The first bus device of a name is changed. -/
def setDev (name : List UInt8) (dev : BusDev) : List BusDev → List BusDev
  | [] => []
  | d :: rest => if d.name = name then dev :: rest else d :: setDev name dev rest

end Bus

/-- The loop of `found_dev` over the BARs. -/
def barsLoop (resBlock : UInt8 → Bool) : List UInt8 → Resources → Regs → Int × Resources
  | [], res, _ => (0, res)
  | i :: is, res, regs =>
      let (r, res, regs) := genres regs res i (resBlock i)
      if r < 0 then (r, res) else barsLoop resBlock is res regs

/-- The word in the field `addr`. -/
def PciDev.addr (dev : PciDev) : UInt32 :=
  dev.bus.toUInt32 <<< 16 ||| dev.slot.toUInt32 <<< 11 ||| dev.func.toUInt32 <<< 8

namespace Found

variable (f : Found)

/-- `pcidev_gethdrtype`. -/
def hdrtype : UInt8 := (((f.regs 12).value >>> 16) &&& 0xFF).toUInt8

/-- What `found_dev` stores in a bus device, and its result. -/
def store (bdev : BusDev) : Int × BusDev :=
  let bdev :=
    if f.intr ≠ 0 then
      { bdev with flags := bdev.flags ||| BUSDEV_INT, interrupt := f.intr.toUInt16 }
    else bdev
  let bdev := { bdev with addr := f.dev.addr }
  if f.hdrtype &&& 0x80 = 0 then
    let (r, res) := barsLoop f.resBlock [0, 1, 2, 3, 4, 5] bdev.res f.regs
    (r, { bdev with res := res })
  else (0, bdev)

end Found

/-- `found_dev`, less the place of the ISA bridge. -/
def foundDev (f : Found) (bus : Bus) : Option (Int × Bus) := do
  if ((f.regs 0).value &&& 0xFFFF).toUInt16 = 0xFFFF then some (0, bus)
  else
    let buf ← devName f.dev
    let name := cstr buf 0
    let (_, bus) ← bus.busAdddev name f.block
    match ← bus.busGetdevbyname name with
    | none => none
    | some bdev =>
        let (r, bdev) := f.store bdev
        some (r, { bus with devList := Bus.setDev name bdev bus.devList })

/-- The bus `pci`, with the pointer `head` in its empty list. -/
def Bus.registered (head : Nat) : Bus := ⟨[], head, 0⟩

/-! ## What a device should carry -/

namespace Found

variable (f : Found)

/-- The resources of a function. -/
def resources : Resources :=
  if f.hdrtype &&& 0x80 = 0 then
    (barsLoop (fun _ => true) [0, 1, 2, 3, 4, 5] ⟨[], 0, 0⟩ f.regs).2
  else ⟨[], 0, 0⟩

/-- A bus device carries the address of a function, its interrupt and its resources. -/
structure Carries (dev : BusDev) : Prop where
  addr : dev.addr = f.dev.addr
  interrupt : if f.intr = 0 then dev.flags &&& BUSDEV_INT = 0
    else dev.flags &&& BUSDEV_INT ≠ 0 ∧ dev.interrupt = f.intr.toUInt16
  res : dev.res = f.resources

end Found

/-- The functions are found one after the other, and each ends up with a bus device that
carries what is its own. -/
def OwnDevices (head : Nat) (fs : List Found) : Prop :=
  ∃ bus, forEach foundDev fs (.registered head) = some (0, bus) ∧
    ∀ f ∈ fs, ∃ dev ∈ bus.devList, f.Carries dev

/-- `genres` takes a block for a BAR that reads like this. -/
def Reg.Asks (r : Reg) : Prop := r.value ≠ 0 ∧ (r.write 0xFFFFFFFF).value ≠ 0

instance (r : Reg) : Decidable r.Asks := inferInstanceAs (Decidable (_ ∧ _))

/-- There is memory for the resource of each BAR that asks for it. -/
def Found.Blocks (f : Found) : Prop :=
  ∀ i ∈ [0, 1, 2, 3, 4, 5], (f.regs (barReg i)).Asks → f.resBlock i = true

/-- There is memory for the bus device, clear where nothing is stored, and for the
resources. -/
structure Found.Memory (f : Found) : Prop where
  block : ∃ mem, f.block = some mem ∧ mem.first = 0 ∧ mem.count = 0 ∧
    (f.intr = 0 → mem.flags &&& BUSDEV_INT = 0)
  resBlock : f.hdrtype &&& 0x80 = 0 → f.Blocks

/-! ## The BARs -/

section Bars

variable {regs : Regs} {res : Resources} {i : UInt8} {is : List UInt8}

/-- The resources with that of a BAR, if it gives one. -/
def Reg.added (r : Reg) (res : Resources) : Resources :=
  let x := resource r.value (~~~(r.write 0xFFFFFFFF).value + 1)
  if r.Asks ∧ ¬ (x.value = 0 ∨ x.size = 0) then
    { res with list := x :: res.list, count := res.count + 1 }
  else res

theorem genres_eq (block : Bool) : genres regs res i block =
    (let regs' := Function.update regs (barReg i) ((regs (barReg i)).write 0xFFFFFFFF)
    if (regs (barReg i)).Asks ∧ block = false then (-ENOMEM, res, regs')
    else (0, (regs (barReg i)).added res, regs')) := by
  by_cases hasks : (regs (barReg i)).Asks
  · have hsize : ~~~((regs (barReg i)).write 0xFFFFFFFF).value + 1 ≠ 0 := by
      intro hzero
      refine hasks.2 (UInt32.toNat_inj.mp ?_)
      have hnat := congrArg UInt32.toNat hzero
      have hlt := ((regs (barReg i)).write 0xFFFFFFFF).value.toNat_lt
      rw [UInt32.toNat_add, UInt32.toNat_not] at hnat
      change (2 ^ 32 - 1 - _ + 1) % 2 ^ 32 = 0 at hnat
      change _ = 0
      omega
    simp only [genres, Function.update_self, hasks.1, hasks.2, hsize, or_self, if_false, hasks,
      true_and, Reg.added]
    split
    · rfl
    · split
      · rfl
      · rfl
  · have hzero : ((regs (barReg i)).write 0xFFFFFFFF).value = 0 ∨ (regs (barReg i)).value = 0 := by
      rw [Reg.Asks, not_and_or, not_not, not_not] at hasks
      exact hasks.symm
    simp only [genres, Function.update_self, hzero, if_true, hasks, false_and, if_false, Reg.added]

theorem barsLoop_cons (resBlock : UInt8 → Bool) : barsLoop resBlock (i :: is) res regs =
    if (regs (barReg i)).Asks ∧ resBlock i = false then (-ENOMEM, res)
    else barsLoop resBlock is ((regs (barReg i)).added res)
      (Function.update regs (barReg i) ((regs (barReg i)).write 0xFFFFFFFF)) := by
  rw [barsLoop, genres_eq]
  by_cases h : (regs (barReg i)).Asks ∧ resBlock i = false
  · simp [h, ENOMEM]
  · simp [h]

theorem added_eq (r : Reg) : ∃ l n, ∀ res : Resources,
    r.added res = ⟨l ++ res.list, res.tail, res.count + n⟩ := by
  by_cases h : r.Asks ∧ ¬ ((resource r.value (~~~(r.write 0xFFFFFFFF).value + 1)).value = 0 ∨
      (resource r.value (~~~(r.write 0xFFFFFFFF).value + 1)).size = 0)
  · exact ⟨[_], 1, fun res => if_pos h⟩
  · refine ⟨[], 0, fun res => (if_neg h).trans ?_⟩
    rw [UInt32.add_zero]
    rfl

/-- With memory the loop goes through, and adds to the list of resources. -/
theorem barsLoop_true (is : List UInt8) (regs : Regs) : ∃ l n, ∀ res : Resources,
    barsLoop (fun _ => true) is res regs = (0, ⟨l ++ res.list, res.tail, res.count + n⟩) := by
  induction is generalizing regs with
  | nil => exact ⟨[], 0, fun res => by rw [UInt32.add_zero]; rfl⟩
  | cons i is ih =>
      obtain ⟨l, n, hrest⟩ := ih
        (Function.update regs (barReg i) ((regs (barReg i)).write 0xFFFFFFFF))
      obtain ⟨l', n', hadded⟩ := added_eq (regs (barReg i))
      refine ⟨l ++ l', n' + n, ?_⟩
      intro res
      rw [barsLoop_cons, hrest, hadded, if_neg (fun h => Bool.false_ne_true h.2.symm),
        List.append_assoc, UInt32.add_assoc]

/-- The turn of a BAR leaves the registers of those to come. -/
theorem update_barReg (regs : Regs) (r : Reg) (h : ((i :: is).map barReg).Nodup) :
    ∀ j ∈ is, Function.update regs (barReg i) r (barReg j) = regs (barReg j) := by
  intro j hj
  rw [List.map_cons, List.nodup_cons] at h
  refine Function.update_of_ne ?_ _ _
  intro heq
  exact h.1 (heq ▸ List.mem_map_of_mem hj)

/-- The loop goes through exactly when there is memory for each BAR that asks for it, and
then it is as if there always were. -/
theorem barsLoop_spec (resBlock : UInt8 → Bool) (hdistinct : (is.map barReg).Nodup) :
    ((∀ i ∈ is, (regs (barReg i)).Asks → resBlock i = true) ∧
        barsLoop resBlock is res regs = barsLoop (fun _ => true) is res regs) ∨
      (¬ (∀ i ∈ is, (regs (barReg i)).Asks → resBlock i = true) ∧
        (barsLoop resBlock is res regs).1 < 0) := by
  induction is generalizing res regs with
  | nil => exact .inl ⟨by simp, rfl⟩
  | cons i is ih =>
      let regs' := Function.update regs (barReg i) ((regs (barReg i)).write 0xFFFFFFFF)
      have hsame : ∀ j ∈ is, regs' (barReg j) = regs (barReg j) := update_barReg regs _ hdistinct
      rw [List.map_cons, List.nodup_cons] at hdistinct
      have hrest := @ih regs' ((regs (barReg i)).added res) hdistinct.2
      by_cases hasks : (regs (barReg i)).Asks ∧ resBlock i = false
      · refine .inr ⟨?_, ?_⟩
        · intro hall
          rw [hall i List.mem_cons_self hasks.1] at hasks
          cases hasks.2
        · rw [barsLoop_cons, if_pos hasks]
          exact Int.neg_neg_of_pos Int.one_pos
      · rw [barsLoop_cons, barsLoop_cons fun _ => true, if_neg hasks, if_neg (by simp)]
        have hi : (regs (barReg i)).Asks → resBlock i = true := by
          intro h
          cases hblock : resBlock i with
          | true => rfl
          | false => exact absurd ⟨h, hblock⟩ hasks
        cases hrest with
        | inl hthrough =>
            refine .inl ⟨?_, hthrough.2⟩
            intro j hj
            rcases List.mem_cons.mp hj with rfl | hj
            · exact hi
            · rw [← hsame j hj]
              exact hthrough.1 j hj
        | inr hfails =>
            refine .inr ⟨fun hall => hfails.1 ?_, hfails.2⟩
            intro j hj
            rw [hsame j hj]
            exact hall j (List.mem_cons_of_mem _ hj)

end Bars

/-! ## Addresses -/

theorem PciDev.addr_inj {a b : PciDev} : a.addr = b.addr ↔ a = b := by
  constructor
  · intro h
    have haddress : a.address = b.address := congrArg (· ||| 0x80000000) h
    have hnat := congrArg UInt32.toNat haddress
    have hslot : a.slot.toNat < 2 ^ 5 := UInt8.lt_iff_toNat_lt.mp a.slot_lt
    have hslot' : b.slot.toNat < 2 ^ 5 := UInt8.lt_iff_toNat_lt.mp b.slot_lt
    have hfunc : a.func.toNat < 2 ^ 3 := UInt8.lt_iff_toNat_lt.mp a.func_lt
    have hfunc' : b.func.toNat < 2 ^ 3 := UInt8.lt_iff_toNat_lt.mp b.func_lt
    rw [toNat_address, toNat_address] at hnat
    rw [PciDev.mk.injEq, ← UInt8.toNat_inj, ← UInt8.toNat_inj, ← UInt8.toNat_inj]
    omega
  · rintro rfl
    rfl

/-! ## One call -/

namespace Found

variable (f : Found) (mem : Block)

/-- The registers of the BARs are six. -/
theorem barReg_nodup : ([0, 1, 2, 3, 4, 5].map barReg).Nodup := by decide

theorem store_name (bdev : BusDev) : (f.store bdev).2.name = bdev.name := by
  simp only [store]
  split
  · split
    · rfl
    · rfl
  · split
    · rfl
    · rfl

theorem store_addr (bdev : BusDev) : (f.store bdev).2.addr = f.dev.addr := by
  simp only [store]
  split
  · rfl
  · rfl

theorem store_interrupt (bdev : BusDev) : (f.store bdev).2.flags =
      (if f.intr = 0 then bdev.flags else bdev.flags ||| BUSDEV_INT) ∧
    (f.store bdev).2.interrupt = if f.intr = 0 then bdev.interrupt else f.intr.toUInt16 := by
  by_cases hhdr : f.hdrtype &&& 0x80 = 0
  · by_cases hintr : f.intr = 0
    · simp [store, hhdr, hintr]
    · simp [store, hhdr, hintr]
  · by_cases hintr : f.intr = 0
    · simp [store, hhdr, hintr]
    · simp [store, hhdr, hintr]

/-- The BARs are gone over when the function is the only one of its slot. -/
theorem store_bars (bdev : BusDev) (h : f.hdrtype &&& 0x80 = 0) :
    (f.store bdev).1 = (barsLoop f.resBlock [0, 1, 2, 3, 4, 5] bdev.res f.regs).1 ∧
      (f.store bdev).2.res = (barsLoop f.resBlock [0, 1, 2, 3, 4, 5] bdev.res f.regs).2 := by
  by_cases hintr : f.intr = 0
  · simp [store, h, hintr]
  · simp [store, h, hintr]

theorem store_noBars (bdev : BusDev) (h : ¬ f.hdrtype &&& 0x80 = 0) :
    (f.store bdev).1 = 0 ∧ (f.store bdev).2.res = bdev.res := by
  by_cases hintr : f.intr = 0
  · simp [store, h, hintr]
  · simp [store, h, hintr]

/-- The device has the interrupt of the function when the flag in the memory is clear or is
set anyway. -/
theorem interrupt_iff (name : List UInt8) :
    (if f.intr = 0 then (f.store (mem.dev name)).2.flags &&& BUSDEV_INT = 0
      else (f.store (mem.dev name)).2.flags &&& BUSDEV_INT ≠ 0 ∧
        (f.store (mem.dev name)).2.interrupt = f.intr.toUInt16) ↔
      (f.intr = 0 → mem.flags &&& BUSDEV_INT = 0) := by
  obtain ⟨hflags, hinterrupt⟩ := f.store_interrupt (mem.dev name)
  have hset : (mem.flags ||| BUSDEV_INT) &&& BUSDEV_INT = BUSDEV_INT := by
    rw [← UInt8.toBitVec_inj, UInt8.toBitVec_and, UInt8.toBitVec_or]
    ext i
    simpa using Or.inr
  have hone : BUSDEV_INT ≠ 0 := by decide
  rw [hflags, hinterrupt]
  by_cases hintr : f.intr = 0
  · simp [hintr, Block.dev]
  · simp [hintr, Block.dev, hset, hone]

/-- The device has the resources of the function when the list in the memory is clear and
there is memory for the resources. -/
theorem res_iff (name : List UInt8) :
    (¬ (f.store (mem.dev name)).1 < 0 ∧ (f.store (mem.dev name)).2.res = f.resources) ↔
      mem.first = 0 ∧ mem.count = 0 ∧ (f.hdrtype &&& 0x80 = 0 → f.Blocks) := by
  rw [resources]
  by_cases hhdr : f.hdrtype &&& 0x80 = 0
  · obtain ⟨hr, hres⟩ := f.store_bars (mem.dev name) hhdr
    obtain ⟨l, n, htrue⟩ := barsLoop_true [0, 1, 2, 3, 4, 5] f.regs
    rw [hr, hres, if_pos hhdr]
    cases @barsLoop_spec f.regs (mem.dev name).res _ f.resBlock barReg_nodup with
    | inl hthrough =>
        have hblocks : f.Blocks := hthrough.1
        rw [hthrough.2, htrue, htrue]
        simp [Block.dev, hhdr, hblocks]
    | inr hfails =>
        have hblocks : ¬ f.Blocks := hfails.1
        simp [hfails.2, hhdr, hblocks]
  · obtain ⟨hr, hres⟩ := f.store_noBars (mem.dev name) hhdr
    rw [hr, hres, if_neg hhdr]
    simp [hhdr, Block.dev]

/-- `found_dev` goes through, and the device carries what is the function's own, exactly when
there is memory, and clear. -/
theorem memory_iff {mem : Block} (name : List UInt8) (h : f.block = some mem) :
    f.Memory ↔ ¬ (f.store (mem.dev name)).1 < 0 ∧ f.Carries (f.store (mem.dev name)).2 := by
  have hinterrupt := f.interrupt_iff mem name
  have hres := f.res_iff mem name
  constructor
  · rintro ⟨⟨mem', hmem, hfirst, hcount, hflags⟩, hblock⟩
    cases hmem.symm.trans h
    obtain ⟨hr, heq⟩ := hres.mpr ⟨hfirst, hcount, hblock⟩
    exact ⟨hr, f.store_addr _, hinterrupt.mpr hflags, heq⟩
  · rintro ⟨hr, -, hcarries, heq⟩
    obtain ⟨hfirst, hcount, hblock⟩ := hres.mp ⟨hr, heq⟩
    exact ⟨⟨mem, h, hfirst, hcount, hinterrupt.mp hcarries⟩, hblock⟩

end Found

/-! ## The bus -/

section Bus

variable {f : Found} {bus bus' : Bus} {bdev : BusDev} {mem : Block} {r : Int}

/-- A device that has the name already is taken over. -/
theorem foundDev_present
    (h : bus.devList.find? (fun dev => dev.name = nameText f.dev) = some bdev) :
    foundDev f bus = some ((f.store bdev).1,
      { bus with devList := Bus.setDev (nameText f.dev) (f.store bdev).2 bus.devList }) := by
  have hget : bus.busGetdevbyname (nameText f.dev) = some (some bdev) := by
    rw [Bus.busGetdevbyname, h]
  have hadd : bus.busAdddev (nameText f.dev) f.block = some (-EEXIST, bus) := by
    simp only [Bus.busAdddev, hget, Option.bind_eq_bind, Option.bind_some]
  rw [foundDev, if_neg f.present]
  simp only [devName_eq, cstr_devName (devName_eq f.dev), hadd, hget, Option.bind_eq_bind,
    Option.bind_some]

/-- A new device is made. -/
theorem foundDev_absent (h : bus.devList.find? (fun dev => dev.name = nameText f.dev) = none)
    (hend : bus.devEnd = 0) (hblock : f.block = some mem) :
    foundDev f bus = some ((f.store (mem.dev (nameText f.dev))).1,
      { bus with
        devList := (f.store (mem.dev (nameText f.dev))).2 :: bus.devList
        devCount := bus.devCount + 1 }) := by
  have hget : bus.busGetdevbyname (nameText f.dev) = some none := by
    rw [Bus.busGetdevbyname, h]
    exact if_pos hend
  have hlength : (nameText f.dev).length < NAME_MAX := by
    rw [length_nameText]
    decide
  rw [foundDev, if_neg f.present]
  simp only [devName_eq, cstr_devName (devName_eq f.dev), Bus.busAdddev, hget, hblock,
    if_pos hlength, Option.bind_eq_bind, Option.bind_some]
  simp [Bus.busGetdevbyname, Block.dev, Bus.setDev]

/-- Without memory the device is not there when it is looked up. -/
theorem foundDev_undefined (h : bus.devList.find? (fun dev => dev.name = nameText f.dev) = none)
    (hnot : bus.devEnd ≠ 0 ∨ f.block = none) : foundDev f bus = none := by
  rw [foundDev, if_neg f.present]
  by_cases hend : bus.devEnd = 0
  · have hget : bus.busGetdevbyname (nameText f.dev) = some none := by
      rw [Bus.busGetdevbyname, h]
      exact if_pos hend
    have hblock : f.block = none := hnot.resolve_left (not_not_intro hend)
    simp only [devName_eq, cstr_devName (devName_eq f.dev), Bus.busAdddev, hget, hblock,
      Option.bind_eq_bind, Option.bind_some]
  · have hget : bus.busGetdevbyname (nameText f.dev) = none := by
      rw [Bus.busGetdevbyname, h]
      exact if_neg hend
    simp only [devName_eq, cstr_devName (devName_eq f.dev), Bus.busAdddev, hget,
      Option.bind_eq_bind, Option.bind_some, Option.bind_none]

theorem map_name_setDev {name : List UInt8} {dev : BusDev} (h : dev.name = name) (l : List BusDev) :
    (Bus.setDev name dev l).map BusDev.name = l.map BusDev.name := by
  induction l with
  | nil => rfl
  | cons d l ih =>
      rw [Bus.setDev]
      split
      · rename_i hd
        rw [List.map_cons, List.map_cons, h, hd]
      · rw [List.map_cons, List.map_cons, ih]

theorem mem_setDev {name : List UInt8} {dev d : BusDev} {l : List BusDev}
    (h : d ∈ Bus.setDev name dev l) : d = dev ∨ d ∈ l := by
  induction l with
  | nil => cases h
  | cons x l ih =>
      rw [Bus.setDev] at h
      split at h
      · rcases List.mem_cons.mp h with rfl | h
        · exact .inl rfl
        · exact .inr (List.mem_cons_of_mem _ h)
      · rcases List.mem_cons.mp h with rfl | h
        · exact .inr List.mem_cons_self
        · exact (ih h).imp_right (List.mem_cons_of_mem _)

/-- No two devices have one name, and each has the name and the address of one function. -/
structure Inv (bus : Bus) : Prop where
  nodup : (bus.devList.map BusDev.name).Nodup
  named : ∀ dev ∈ bus.devList, ∃ a : PciDev, dev.name = nameText a ∧ dev.addr = a.addr

theorem Inv.registered (head : Nat) : Inv (.registered head) := ⟨.nil, by simp [Bus.registered]⟩

theorem Inv.foundDev (hinv : Inv bus) (h : foundDev f bus = some (r, bus')) : Inv bus' := by
  cases hfind : bus.devList.find? (fun dev => dev.name = nameText f.dev) with
  | some bdev =>
      rw [foundDev_present hfind] at h
      cases h
      have hname : bdev.name = nameText f.dev := by simpa using List.find?_some hfind
      have hstore : (f.store bdev).2.name = nameText f.dev := (f.store_name bdev).trans hname
      refine ⟨?_, ?_⟩
      · rw [map_name_setDev hstore]
        exact hinv.nodup
      · intro dev hdev
        cases mem_setDev hdev with
        | inl heq => exact ⟨f.dev, heq ▸ hstore, heq ▸ f.store_addr bdev⟩
        | inr hmem => exact hinv.named dev hmem
  | none =>
      by_cases hend : bus.devEnd = 0
      · cases hblock : f.block with
        | none =>
            rw [foundDev_undefined hfind (.inr hblock)] at h
            cases h
        | some mem =>
            rw [foundDev_absent hfind hend hblock] at h
            cases h
            refine ⟨?_, ?_⟩
            · rw [List.map_cons, f.store_name, List.nodup_cons]
              refine ⟨?_, hinv.nodup⟩
              intro hmem
              obtain ⟨dev, hdev, hname⟩ := List.mem_map.mp hmem
              have hne : ¬ dev.name = nameText f.dev := by
                simpa using List.find?_eq_none.mp hfind dev hdev
              exact hne hname
            · intro dev hdev
              rcases List.mem_cons.mp hdev with rfl | hdev
              · exact ⟨f.dev, f.store_name _, f.store_addr _⟩
              · exact hinv.named dev hdev
      · rw [foundDev_undefined hfind (.inl hend)] at h
        cases h

/-! ## A run -/

/-- What is there stays there, up to the devices of the names that are found. -/
theorem run_inv {fs : List Found} (hinv : Inv bus) (h : forEach foundDev fs bus = some (r, bus')) :
    Inv bus' := by
  induction fs generalizing bus with
  | nil =>
      cases h
      exact hinv
  | cons f fs ih =>
      rw [forEach] at h
      obtain ⟨⟨q, t⟩, hf, h⟩ := Option.bind_eq_some_iff.mp h
      by_cases hq : q < 0
      · simp only [hq, if_true, Option.some.injEq, Prod.mk.injEq] at h
        exact h.2 ▸ hinv.foundDev hf
      · simp only [hq, if_false] at h
        exact ih (hinv.foundDev hf) h

/-- The names of the functions are new and different. -/
structure Fresh (bus : Bus) (fs : List Found) : Prop where
  new : ∀ f ∈ fs, ∀ dev ∈ bus.devList, dev.name ≠ nameText f.dev
  pairwise : fs.Pairwise fun f g => ¬ SameFilled f.dev g.dev

theorem Fresh.find?_eq_none {fs : List Found} (h : Fresh bus (f :: fs)) :
    bus.devList.find? (fun dev => dev.name = nameText f.dev) = none := by
  rw [List.find?_eq_none]
  intro dev hdev
  simpa using h.new f List.mem_cons_self dev hdev

/-- A device of the first leaves the names of the rest new. -/
theorem Fresh.tail {fs : List Found} (h : Fresh bus (f :: fs)) {dev : BusDev} {n : Nat}
    (hdev : dev.name = nameText f.dev) :
    Fresh { bus with devList := dev :: bus.devList, devCount := n } fs := by
  obtain ⟨hfirst, hpairwise⟩ := List.pairwise_cons.mp h.pairwise
  refine ⟨?_, hpairwise⟩
  intro g hg d hd
  rcases List.mem_cons.mp hd with rfl | hd
  · rw [hdev]
    exact fun heq => hfirst g hg (nameText_inj.mp heq)
  · exact h.new g (List.mem_cons_of_mem _ hg) d hd

/-- In a run over functions with new and different names each gets a device, which it
keeps. -/
theorem run_fresh {fs : List Found} (hfresh : Fresh bus fs) :
    forEach foundDev fs bus = some (0, bus') →
    (fs ≠ [] → bus.devEnd = 0) ∧ (∀ dev ∈ bus.devList, dev ∈ bus'.devList) ∧
      ∀ f ∈ fs, ∃ mem, f.block = some mem ∧ ¬ (f.store (mem.dev (nameText f.dev))).1 < 0 ∧
        (f.store (mem.dev (nameText f.dev))).2 ∈ bus'.devList := by
  induction fs generalizing bus with
  | nil =>
      intro h
      cases h
      exact ⟨fun h => absurd rfl h, fun _ hdev => hdev, by simp⟩
  | cons f fs ih =>
      intro h
      rw [forEach] at h
      obtain ⟨⟨q, t⟩, hf, h⟩ := Option.bind_eq_some_iff.mp h
      by_cases hend : bus.devEnd = 0
      · cases hblock : f.block with
        | none =>
            rw [foundDev_undefined hfresh.find?_eq_none (.inr hblock)] at hf
            cases hf
        | some mem =>
            rw [foundDev_absent hfresh.find?_eq_none hend hblock] at hf
            cases hf
            by_cases hr : (f.store (mem.dev (nameText f.dev))).1 < 0
            · simp only [hr, if_true, Option.some.injEq, Prod.mk.injEq] at h
              omega
            · simp only [hr, if_false] at h
              obtain ⟨-, hkept, hall⟩ := ih (hfresh.tail (f.store_name _)) h
              refine ⟨fun _ => hend, fun dev hdev => hkept dev (List.mem_cons_of_mem _ hdev), ?_⟩
              intro g hg
              rcases List.mem_cons.mp hg with rfl | hg
              · exact ⟨mem, hblock, hr, hkept _ List.mem_cons_self⟩
              · exact hall g hg
      · rw [foundDev_undefined hfresh.find?_eq_none (.inl hend)] at hf
        cases hf

/-- With memory, such a run goes through. -/
theorem exists_run {fs : List Found} (hfresh : Fresh bus fs) (hend : fs ≠ [] → bus.devEnd = 0)
    (hmem : ∀ f ∈ fs, f.Memory) : ∃ bus', forEach foundDev fs bus = some (0, bus') := by
  induction fs generalizing bus with
  | nil => exact ⟨bus, rfl⟩
  | cons f fs ih =>
      have hnull := hend (List.cons_ne_nil f fs)
      have hf := hmem f List.mem_cons_self
      obtain ⟨mem, hblock, -⟩ := hf.block
      obtain ⟨hr, -⟩ := (f.memory_iff (nameText f.dev) hblock).mp hf
      obtain ⟨bus', hrun⟩ := ih (hfresh.tail (n := bus.devCount + 1)
        (f.store_name (mem.dev (nameText f.dev)))) (fun _ => hnull)
        fun g hg => hmem g (List.mem_cons_of_mem _ hg)
      refine ⟨bus', ?_⟩
      rw [forEach, foundDev_absent hfresh.find?_eq_none hnull hblock]
      simpa [hr] using hrun

end Bus

/-! ## The devices -/

/-- Two functions of one name do not both have a device. -/
theorem OwnDevices.pairwise {head : Nat} {fs : List Found} (hfs : (fs.map Found.dev).Nodup)
    (h : OwnDevices head fs) : fs.Pairwise fun f g => ¬ SameFilled f.dev g.dev := by
  obtain ⟨bus, hrun, hcarries⟩ := h
  have hinv := run_inv (.registered head) hrun
  have hown : ∀ f ∈ fs, ∃ dev ∈ bus.devList, dev.name = nameText f.dev ∧ dev.addr = f.dev.addr := by
    intro f hf
    obtain ⟨dev, hdev, hc⟩ := hcarries f hf
    obtain ⟨a, hname, haddr⟩ := hinv.named dev hdev
    obtain rfl := PciDev.addr_inj.mp (haddr.symm.trans hc.addr)
    exact ⟨dev, hdev, hname, haddr⟩
  refine (List.pairwise_map.mp hfs).imp_of_mem ?_
  intro f g hf hg hne hsame
  obtain ⟨dev, hdev, hname, haddr⟩ := hown f hf
  obtain ⟨dev', hdev', hname', haddr'⟩ := hown g hg
  have hnames : dev.name = dev'.name := by rw [hname, hname', nameText_inj.mpr hsame]
  obtain rfl := List.inj_on_of_nodup_map hinv.nodup hdev hdev' hnames
  exact hne (PciDev.addr_inj.mp (haddr.symm.trans haddr'))

/-- The names always fit.  Those of two functions differ exactly when their buses and slots
are not filled to the same numbers, and functions get devices of their own exactly when
that is so for any two, the list of the bus ends in NULL and there is memory, and clear. -/
theorem foundDev_iff (head : Nat) (fs : List Found) (hfs : (fs.map Found.dev).Nodup) :
    (∀ a, ∃ name, devName a = some (name ++ [0]) ∧ name.length = 8 ∧ 0 ∉ name) ∧
      (∀ a b, devName a ≠ devName b ↔ ¬ SameFilled a b) ∧
      (OwnDevices head fs ↔ (fs.Pairwise fun f g => ¬ SameFilled f.dev g.dev) ∧
        (fs ≠ [] → head = 0) ∧ ∀ f ∈ fs, f.Memory) := by
  refine ⟨?_, ?_, ?_⟩
  · intro a
    exact ⟨nameText a, devName_eq a, length_nameText a, zero_notMem_nameText a⟩
  · intro a b
    rw [devName_eq, devName_eq, ne_eq, Option.some.injEq, List.append_left_inj, nameText_inj]
  · have hnew : ∀ {fs : List Found}, (fs.Pairwise fun f g => ¬ SameFilled f.dev g.dev) →
        Fresh (.registered head) fs := fun h => ⟨by simp [Bus.registered], h⟩
    constructor
    · intro h
      have hpairwise := h.pairwise hfs
      obtain ⟨bus, hrun, hcarries⟩ := h
      have hinv := run_inv (.registered head) hrun
      obtain ⟨hend, -, hall⟩ := run_fresh (hnew hpairwise) hrun
      refine ⟨hpairwise, hend, ?_⟩
      intro f hf
      obtain ⟨mem, hblock, hr, hmem⟩ := hall f hf
      obtain ⟨dev, hdev, hc⟩ := hcarries f hf
      -- the device with the address of the function is the one that was made for it
      obtain ⟨a, hname, haddr⟩ := hinv.named dev hdev
      obtain rfl := PciDev.addr_inj.mp (haddr.symm.trans hc.addr)
      have hstore : (f.store (mem.dev (nameText f.dev))).2.name = nameText f.dev := f.store_name _
      obtain rfl := List.inj_on_of_nodup_map hinv.nodup hdev hmem (hname.trans hstore.symm)
      exact (f.memory_iff (nameText f.dev) hblock).mpr ⟨hr, hc⟩
    · rintro ⟨hpairwise, hend, hmem⟩
      obtain ⟨bus, hrun⟩ := exists_run (hnew hpairwise) hend hmem
      refine ⟨bus, hrun, ?_⟩
      intro f hf
      obtain ⟨-, -, hall⟩ := run_fresh (hnew hpairwise) hrun
      obtain ⟨mem, hblock, -, hdev⟩ := hall f hf
      exact ⟨_, hdev, ((f.memory_iff (nameText f.dev) hblock).mp (hmem f hf)).2⟩

/-- A function without interrupt and resources, for which there is clear memory. -/
def plain (dev : PciDev) : Found where
  dev := dev
  regs := fun reg => if reg = 0 then ⟨0x12378086, 0⟩ else ⟨0, 0⟩
  intr := 0
  block := some ⟨0, 0, 0, 0, 0⟩
  resBlock := fun _ => true
  present := by decide

theorem foundDev_iff_slots : OwnDevices 0 [plain (.of 0 1 0), plain (.of 0 2 0)] := by
  refine (foundDev_iff 0 _ (by decide)).2.2.mpr ⟨by decide, fun _ => rfl, ?_⟩
  intro f hf
  have hf : f = plain (.of 0 1 0) ∨ f = plain (.of 0 2 0) := by simpa using hf
  rcases hf with rfl | rfl
  · exact ⟨⟨_, rfl, rfl, rfl, fun _ => rfl⟩, fun _ _ _ _ => rfl⟩
  · exact ⟨⟨_, rfl, rfl, rfl, fun _ => rfl⟩, fun _ _ _ _ => rfl⟩

/-- The slots 1 and 10 are both called `000.10.0`. -/
theorem names_collide : devName (.of 0 1 0) = some (asciiText "000.10.0".toList ++ [0]) ∧
    devName (.of 0 10 0) = some (asciiText "000.10.0".toList ++ [0]) ∧
    ¬ OwnDevices 0 [plain (.of 0 1 0), plain (.of 0 10 0)] := by
  refine ⟨by decide, by decide, ?_⟩
  intro h
  exact absurd (h.pairwise (by decide)) (by decide)

end StardustOS.Pci
