import StardustOS.Dev.InStep
import StardustOS.Libc.Digits
import Mathlib.Data.List.Range
import Mathlib.Tactic.IntervalCases

/-!
# Boot modules

`multiboot.c`: the boot loader lays out an array of records, one for each module, and
`mbi_modules_init` registers a device for each.

Both functions take the record of the next module from the byte after the end of a module
(`walked`), and not from the array (`record`).  The name of a device holds its number as
`itoa` writes it, with a zero behind a single digit, and `mb_read` reads it with the digits
the other way round.  So module 10 would get the name of module 1, and its registration
fails.

`readable_iff` says for which layouts and requests a module can be read.  What is copied
never leaves the module of the record that was taken (`mbCopy_inside`): the test before the
clamp compares a file offset with an address, but the clamp needs no test.
-/

namespace StardustOS.Dev

open Libc

/-! ## The source -/

/-- `DEVMAJ_MBMOD`. -/
def DEVMAJ_MBMOD : Nat := 3

/-- The two fields of `multiboot_info_t` that are read. -/
structure MultibootInfo where
  modsCount : UInt32
  modsAddr : UInt32

/-- The two fields of `multiboot_module_t` that are read. -/
structure MultibootModule where
  modStart : UInt32
  modEnd : UInt32
deriving DecidableEq, Repr

/-- `mod->mod_end - mod->mod_start`. -/
def MultibootModule.len (mod : MultibootModule) : UInt32 := mod.modEnd - mod.modStart

section

variable (mem : UInt32 → UInt8)

/-- The word at an address. -/
def word (a : UInt32) : UInt32 :=
  (mem a).toUInt32 ||| (mem (a + 1)).toUInt32 <<< 8 ||| (mem (a + 2)).toUInt32 <<< 16 |||
    (mem (a + 3)).toUInt32 <<< 24

/-- The bytes at an address. -/
def bytes (a : UInt32) (n : Nat) : List UInt8 :=
  (List.range n).map fun j => mem (a + UInt32.ofNat j)

/-- `*mod`. -/
def moduleAt (mod : UInt32) : MultibootModule := ⟨word mem mod, word mem (mod + 4)⟩

/-- `(uint32_t)mod->mod_end + 1`. -/
def nextModule (mod : UInt32) : UInt32 := (moduleAt mem mod).modEnd + 1

/-- The pointer `mod` after `x` steps. -/
def walked (mods : UInt32) : Nat → UInt32
  | 0 => mods
  | x + 1 => nextModule mem (walked mods x)

/-- `mb_read`, on a node of the name: the result, and the bytes that are copied. -/
def mbRead (mbi : MultibootInfo) (name : List UInt8) (offset size : UInt32) :
    UInt32 × List UInt8 :=
  let i := (byteAt name 6 - ascii '0') * 10 + (byteAt name 5 - ascii '0')
  if i.toNat > mbi.modsCount.toNat then (UInt32.ofNat (asU32 (-EINVAL)), [])
  else
    let mod := moduleAt mem (walked mem mbi.modsAddr i.toNat)
    if offset + size ≥ mod.modEnd then (UInt32.ofNat (asU32 (-EINVAL)), [])
    else
      let size := if offset > mod.len then 0 else min (mod.len - offset) size
      (size, bytes mem (mod.modStart + offset) size.toNat)

/-- `mbimod_opts`. -/
def mbimodOpts : DevOpts := .other DEVMAJ_MBMOD

/-- A text is stored in an array. -/
def strcpyAt (name : Nat → UInt8) (i : Nat) (text : List UInt8) : Nat → UInt8 := fun j =>
  if i ≤ j then (text ++ [0]).getD (j - i) (name j) else name j

/-- The name that `mbi_modules_init` makes in the array `name`, whose content is `stack`
at first.  With more than two digits the NUL goes past the array. -/
def moduleName (stack : Nat → UInt8) (i : Nat) : Option (List UInt8) :=
  let digits := (itoa 10 (Int32.ofNat i)).1
  if digits.length > 2 then none
  else
    let name := strcpyAt stack 0 (asciiText ['m', 'b', 'm', 'o', 'd'])
    let name := strcpyAt name 5 digits
    let name := if name 6 = 0 then fun j => if j = 6 then ascii '0' else name j else name
    let name := fun j => if j = 7 then 0 else name j
    some (cstr ((List.range 8).map name) 0)

/-- The loop of `mbi_modules_init` from `i` on.  `stack` is what the array `name` holds in
each turn, and `found` says whether `register_device` finds memory. -/
def modulesInitFrom (stack : Nat → Nat → UInt8) (found : Nat → Bool) :
    Nat → Nat → UInt32 → Devices → Option (Int × Devices)
  | 0, _, _, reg => some (0, reg)
  | turns + 1, i, mod, reg => do
      let name ← moduleName (stack i) i
      let (r, reg) ← reg.registerDevice (mkdev DEVMAJ_MBMOD i) name mbimodOpts
        (moduleAt mem mod).len.toNat (found i)
      if r < 0 then some (r, reg)
      else modulesInitFrom stack found turns (i + 1) (nextModule mem mod) reg

/-- `mbi_modules_init`, which boot calls before any device is registered. -/
def mbiModulesInit (mbi : MultibootInfo) (stack : Nat → Nat → UInt8) (found : Nat → Bool) :
    Option (Int × Devices) :=
  modulesInitFrom mem stack found mbi.modsCount.toNat 0 mbi.modsAddr ⟨[], 0⟩

/-! ## What is wanted -/

/-- The record of a module in the array of the boot loader. -/
def record (mods : UInt32) (k : Nat) : MultibootModule :=
  moduleAt mem (mods + UInt32.ofNat (16 * k))

/-- The devices are registered, the first module first, with distinct names and the sizes
of the modules, and the request to read `s` bytes at `o` of module `k` is answered with
them, as many as there are. -/
def Readable (mbi : MultibootInfo) (stack : Nat → Nat → UInt8) (found : Nat → Bool) (k : Nat)
    (o s : UInt32) : Prop :=
  ∃ (devices : List Device) (count : Nat),
    mbiModulesInit mem mbi stack found = some (0, ⟨devices.reverse, count⟩) ∧
    (devices.map Device.name).Nodup ∧
    devices.map Device.size =
      (List.range mbi.modsCount.toNat).map (fun j => (record mem mbi.modsAddr j).len.toNat) ∧
    ∀ device, devices[k]? = some device → device.opts = mbimodOpts ∧
      (o ≤ (record mem mbi.modsAddr k).len →
        let count := min ((record mem mbi.modsAddr k).len - o) s
        mbRead mem mbi device.name o s =
          (count, bytes mem ((record mem mbi.modsAddr k).modStart + o) count.toNat))

/-- The layout is one that the walk reads rightly, and the request does not reach the end
of the module as an address. -/
structure Fitting (mbi : MultibootInfo) (found : Nat → Bool) (k : Nat) (o s : UInt32) : Prop where
  few : mbi.modsCount.toNat ≤ 10
  memory : ∀ j < mbi.modsCount.toNat, found j = true
  sizes : ∀ j < mbi.modsCount.toNat,
    (moduleAt mem (walked mem mbi.modsAddr j)).len = (record mem mbi.modsAddr j).len
  request : k < mbi.modsCount.toNat → o ≤ (record mem mbi.modsAddr k).len →
    o + s < (moduleAt mem (walked mem mbi.modsAddr k)).modEnd
  content : k < mbi.modsCount.toNat → o ≤ (record mem mbi.modsAddr k).len →
    ∀ j < (min ((record mem mbi.modsAddr k).len - o) s).toNat,
      mem ((moduleAt mem (walked mem mbi.modsAddr k)).modStart + o + UInt32.ofNat j) =
        mem ((record mem mbi.modsAddr k).modStart + o + UInt32.ofNat j)

end

/-! ## Names -/

/-- The name with a digit and a character behind it. -/
def nameOf (c c' : UInt8) : List UInt8 := asciiText ['m', 'b', 'm', 'o', 'd'] ++ [c, c']

theorem nameOf_short (c c' : UInt8) : (nameOf c c').length < NAME_MAX := by
  show 7 < NAME_MAX
  decide

theorem moduleName_digit (stack : Nat → UInt8) {i : Nat} (hi : i < 10) :
    moduleName stack i = some (nameOf (digit i) (ascii '0')) := by
  interval_cases i <;> rfl

/-- Module 10 gets the name of module 1. -/
theorem moduleName_ten (stack : Nat → UInt8) :
    moduleName stack 10 = some (nameOf (digit 1) (ascii '0')) := rfl

theorem nameOf_digit_inj {i j : Nat} (hi : i < 10) (hj : j < 10)
    (h : nameOf (digit i) (ascii '0') = nameOf (digit j) (ascii '0')) : i = j := by
  have hinj : ∀ i < 10, ∀ j < 10, digit i = digit j → i = j := by decide
  refine hinj i hi j hj ?_
  simpa [nameOf] using h

/-- The number is read back from a name with one digit. -/
theorem number_nameOf {i : Nat} (hi : i < 10) :
    (byteAt (nameOf (digit i) (ascii '0')) 6 - ascii '0') * 10 +
      (byteAt (nameOf (digit i) (ascii '0')) 5 - ascii '0') = UInt8.ofNat i := by
  interval_cases i <;> rfl

/-! ## Registration -/

section Registration

variable (mem : UInt32 → UInt8) (mods : UInt32)

/-- The device of a module. -/
def moduleDevice (i : Nat) : Device where
  dev := mkdev DEVMAJ_MBMOD i
  size := (moduleAt mem (walked mem mods i)).len.toNat
  name := nameOf (digit i) (ascii '0')
  opts := mbimodOpts

/-- The table with the devices of the first modules. -/
def registered (n : Nat) : Devices := ⟨((List.range n).map (moduleDevice mem mods)).reverse, n⟩

theorem registered_succ (n : Nat) : registered mem mods (n + 1) =
    ⟨moduleDevice mem mods n :: (registered mem mods n).devices, n + 1⟩ := by
  simp [registered, List.range_succ]

theorem mem_registered {n : Nat} {device : Device} :
    device ∈ (registered mem mods n).devices ↔ ∃ i < n, moduleDevice mem mods i = device := by
  simp [registered]

/-- With memory the next module is registered. -/
theorem registerDevice_module {i : Nat} (hi : i < 10) :
    (registered mem mods i).registerDevice (mkdev DEVMAJ_MBMOD i) (nameOf (digit i) (ascii '0'))
      mbimodOpts (moduleAt mem (walked mem mods i)).len.toNat true =
        some (0, registered mem mods (i + 1)) := by
  have hlen := nameOf_short (digit i) (ascii '0')
  have hname : (registered mem mods i).deviceFromname (nameOf (digit i) (ascii '0')) = none := by
    rw [Devices.deviceFromname, if_neg (by omega), List.find?_eq_none]
    intro device hdevice
    obtain ⟨j, hj, rfl⟩ := (mem_registered mem mods).mp hdevice
    have hne : nameOf (digit j) (ascii '0') ≠ nameOf (digit i) (ascii '0') := fun h =>
      absurd (nameOf_digit_inj (hj.trans hi) hi h) hj.ne
    rw [decide_eq_true_eq]
    exact hne
  have hdev : (registered mem mods i).deviceFromdev (mkdev DEVMAJ_MBMOD i) = none := by
    have hinj : ∀ i < 10, ∀ j < 10, mkdev DEVMAJ_MBMOD j = mkdev DEVMAJ_MBMOD i → j = i := by decide
    rw [Devices.deviceFromdev_eq_none]
    intro device hdevice
    obtain ⟨j, hj, rfl⟩ := (mem_registered mem mods).mp hdevice
    exact fun h => absurd (hinj i hi j (hj.trans hi) h) hj.ne
  rw [Devices.registerDevice_fresh _ hlen hname hdev, registered_succ]
  rfl

/-- The name of module 10 is there already. -/
theorem registerDevice_ten (size : Nat) (found : Bool) :
    (registered mem mods 10).registerDevice (mkdev DEVMAJ_MBMOD 10)
      (nameOf (digit 1) (ascii '0')) mbimodOpts size found =
        some (-EEXIST, registered mem mods 10) := by
  have hlen : ¬ (nameOf (digit 1) (ascii '0')).length > NAME_MAX := by decide
  have hname : ((registered mem mods 10).deviceFromname (nameOf (digit 1) (ascii '0'))).isSome := by
    rw [Devices.deviceFromname, if_neg hlen, List.find?_isSome]
    exact ⟨moduleDevice mem mods 1, (mem_registered mem mods).mpr ⟨1, by omega, rfl⟩,
      decide_eq_true rfl⟩
  rw [Devices.registerDevice, if_neg hlen, if_pos (Or.inl hname)]

/-- The loop ends well when it comes to ten modules at most and finds memory for each. -/
theorem modulesInitFrom_iff (stack : Nat → Nat → UInt8) (found : Nat → Bool) (turns : Nat)
    {i : Nat} (reg : Devices) (hi : i ≤ 10) :
    modulesInitFrom mem stack found turns i (walked mem mods i) (registered mem mods i) =
        some (0, reg) ↔
      i + turns ≤ 10 ∧ (∀ j, i ≤ j → j < i + turns → found j = true) ∧
        reg = registered mem mods (i + turns) := by
  induction turns generalizing i with
  | zero =>
      rw [modulesInitFrom]
      constructor
      · intro h
        cases h
        exact ⟨hi, fun j hle hlt => absurd hlt (by omega), rfl⟩
      · rintro ⟨-, -, rfl⟩
        rfl
  | succ turns ih =>
      rcases Nat.lt_or_eq_of_le hi with hlt | rfl
      · cases hfound : found i with
        | false =>
            obtain ⟨r, hr, hreg⟩ := (registered mem mods i).registerDevice_noMem
              (mkdev DEVMAJ_MBMOD i) (moduleAt mem (walked mem mods i)).len.toNat mbimodOpts
              (nameOf_short (digit i) (ascii '0'))
            simp only [modulesInitFrom, moduleName_digit _ hlt, Option.bind_eq_bind,
              Option.bind_some, hfound, hreg, if_pos hr]
            refine iff_of_false (fun h => ?_) fun h => ?_
            · obtain ⟨rfl, -⟩ := Prod.mk.inj (Option.some.inj h)
              exact absurd hr (by decide)
            · have htrue := h.2.1 i le_rfl (by omega)
              rw [hfound] at htrue
              cases htrue
        | true =>
            simp only [modulesInitFrom, moduleName_digit _ hlt, Option.bind_eq_bind,
              Option.bind_some, hfound, registerDevice_module mem mods hlt, Int.lt_irrefl,
              if_false]
            rw [← walked, ih (by omega), Nat.add_right_comm, Nat.add_assoc]
            refine and_congr_right fun _ => and_congr_left fun _ => ?_
            constructor
            · intro h j hle hj
              rcases Nat.lt_or_eq_of_le hle with hlt' | rfl
              · exact h j hlt' hj
              · exact hfound
            · exact fun h j hle hj => h j (by omega) hj
      · simp only [modulesInitFrom, moduleName_ten, Option.bind_eq_bind, Option.bind_some,
          registerDevice_ten]
        refine iff_of_false (fun h => ?_) fun h => ?_
        · rw [if_pos (by decide)] at h
          cases h
        · omega

end Registration

/-! ## Reading -/

section Reading

variable (mem : UInt32 → UInt8)

theorem bytes_eq_iff {a b : UInt32} {n : Nat} : bytes mem a n = bytes mem b n ↔
    ∀ j < n, mem (a + UInt32.ofNat j) = mem (b + UInt32.ofNat j) := by
  rw [bytes, bytes, List.map_inj_left]
  simp only [List.mem_range]

/-- The record that `mb_read` comes to for a name with one digit. -/
theorem mbRead_digit (mbi : MultibootInfo) {k : Nat} (hk : k < 10)
    (hcount : k < mbi.modsCount.toNat) (o s : UInt32) :
    mbRead mem mbi (nameOf (digit k) (ascii '0')) o s =
      let mod := moduleAt mem (walked mem mbi.modsAddr k)
      if o + s ≥ mod.modEnd then (UInt32.ofNat (asU32 (-EINVAL)), [])
      else
        let size := if o > mod.len then 0 else min (mod.len - o) s
        (size, bytes mem (mod.modStart + o) size.toNat) := by
  have hk8 : (UInt8.ofNat k).toNat = k := UInt8.toNat_ofNat_of_lt' (by
    show k < 256
    omega)
  rw [mbRead, number_nameOf hk]
  simp only [hk8]
  rw [if_neg (by omega)]

/-- An answer of the walked record is the one of a record of the same length when the
request ends below the end of the walked record, and the bytes there are the same. -/
theorem mbRead_right_iff (mbi : MultibootInfo) {k : Nat} (hk : k < 10)
    (hcount : k < mbi.modsCount.toNat) {o s : UInt32} {wanted : MultibootModule}
    (hlen : (moduleAt mem (walked mem mbi.modsAddr k)).len = wanted.len) (ho : o ≤ wanted.len) :
    mbRead mem mbi (nameOf (digit k) (ascii '0')) o s =
        (min (wanted.len - o) s,
          bytes mem (wanted.modStart + o) (min (wanted.len - o) s).toNat) ↔
      o + s < (moduleAt mem (walked mem mbi.modsAddr k)).modEnd ∧
        ∀ j < (min (wanted.len - o) s).toNat,
          mem ((moduleAt mem (walked mem mbi.modsAddr k)).modStart + o + UInt32.ofNat j) =
            mem (wanted.modStart + o + UInt32.ofNat j) := by
  rw [mbRead_digit mem mbi hk hcount]
  dsimp only
  rw [hlen, if_neg (show ¬ o > wanted.len from UInt32.not_lt.mpr ho)]
  by_cases hend : o + s < (moduleAt mem (walked mem mbi.modsAddr k)).modEnd
  · rw [if_neg (show ¬ o + s ≥ _ from UInt32.not_le.mpr hend), Prod.mk.injEq, bytes_eq_iff]
    simp [hend]
  · rw [if_pos (UInt32.not_lt.mp hend), Prod.mk.injEq]
    refine iff_of_false ?_ fun h => hend h.1
    -- the error code is not zero, and nothing was copied
    rintro ⟨hcode, hbytes⟩
    have hnone := congrArg List.length hbytes
    rw [← hcode, bytes, List.length_map, List.length_range] at hnone
    revert hnone
    decide

end Reading

/-! ## The whole -/

section Whole

variable (mem : UInt32 → UInt8) (mbi : MultibootInfo) (stack : Nat → Nat → UInt8)
  (found : Nat → Bool)

theorem mbiModulesInit_iff (reg : Devices) : mbiModulesInit mem mbi stack found = some (0, reg) ↔
    mbi.modsCount.toNat ≤ 10 ∧ (∀ j < mbi.modsCount.toNat, found j = true) ∧
      reg = registered mem mbi.modsAddr mbi.modsCount.toNat := by
  have h := modulesInitFrom_iff mem mbi.modsAddr stack found mbi.modsCount.toNat reg
    (Nat.zero_le 10)
  rw [Nat.zero_add] at h
  simp only [Nat.zero_le, true_implies] at h
  exact h

theorem names_nodup {n : Nat} (hn : n ≤ 10) (mods : UInt32) :
    (((List.range n).map (moduleDevice mem mods)).map Device.name).Nodup := by
  rw [List.map_map]
  refine List.Nodup.map_on ?_ List.nodup_range
  intro i hi j hj h
  rw [List.mem_range] at hi hj
  exact nameOf_digit_inj (by omega) (by omega) h

theorem sizes_iff (mods : UInt32) (n : Nat) :
    ((List.range n).map (moduleDevice mem mods)).map Device.size =
        (List.range n).map (fun j => (record mem mods j).len.toNat) ↔
      ∀ j < n, (moduleAt mem (walked mem mods j)).len = (record mem mods j).len := by
  rw [List.map_map, List.map_inj_left]
  simp only [List.mem_range, Function.comp_apply, moduleDevice, UInt32.toNat_inj]

/-- All that is asked of a request holds exactly for the fitting layouts and requests. -/
theorem readable_iff (k : Nat) (o s : UInt32) :
    Readable mem mbi stack found k o s ↔ Fitting mem mbi found k o s := by
  have hget : ∀ k device, ((List.range mbi.modsCount.toNat).map
      (moduleDevice mem mbi.modsAddr))[k]? = some device ↔
        k < mbi.modsCount.toNat ∧ moduleDevice mem mbi.modsAddr k = device := by
    intro k device
    simp [List.getElem?_map, Option.map_eq_some_iff, List.getElem?_eq_some_iff]
  constructor
  · rintro ⟨devices, count, hcall, -, hsizes, hread⟩
    obtain ⟨hfew, hmemory, hreg⟩ := (mbiModulesInit_iff mem mbi stack found _).mp hcall
    obtain rfl : devices = (List.range mbi.modsCount.toNat).map (moduleDevice mem mbi.modsAddr) :=
      List.reverse_injective (Devices.mk.inj hreg).1
    have hlen := (sizes_iff mem mbi.modsAddr _).mp hsizes
    have hright : k < mbi.modsCount.toNat → o ≤ (record mem mbi.modsAddr k).len → _ :=
      fun hk ho => (mbRead_right_iff mem mbi (by omega) hk (hlen k hk) ho).mp
        (((hread _ ((hget k _).mpr ⟨hk, rfl⟩)).2) ho)
    exact ⟨hfew, hmemory, hlen, fun hk ho => (hright hk ho).1, fun hk ho => (hright hk ho).2⟩
  · rintro ⟨hfew, hmemory, hlen, hrequest, hcontent⟩
    refine ⟨_, _, (mbiModulesInit_iff mem mbi stack found _).mpr ⟨hfew, hmemory, rfl⟩,
      names_nodup mem hfew _, (sizes_iff mem mbi.modsAddr _).mpr hlen, ?_⟩
    intro device hdevice
    obtain ⟨hk, rfl⟩ := (hget k device).mp hdevice
    exact ⟨rfl, fun ho => (mbRead_right_iff mem mbi (by omega) hk (hlen k hk) ho).mpr
      ⟨hrequest hk ho, hcontent hk ho⟩⟩

end Whole

/-- An array at 0x500 of a module from 0x1000 to 0x2000 and one from there to 0x2400, in
memory that is zero elsewhere. -/
def twoModules (a : UInt32) : UInt8 :=
  if a = 0x501 then 0x10
  else if a = 0x505 ∨ a = 0x511 then 0x20
  else if a = 0x515 then 0x24
  else 0

/-- The second module is registered with a size of zero. -/
theorem not_readable :
    ¬ Readable twoModules ⟨2, 0x500⟩ (fun _ _ => 0) (fun _ => true) 1 0 1 := by
  rintro ⟨devices, count, hcall, -, hsizes, -⟩
  obtain ⟨-, -, hreg⟩ := (mbiModulesInit_iff twoModules ⟨2, 0x500⟩ _ _ _).mp hcall
  rw [List.reverse_injective (Devices.mk.inj hreg).1, sizes_iff] at hsizes
  exact absurd (hsizes 1 (by decide)) (by decide)

/-! ## Reads stay inside the module -/

section Inside

variable (mem : UInt32 → UInt8) (mbi : MultibootInfo) (name : List UInt8)

/-- The `i` of `mb_read`. -/
def moduleNumber : UInt8 := (byteAt name 6 - ascii '0') * 10 + (byteAt name 5 - ascii '0')

/-- The record that `mb_read` comes to. -/
def selected : MultibootModule :=
  moduleAt mem (walked mem mbi.modsAddr (moduleNumber name).toNat)

/-- What `memcpy` is called with, beside the buffer. -/
structure Copy where
  src : UInt32
  size : UInt32

/-- The call of `memcpy` that `mb_read` makes, or the error it returns before it. -/
def mbCopy (offset size : UInt32) : Except Int Copy :=
  if (moduleNumber name).toNat > mbi.modsCount.toNat then .error (-EINVAL)
  else
    let mod := selected mem mbi name
    if offset + size ≥ mod.modEnd then .error (-EINVAL)
    else .ok {
      src := mod.modStart + offset
      size := if offset > mod.len then 0 else min (mod.len - offset) size }

/-- What `mb_read` returns, and what is copied. -/
def answer : Except Int Copy → UInt32 × List UInt8
  | .error e => (UInt32.ofNat (asU32 e), [])
  | .ok copy => (copy.size, bytes mem copy.src copy.size.toNat)

/-- `mb_read` returns the error, or makes the call and returns its size. -/
theorem mbRead_eq (offset size : UInt32) :
    mbRead mem mbi name offset size = answer mem (mbCopy mem mbi name offset size) := by
  rw [mbCopy, apply_ite (answer mem)]
  dsimp only
  rw [apply_ite (answer mem)]
  rfl

variable {mem mbi name}

theorem min_le_both (a b : UInt32) : min a b ≤ a ∧ min a b ≤ b := by
  rw [show min a b = if a ≤ b then a else b from rfl]
  split
  · rename_i h
    exact ⟨UInt32.le_refl a, h⟩
  · rename_i h
    exact ⟨UInt32.le_of_lt (UInt32.not_le.mp h), UInt32.le_refl b⟩

/-- The clamp: where it does not give zero, the copied bytes begin at the offset and end
at the end of the module, at the latest. -/
theorem clamped_inside {mod : MultibootModule} (hmod : mod.modStart ≤ mod.modEnd)
    {offset size : UInt32} {j : Nat}
    (hj : j < (if offset > mod.len then 0 else min (mod.len - offset) size).toNat) :
    mod.modStart.toNat ≤ (mod.modStart + offset + UInt32.ofNat j).toNat ∧
      (mod.modStart + offset + UInt32.ofNat j).toNat < mod.modEnd.toNat := by
  split at hj
  · exact absurd hj (Nat.not_lt_zero j)
  rename_i hoffset
  have hle : offset ≤ mod.len := UInt32.not_lt.mp hoffset
  have hlen : mod.len.toNat = mod.modEnd.toNat - mod.modStart.toNat :=
    UInt32.toNat_sub_of_le _ _ hmod
  have hrest : (mod.len - offset).toNat = mod.len.toNat - offset.toNat :=
    UInt32.toNat_sub_of_le _ _ hle
  have hmin := (min_le_both (mod.len - offset) size).1
  rw [UInt32.le_iff_toNat_le] at hle hmin
  have hend := mod.modEnd.toNat_lt
  have hsum : (mod.modStart + offset + UInt32.ofNat j).toNat =
      mod.modStart.toNat + offset.toNat + j := by
    simp only [UInt32.toNat_add, UInt32.toNat_ofNat']
    omega
  omega

/-- For every request, on a node of every name: an error copies nothing, and else the result
is the number of bytes that are copied, at most as many as asked for, all from inside the
module. -/
theorem mbCopy_inside (mem : UInt32 → UInt8) (mbi : MultibootInfo) (name : List UInt8)
    (offset size : UInt32)
    (hmod : (moduleNumber name).toNat ≤ mbi.modsCount.toNat →
      (selected mem mbi name).modStart ≤ (selected mem mbi name).modEnd) :
    (∀ e, mbCopy mem mbi name offset size = .error e →
      e < 0 ∧ mbRead mem mbi name offset size = (UInt32.ofNat (asU32 e), [])) ∧
    ∀ copy, mbCopy mem mbi name offset size = .ok copy →
      mbRead mem mbi name offset size = (copy.size, bytes mem copy.src copy.size.toNat) ∧
      (bytes mem copy.src copy.size.toNat).length = copy.size.toNat ∧ copy.size ≤ size ∧
      ∀ j < copy.size.toNat,
        (selected mem mbi name).modStart.toNat ≤ (copy.src + UInt32.ofNat j).toNat ∧
          (copy.src + UInt32.ofNat j).toNat < (selected mem mbi name).modEnd.toNat := by
  constructor
  · intro e he
    refine ⟨?_, by rw [mbRead_eq, he, answer]⟩
    rw [mbCopy] at he
    split at he
    · cases he
      decide
    · dsimp only at he
      split at he
      · cases he
        decide
      · cases he
  · intro copy hcopy
    refine ⟨by rw [mbRead_eq, hcopy, answer], by simp [bytes], ?_⟩
    rw [mbCopy] at hcopy
    split at hcopy
    · cases hcopy
    rename_i hcount
    dsimp only at hcopy
    split at hcopy
    · cases hcopy
    cases hcopy
    constructor
    · dsimp only
      split
      · exact UInt32.zero_le
      · exact (min_le_both _ size).2
    · intro j hj
      exact clamped_inside (hmod (Nat.not_lt.mp hcount)) hj

/-- A read of the first module of `twoModules` that reaches over its end copies 16 bytes. -/
theorem mbCopy_inside_first :
    (selected twoModules ⟨2, 0x500⟩ (nameOf (digit 0) (ascii '0'))) = ⟨0x1000, 0x2000⟩ ∧
      (mbRead twoModules ⟨2, 0x500⟩ (nameOf (digit 0) (ascii '0')) 0xff0 0x20).1 = 16 ∧
      ∀ j < 16, 0x1000 ≤ ((0x1ff0 : UInt32) + UInt32.ofNat j).toNat ∧
        ((0x1ff0 : UInt32) + UInt32.ofNat j).toNat < 0x2000 := by
  have hinside := mbCopy_inside twoModules ⟨2, 0x500⟩ (nameOf (digit 0) (ascii '0')) 0xff0 0x20
    (fun _ => by decide)
  obtain ⟨hread, -, -, hbytes⟩ := hinside.2 ⟨0x1ff0, 0x10⟩ rfl
  exact ⟨by decide, by rw [hread], hbytes⟩

end Inside

end StardustOS.Dev
