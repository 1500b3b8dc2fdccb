import StardustOS.Libc.Digits
import StardustOS.Pci.Config

/-!
# Names of PCI functions

`found_dev` makes the name of a function out of the decimal digits of its bus, its slot
and its number, which `itoa` writes over the template `000.00.0`.  A bus with less than
three digits, or a slot with less than two, is filled with zeros behind its digits
(`devName_eq`), as if it were multiplied by ten.

A name and its NUL fill the buffer, but those of two functions are the same when their
buses and their slots are filled to the same numbers (`nameText_inj`).
-/

namespace StardustOS.Pci

open Libc

/-! ## The source -/

/-- Bytes are stored into a buffer, from an index on. -/
def storeAt (buf : List UInt8) (p : Nat) (bytes : List UInt8) : Option (List UInt8) :=
  if p + bytes.length ≤ buf.length then some (buf.take p ++ bytes ++ buf.drop (p + bytes.length))
  else none

/-- `itoa(name + p, 10, n)`. -/
def itoaAt (name : List UInt8) (p : Nat) (n : UInt8) : Option (List UInt8) :=
  storeAt name p ((itoa 10 n.toUInt32.toInt32).1 ++ [0])

/-- `if (name[p] == 0) name[p] = '0'`. -/
def fillZero (name : List UInt8) (p : Nat) : List UInt8 :=
  if byteAt name p = 0 then name.set p (ascii '0') else name

/-- The buffer `name` of `found_dev`, when the name is made. -/
def devName (addr : PciDev) : Option (List UInt8) := do
  let name := List.replicate 9 0
  let name ← storeAt name 0 (asciiText "000.00.0".toList ++ [0])
  let name ← itoaAt name 0 addr.bus
  let name := fillZero name 1
  let name := fillZero name 2
  let name := name.set 3 (ascii '.')
  let name ← itoaAt name 4 addr.slot
  let name := fillZero name 5
  let name := name.set 6 (ascii '.')
  itoaAt name 7 addr.func

/-! ## What the names say -/

/-- A bus with zeros behind its digits, up to three. -/
def filledBus (bus : UInt8) : Nat :=
  if bus.toNat < 10 then 100 * bus.toNat
  else if bus.toNat < 100 then 10 * bus.toNat
  else bus.toNat

/-- A slot with a zero behind its digit, if it has one only. -/
def filledSlot (slot : UInt8) : Nat := if slot.toNat < 10 then 10 * slot.toNat else slot.toNat

/-- The functions are the same when their buses and slots are filled. -/
def SameFilled (a b : PciDev) : Prop :=
  filledBus a.bus = filledBus b.bus ∧ filledSlot a.slot = filledSlot b.slot ∧ a.func = b.func

instance (a b : PciDev) : Decidable (SameFilled a b) := inferInstanceAs (Decidable (_ ∧ _ ∧ _))

/-- The name of a function. -/
def nameText (a : PciDev) : List UInt8 :=
  [digit (filledBus a.bus / 100), digit (filledBus a.bus / 10 % 10), digit (filledBus a.bus % 10),
    ascii '.', digit (filledSlot a.slot / 10), digit (filledSlot a.slot % 10), ascii '.',
    digit a.func.toNat]

/-! ## The digits -/

theorem itoa_uint8 (n : UInt8) : (itoa 10 n.toUInt32.toInt32).1 = unsignedText 10 n.toNat := by
  rw [itoa_ten]
  rfl

theorem unsignedText_one {n : Nat} (h : n < 10) : unsignedText 10 n = [digit n] := by
  rw [unsignedText, numeral_of_lt h, List.map_singleton]

theorem unsignedText_two {n : Nat} (hlow : 10 ≤ n) (h : n < 100) :
    unsignedText 10 n = [digit (n / 10), digit (n % 10)] := by
  have hdiv : numeral 10 (n / 10) = [n / 10] := numeral_of_lt (by omega)
  rw [unsignedText, numeral_of_div (by omega) (by omega), hdiv]
  rfl

theorem unsignedText_three {n : Nat} (hlow : 100 ≤ n) (h : n < 1000) :
    unsignedText 10 n = [digit (n / 100), digit (n / 10 % 10), digit (n % 10)] := by
  have hdiv : numeral 10 (n / 10) = [n / 100, n / 10 % 10] := by
    rw [numeral_of_div (by omega) (by omega), Nat.div_div_eq_div_mul, numeral_of_lt (by omega)]
    rfl
  rw [unsignedText, numeral_of_div (by omega) (by omega), hdiv]
  rfl

theorem digit_of_lt {d : Nat} (h : d < 10) : (digit d).toNat = 48 + d := by
  rw [digit, if_pos h, UInt8.toNat_ofNat_of_lt' (show _ < 2 ^ 8 by omega)]

theorem digit_ne_zero {d : Nat} (h : d < 10) : digit d ≠ 0 := by
  intro hzero
  have hnat := digit_of_lt h
  rw [hzero] at hnat
  change 0 = _ at hnat
  omega

theorem digit_inj {d e : Nat} (hd : d < 10) (he : e < 10) : digit d = digit e ↔ d = e := by
  rw [← UInt8.toNat_inj, digit_of_lt hd, digit_of_lt he]
  omega

theorem digit_zero : digit 0 = ascii '0' := rfl

/-! ## The name -/

/-- The template. -/
def template : List UInt8 := asciiText "000.00.0".toList ++ [0]

/-- The digits of the bus in the template. -/
theorem itoaAt_bus (bus : UInt8) :
    ∃ name, itoaAt template 0 bus = some name ∧
      (fillZero (fillZero name 1) 2).set 3 (ascii '.') =
        [digit (filledBus bus / 100), digit (filledBus bus / 10 % 10), digit (filledBus bus % 10),
          ascii '.'] ++ template.drop 4 := by
  have hlt : bus.toNat < 256 := bus.toNat_lt
  rw [itoaAt, itoa_uint8, filledBus]
  by_cases hone : bus.toNat < 10
  · refine ⟨_, by rw [unsignedText_one hone]; rfl, ?_⟩
    rw [if_pos hone, Nat.mul_div_cancel_left _ (by omega),
      show 100 * bus.toNat / 10 % 10 = 0 by omega, show 100 * bus.toNat % 10 = 0 by omega,
      digit_zero]
    rfl
  · by_cases htwo : bus.toNat < 100
    · have hdigit : digit (bus.toNat % 10) ≠ 0 := digit_ne_zero (by omega)
      refine ⟨_, by rw [unsignedText_two (by omega) htwo]; rfl, ?_⟩
      rw [if_neg hone, if_pos htwo, show 10 * bus.toNat / 100 = bus.toNat / 10 by omega,
        show 10 * bus.toNat / 10 % 10 = bus.toNat % 10 by omega,
        show 10 * bus.toNat % 10 = 0 by omega, digit_zero]
      simp [fillZero, byteAt, hdigit, template, asciiText]
    · have hdigit : digit (bus.toNat / 10 % 10) ≠ 0 := digit_ne_zero (by omega)
      have hdigit' : digit (bus.toNat % 10) ≠ 0 := digit_ne_zero (by omega)
      refine ⟨_, by rw [unsignedText_three (by omega) (by omega)]; rfl, ?_⟩
      rw [if_neg hone, if_neg htwo]
      simp [fillZero, byteAt, hdigit, hdigit', template, asciiText]

/-- The digits of the slot behind those of the bus. -/
theorem itoaAt_slot {slot : UInt8} (hslot : slot < 32) (b₀ b₁ b₂ b₃ : UInt8) :
    ∃ name, itoaAt ([b₀, b₁, b₂, b₃] ++ template.drop 4) 4 slot = some name ∧
      (fillZero name 5).set 6 (ascii '.') =
        [b₀, b₁, b₂, b₃, digit (filledSlot slot / 10), digit (filledSlot slot % 10), ascii '.'] ++
          template.drop 7 := by
  have hlt : slot.toNat < 32 := UInt8.lt_iff_toNat_lt.mp hslot
  rw [itoaAt, itoa_uint8, filledSlot]
  by_cases hone : slot.toNat < 10
  · refine ⟨_, by rw [unsignedText_one hone]; rfl, ?_⟩
    rw [if_pos hone, Nat.mul_div_cancel_left _ (by omega), Nat.mul_mod_right, digit_zero]
    rfl
  · have hdigit : digit (slot.toNat % 10) ≠ 0 := digit_ne_zero (by omega)
    refine ⟨_, by rw [unsignedText_two (by omega) (by omega)]; rfl, ?_⟩
    rw [if_neg hone]
    simp [fillZero, byteAt, hdigit, template, asciiText]

/-- The name and a NUL fill the buffer. -/
theorem devName_eq (a : PciDev) : devName a = some (nameText a ++ [0]) := by
  have hfunc : a.func.toNat < 8 := UInt8.lt_iff_toNat_lt.mp a.func_lt
  have htemplate : storeAt (List.replicate 9 0) 0 (asciiText "000.00.0".toList ++ [0]) =
      some template := rfl
  obtain ⟨name, hbus, hname⟩ := itoaAt_bus a.bus
  obtain ⟨name', hslot, hname'⟩ := itoaAt_slot a.slot_lt (digit (filledBus a.bus / 100))
    (digit (filledBus a.bus / 10 % 10)) (digit (filledBus a.bus % 10)) (ascii '.')
  simp only [devName, htemplate, hbus, hname, hslot, hname', Option.bind_eq_bind, Option.bind_some]
  rw [itoaAt, itoa_uint8, unsignedText_one (by omega)]
  rfl

theorem length_nameText (a : PciDev) : (nameText a).length = 8 := rfl

theorem filledBus_lt (bus : UInt8) : filledBus bus < 1000 := by
  have hlt : bus.toNat < 256 := bus.toNat_lt
  rw [filledBus]
  split
  · omega
  · split
    · omega
    · omega

theorem filledSlot_lt {slot : UInt8} (h : slot < 32) : filledSlot slot < 100 := by
  have hlt : slot.toNat < 32 := UInt8.lt_iff_toNat_lt.mp h
  rw [filledSlot]
  split
  · omega
  · omega

theorem zero_notMem_nameText (a : PciDev) : 0 ∉ nameText a := by
  have hbus := filledBus_lt a.bus
  have hslot := filledSlot_lt a.slot_lt
  have hfunc : a.func.toNat < 8 := UInt8.lt_iff_toNat_lt.mp a.func_lt
  have hdot : ascii '.' ≠ 0 := by decide
  have hdigit : ∀ d < 10, 0 ≠ digit d := fun d hd => (digit_ne_zero hd).symm
  simp only [nameText, List.mem_cons, List.not_mem_nil, or_false, not_or]
  exact ⟨hdigit _ (by omega), hdigit _ (by omega), hdigit _ (by omega), hdot.symm,
    hdigit _ (by omega), hdigit _ (by omega), hdot.symm, hdigit _ (by omega)⟩

/-- The name ends where the buffer does. -/
theorem cstr_devName {a : PciDev} {name : List UInt8} (h : devName a = some name) :
    cstr name 0 = nameText a := by
  rw [devName_eq] at h
  cases h
  exact cstr_append [] (zero_notMem_nameText a)

/-- Two functions have one name when they are the same, filled. -/
theorem nameText_inj {a b : PciDev} : nameText a = nameText b ↔ SameFilled a b := by
  have hbus := filledBus_lt a.bus
  have hbus' := filledBus_lt b.bus
  have hslot := filledSlot_lt a.slot_lt
  have hslot' := filledSlot_lt b.slot_lt
  have hfunc : a.func.toNat < 8 := UInt8.lt_iff_toNat_lt.mp a.func_lt
  have hfunc' : b.func.toNat < 8 := UInt8.lt_iff_toNat_lt.mp b.func_lt
  rw [SameFilled, ← UInt8.toNat_inj]
  constructor
  · intro h
    simp only [nameText, List.cons.injEq] at h
    obtain ⟨h₀, h₁, h₂, -, h₄, h₅, -, h₇, -⟩ := h
    rw [digit_inj (by omega) (by omega)] at h₀ h₁ h₂ h₄ h₅ h₇
    omega
  · rintro ⟨hb, hs, hf⟩
    rw [nameText, nameText, hb, hs, hf]

end StardustOS.Pci
