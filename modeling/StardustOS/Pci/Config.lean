import Mathlib.Data.Nat.Bitwise
import StardustOS.Lib.LittleEndian

/-!
# PCI configuration space

The kernel reaches the configuration space of a PCI function by two ports: a word
written to `PCI_ADDR` selects a dword of a function, and the bytes from `PCI_VAL` on
are those of the selected dword.

The six accessors of `pci.c` are one read and one write of so many bytes at an offset
of `PCI_VAL`.  None of them puts the register into the word for `PCI_ADDR`: they
select the first dword of the function (`selected_address`), whatever the register.
So an access is right exactly for the registers of that dword (`accessRight_iff`).
-/

namespace StardustOS.Pci

open Lib

/-! ## The ports -/

/-- A dword of configuration space. -/
structure Cell where
  bus : Nat
  slot : Nat
  func : Nat
  dword : Nat
deriving DecidableEq, Repr

/-- The word that was written to `PCI_ADDR`, and configuration space, the bytes of a
dword from the lowest on. -/
structure Ports where
  addr : UInt32
  space : Cell → Nat → UInt8

namespace Ports

variable (s : Ports)

/-- The dword that the word in `PCI_ADDR` selects, if its highest bit is set. -/
def selected : Option Cell :=
  let a := s.addr.toNat
  if a.testBit 31 then
    some ⟨(a >>> 16) % 256, (a >>> 11) % 32, (a >>> 8) % 8, (a >>> 2) % 64⟩
  else none

/-- `outl(PCI_ADDR, value)`. -/
def outAddr (value : UInt32) : Ports := { s with addr := value }

/-- The `n` bytes from the port `PCI_VAL + k` on.  Past the four ports it is
undefined. -/
def inVal (n k : Nat) : Option (List UInt8) :=
  if k + n ≤ 4 then s.selected.map fun c => (List.range n).map fun i => s.space c (k + i)
  else none

/-- Bytes are written from the port `PCI_VAL + k` on. -/
def outVal (k : Nat) (bytes : List UInt8) : Option Ports :=
  if k + bytes.length ≤ 4 then
    s.selected.map fun c =>
      { s with
        space := fun c' j =>
          if c' = c ∧ k ≤ j ∧ j < k + bytes.length then bytes.getD (j - k) 0 else s.space c' j }
  else none

end Ports

/-! ## The source -/

/-- `pci_dev_t`, of a function that a bus can have. -/
structure PciDev where
  bus : UInt8
  slot : UInt8
  func : UInt8
  slot_lt : slot < 32
  func_lt : func < 8
deriving DecidableEq, Repr

/-- The word that the accessors write to `PCI_ADDR`. -/
def PciDev.address (dev : PciDev) : UInt32 :=
  dev.bus.toUInt32 <<< 16 ||| dev.slot.toUInt32 <<< 11 ||| dev.func.toUInt32 <<< 8 ||| 0x80000000

/-- The function is selected and `n` bytes are read. -/
def pciRead (n k : Nat) (dev : PciDev) (s : Ports) : Option (Nat × Ports) :=
  let s := s.outAddr dev.address
  (s.inVal n k).map fun bytes => (leNat bytes, s)

/-- The function is selected and bytes are written. -/
def pciWrite (n k : Nat) (dev : PciDev) (value : Nat) (s : Ports) : Option Ports :=
  (s.outAddr dev.address).outVal k (leBytes n value)

/-- `pci_read32`. -/
def pciRead32 (dev : PciDev) (_reg : UInt8) (s : Ports) : Option (UInt32 × Ports) :=
  (pciRead 4 0 dev s).map fun (v, s) => (UInt32.ofNat v, s)

/-- `pci_read16`. -/
def pciRead16 (dev : PciDev) (reg : UInt8) (s : Ports) : Option (UInt16 × Ports) :=
  (pciRead 2 (reg &&& 3).toNat dev s).map fun (v, s) => (UInt16.ofNat v, s)

/-- `pci_read8`. -/
def pciRead8 (dev : PciDev) (reg : UInt8) (s : Ports) : Option (UInt8 × Ports) :=
  (pciRead 1 (reg &&& 3).toNat dev s).map fun (v, s) => (UInt8.ofNat v, s)

/-- `pci_write32`. -/
def pciWrite32 (dev : PciDev) (_reg : UInt8) (value : UInt32) (s : Ports) : Option Ports :=
  pciWrite 4 0 dev value.toNat s

/-- `pci_write16`. -/
def pciWrite16 (dev : PciDev) (reg : UInt8) (value : UInt16) (s : Ports) : Option Ports :=
  pciWrite 2 (reg &&& 3).toNat dev value.toNat s

/-- `pci_write8`. -/
def pciWrite8 (dev : PciDev) (reg : UInt8) (value : UInt8) (s : Ports) : Option Ports :=
  pciWrite 1 (reg &&& 3).toNat dev value.toNat s

/-! ## Registers -/

/-- The widths of the accessors. -/
inductive Width
  | byte | word | dword
deriving DecidableEq, Repr

/-- The bytes of a width. -/
def Width.size : Width → Nat
  | .byte => 1
  | .word => 2
  | .dword => 4

/-- The read of a width, with its result as a number. -/
def read (w : Width) (dev : PciDev) (reg : UInt8) (s : Ports) : Option (Nat × Ports) :=
  match w with
  | .byte => (pciRead8 dev reg s).map fun (v, s) => (v.toNat, s)
  | .word => (pciRead16 dev reg s).map fun (v, s) => (v.toNat, s)
  | .dword => (pciRead32 dev reg s).map fun (v, s) => (v.toNat, s)

/-- The write of a width. -/
def write (w : Width) (dev : PciDev) (reg : UInt8) (v : Nat) (s : Ports) : Option Ports :=
  match w with
  | .byte => pciWrite8 dev reg (UInt8.ofNat v) s
  | .word => pciWrite16 dev reg (UInt16.ofNat v) s
  | .dword => pciWrite32 dev reg (UInt32.ofNat v) s

/-- The dword of a function that a register is in. -/
def PciDev.cell (dev : PciDev) (reg : UInt8) : Cell where
  bus := dev.bus.toNat
  slot := dev.slot.toNat
  func := dev.func.toNat
  dword := reg.toNat / 4

/-- A register of the width lies in one dword. -/
def InDword (w : Width) (reg : UInt8) : Prop := reg.toNat % 4 + w.size ≤ 4

/-- The value of a register. -/
def Ports.value (s : Ports) (w : Width) (dev : PciDev) (reg : UInt8) : Nat :=
  leNat ((List.range w.size).map fun i => s.space (dev.cell reg) (reg.toNat % 4 + i))

/-- The byte `k` of the dword `c` is one of the register. -/
def InRegister (w : Width) (dev : PciDev) (reg : UInt8) (c : Cell) (k : Nat) : Prop :=
  c = dev.cell reg ∧ reg.toNat % 4 ≤ k ∧ k < reg.toNat % 4 + w.size

/-- Reads of the register give its value and change nothing, a value that is written
is read back, and a write leaves all the rest as it is. -/
structure AccessRight (w : Width) (dev : PciDev) (reg : UInt8) : Prop where
  reads : ∀ s, ∃ s', read w dev reg s = some (s.value w dev reg, s') ∧ s'.space = s.space
  writes : ∀ s v, v < 256 ^ w.size →
    ∃ s' s'', write w dev reg v s = some s' ∧ read w dev reg s' = some (v, s'')
  frame : ∀ s v s', write w dev reg v s = some s' →
    ∀ c k, ¬ InRegister w dev reg c k → s'.space c k = s.space c k

/-! ## What is selected -/

variable {w : Width} {dev : PciDev} {reg : UInt8} {s : Ports}

theorem toNat_address (dev : PciDev) : dev.address.toNat =
    2 ^ 31 + ((dev.bus.toNat * 32 + dev.slot.toNat) * 8 + dev.func.toNat) * 256 := by
  have hbus := dev.bus.toNat_lt
  have hslot : dev.slot.toNat < 2 ^ 5 := UInt8.lt_iff_toNat_lt.mp dev.slot_lt
  have hfunc : dev.func.toNat < 2 ^ 3 := UInt8.lt_iff_toNat_lt.mp dev.func_lt
  simp only [PciDev.address, UInt32.toNat_or, UInt32.toNat_shiftLeft, UInt8.toNat_toUInt32]
  have hb : dev.bus.toNat <<< ((16 : UInt32).toNat % 32) % 2 ^ 32 = 2 ^ 16 * dev.bus.toNat := by
    rw [Nat.shiftLeft_eq]
    show _ * 2 ^ 16 % _ = _
    omega
  have hs : dev.slot.toNat <<< ((11 : UInt32).toNat % 32) % 2 ^ 32 = 2 ^ 11 * dev.slot.toNat := by
    rw [Nat.shiftLeft_eq]
    show _ * 2 ^ 11 % _ = _
    omega
  have hf : dev.func.toNat <<< ((8 : UInt32).toNat % 32) % 2 ^ 32 = 2 ^ 8 * dev.func.toNat := by
    rw [Nat.shiftLeft_eq]
    show _ * 2 ^ 8 % _ = _
    omega
  -- no field reaches into the next, so each `|` is a sum
  rw [hb, hs, hf, ← Nat.two_pow_add_eq_or_of_lt (by omega),
    show 2 ^ 16 * dev.bus.toNat + 2 ^ 11 * dev.slot.toNat =
      2 ^ 11 * (dev.bus.toNat * 32 + dev.slot.toNat) by omega,
    ← Nat.two_pow_add_eq_or_of_lt (by omega), Nat.or_comm]
  rw [show (2147483648 : UInt32).toNat = 2 ^ 31 * 1 from rfl,
    ← Nat.two_pow_add_eq_or_of_lt (by omega)]
  omega

/-- The accessors select the first dword of the function. -/
theorem selected_address (s : Ports) (dev : PciDev) :
    (s.outAddr dev.address).selected = some (dev.cell 0) := by
  have hbus := dev.bus.toNat_lt
  have hslot : dev.slot.toNat < 2 ^ 5 := UInt8.lt_iff_toNat_lt.mp dev.slot_lt
  have hfunc : dev.func.toNat < 2 ^ 3 := UInt8.lt_iff_toNat_lt.mp dev.func_lt
  have hbit : (2 ^ 31 + ((dev.bus.toNat * 32 + dev.slot.toNat) * 8 + dev.func.toNat) * 256).testBit
      31 = true := by
    rw [Nat.testBit_eq_decide_div_mod_eq, decide_eq_true_eq]
    omega
  simp only [Ports.selected, Ports.outAddr, toNat_address, hbit, if_true, PciDev.cell,
    Nat.shiftRight_eq_div_pow, Option.some.injEq, Cell.mk.injEq]
  refine ⟨?_, ?_, ?_, ?_⟩
  · omega
  · omega
  · omega
  · show _ = 0 / 4
    omega

/-! ## The accessors -/

/-- The bytes that a read of the register asks for, of the first dword. -/
theorem pciRead_eq (n k : Nat) (dev : PciDev) (s : Ports) (h : k + n ≤ 4) :
    pciRead n k dev s = some (leNat ((List.range n).map fun i => s.space (dev.cell 0) (k + i)),
      s.outAddr dev.address) := by
  rw [pciRead]
  simp only [Ports.inVal, if_pos h, selected_address, Option.map_some]
  rfl

theorem pciWrite_eq (n k : Nat) (dev : PciDev) (v : Nat) (s : Ports) (h : k + n ≤ 4) :
    pciWrite n k dev v s = some { s.outAddr dev.address with
      space := fun c j => if c = dev.cell 0 ∧ k ≤ j ∧ j < k + n then (leBytes n v).getD (j - k) 0
        else s.space c j } := by
  rw [pciWrite]
  simp only [Ports.outVal, length_leBytes, if_pos h, selected_address, Option.map_some]
  rfl

theorem toNat_and_three (reg : UInt8) : (reg &&& 3).toNat = reg.toNat % 4 := by
  rw [UInt8.toNat_and]
  exact Nat.and_two_pow_sub_one_eq_mod reg.toNat 2

/-- A register of four bytes is at the start of its dword. -/
theorem InDword.mod_eq (h : InDword .dword reg) : reg.toNat % 4 = 0 := by
  simp only [InDword, Width.size] at h
  omega

theorem read_eq (h : InDword w reg) : read w dev reg s =
    some (leNat ((List.range w.size).map fun i => s.space (dev.cell 0) (reg.toNat % 4 + i)),
      s.outAddr dev.address) := by
  have hlt : ∀ (n k : Nat), leNat ((List.range n).map fun i => s.space (dev.cell 0) (k + i)) <
      256 ^ n := by
    intro n k
    have hbound := leNat_lt ((List.range n).map fun i => s.space (dev.cell 0) (k + i))
    rwa [List.length_map, List.length_range] at hbound
  cases w with
  | byte =>
      have hmod := Nat.mod_eq_of_lt (show _ < 2 ^ 8 from hlt 1 (reg.toNat % 4))
      rw [read, pciRead8, toNat_and_three, pciRead_eq 1 _ dev s h]
      simpa only [Option.map_some, Width.size, UInt8.toNat_ofNat', Option.some.injEq,
        Prod.mk.injEq, and_true] using hmod
  | word =>
      have hmod := Nat.mod_eq_of_lt (show _ < 2 ^ 16 from hlt 2 (reg.toNat % 4))
      rw [read, pciRead16, toNat_and_three, pciRead_eq 2 _ dev s h]
      simpa only [Option.map_some, Width.size, UInt16.toNat_ofNat', Option.some.injEq,
        Prod.mk.injEq, and_true] using hmod
  | dword =>
      have hmod := Nat.mod_eq_of_lt (show _ < 2 ^ 32 from hlt 4 0)
      rw [read, pciRead32, pciRead_eq 4 0 dev s (Nat.le_refl 4), h.mod_eq]
      simpa only [Option.map_some, Width.size, UInt32.toNat_ofNat', Option.some.injEq,
        Prod.mk.injEq, and_true] using hmod

theorem write_eq (h : InDword w reg) (v : Nat) : write w dev reg v s =
    pciWrite w.size (reg.toNat % 4) dev (v % 256 ^ w.size) s := by
  cases w with
  | byte => rw [write, pciWrite8, toNat_and_three, UInt8.toNat_ofNat']; rfl
  | word => rw [write, pciWrite16, toNat_and_three, UInt16.toNat_ofNat']; rfl
  | dword => rw [write, pciWrite32, h.mod_eq, UInt32.toNat_ofNat']; rfl

/-- The first dword has the registers below 4. -/
theorem cell_eq_iff : dev.cell reg = dev.cell 0 ↔ reg.toNat < 4 := by
  simp only [PciDev.cell, Cell.mk.injEq, true_and]
  show reg.toNat / 4 = 0 / 4 ↔ _
  omega

/-- What was written is read back, be it the register or not. -/
theorem read_write (h : InDword w reg) {v : Nat} (hv : v < 256 ^ w.size) (s : Ports) :
    ∃ s' s'', write w dev reg v s = some s' ∧ read w dev reg s' = some (v, s'') := by
  let s' : Ports := { s.outAddr dev.address with
    space := fun c j =>
      if c = dev.cell 0 ∧ reg.toNat % 4 ≤ j ∧ j < reg.toNat % 4 + w.size then
        (leBytes w.size v).getD (j - reg.toNat % 4) 0
      else s.space c j }
  have hwrite : write w dev reg v s = some s' := by
    rw [write_eq h, Nat.mod_eq_of_lt hv, pciWrite_eq _ _ _ _ _ h]
  have hbytes : ((List.range w.size).map fun i => s'.space (dev.cell 0) (reg.toNat % 4 + i)) =
      leBytes w.size v := by
    refine List.ext_getElem (by simp) ?_
    intro i hi hi'
    rw [length_leBytes] at hi'
    simp [s', hi', List.getD_eq_getElem?_getD]
  refine ⟨s', s'.outAddr dev.address, hwrite, ?_⟩
  rw [read_eq h, hbytes, leNat_leBytes hv]

/-- An access to a register is right exactly when the register is in the first dword. -/
theorem accessRight_iff (w : Width) (dev : PciDev) (reg : UInt8) (h : InDword w reg) :
    AccessRight w dev reg ↔ reg.toNat < 4 := by
  constructor
  · intro hright
    by_contra hreg
    -- ones in the dword of the register, zeros in the first
    let s : Ports := ⟨0, fun c _ => if c = dev.cell reg then 1 else 0⟩
    have hcell : ¬ dev.cell 0 = dev.cell reg := fun hc => hreg (cell_eq_iff.mp hc.symm)
    obtain ⟨s', hread, -⟩ := hright.reads s
    rw [read_eq h, Option.some.injEq, Prod.mk.injEq] at hread
    have hvalue := hread.1
    simp only [Ports.value, s, if_neg hcell, if_true] at hvalue
    cases w with
    | byte => exact absurd hvalue (by decide)
    | word => exact absurd hvalue (by decide)
    | dword => exact absurd hvalue (by decide)
  · intro hreg
    have hcell : dev.cell reg = dev.cell 0 := cell_eq_iff.mpr hreg
    refine ⟨fun s => ?_, fun s v hv => read_write h hv s, ?_⟩
    · refine ⟨s.outAddr dev.address, ?_, rfl⟩
      rw [read_eq h, Ports.value, hcell]
    · intro s v s' hs' c k hout
      rw [write_eq h, pciWrite_eq _ _ _ _ _ h] at hs'
      cases hs'
      refine if_neg ?_
      rw [← hcell]
      exact hout

/-- The host bridge. -/
def hostBridge : PciDev := ⟨0, 0, 0, by decide, by decide⟩

theorem accessRight_iff_vendor : AccessRight .word hostBridge 0 ↔ (0 : UInt8).toNat < 4 :=
  accessRight_iff .word hostBridge 0 (by simp [InDword, Width.size])

/-- The class code, in the register 8, reads as the identifiers in the register 0. -/
theorem accessRight_wrong :
    ∃ s : Ports, s.value .dword hostBridge 8 = 0x06000002 ∧
      (read .dword hostBridge 8 s).map Prod.fst = some 0x12378086 ∧
      ¬ AccessRight .dword hostBridge 8 := by
  let s : Ports := ⟨0, fun c k => (leBytes 4 (if c = hostBridge.cell 8 then 0x06000002
    else 0x12378086)).getD k 0⟩
  have hvalue : s.value .dword hostBridge 8 = 0x06000002 := by decide
  have hread : (read .dword hostBridge 8 s).map Prod.fst = some 0x12378086 := by decide
  refine ⟨s, hvalue, hread, ?_⟩
  intro h
  obtain ⟨s', hs', -⟩ := h.reads s
  rw [hs', hvalue] at hread
  cases hread

end StardustOS.Pci
