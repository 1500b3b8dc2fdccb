import Mathlib.Data.Nat.Bitwise
import Mathlib.Data.UInt
import Mathlib.Tactic.Ring
import StardustOS.Errno

/-!
# Base address registers

`genres` finds out what a base address register (BAR) of a function stands for: it
reads the register, writes ones to all its bits and reads it again.

The second reading has the address bits that can be written, and the flag bits beside
them.  `genres` takes its negative for the size, flags and all, so what it stores is the
size less the flags (`genres_size`), and it leaves the register as the ones made it
(`genres_regs`).  Both are right for a memory BAR without flags whose address bits are
all ones, and for no other (`probeRight_iff`).
-/

namespace StardustOS.Pci

/-! ## The source -/

/-- `BUSDEVRES_IO` and `BUSDEVRES_MEM`. -/
inductive ResType
  | io | mem
deriving DecidableEq, Repr

/-- `bus_dev_res_t`. -/
structure BusDevRes where
  value : UInt64
  size : UInt32
  type : ResType
deriving DecidableEq, Repr

/-- The resources of a `bus_dev_t`: those in `res_list`, the pointer at the end of the
list, and `res_count`. -/
structure Resources where
  list : List BusDevRes
  tail : Nat
  count : UInt32
deriving DecidableEq, Repr

/-- A register of a function: its value, and the bits of it that a write changes. -/
structure Reg where
  value : UInt32
  mask : UInt32
deriving DecidableEq, Repr

/-- A value is written. -/
def Reg.write (r : Reg) (v : UInt32) : Reg :=
  { r with value := v &&& r.mask ||| r.value &&& ~~~r.mask }

/-- The registers of a function. -/
abbrev Regs := UInt8 → Reg

/-- The register of the BAR. -/
def barReg (barindex : UInt8) : UInt8 := barindex * 4 + 16

/-- The resource that `genres` makes of the two readings of a register. -/
def resource (barval barsize : UInt32) : BusDevRes where
  size := barsize
  value :=
    (if barval &&& 0x4 ≠ 0 then barval &&& 0xFFFFFFF0
    else if barval &&& 0x1 ≠ 0 then (barval &&& ~~~0x3) &&& 0xFFFF
    else barval &&& 0xFFFFFFF0).toUInt64
  type :=
    if barval &&& 0x4 ≠ 0 then .mem
    else if barval &&& 0x1 ≠ 0 then .io
    else .mem

/-- `genres`, with `block` if `kmalloc` has a block for the resource. -/
def genres (regs : Regs) (res : Resources) (barindex : UInt8) (block : Bool) :
    Int × Resources × Regs :=
  let reg := barReg barindex
  let barval := (regs reg).value
  let regs := Function.update regs reg ((regs reg).write 0xFFFFFFFF)
  let barsize := (regs reg).value
  if barsize = 0 ∨ barval = 0 then (0, res, regs)
  else
    let barsize := ~~~barsize + 1
    if barsize = 0 then (0, res, regs)
    else if block = false then (-ENOMEM, res, regs)
    else
      let r := resource barval barsize
      if r.value = 0 ∨ r.size = 0 then (0, res, regs)
      else (0, { res with list := r :: res.list, count := res.count + 1 }, regs)

/-! ## What a BAR is -/

/-- An implemented BAR of `2 ^ k` bytes.  The bits from `k` up are the base and can be
written, those below are flags. -/
structure Bar where
  io : Bool
  flags : Nat
  k : Nat
  base : Nat
  flags_ok : if io then flags = 1 else flags < 16 ∧ flags % 2 = 0
  k_range : (if io then 2 else 4) ≤ k ∧ k < 32
  base_dvd : 2 ^ k ∣ base
  base_lt : base < 2 ^ 32

namespace Bar

variable (b : Bar)

/-- The register of the BAR. -/
def reg : Reg where
  value := UInt32.ofNat (b.base + b.flags)
  mask := UInt32.ofNat (2 ^ 32 - 2 ^ b.k)

/-- The resource that the BAR stands for. -/
def resource : BusDevRes where
  value := UInt64.ofNat b.base
  size := UInt32.ofNat (2 ^ b.k)
  type := if b.io then .io else .mem

end Bar

/-- What the register of a BAR is wired to. -/
inductive Wired
  | bar (b : Bar)
  /-- The BAR is not implemented: it reads as zero and cannot be written. -/
  | unimplemented

def Wired.reg : Wired → Reg
  | .bar b => b.reg
  | .unimplemented => ⟨0, 0⟩

/-- The BAR is probed as it should be: one with a base gives its resource and one that is
not implemented none, and the registers are as before. -/
def ProbeRight (w : Wired) (regs : Regs) (res : Resources) (i : UInt8) (block : Bool) : Prop :=
  match w with
  | .bar b => b.base ≠ 0 → genres regs res i block =
      (0, { res with list := b.resource :: res.list, count := res.count + 1 }, regs)
  | .unimplemented => genres regs res i block = (0, res, regs)

/-! ## The readings -/

namespace Bar

variable (b : Bar)

theorem flags_lt : b.flags < 2 ^ b.k := by
  have hflags := b.flags_ok
  have hk := b.k_range.1
  split at hflags
  · rename_i hio
    rw [if_pos hio] at hk
    have hpow := Nat.pow_le_pow_right (n := 2) Nat.two_pos hk
    omega
  · rename_i hio
    rw [if_neg hio] at hk
    have hpow := Nat.pow_le_pow_right (n := 2) Nat.two_pos hk
    omega

theorem pow_lt : 2 ^ b.k < 2 ^ 32 := Nat.pow_lt_pow_right Nat.one_lt_two b.k_range.2

/-- The flags fit below the base. -/
theorem base_add_le : b.base + 2 ^ b.k ≤ 2 ^ 32 := by
  obtain ⟨n, hn⟩ := b.base_dvd
  obtain ⟨m, hm⟩ : 2 ^ b.k ∣ 2 ^ 32 := Nat.pow_dvd_pow 2 b.k_range.2.le
  have hlt := b.base_lt
  rw [hn, hm] at hlt ⊢
  have hnm : n < m := Nat.lt_of_mul_lt_mul_left hlt
  calc 2 ^ b.k * n + 2 ^ b.k
    _ = 2 ^ b.k * (n + 1) := (Nat.mul_succ ..).symm
    _ ≤ 2 ^ b.k * m := Nat.mul_le_mul_left _ hnm

theorem toNat_value : b.reg.value.toNat = b.base + b.flags := by
  have hle := b.base_add_le
  have hflags := b.flags_lt
  exact UInt32.toNat_ofNat_of_lt' (show _ < 2 ^ 32 by omega)

theorem toNat_mask : b.reg.mask.toNat = 2 ^ 32 - 2 ^ b.k := by
  have hpos := Nat.two_pow_pos b.k
  exact UInt32.toNat_ofNat_of_lt' (show _ < 2 ^ 32 by omega)

/-- The second reading: the bits that can be written, and the flags. -/
theorem toNat_write : (b.reg.write 0xFFFFFFFF).value.toNat = 2 ^ 32 - 2 ^ b.k + b.flags := by
  have hpow := b.pow_lt
  have hflags := b.flags_lt
  have hnot : (~~~b.reg.mask).toNat = 2 ^ b.k - 1 := by
    rw [UInt32.toNat_not, toNat_mask]
    show 2 ^ 32 - 1 - _ = _
    omega
  have hones : (0xFFFFFFFF : UInt32) &&& b.reg.mask = b.reg.mask := UInt32.neg_one_and
  obtain ⟨n, hn⟩ := b.base_dvd
  obtain ⟨m, hm⟩ : 2 ^ b.k ∣ 2 ^ 32 := Nat.pow_dvd_pow 2 b.k_range.2.le
  have hmask : 2 ^ 32 - 2 ^ b.k = 2 ^ b.k * (m - 1) := by
    rw [hm, Nat.mul_sub_one]
  have hlow : (b.reg.value &&& ~~~b.reg.mask).toNat = b.flags := by
    rw [UInt32.toNat_and, hnot, Nat.and_two_pow_sub_one_eq_mod, toNat_value, hn,
      Nat.mul_add_mod, Nat.mod_eq_of_lt hflags]
  show (0xFFFFFFFF &&& b.reg.mask ||| b.reg.value &&& ~~~b.reg.mask).toNat = _
  rw [hones, UInt32.toNat_or, hlow, toNat_mask, hmask, ← Nat.two_pow_add_eq_or_of_lt hflags]

/-- The size that is computed: the negative of the second reading. -/
theorem size_eq : ~~~(b.reg.write 0xFFFFFFFF).value + 1 = UInt32.ofNat (2 ^ b.k - b.flags) := by
  have hpow := b.pow_lt
  have hflags := b.flags_lt
  refine UInt32.toNat_inj.mp ?_
  rw [UInt32.toNat_add, UInt32.toNat_not, toNat_write,
    UInt32.toNat_ofNat_of_lt' (show _ < 2 ^ 32 by omega)]
  show (2 ^ 32 - 1 - _ + 1) % 2 ^ 32 = _
  omega

/-- The base of a memory BAR is a multiple of 16. -/
theorem base_eq_mul (hio : b.io = false) : ∃ y, b.base = 2 ^ 4 * y ∧ y < 2 ^ 28 := by
  have hk := b.k_range.1
  rw [hio] at hk
  obtain ⟨y, hy⟩ := (Nat.pow_dvd_pow 2 hk).trans b.base_dvd
  have hlt := b.base_lt
  rw [if_neg Bool.false_ne_true] at hy
  exact ⟨y, hy, by omega⟩

/-- With the size of a memory BAR without flags, its resource is made. -/
theorem resource_eq (hio : b.io = false) (hflags : b.flags = 0) :
    Pci.resource b.reg.value (UInt32.ofNat (2 ^ b.k)) = b.resource := by
  obtain ⟨y, hy, hlt⟩ := b.base_eq_mul hio
  have hvalue : b.reg.value.toNat = 2 ^ 4 * y := by rw [toNat_value, hflags, hy, Nat.add_zero]
  have hbit : ∀ i < 4, (2 ^ 4 * y) &&& 2 ^ i = 0 := by
    intro i hi
    rw [Nat.and_two_pow, Nat.testBit_two_pow_mul, decide_eq_false (Nat.not_le.mpr hi),
      Bool.false_and, Bool.toNat_false, Nat.zero_mul]
  have h4 : b.reg.value &&& 0x4 = 0 := by
    refine UInt32.toNat_inj.mp ?_
    rw [UInt32.toNat_and, hvalue]
    exact hbit 2 (by omega)
  have h1 : b.reg.value &&& 0x1 = 0 := by
    refine UInt32.toNat_inj.mp ?_
    rw [UInt32.toNat_and, hvalue]
    exact hbit 0 (by omega)
  have haddress : b.reg.value &&& 0xFFFFFFF0 = b.reg.value := by
    refine UInt32.toNat_inj.mp ?_
    have hshift := Nat.shiftLeft_and_distrib (a := y) (b := 2 ^ 28 - 1) (i := 4)
    rw [Nat.and_two_pow_sub_one_eq_mod, Nat.mod_eq_of_lt hlt, Nat.shiftLeft_eq,
      Nat.shiftLeft_eq, Nat.mul_comm y] at hshift
    rw [UInt32.toNat_and, hvalue]
    exact hshift.symm
  have h64 : b.reg.value.toUInt64 = UInt64.ofNat b.base := by
    refine UInt64.toNat_inj.mp ?_
    have hbase := b.base_lt
    rw [UInt32.toNat_toUInt64, hvalue, ← hy,
      UInt64.toNat_ofNat_of_lt' (show _ < 2 ^ 64 by omega)]
  simp only [Pci.resource, resource, h4, h1, haddress, h64, hio, ne_eq, not_true_eq_false,
    if_false, Bool.false_eq_true]

end Bar

/-! ## What is probed -/

/-- What the two readings of a BAR come to. -/
theorem genres_bar {b : Bar} {regs : Regs} {i : UInt8} (hreg : regs (barReg i) = b.reg)
    (hbase : b.base ≠ 0) (res : Resources) (block : Bool) :
    genres regs res i block =
      (let regs := Function.update regs (barReg i) (b.reg.write 0xFFFFFFFF)
      if block = false then (-ENOMEM, res, regs)
      else
        let r := resource b.reg.value (UInt32.ofNat (2 ^ b.k - b.flags))
        if r.value = 0 ∨ r.size = 0 then (0, res, regs)
        else (0, { res with list := r :: res.list, count := res.count + 1 }, regs)) := by
  have hpow := b.pow_lt
  have hflags := b.flags_lt
  have hvalue : b.reg.value ≠ 0 := by
    intro h
    have hnat := b.toNat_value
    rw [h] at hnat
    exact hbase (Nat.eq_zero_of_add_eq_zero_right hnat.symm)
  have hsecond : (b.reg.write 0xFFFFFFFF).value ≠ 0 := by
    intro h
    have hnat := b.toNat_write
    rw [h] at hnat
    have hzero : (0 : UInt32).toNat = 0 := rfl
    omega
  have hsize : UInt32.ofNat (2 ^ b.k - b.flags) ≠ 0 := by
    intro h
    have hnat := congrArg UInt32.toNat h
    rw [UInt32.toNat_ofNat_of_lt' (show _ < 2 ^ 32 by omega)] at hnat
    have hzero : (0 : UInt32).toNat = 0 := rfl
    omega
  simp only [genres, Function.update_self, hreg, hvalue, hsecond, b.size_eq, hsize, or_self,
    if_false]

/-- A BAR that is not implemented gives nothing. -/
theorem genres_unimplemented {regs : Regs} {i : UInt8} (hreg : regs (barReg i) = ⟨0, 0⟩)
    (res : Resources) (block : Bool) : genres regs res i block = (0, res, regs) := by
  have hwrite : Reg.write ⟨0, 0⟩ 0xFFFFFFFF = ⟨0, 0⟩ := rfl
  simp only [genres, Function.update_self, hreg, hwrite, true_or, if_true]
  rw [← hreg, Function.update_eq_self]

section Implemented

variable {b : Bar} {regs : Regs} {res : Resources} {i : UInt8} {block : Bool}

/-- A BAR that is probed as it should be.  The size is right only without flags, and the
ones are what the register holds. -/
theorem of_probeRight_bar (hreg : regs (barReg i) = b.reg) (hbase : b.base ≠ 0)
    (h : ProbeRight (.bar b) regs res i block) :
    block = true ∧ b.io = false ∧ b.flags = 0 ∧ b.base = 2 ^ 32 - 2 ^ b.k := by
  have hpow := b.pow_lt
  have hflags := b.flags_lt
  have hok := b.flags_ok
  have hright := h hbase
  rw [genres_bar hreg hbase] at hright
  cases block with
  | false =>
      have hresult : -ENOMEM = 0 := congrArg Prod.fst hright
      exact absurd hresult (by decide)
  | true =>
      simp only [Bool.true_eq_false, if_false] at hright
      split at hright
      · have hlength := congrArg (fun x => x.2.1.list.length) hright
        exact absurd hlength (Nat.ne_of_lt (Nat.lt_succ_self _))
      · simp only [Prod.mk.injEq, Resources.mk.injEq, List.cons.injEq, true_and,
          and_true] at hright
        obtain ⟨hres, hregs⟩ := hright
        have hsize := congrArg (fun r => r.size.toNat) hres
        simp only [resource, Bar.resource] at hsize
        rw [UInt32.toNat_ofNat_of_lt' (show _ < 2 ^ 32 by omega),
          UInt32.toNat_ofNat_of_lt' (show _ < 2 ^ 32 by omega)] at hsize
        have hzero : b.flags = 0 := by omega
        have hsame := congrFun hregs (barReg i)
        rw [Function.update_self, hreg] at hsame
        have hvalue := congrArg (fun r => r.value.toNat) hsame
        simp only [b.toNat_write, b.toNat_value] at hvalue
        refine ⟨rfl, ?_, hzero, by omega⟩
        cases hio : b.io with
        | false => rfl
        | true =>
            rw [hio, if_pos rfl] at hok
            omega

/-- A memory BAR without flags whose address bits are all ones. -/
theorem probeRight_of_ones (hreg : regs (barReg i) = b.reg) (hio : b.io = false)
    (hzero : b.flags = 0) (hones : b.base = 2 ^ 32 - 2 ^ b.k) :
    ProbeRight (.bar b) regs res i true := by
  intro hbase
  have hpow := b.pow_lt
  have hr := b.resource_eq hio hzero
  have hvalue : b.resource.value ≠ 0 := by
    intro h0
    have hnat := congrArg UInt64.toNat h0
    have hlt := b.base_lt
    rw [Bar.resource, UInt64.toNat_ofNat_of_lt' (show _ < 2 ^ 64 by omega)] at hnat
    exact hbase hnat
  have hsize : b.resource.size ≠ 0 := by
    intro h0
    have hnat := congrArg UInt32.toNat h0
    rw [Bar.resource, UInt32.toNat_ofNat_of_lt' (show _ < 2 ^ 32 by omega)] at hnat
    exact (Nat.two_pow_pos b.k).ne' hnat
  -- the ones are what the register held
  have hwrite : b.reg.write 0xFFFFFFFF = b.reg := by
    have hnat : (b.reg.write 0xFFFFFFFF).value.toNat = b.reg.value.toNat := by
      rw [b.toNat_write, b.toNat_value, hones]
    exact congrArg (Reg.mk · b.reg.mask) (UInt32.toNat_inj.mp hnat)
  rw [genres_bar hreg hbase, hzero, Nat.sub_zero, hr, hwrite]
  simp only [hvalue, hsize, or_self, if_false, Bool.true_eq_false]
  have hregs : Function.update regs (barReg i) b.reg = regs := by
    rw [← hreg, Function.update_eq_self]
  rw [hregs]

end Implemented

/-- A BAR is probed as it should be exactly when it is not implemented, or has no base,
or when it is a memory BAR without flags whose address bits are all ones and there is a
block for its resource. -/
theorem probeRight_iff (w : Wired) (regs : Regs) (res : Resources) (i : UInt8) (block : Bool)
    (hreg : regs (barReg i) = w.reg) :
    ProbeRight w regs res i block ↔
      ∀ b, w = .bar b → b.base ≠ 0 →
        block = true ∧ b.io = false ∧ b.flags = 0 ∧ b.base = 2 ^ 32 - 2 ^ b.k := by
  cases w with
  | unimplemented =>
      refine ⟨?_, fun _ => genres_unimplemented hreg res block⟩
      intro _ b hb
      cases hb
  | bar b =>
      constructor
      · intro h b' hb' hbase
        cases hb'
        exact of_probeRight_bar hreg hbase h
      · intro h hbase
        obtain ⟨rfl, hio, hzero, hones⟩ := h b rfl hbase
        exact probeRight_of_ones hreg hio hzero hones hbase

/-! A function with memory of 4 KiB at the end of the address space, and an I/O BAR. -/

/-- The last page. -/
def lastPage : Bar := ⟨false, 0, 12, 0xFFFFF000, by decide, by decide, by decide, by decide⟩

theorem probeRight_iff_lastPage :
    ProbeRight (.bar lastPage) (fun _ => lastPage.reg) ⟨[], 0, 0⟩ 0 true ↔
      ∀ b, Wired.bar lastPage = .bar b → b.base ≠ 0 →
        true = true ∧ b.io = false ∧ b.flags = 0 ∧ b.base = 2 ^ 32 - 2 ^ b.k :=
  probeRight_iff (.bar lastPage) (fun _ => lastPage.reg) ⟨[], 0, 0⟩ 0 true rfl

/-- Sixteen I/O ports at 0xC000. -/
def ports : Bar := ⟨true, 1, 4, 0xC000, by decide, by decide, by decide, by decide⟩

/-- The size comes out as 15 and the ports are moved to 0xFFFFFFF0. -/
theorem probeRight_wrong :
    genres (fun _ => ports.reg) ⟨[], 0, 0⟩ 0 true =
        (0, ⟨[⟨0xC000, 15, .io⟩], 0, 1⟩,
          Function.update (fun _ => ports.reg) 16 ⟨0xFFFFFFF1, 0xFFFFFFF0⟩) ∧
      ¬ ProbeRight (.bar ports) (fun _ => ports.reg) ⟨[], 0, 0⟩ 0 true := by
  refine ⟨rfl, ?_⟩
  intro h
  have hlist := congrArg (fun x => x.2.1.list) (h (by decide))
  exact absurd hlist (by decide)

end StardustOS.Pci
