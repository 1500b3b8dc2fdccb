import StardustOS.Idt.Irq
import StardustOS.Lib.Run
import StardustOS.Lib.Segments

/-!
# The segments

`gdt_init` builds the table of the segments, loads the segment registers and the task
register.  The segments of the kernel and of user code are the whole address space, so
the rules of the processor leave only the selectors of the kernel at the level 0, and two
selectors and a few data segments at the level 3.

The routines of the interrupts load selectors of the kernel, and at their end those of
the code that was interrupted.  None of these loads faults, whatever the code loads in
between (`segments_right`).  What the processor and the routines store on the stack is not
looked at here (`esp0` of `tss` stays 0).
-/

namespace StardustOS.Gdt

open Lib Lib.X86 Idt

/-- For the numerals of the lines. -/
local instance neZero_line : NeZero 16 := ⟨by decide⟩

/-- For the numerals of the exceptions. -/
local instance neZero_exception : NeZero 32 := ⟨by decide⟩

/-! ## The table -/

/-- `gdt_entry_t` -/
structure GdtEntry where
  limitLow : UInt16
  baseLow : UInt16
  baseMiddle : UInt8
  access : UInt8
  granularity : UInt8
  baseHigh : UInt8
deriving DecidableEq

def GdtEntry.bytes (e : GdtEntry) : List UInt8 :=
  leBytes 2 e.limitLow.toNat ++ leBytes 2 e.baseLow.toNat ++
    [e.baseMiddle, e.access, e.granularity, e.baseHigh]

def gdtSetGate (base limit : UInt32) (access gran : UInt8) : GdtEntry where
  baseLow := (base &&& 0xFFFF).toUInt16
  baseMiddle := (base >>> 16 &&& 0xFF).toUInt8
  baseHigh := (base >>> 24 &&& 0xFF).toUInt8
  limitLow := (limit &&& 0xFFFF).toUInt16
  granularity := (limit >>> 16 &&& 0x0F).toUInt8 ||| gran &&& 0xF0
  access := access

/-- `tss_t` -/
structure TssT where
  prevTss : UInt32 := 0
  esp0 : UInt32 := 0
  ss0 : UInt32 := 0
  esp1 : UInt32 := 0
  ss1 : UInt32 := 0
  esp2 : UInt32 := 0
  ss2 : UInt32 := 0
  cr3 : UInt32 := 0
  eip : UInt32 := 0
  eflags : UInt32 := 0
  eax : UInt32 := 0
  ecx : UInt32 := 0
  edx : UInt32 := 0
  ebx : UInt32 := 0
  esp : UInt32 := 0
  ebp : UInt32 := 0
  esi : UInt32 := 0
  edi : UInt32 := 0
  es : UInt32 := 0
  cs : UInt32 := 0
  ss : UInt32 := 0
  ds : UInt32 := 0
  fs : UInt32 := 0
  gs : UInt32 := 0
  ldt : UInt32 := 0
  trap : UInt16 := 0
  iomapBase : UInt16 := 0

def TssT.bytes (t : TssT) : List UInt8 :=
  ([t.prevTss, t.esp0, t.ss0, t.esp1, t.ss1, t.esp2, t.ss2, t.cr3, t.eip, t.eflags, t.eax, t.ecx,
    t.edx, t.ebx, t.esp, t.ebp, t.esi, t.edi, t.es, t.cs, t.ss, t.ds, t.fs, t.gs,
    t.ldt].flatMap fun v => leBytes 4 v.toNat) ++
    leBytes 2 t.trap.toNat ++ leBytes 2 t.iomapBase.toNat

/-- `tss` -/
def tss : TssT where
  ss0 := 0x10
  esp0 := 0
  cs := 0x0b
  ss := 0x13
  ds := 0x13
  es := 0x13
  fs := 0x13
  gs := 0x13

/-- `sizeof(tss_t)` -/
def tssSize : UInt32 := 104

/-- `gdt_entries`, with `tss` at an address. -/
def gdtEntries (addr : UInt32) : List GdtEntry :=
  [gdtSetGate 0 0 0 0, gdtSetGate 0 0xFFFFFFFF 0x9A 0xCF, gdtSetGate 0 0xFFFFFFFF 0x92 0xCF,
    gdtSetGate 0 0xFFFFFFFF 0xFA 0xCF, gdtSetGate 0 0xFFFFFFFF 0xF2 0xCF,
    gdtSetGate addr tssSize 0xE9 0x0]

/-- `gdt_entries`, as an array of bytes. -/
def gdtBytes (entries : List GdtEntry) : List UInt8 := entries.flatMap GdtEntry.bytes

/-- The limit in `gdt`. -/
def gdtLimit : Nat := 8 * 6 - 1

/-- The table that `lgdt` sets. -/
def gdt (entries : List GdtEntry) : List UInt8 := (gdtBytes entries).take (gdtLimit + 1)

/-! ## What the processor reads -/

theorem or_and (x y z : UInt8) : (x ||| y) &&& z = x &&& z ||| y &&& z :=
  UInt8.toBitVec_inj.mp BitVec.and_or_distrib_right

theorem granularity_high (limit : UInt32) (gran : UInt8) :
    ((limit >>> 16 &&& 0x0F).toUInt8 ||| gran &&& 0xF0) &&& 0x80 = gran &&& 0x80 := by
  have hlow : (0x0F : UInt32).toUInt8 &&& 0x80 = 0 := by rfl
  have hhigh : (0xF0 : UInt8) &&& 0x80 = 0x80 := by rfl
  rw [or_and, UInt32.toUInt8_and, UInt8.and_assoc, UInt8.and_assoc, hlow, hhigh, UInt8.and_zero,
    UInt8.zero_or]

theorem granularity_low (limit : UInt32) (gran : UInt8) :
    (((limit >>> 16 &&& 0x0F).toUInt8 ||| gran &&& 0xF0) &&& 0x0F).toNat =
      limit.toNat / 2 ^ 16 % 16 := by
  have hlow : (0x0F : UInt32).toUInt8 &&& 0x0F = 0x0F := by rfl
  have hhigh : (0xF0 : UInt8) &&& 0x0F = 0 := by rfl
  have hmask (k : Nat) : k &&& 15 = k % 16 := Nat.and_two_pow_sub_one_eq_mod k 4
  rw [or_and, UInt32.toUInt8_and, UInt8.and_assoc, UInt8.and_assoc, hlow, hhigh, UInt8.and_zero,
    UInt8.or_zero]
  simp only [UInt8.toNat_and, UInt32.toNat_toUInt8, UInt32.toNat_shiftRight,
    Nat.shiftRight_eq_div_pow, UInt32.reduceToNat, UInt8.reduceToNat, hmask, Nat.reduceMod]
  omega

theorem leBytes_two (v : Nat) : leBytes 2 v = [UInt8.ofNat v, UInt8.ofNat (v / 256)] := rfl

/-- **What is put into a gate comes out of it**: the base, and the low 20 bits of the
limit in the unit of the flags. -/
theorem decode_gdtSetGate (base limit : UInt32) (access gran : UInt8) :
    decode (gdtSetGate base limit access gran).bytes = some
      { base := base.toNat
        limit := if gran &&& 0x80 = 0 then limit.toNat % 2 ^ 20
          else limit.toNat % 2 ^ 20 * 4096 + 4095
        access := access } := by
  have hmask (k : Nat) : k &&& 65535 = k % 65536 := Nat.and_two_pow_sub_one_eq_mod k 16
  have hmask' (k : Nat) : k &&& 255 = k % 256 := Nat.and_two_pow_sub_one_eq_mod k 8
  have hlt := base.toNat_lt
  have hbase : leNat [UInt8.ofNat (base &&& 0xFFFF).toUInt16.toNat,
      UInt8.ofNat ((base &&& 0xFFFF).toUInt16.toNat / 256), (base >>> 16 &&& 0xFF).toUInt8,
      (base >>> 24 &&& 0xFF).toUInt8] = base.toNat := by
    simp only [leNat, UInt8.toNat_ofNat', UInt32.toNat_toUInt16, UInt32.toNat_and,
      UInt32.toNat_toUInt8, UInt32.toNat_shiftRight, UInt32.reduceToNat, hmask, hmask',
      Nat.reduceMod, Nat.shiftRight_eq_div_pow]
    omega
  have hlimit : leNat [UInt8.ofNat (limit &&& 0xFFFF).toUInt16.toNat,
      UInt8.ofNat ((limit &&& 0xFFFF).toUInt16.toNat / 256),
      ((limit >>> 16 &&& 0x0F).toUInt8 ||| gran &&& 0xF0) &&& 0x0F] = limit.toNat % 2 ^ 20 := by
    simp only [leNat, granularity_low, UInt8.toNat_ofNat', UInt32.toNat_toUInt16, UInt32.toNat_and,
      UInt32.reduceToNat, hmask]
    omega
  rw [GdtEntry.bytes, gdtSetGate, leBytes_two, leBytes_two]
  simp only [List.cons_append, List.nil_append, decode, hbase, hlimit, granularity_high]

theorem length_bytes (e : GdtEntry) : e.bytes.length = 8 := by
  simp [GdtEntry.bytes]

/-- The bytes of an entry in the array. -/
theorem take_drop_gdtBytes (entries : List GdtEntry) (i : Nat) :
    ((gdtBytes entries).drop (8 * i)).take 8 = (entries[i]?.map GdtEntry.bytes).getD [] := by
  induction entries generalizing i with
  | nil => simp [gdtBytes]
  | cons e entries ih =>
      have hcons : gdtBytes (e :: entries) = e.bytes ++ gdtBytes entries := rfl
      cases i with
      | zero => simp [hcons, length_bytes]
      | succ i =>
          rw [hcons, Nat.mul_succ, Nat.add_comm, ← List.drop_drop, ← length_bytes e,
            List.drop_left, length_bytes, ih]
          rfl

/-- A selector of an array of six entries. -/
theorem descriptorAt_gdt {entries : List GdtEntry} (h : entries.length = 6) (sel : UInt16) :
    descriptorAt (gdt entries) sel =
      if sel.toNat / 4 % 2 = 1 then none
      else entries[sel.toNat / 8]?.bind fun e => decode e.bytes := by
  have hlen : (gdtBytes entries).length = 48 := by
    rw [gdtBytes, List.length_flatMap]
    simp [length_bytes, h]
  have htake : gdt entries = gdtBytes entries := List.take_of_length_le (by rw [hlen]; rfl)
  rw [descriptorAt, htake, take_drop_gdtBytes]
  cases entries[sel.toNat / 8]? <;> rfl

/-! ## The segments

The access byte of the task state segment changes when the task register is loaded. -/

/-- A segment that is the whole address space. -/
def flat (access : UInt8) : Descriptor := ⟨0, 0xFFFFFFFF, access⟩

/-- The limit is the size of `tss_t`, one more than the offset of its last byte. -/
def taskSegment (addr : UInt32) (access : UInt8) : Descriptor := ⟨addr.toNat, 104, access⟩

/-- The entries with an access byte of the task state segment. -/
def entriesWith (addr : UInt32) (access : UInt8) : List GdtEntry :=
  (gdtEntries addr).set 5 (gdtSetGate addr tssSize access 0x0)

def descriptors (addr : UInt32) (access : UInt8) : List Descriptor :=
  [⟨0, 0, 0⟩, flat 0x9A, flat 0x92, flat 0xFA, flat 0xF2, taskSegment addr access]

/-- What the processor finds at an index. -/
inductive Found (addr : UInt32) (access : UInt8) : Nat → Descriptor → Prop
  | null : Found addr access 0 ⟨0, 0, 0⟩
  | kernelCode : Found addr access 1 (flat 0x9A)
  | kernelData : Found addr access 2 (flat 0x92)
  | userCode : Found addr access 3 (flat 0xFA)
  | userData : Found addr access 4 (flat 0xF2)
  | task : Found addr access 5 (taskSegment addr access)

section Table

variable {addr : UInt32} {access : UInt8} {sel : UInt16} {d : Descriptor} {cpl : Nat}

theorem decode_entriesWith (addr : UInt32) (access : UInt8) :
    (entriesWith addr access).map (fun e => decode e.bytes) =
      (descriptors addr access).map some := by
  simp only [entriesWith, gdtEntries, List.set_cons_succ, List.set_cons_zero, List.map_cons,
    List.map_nil, decode_gdtSetGate]
  rfl

theorem found_of_getElem? {i : Nat} (h : (descriptors addr access)[i]? = some d) :
    Found addr access i d := by
  match i, h with
  | 0, h => exact Option.some.inj h ▸ .null
  | 1, h => exact Option.some.inj h ▸ .kernelCode
  | 2, h => exact Option.some.inj h ▸ .kernelData
  | 3, h => exact Option.some.inj h ▸ .userCode
  | 4, h => exact Option.some.inj h ▸ .userData
  | 5, h => exact Option.some.inj h ▸ .task

theorem descriptorAt_eq_some : descriptorAt (gdt (entriesWith addr access)) sel = some d ↔
    sel.toNat / 4 % 2 = 0 ∧ Found addr access (sel.toNat / 8) d := by
  have hfound : (entriesWith addr access)[sel.toNat / 8]?.bind (fun e => decode e.bytes) =
      (descriptors addr access)[sel.toNat / 8]? := by
    have hmap := congrArg (fun l => l[sel.toNat / 8]?) (decode_entriesWith addr access)
    simp only [List.getElem?_map] at hmap
    cases he : (entriesWith addr access)[sel.toNat / 8]? with
    | none =>
        cases hd : (descriptors addr access)[sel.toNat / 8]? with
        | none => rfl
        | some => simp [he, hd] at hmap
    | some =>
        cases hd : (descriptors addr access)[sel.toNat / 8]? with
        | none => simp [he, hd] at hmap
        | some => simpa [he, hd] using hmap
  rw [descriptorAt_gdt rfl, hfound]
  constructor
  · intro h
    split at h
    · exact nomatch h
    · exact ⟨by omega, found_of_getElem? h⟩
  · rintro ⟨hti, hfound⟩
    rw [if_neg (by omega)]
    generalize sel.toNat / 8 = i at hfound
    cases hfound <;> rfl

/-! ## What can be loaded -/

section Allowed

variable {i : Nat}

theorem Found.codeAllowed (h : Found addr access i d) (hsys : access &&& 0x10 = 0) :
    d.CodeAllowed (level sel) ↔ i = 1 ∧ level sel = 0 ∨ i = 3 ∧ level sel = 3 := by
  have hlevel := level_lt sel
  generalize level sel = l at hlevel
  cases h with
  | null => revert l; decide
  | kernelCode => revert l; decide
  | kernelData => revert l; decide
  | userCode => revert l; decide
  | userData => revert l; decide
  | task => simp [taskSegment, Descriptor.CodeAllowed, Descriptor.kind, hsys]

theorem Found.stackAllowed (h : Found addr access i d) (hsys : access &&& 0x10 = 0)
    (hcpl : cpl < 4) : d.StackAllowed cpl (level sel) ↔
      level sel = cpl ∧ (i = 2 ∧ cpl = 0 ∨ i = 4 ∧ cpl = 3) := by
  have hlevel := level_lt sel
  generalize level sel = l at hlevel
  cases h with
  | null => revert l; revert cpl; decide
  | kernelCode => revert l; revert cpl; decide
  | kernelData => revert l; revert cpl; decide
  | userCode => revert l; revert cpl; decide
  | userData => revert l; revert cpl; decide
  | task => simp [taskSegment, Descriptor.StackAllowed, Descriptor.kind, hsys]

theorem Found.dataAllowed (h : Found addr access i d) (hsys : access &&& 0x10 = 0)
    (hcpl : cpl < 4) : d.DataAllowed cpl (level sel) ↔
      (i = 1 ∨ i = 2) ∧ cpl = 0 ∧ level sel = 0 ∨ i = 3 ∨ i = 4 := by
  have hlevel := level_lt sel
  generalize level sel = l at hlevel
  cases h with
  | null => revert l; revert cpl; decide
  | kernelCode => revert l; revert cpl; decide
  | kernelData => revert l; revert cpl; decide
  | userCode => revert l; revert cpl; decide
  | userData => revert l; revert cpl; decide
  | task => simp [taskSegment, Descriptor.DataAllowed, Descriptor.kind, hsys]

end Allowed

/-- An index of the table is found. -/
theorem exists_found {i : Nat} (addr : UInt32) (access : UInt8) (hi : i < 6) :
    ∃ d, Found addr access i d :=
  ⟨_, found_of_getElem? (List.getElem?_eq_getElem (l := descriptors addr access) hi)⟩

/-- A selector with a descriptor that the processor allows. -/
theorem exists_descriptorAt {P : Descriptor → Prop} {Q : Nat → Prop}
    (h : ∀ i d, Found addr access i d → (P d ↔ Q i)) (hQ : ∀ i, Q i → i < 6) :
    (∃ d ∈ descriptorAt (gdt (entriesWith addr access)) sel, P d) ↔
      sel.toNat / 4 % 2 = 0 ∧ Q (sel.toNat / 8) := by
  simp only [Option.mem_def, descriptorAt_eq_some]
  constructor
  · rintro ⟨d, ⟨hti, hfound⟩, hd⟩
    exact ⟨hti, (h _ d hfound).mp hd⟩
  · rintro ⟨hti, hi⟩
    obtain ⟨d, hfound⟩ := exists_found addr access (hQ _ hi)
    exact ⟨d, ⟨hti, hfound⟩, (h _ d hfound).mpr hi⟩

/-- Code runs with two selectors. -/
theorem codeRuns_iff (hsys : access &&& 0x10 = 0) :
    CodeRuns (gdt (entriesWith addr access)) sel ↔ sel = 0x08 ∨ sel = 0x1B := by
  have hlevel := level_eq sel
  have hsel (v : UInt16) : sel = v ↔ sel.toNat = v.toNat := UInt16.toNat_inj.symm
  rw [CodeRuns, exists_descriptorAt (fun i d h => h.codeAllowed hsys) (by omega), NullSel, hsel,
    hsel]
  simp only [UInt16.reduceToNat]
  omega

/-- So does a stack, at the same levels. -/
theorem stackLoads_iff (hsys : access &&& 0x10 = 0) (hcpl : cpl < 4) :
    StackLoads (gdt (entriesWith addr access)) cpl sel ↔
      cpl = 0 ∧ sel = 0x10 ∨ cpl = 3 ∧ sel = 0x23 := by
  have hlevel := level_eq sel
  have hsel (v : UInt16) : sel = v ↔ sel.toNat = v.toNat := UInt16.toNat_inj.symm
  rw [StackLoads, exists_descriptorAt (fun i d h => h.stackAllowed hsys hcpl) (by omega), NullSel,
    hsel, hsel]
  simp only [UInt16.reduceToNat]
  omega

/-- The selectors of data that the code of a level may use. -/
def DataSel (cpl : Nat) (sel : UInt16) : Prop :=
  NullSel sel ∨ cpl = 0 ∧ (sel = 0x08 ∨ sel = 0x10) ∨ 0x18 ≤ sel.toNat ∧ sel.toNat < 0x1C ∨
    0x20 ≤ sel.toNat ∧ sel.toNat < 0x24

instance : Decidable (DataSel cpl sel) := inferInstanceAs (Decidable (_ ∨ _))

theorem dataLoads_iff (hsys : access &&& 0x10 = 0) (hcpl : cpl < 4) :
    DataLoads (gdt (entriesWith addr access)) cpl sel ↔ DataSel cpl sel := by
  have hlevel := level_eq sel
  have hsel (v : UInt16) : sel = v ↔ sel.toNat = v.toNat := UInt16.toNat_inj.symm
  rw [DataLoads, exists_descriptorAt (fun i d h => h.dataAllowed hsys hcpl) (by omega), DataSel,
    hsel, hsel]
  refine or_congr_right ?_
  simp only [UInt16.reduceToNat]
  omega

theorem kernelCode_runs (hsys : access &&& 0x10 = 0) :
    CodeRuns (gdt (entriesWith addr access)) 0x08 := (codeRuns_iff hsys).mpr (.inl rfl)

/-- Every register may hold the data segment of the kernel at the level 0. -/
theorem kernelData_loads (hsys : access &&& 0x10 = 0) (g : Seg) :
    Loads (gdt (entriesWith addr access)) 0 g 0x10 := by
  cases g with
  | ss => exact (stackLoads_iff hsys (by decide)).mpr (by decide)
  | _ => exact (dataLoads_iff hsys (by decide)).mpr (by decide)

/-- The segment of a selector is the whole address space. -/
def FlatSel (table : List UInt8) (sel : UInt16) : Prop :=
  ∃ d ∈ descriptorAt table sel, ∀ off, d.linear off = some off

theorem linear_flat {a : UInt8} (off : UInt32)
    (ha : a = 0x9A ∨ a = 0x92 ∨ a = 0xFA ∨ a = 0xF2) : (flat a).linear off = some off := by
  have hlt := off.toNat_lt
  have hwithin : (flat a).Within off := by
    have hle : off.toNat ≤ (flat a).limit := by
      show off.toNat ≤ 0xFFFFFFFF
      omega
    obtain rfl | rfl | rfl | rfl := ha <;> exact hle
  rw [Descriptor.linear, if_pos hwithin]
  exact congrArg some (zero_add off)

theorem flatSel (hti : sel.toNat / 4 % 2 = 0) (hlo : 8 ≤ sel.toNat) (hhi : sel.toNat < 40) :
    FlatSel (gdt (entriesWith addr access)) sel := by
  obtain ⟨d, hfound⟩ := exists_found addr access (i := sel.toNat / 8) (by omega)
  refine ⟨d, descriptorAt_eq_some.mpr ⟨hti, hfound⟩, fun off => ?_⟩
  generalize hi : sel.toNat / 8 = i at hfound
  cases hfound with
  | null => omega
  | kernelCode => exact linear_flat off (by decide)
  | kernelData => exact linear_flat off (by decide)
  | userCode => exact linear_flat off (by decide)
  | userData => exact linear_flat off (by decide)
  | task => omega

end Table

/-! ## `gdt_init` -/

/-- `gdt_reloadseg`.  `none` is a fault. -/
def gdtReloadseg (table : List UInt8) (s : Segs) : Option Segs :=
  (farJump table 0x08 s).bind (loadSegs table [.ds, .es, .fs, .gs, .ss] 0x10)

/-- `tss_flush`. -/
def tssFlush (table : List UInt8) : Option (Descriptor × List UInt8) := loadTask table 0x2B

/-- `gdt_init`: the segment registers, the task register and the table after it. -/
def gdtInit (addr : UInt32) (s : Segs) : Option (Segs × Descriptor × List UInt8) := do
  let table := gdt (gdtEntries addr)
  let s ← gdtReloadseg table s
  let (tr, table) ← tssFlush table
  some (s, tr, table)

/-- The registers of the kernel. -/
def kernelSegs : Segs := ⟨0x08, 0x10, 0x10, 0x10, 0x10, 0x10⟩

/-- The access byte of a task state segment in use. -/
def busy : UInt8 := 0xEB

theorem gdtReloadseg_eq (addr : UInt32) {s : Segs} (hs : level s.cs = 0) :
    gdtReloadseg (gdt (gdtEntries addr)) s = some kernelSegs := by
  have hentries : gdtEntries addr = entriesWith addr 0xE9 := rfl
  have hjump : withLevel 0x08 0 = 0x08 := by decide
  have hcode : CodeRuns (gdt (gdtEntries addr)) 0x08 := hentries ▸ kernelCode_runs (by decide)
  have hdata (g : Seg) : Loads (gdt (gdtEntries addr)) (level 0x08) g 0x10 :=
    hentries ▸ kernelData_loads (by decide) g
  rw [gdtReloadseg, farJump, hs, hjump, if_pos ⟨hcode, .inl (by decide)⟩, Option.bind_some]
  exact (loadSegs_eq (s := { s with cs := 0x08 }) fun g _ => hdata g).trans rfl

theorem tssFlush_eq (addr : UInt32) : tssFlush (gdt (gdtEntries addr)) =
    some (taskSegment addr 0xE9, gdt (entriesWith addr busy)) := by
  have hfound : descriptorAt (gdt (gdtEntries addr)) 0x2B = some (taskSegment addr 0xE9) :=
    descriptorAt_eq_some.mpr ⟨rfl, (.task : Found addr 0xE9 5 _)⟩
  have hnull : ¬ NullSel 0x2B := by decide
  have hpresent : (taskSegment addr 0xE9).present = true :=
    (by decide : (taskSegment 0 0xE9).present = true)
  have hkind : (taskSegment addr 0xE9).kind = .system 9 :=
    (by decide : (taskSegment 0 0xE9).kind = .system 9)
  have hbusy : (taskSegment addr 0xE9).access ||| 2 = 0xEB :=
    (by decide : (0xE9 : UInt8) ||| 2 = 0xEB)
  rw [tssFlush, loadTask, hfound]
  dsimp only
  rw [if_neg (by simp [hnull, hpresent, hkind]), hbusy]
  rfl

/-- **The initialization succeeds**, from any registers at the level 0. -/
theorem gdtInit_eq (addr : UInt32) {s : Segs} (hs : level s.cs = 0) :
    gdtInit addr s = some (kernelSegs, taskSegment addr 0xE9, gdt (entriesWith addr busy)) := by
  rw [gdtInit, gdtReloadseg_eq addr hs, tssFlush_eq]
  rfl

/-! ## The system

From `gdt_init` on any code loads segment registers at any time, and is interrupted at any
time.  A routine that was entered ends later, in any order: the scheduler may go to another
stack in between. -/

/-- The segment registers that a block of code loads. -/
def segWrites (p : List Instr) : List Seg :=
  p.filterMap fun
    | .writeSeg _ g => some g
    | _ => none

/-- A routine that has not ended: the registers of the code that it interrupted, and its
own code after the call of the handler. -/
structure Suspended where
  segs : Segs
  back : List Instr

structure Machine where
  segs : Segs
  suspended : List Suspended

inductive Action
  /-- Code loads a segment register. -/
  | load (g : Seg) (sel : UInt16)
  | jump (sel : UInt16)
  | iret (cs ss : UInt16)
  /-- The routine of a line is entered and comes to the call of its handler. -/
  | irq (n : Fin 16)
  | exception (n : Fin 32)
  /-- The handler of a routine returns, and the routine ends. -/
  | back (i : Nat)

section System

variable (L : Symbols) (I : IrqSymbols) (ss0 : UInt16) (table : List UInt8)

/-- A routine up to its call: the processor enters it, and it loads the data segment of the
kernel. -/
def routine (e : IdtEntry) (stub : List Instr) (s : Segs) : Option Segs :=
  (enter table e.selector ss0 s).bind (loadSegs table (segWrites stub) 0x10)

/-- One step.  A load of code that faults leaves the registers, and the exception is a step
of its own.  `none` says that a load of a routine faults, or that no such routine was
entered. -/
def step (m : Machine) : Action → Option Machine
  | .load g sel => some { m with segs := (loadSeg table sel m.segs g).getD m.segs }
  | .jump sel => some { m with segs := (farJump table sel m.segs).getD m.segs }
  | .iret cs ss => some { m with segs := (iretTo table cs ss m.segs).getD m.segs }
  | .irq n =>
      (routine ss0 table (irqEntry I n) (irqCommonStub I) m.segs).map fun s =>
        ⟨s, ⟨m.segs, irqCommonReturn⟩ :: m.suspended⟩
  | .exception n =>
      (routine ss0 table (exceptionEntry L n) (isrCommonStub L) m.segs).map fun s =>
        ⟨s, ⟨m.segs, isrCommonReturn⟩ :: m.suspended⟩
  | .back i =>
      m.suspended[i]?.bind fun f =>
        (leave table (segWrites f.back) f.segs m.segs).map fun s =>
          ⟨s, m.suspended.eraseIdx i⟩

end System

/-- Only a routine that was entered ends, and its handler returns at the level 0. -/
def Returns (m : Machine) : Action → Prop
  | .back i => i < m.suspended.length ∧ level m.segs.cs = 0
  | _ => True

instance (m : Machine) (a : Action) : Decidable (Returns m a) := by
  cases a <;> unfold Returns <;> infer_instance

/-! ## What the system keeps -/

/-- The registers are valid, and those of the code that was interrupted. -/
structure Inv (table : List UInt8) (m : Machine) : Prop where
  valid : ValidSegs table m.segs
  suspended : ∀ f ∈ m.suspended,
    ValidSegs table f.segs ∧ segWrites f.back = [.ds, .es, .fs, .gs]

section Steps

variable {L : Symbols} {I : IrqSymbols} {addr : UInt32} {m : Machine} {s : Segs}

/-- The levels of the system. -/
theorem levels_of_valid (h : ValidSegs (gdt (entriesWith addr busy)) s) :
    s.cs = 0x08 ∧ s.ss = 0x10 ∨ s.cs = 0x1B ∧ s.ss = 0x23 := by
  have hss := (stackLoads_iff (by decide) (level_lt _)).mp (h.loads .ss)
  obtain hcs | hcs := (codeRuns_iff (by decide)).mp h.cs
  · rw [hcs] at hss
    exact .inl ⟨hcs, (hss.resolve_right fun h => absurd h.1 (by decide)).2⟩
  · rw [hcs] at hss
    exact .inr ⟨hcs, (hss.resolve_left fun h => absurd h.1 (by decide)).2⟩

/-- A routine is entered from any code, and its loads do not fault. -/
theorem routine_eq (h : ValidSegs (gdt (entriesWith addr busy)) s) {e : IdtEntry}
    (he : e.selector = 0x08) (stub : List Instr) :
    routine 0x10 (gdt (entriesWith addr busy)) e stub s =
      some ((segWrites stub).foldl (fun s g => s.set 0x10 g)
        { s with cs := 0x08, ss := 0x10 }) := by
  have hcode : CodeRuns (gdt (entriesWith addr busy)) 0x08 ∧ level 0x08 = 0 :=
    ⟨kernelCode_runs (by decide), by decide⟩
  have henter : enter (gdt (entriesWith addr busy)) 0x08 0x10 s =
      some { s with cs := 0x08, ss := 0x10 } := by
    rw [enter, if_pos hcode]
    obtain ⟨hcs, hss⟩ | ⟨hcs, hss⟩ := levels_of_valid h
    · rw [hcs, if_pos hcode.2, ← hss]
    · rw [hcs, if_neg (by decide)]
      exact if_pos (kernelData_loads (by decide) .ss)
  rw [routine, he, henter, Option.bind_some]
  refine loadSegs_eq fun g _ => ?_
  exact hcode.2.symm ▸ kernelData_loads (by decide) g

theorem routine_valid (h : ValidSegs (gdt (entriesWith addr busy)) s) {e : IdtEntry}
    {stub : List Instr} {t : Segs}
    (ht : routine 0x10 (gdt (entriesWith addr busy)) e stub s = some t) :
    ValidSegs (gdt (entriesWith addr busy)) t := by
  obtain ⟨u, hu, ht⟩ := Option.bind_eq_some_iff.mp ht
  exact (h.enter hu).1.loadSegs ht

/-- **A routine ends**, whatever it interrupted. -/
theorem leave_eq (h : Inv (gdt (entriesWith addr busy)) m) (hlevel : level m.segs.cs = 0)
    {f : Suspended} (hf : f ∈ m.suspended) :
    leave (gdt (entriesWith addr busy)) (segWrites f.back) f.segs m.segs =
      some { f.segs with es := f.segs.ds, fs := f.segs.ds, gs := f.segs.ds } := by
  obtain ⟨hvalid, hback⟩ := h.suspended f hf
  rw [hback]
  refine hvalid.leave hlevel fun hzero => ?_
  -- both are the stack segment of the kernel
  have hkernel {s : Segs} (hs : ValidSegs (gdt (entriesWith addr busy)) s)
      (hzero : level s.cs = 0) : s.ss = 0x10 := by
    obtain ⟨-, hss⟩ | ⟨hcs, -⟩ := levels_of_valid hs
    · exact hss
    · exact absurd (hcs ▸ hzero) (by decide)
  exact (hkernel h.valid hlevel).trans (hkernel hvalid hzero).symm

/-- Code that loads, jumps or returns by itself keeps what the system keeps. -/
theorem Inv.setSegs {table : List UInt8} (h : Inv table m) {o : Option Segs}
    (ho : ∀ t, o = some t → ValidSegs table t) :
    Inv table { m with segs := o.getD m.segs } := by
  refine ⟨?_, h.suspended⟩
  cases o with
  | none => exact h.valid
  | some t => exact ho t rfl

/-- The interrupted code has valid registers again. -/
theorem valid_resumed {table : List UInt8} (h : ValidSegs table s) :
    ValidSegs table { s with es := s.ds, fs := s.ds, gs := s.ds } := by
  refine ⟨h.cs, fun g => ?_⟩
  cases g with
  | ss => exact h.loads .ss
  | _ => exact h.loads .ds

theorem step_defined (a : Action) (h : Inv (gdt (entriesWith addr busy)) m) (ha : Returns m a) :
    ∃ m', step L I 0x10 (gdt (entriesWith addr busy)) m a = some m' ∧
      Inv (gdt (entriesWith addr busy)) m' := by
  -- a routine of either kind
  have hroutine {e : IdtEntry} (he : e.selector = 0x08) (stub back : List Instr)
      (hback : segWrites back = [.ds, .es, .fs, .gs]) :
      ∃ m', ((routine 0x10 (gdt (entriesWith addr busy)) e stub m.segs).map fun s =>
        (⟨s, ⟨m.segs, back⟩ :: m.suspended⟩ : Machine)) = some m' ∧
        Inv (gdt (entriesWith addr busy)) m' := by
    have heq := routine_eq h.valid he stub
    refine ⟨_, by rw [heq]; rfl, routine_valid h.valid heq, ?_⟩
    intro f hf
    obtain rfl | hf := List.mem_cons.mp hf
    · exact ⟨h.valid, hback⟩
    · exact h.suspended f hf
  cases a with
  | load g sel => exact ⟨_, rfl, h.setSegs fun t ht => h.valid.loadSeg ht⟩
  | jump sel => exact ⟨_, rfl, h.setSegs fun t ht => h.valid.farJump ht⟩
  | iret cs ss => exact ⟨_, rfl, h.setSegs fun t ht => h.valid.iretTo ht⟩
  | irq n => exact hroutine rfl _ _ rfl
  | exception n => exact hroutine rfl _ _ rfl
  | back i =>
      obtain ⟨hi, hlevel⟩ := ha
      have hf : m.suspended[i] ∈ m.suspended := List.getElem_mem hi
      have hleave := leave_eq h hlevel hf
      refine ⟨⟨_, m.suspended.eraseIdx i⟩, ?_, valid_resumed (h.suspended _ hf).1,
        fun f hf => h.suspended f (List.mem_of_mem_eraseIdx hf)⟩
      rw [step, List.getElem?_eq_getElem hi, Option.bind_some, hleave, Option.map_some]

/-! ## The result -/

/-- `tss` is in memory at its address. -/
def HoldsTss (mem : ByteMem) (addr : UInt32) : Prop :=
  ∀ off < 104, mem (UInt32.ofNat (addr.toNat + off)) = tss.bytes.getD off 0

/-- The ports whose bit is set.  `iomap_base` is 0, so the bits are those of the other
fields. -/
def closedPorts : List Nat :=
  [68, 576, 577, 580, 608, 609, 611, 640, 641, 644, 672, 673, 676, 704, 705, 708, 736, 737, 740]

theorem testBit_tss : ∀ n < 832,
    ((tss.bytes.getD (n / 8) 0).toNat.testBit (n % 8) = false ↔ n ∉ closedPorts) := by
  decide +kernel

/-- The ports that the code of the level 3 may use, without a level in the flags. -/
structure Ports (mem : ByteMem) (tr : Descriptor) : Prop where
  below : ∀ port size, 0 < size → size ≤ 4 → port + size ≤ 832 →
    (PortAllowed mem tr 3 0 port size ↔ ∀ i < size, port + i ∉ closedPorts)
  above : ∀ port size, 832 ≤ port → ¬ PortAllowed mem tr 3 0 port size

theorem HoldsTss.ports {mem : ByteMem} (h : HoldsTss mem addr) :
    Ports mem (taskSegment addr 0xE9) := by
  have hbase : leNat [mem (UInt32.ofNat (addr.toNat + 102)),
      mem (UInt32.ofNat (addr.toNat + 103))] = 0 := by
    rw [h 102 (by omega), h 103 (by omega)]
    decide
  constructor
  case below =>
    intro port size hsize hle hport
    simp only [PortAllowed, taskSegment, hbase, Nat.zero_add]
    have hbit (i : Nat) (hi : i < size) : (leNat [mem (UInt32.ofNat (addr.toNat + port / 8)),
        mem (UInt32.ofNat (addr.toNat + (port / 8 + 1)))]).testBit (port % 8 + i) = false ↔
        port + i ∉ closedPorts := by
      rw [← testBit_tss (port + i) (by omega), testBit_two_bytes]
      split
      · rw [h _ (by omega), show (port + i) / 8 = port / 8 by omega,
          show (port + i) % 8 = port % 8 + i by omega]
      · rw [h _ (by omega), show (port + i) / 8 = port / 8 + 1 by omega,
          show (port + i) % 8 = port % 8 + i - 8 by omega]
    constructor
    · rintro (hlevel | ⟨-, -, hbits⟩) i hi
      · exact absurd hlevel (by omega)
      · exact (hbit i hi).mp (hbits i hi)
    · intro hports
      exact .inr ⟨by omega, by omega, fun i hi => (hbit i hi).mpr (hports i hi)⟩
  case above =>
    intro port size hport
    simp only [PortAllowed, taskSegment, hbase, Nat.zero_add]
    omega

/-- What holds in every state. -/
structure SegmentsRight (L : Symbols) (I : IrqSymbols) (addr : UInt32) (tr : Descriptor)
    (table : List UInt8) (m : Machine) : Prop where
  levels : m.segs.cs = 0x08 ∧ m.segs.ss = 0x10 ∨ m.segs.cs = 0x1B ∧ m.segs.ss = 0x23
  data : ∀ g, g ≠ .ss → DataSel (level m.segs.cs) (m.segs.get g)
  flatCode : FlatSel table m.segs.cs
  flatData : ∀ g, ¬ NullSel (m.segs.get g) → FlatSel table (m.segs.get g)
  /-- The loads up to the handler of an interrupt. -/
  irq : ∀ n, step L I tss.ss0.toUInt16 table m (.irq n) =
    some ⟨kernelSegs, ⟨m.segs, irqCommonReturn⟩ :: m.suspended⟩
  /-- The routine of an exception keeps the data segment that was. -/
  exception : ∀ n, step L I tss.ss0.toUInt16 table m (.exception n) =
    some ⟨{ kernelSegs with ds := m.segs.ds }, ⟨m.segs, isrCommonReturn⟩ :: m.suspended⟩
  /-- From a handler any code that was interrupted goes on. -/
  back : level m.segs.cs = 0 → ∀ i f, m.suspended[i]? = some f →
    step L I tss.ss0.toUInt16 table m (.back i) = some
      ⟨{ f.segs with es := f.segs.ds, fs := f.segs.ds, gs := f.segs.ds }, m.suspended.eraseIdx i⟩
  ports : ∀ mem, HoldsTss mem addr → Ports mem tr

theorem Inv.segmentsRight (h : Inv (gdt (entriesWith addr busy)) m) :
    SegmentsRight L I addr (taskSegment addr 0xE9) (gdt (entriesWith addr busy)) m := by
  have hlevel := level_lt m.segs.cs
  have hlevels := levels_of_valid h.valid
  have hdata (g : Seg) (hg : g ≠ .ss) : DataSel (level m.segs.cs) (m.segs.get g) := by
    have hload := h.valid.loads g
    cases g with
    | ss => exact absurd rfl hg
    | _ => exact (dataLoads_iff (by decide) hlevel).mp hload
  have hzero (g : Seg) (hg : g ≠ .ss) : DataSel 0 (m.segs.get g) :=
    (hdata g hg).imp_right (Or.imp_left fun h => ⟨rfl, h.2⟩)
  have hflat {sel : UInt16} (hsel : DataSel 0 sel ∨ sel = 0x1B ∨ sel = 0x23)
      (hnull : ¬ NullSel sel) :
      FlatSel (gdt (entriesWith addr busy)) sel := by
    have hnat (v : UInt16) : sel = v ↔ sel.toNat = v.toNat := UInt16.toNat_inj.symm
    rw [NullSel] at hnull
    simp only [DataSel, NullSel, hnat, UInt16.reduceToNat] at hsel
    exact flatSel (by omega) (by omega) (by omega)
  constructor
  case levels => exact hlevels
  case data => exact hdata
  case flatCode =>
    obtain ⟨hcs, -⟩ | ⟨hcs, -⟩ := hlevels
    · exact hflat (.inl (by rw [hcs]; decide)) (by rw [hcs]; decide)
    · exact hflat (.inr (.inl hcs)) (by rw [hcs]; decide)
  case flatData =>
    intro g hnull
    cases g with
    | ss =>
        obtain ⟨-, hss⟩ | ⟨-, hss⟩ := hlevels
        · have hkernel : DataSel 0 m.segs.ss := by
            rw [hss]
            decide
          exact hflat (.inl hkernel) hnull
        · exact hflat (.inr (.inr hss)) hnull
    | es => exact hflat (.inl (hzero .es nofun)) hnull
    | ds => exact hflat (.inl (hzero .ds nofun)) hnull
    | fs => exact hflat (.inl (hzero .fs nofun)) hnull
    | gs => exact hflat (.inl (hzero .gs nofun)) hnull
  case irq =>
    intro n
    exact congrArg (Option.map _) (routine_eq h.valid (e := irqEntry I n) rfl (irqCommonStub I))
  case exception =>
    intro n
    exact congrArg (Option.map _)
      (routine_eq h.valid (e := exceptionEntry L n) rfl (isrCommonStub L))
  case back =>
    intro hzero i f hf
    rw [step, hf, Option.bind_some, leave_eq h hzero (List.mem_of_getElem? hf), Option.map_some]
  case ports => exact fun mem hmem => hmem.ports

end Steps

/-- **The segments are right in every run** from `gdt_init` on: the code is at the level 0
with the segments of the kernel or at the level 3 with those of users, every segment that
can be used is the whole address space, and no selector that is loaded on the way of an
interrupt to its handler faults, nor one that a routine loads at its end. -/
theorem segments_right (L : Symbols) (I : IrqSymbols) (addr : UInt32) (s : Segs)
    (hs : level s.cs = 0) :
    ∃ segs tr table, gdtInit addr s = some (segs, tr, table) ∧
      ∀ acts, Meets (step L I tss.ss0.toUInt16 table) Returns ⟨segs, []⟩ acts →
        ∃ m, run (step L I tss.ss0.toUInt16 table) ⟨segs, []⟩ acts = some m ∧
          SegmentsRight L I addr tr table m := by
  refine ⟨_, _, _, gdtInit_eq addr hs, fun acts hacts => ?_⟩
  have hboot : Inv (gdt (entriesWith addr busy)) ⟨kernelSegs, []⟩ := by
    refine ⟨⟨kernelCode_runs (by decide), fun g => ?_⟩, nofun⟩
    have hload : Loads (gdt (entriesWith addr busy)) 0 g 0x10 := kernelData_loads (by decide) g
    cases g <;> exact hload
  obtain ⟨m, hrun, hinv⟩ := run_defined (fun _ a h ha => step_defined a h ha) acts hboot hacts
  exact ⟨m, hrun, hinv.segmentsRight⟩

/-- The level 3 is entered and interrupted, and there is an exception in the handler. -/
def userActs : List Action :=
  [.iret 0x1B 0x23, .load .ds 0x20, .load .es 0x10, .irq 0, .exception 14, .back 0, .back 0]

theorem segments_right_user :
    ∃ segs tr table, gdtInit 0x5000 ⟨0x10, 0x18, 0x18, 0x18, 0x18, 0x18⟩ = some (segs, tr, table) ∧
      ∃ m, run (step ⟨fun _ => 0, 0, 0⟩ ⟨fun _ => 0, 0, 0⟩ tss.ss0.toUInt16 table) ⟨segs, []⟩
          userActs = some m ∧
        SegmentsRight ⟨fun _ => 0, 0, 0⟩ ⟨fun _ => 0, 0, 0⟩ 0x5000 tr table m := by
  obtain ⟨segs, tr, table, hinit, hruns⟩ :=
    segments_right ⟨fun _ => 0, 0, 0⟩ ⟨fun _ => 0, 0, 0⟩ 0x5000
      ⟨0x10, 0x18, 0x18, 0x18, 0x18, 0x18⟩ (by decide)
  refine ⟨segs, tr, table, hinit, hruns userActs ?_⟩
  have hlevel : level (⟨0x10, 0x18, 0x18, 0x18, 0x18, 0x18⟩ : Segs).cs = 0 := by decide
  cases (gdtInit_eq 0x5000 hlevel).symm.trans hinit
  decide +kernel

end StardustOS.Gdt
