import Mathlib.Tactic.Linarith
import Mathlib.Tactic.NormNum.GCD
import StardustOS.Nvk.ReadProgram
import StardustOS.Process.Segments

/-!
# The program headers that nvk reads

`nvk_emu` maps the segments of a file that is in memory.  It comes to a program header
by arithmetic on a `uintptr_t*`, which counts in pointers, and to the data of a segment by
arithmetic on the header, which counts in headers.  `proc_exec` of the kernel reads both
at offsets in bytes.

So the header is right only where its offset is 0, and then it is the file header, whose
data is not at its offset (`not_right`).

Addresses of the host are numbers below `Host.space`.  A product that does not fit an `int`
wraps around.  The engine is the function `ucMemMapPtr`.
-/

namespace StardustOS.Nvk

open Libfile Process

/-! ## The host -/

/-- A host, by the size of its pointers. -/
inductive Host
  | bits32
  | bits64
deriving DecidableEq

/-- `sizeof(uintptr_t)`. -/
def Host.pointer : Host → Nat
  | .bits32 => 4
  | .bits64 => 8

/-- The number of addresses. -/
def Host.space (host : Host) : Nat := 2 ^ (8 * host.pointer)

/-- A file that `elf_isvalid` accepts, for machine 3, in a block of the host. -/
structure Loaded (host : Host) where
  file : Nat → UInt8
  size : Nat
  prog : Nat
  mem : Nat → UInt8
  notNull : 0 < prog
  fits : prog + size ≤ host.space
  whole : headerSize ≤ size
  bytes : ∀ j < size, mem (prog + j) = file j
  valid : elfIsvalid (fileHeader file) = true
  machine : (fileHeader file).machine = 3

/-! ## The source -/

def NVK_PROG_START : UInt32 := 0x40000001

def UC_PROT_READ : UInt32 := 1
def UC_PROT_WRITE : UInt32 := 2
def UC_PROT_EXEC : UInt32 := 4

def ELF_PROG_EXEC : UInt32 := 1
def ELF_PROG_WRITE : UInt32 := 2
def ELF_PROG_READ : UInt32 := 4

/-- `prg->flags`. -/
def programFlags (bytes : List UInt8) : UInt32 := .ofNat (field bytes 24 4)

/-- The protection of a segment. -/
def perms (flags : UInt32) : UInt32 :=
  (if flags &&& ELF_PROG_READ ≠ 0 then UC_PROT_READ else 0) |||
    (if flags &&& ELF_PROG_WRITE ≠ 0 then UC_PROT_WRITE else 0) |||
      (if flags &&& ELF_PROG_EXEC ≠ 0 then UC_PROT_EXEC else 0)

/-- The arguments of `uc_mem_map_ptr`. -/
structure MapPtr where
  address : UInt32
  size : UInt32
  perms : UInt32
  ptr : Nat

/-- What a turn of the loop uses: the address of the header, and that of the data. -/
structure Used where
  index : Nat
  header : Nat
  data : Option Nat
deriving DecidableEq

section Source

variable (host : Host)

/-- `(uintptr_t*)prog + hdr->phoff + (hdr->phentsize * i)`. -/
def programAddr (prog : Nat) (hdr : ElfHeader) (i : Nat) : Nat :=
  ((prog + host.pointer * (hdr.phoff.toNat + intOf (hdr.phentsize.toNat * i)) : Int) %
    host.space).toNat

/-- `prg + prg->offset`. -/
def dataAddr (prg : Nat) (offset : UInt32) : Nat :=
  (prg + programSize * offset.toNat) % host.space

variable {κ : Type*} (ucMemMapPtr : MapPtr → κ → UInt32 × κ) (mem : Nat → UInt8) (prog : Nat)

/-- The loop over the program headers: what its turns use, and the entry point, or what
`uc_mem_map_ptr` failed with. -/
def mapPrograms (hdr : ElfHeader) :
    List Nat → UInt32 → κ → List Used × Except UInt32 UInt32 × κ
  | [], entry, k => ([], .ok entry, k)
  | i :: is, entry, k =>
      let addr := programAddr host prog hdr i
      let bytes := slice mem addr programSize
      let prg := ElfProgram.ofBytes bytes
      if prg.memsz = 0 then
        let (used, r) := mapPrograms hdr is entry k
        (⟨i, addr, none⟩ :: used, r)
      else
        let ptr := dataAddr host addr prg.offset
        let call := ⟨NVK_PROG_START, prg.memsz, perms (programFlags bytes), ptr⟩
        let (err, k) := ucMemMapPtr call k
        if err ≠ 0 then ([⟨i, addr, some ptr⟩], .error err, k)
        else
          let entry := if hdr.entry ≤ prg.memsz then hdr.entry + NVK_PROG_START else entry
          let (used, r) := mapPrograms hdr is entry k
          (⟨i, addr, some ptr⟩ :: used, r)

/-- `nvk_emu` up to the end of that loop, when the engine is open and has its memory. -/
def nvkEmu (k : κ) : List Used × Except UInt32 UInt32 × κ :=
  let hdr := headerAt mem prog
  mapPrograms host ucMemMapPtr mem prog hdr (List.range hdr.phnum.toNat) 0 k

end Source

/-! ## Both loaders -/

variable {host : Host} (P : Loaded host)

/-- The address of a byte of the file. -/
def Loaded.addr (offset : Nat) : Nat := (P.prog + offset) % host.space

/-- The offset of the program header that the kernel reads. -/
def programOffset (hdr : ElfHeader) (i : Nat) : UInt32 :=
  hdr.phoff + UInt32.ofNat (hdr.phentsize.toNat * i)

/-- The header is the one that the kernel reads, and so is the data. -/
structure Right (u : Used) : Prop where
  header : u.header = P.addr (programOffset (fileHeader P.file) u.index).toNat
  data : ∀ ptr, u.data = some ptr → ptr = P.addr (fileProgram P.file u.index).offset.toNat

/-- nvk uses the headers and the data that the kernel does. -/
def SameElf {κ : Type*} (ucMemMapPtr : MapPtr → κ → UInt32 × κ) (k : κ) : Prop :=
  ∀ u ∈ (nvkEmu host ucMemMapPtr P.mem P.prog k).1, Right P u

/-! ## Addresses -/

theorem intOf_cases (n : Nat) :
    intOf n = (n % 2 ^ 32 : Nat) ∨ intOf n = (n % 2 ^ 32 : Nat) - 2 ^ 32 := by
  rw [intOf]
  split
  · exact .inl rfl
  · exact .inr rfl

theorem toNat_programOffset (hdr : ElfHeader) (i : Nat) :
    (programOffset hdr i).toNat = (hdr.phoff.toNat + hdr.phentsize.toNat * i) % 2 ^ 32 := by
  rw [programOffset, UInt32.toNat_add, UInt32.toNat_ofNat', Nat.add_mod_mod]

theorem pointer_bits32 : (Host.bits32.pointer : Int) = 4 := rfl

theorem pointer_bits64 : (Host.bits64.pointer : Int) = 8 := rfl

theorem space_bits32 : (Host.bits32.space : Int) = 0x100000000 := by
  norm_num [Host.space, Host.pointer]

theorem space_bits64 : (Host.bits64.space : Int) = 0x10000000000000000 := by
  norm_num [Host.space, Host.pointer]

/-- The sum that is counted in pointers is the offset in bytes, less the overflows. -/
theorem programOffset_sum (hdr : ElfHeader) (i : Nat) :
    ∃ sum : Int, hdr.phoff.toNat + intOf (hdr.phentsize.toNat * i) = sum ∧
      (0x100000000 ∣ sum - (programOffset hdr i).toNat) ∧ -0x100000000 ≤ sum ∧
        sum < 0x200000000 := by
  have hphoff := hdr.phoff.toNat_lt
  refine ⟨_, rfl, ?_⟩
  rw [toNat_programOffset]
  obtain he | he := intOf_cases (hdr.phentsize.toNat * i) <;> rw [he] <;> omega

/-- A product with an odd factor wraps to 0 only from 0. -/
theorem eq_zero_of_mul {offset k : Nat} {t : Int} (hk : Nat.Coprime 0x100000000 k)
    (h : (k * offset : Int) = 0x100000000 * t) (hoffset : offset < 0x100000000) : offset = 0 := by
  have hdvd : (0x100000000 : Int) ∣ (k * offset : Nat) := ⟨t, by rw [Nat.cast_mul, h]⟩
  have hnat : 0x100000000 ∣ k * offset := Int.natCast_dvd_natCast.mp hdvd
  exact Nat.eq_zero_of_dvd_of_lt (hk.dvd_of_dvd_mul_left hnat) hoffset

/-- The header is right only at offset 0. -/
theorem programOffset_eq_zero {prog i : Nat} {hdr : ElfHeader}
    (h : programAddr host prog hdr i = (prog + (programOffset hdr i).toNat) % host.space) :
    (programOffset hdr i).toNat = 0 := by
  obtain ⟨sum, hsum, ⟨q, hq⟩, hlo, hhi⟩ := programOffset_sum hdr i
  have hoffset : (programOffset hdr i).toNat < 0x100000000 := (programOffset hdr i).toNat_lt
  rw [programAddr, hsum] at h
  generalize (programOffset hdr i).toNat = offset at h hq hoffset ⊢
  have hspace : (0 : Int) < host.space := by
    cases host <;> decide
  have hmod :
      (prog + host.pointer * sum : Int) % host.space = (prog + offset : Int) % host.space := by
    rw [← Int.toNat_of_nonneg (Int.emod_nonneg _ hspace.ne'), h]
    norm_cast
  obtain ⟨r, hr⟩ := Int.dvd_of_emod_eq_zero (Int.emod_eq_emod_iff_emod_sub_eq_zero.mp hmod)
  cases host with
  | bits32 =>
      rw [space_bits32, pointer_bits32] at hr
      have hthree : ((3 : Nat) * offset : Int) = 0x100000000 * (r - 4 * q) := by
        push_cast
        linarith only [hq, hr]
      exact eq_zero_of_mul (by norm_num) hthree hoffset
  | bits64 =>
      -- on a 64-bit host the sum does not wrap
      rw [space_bits64, pointer_bits64] at hr
      have hzero : r = 0 := by
        clear hq
        omega
      have hseven : ((7 : Nat) * offset : Int) = 0x100000000 * (-(8 * q)) := by
        rw [hzero] at hr
        push_cast
        linarith only [hq, hr]
      exact eq_zero_of_mul (by norm_num) hseven hoffset

/-- At offset 0 it is the file header, whose data is not at its offset. -/
theorem dataAddr_ne {prog : Nat} {offset : UInt32} (h : offset.toNat % 2 = 1) :
    dataAddr host prog offset ≠ (prog + offset.toNat) % host.space := by
  intro heq
  rw [dataAddr] at heq
  cases host <;> simp only [programSize, Host.space, Host.pointer, Nat.reduceMul] at heq <;> omega

/-! ## The file header as a program header -/

theorem headerAt_loaded : headerAt P.mem P.prog = fileHeader P.file := by
  rw [headerAt, fileHeader, slice]
  congr 1
  refine List.map_congr_left fun j hj => ?_
  rw [Nat.zero_add]
  exact P.bytes j ((List.mem_range.mp hj).trans_le P.whole)

theorem slice_loaded : slice P.mem P.prog programSize = slice P.file 0 programSize := by
  refine List.map_congr_left fun j hj => ?_
  have hj' : j < programSize := List.mem_range.mp hj
  rw [Nat.zero_add]
  exact P.bytes j ((hj'.trans (by decide)).trans_le P.whole)

/-- The version of the file stands where a program header has its size in memory, and the
class where it has its offset. -/
theorem program_of_valid {file : Nat → UInt8} (h : elfIsvalid (fileHeader file) = true) :
    (ElfProgram.ofBytes (slice file 0 programSize)).memsz = 1 ∧
      (ElfProgram.ofBytes (slice file 0 programSize)).offset.toNat % 2 = 1 := by
  obtain ⟨hident, -, hversion⟩ := of_decide_eq_true h
  constructor
  · exact hversion
  · have hclass : file (0 + 4) = 1 := Option.some.inj (congrArg (fun l => l[4]?) hident)
    have hfield : field (slice file 0 programSize) 4 4 =
        (file (0 + 4)).toNat + 256 * le 3 ((slice file 0 programSize).drop 5) := rfl
    have hone : (1 : UInt8).toNat = 1 := rfl
    show (UInt32.ofNat (field (slice file 0 programSize) 4 4)).toNat % 2 = 1
    rw [hfield, hclass, UInt32.toNat_ofNat', hone]
    omega

/-! ## The turns of the loop -/

section Turns

variable {κ : Type*} {ucMemMapPtr : MapPtr → κ → UInt32 × κ} {mem : Nat → UInt8} {prog : Nat}
  {hdr : ElfHeader}

/-- What a turn of the loop uses, by the address of its header. -/
theorem used_of_mem {is : List Nat} {entry : UInt32} {k : κ} {u : Used}
    (hu : u ∈ (mapPrograms host ucMemMapPtr mem prog hdr is entry k).1) :
    u.header = programAddr host prog hdr u.index ∧
      ((ElfProgram.ofBytes (slice mem u.header programSize)).memsz ≠ 0 →
        u.data = some (dataAddr host u.header
          (ElfProgram.ofBytes (slice mem u.header programSize)).offset)) := by
  induction is generalizing entry k with
  | nil => cases hu
  | cons i is ih =>
      simp only [mapPrograms] at hu
      split at hu
      · rename_i hzero
        rcases List.mem_cons.mp hu with rfl | hu
        · exact ⟨rfl, fun h => absurd hzero h⟩
        · exact ih hu
      · split at hu
        · obtain rfl := List.mem_singleton.mp hu
          exact ⟨rfl, fun _ => rfl⟩
        · rcases List.mem_cons.mp hu with rfl | hu
          · exact ⟨rfl, fun _ => rfl⟩
          · exact ih hu

/-- The first turn is always made. -/
theorem exists_used (i : Nat) (is : List Nat) (entry : UInt32) (k : κ) :
    ∃ u, u ∈ (mapPrograms host ucMemMapPtr mem prog hdr (i :: is) entry k).1 := by
  simp only [mapPrograms]
  split
  · exact ⟨_, List.mem_cons_self⟩
  · split
    · exact ⟨_, List.mem_cons_self⟩
    · exact ⟨_, List.mem_cons_self⟩

end Turns

/-! ## Where the loaders agree -/

section Agree

variable {κ : Type*} (ucMemMapPtr : MapPtr → κ → UInt32 × κ) (k : κ)

/-- No turn of the loop uses what the kernel does. -/
theorem not_right {u : Used} (hu : u ∈ (nvkEmu host ucMemMapPtr P.mem P.prog k).1) :
    ¬ Right P u := by
  intro h
  rw [nvkEmu, headerAt_loaded] at hu
  obtain ⟨hheader, hdata⟩ := used_of_mem hu
  have hoffset := programOffset_eq_zero (hheader.symm.trans h.header)
  have hprog : P.prog < host.space := by
    have hsize : 52 ≤ P.size := P.whole
    have hfits := P.fits
    omega
  have hfirst : u.header = P.prog := by
    rw [h.header, hoffset, Loaded.addr, Nat.add_zero, Nat.mod_eq_of_lt hprog]
  have hkernel : fileProgram P.file u.index = .ofBytes (slice P.file 0 programSize) := by
    rw [← hoffset]
    rfl
  obtain ⟨hmemsz, hodd⟩ := program_of_valid P.valid
  rw [hfirst, slice_loaded] at hdata
  have hptr := h.data _ (hdata (by rw [hmemsz]; decide))
  rw [hkernel] at hptr
  exact dataAddr_ne hodd hptr

/-- Both loaders read the same ELF.  This is so of a file without program headers, and
of no other. -/
theorem sameElf_iff : SameElf P ucMemMapPtr k ↔ (fileHeader P.file).phnum = 0 := by
  constructor
  · intro h
    by_contra hne
    have hphnum : (fileHeader P.file).phnum.toNat ≠ 0 := fun h => hne (UInt16.toNat_inj.mp h)
    obtain ⟨n, hn⟩ := Nat.exists_eq_succ_of_ne_zero hphnum
    obtain ⟨u, hu⟩ : ∃ u, u ∈ (nvkEmu host ucMemMapPtr P.mem P.prog k).1 := by
      rw [nvkEmu, headerAt_loaded]
      simp only [hn, List.range_succ_eq_map]
      exact exists_used 0 _ 0 k
    exact not_right P ucMemMapPtr k hu (h u hu)
  · intro h u hu
    rw [nvkEmu, headerAt_loaded, h] at hu
    cases hu

end Agree

/-- A file with one program header, behind the file header. -/
def smallFile (j : Nat) : UInt8 :=
  [0x7F, 69, 76, 70, 1, 1, 1, 0, 0, 0, 0, 0, 0, 0, 0, 0, 2, 0, 3, 0, 1, 0, 0, 0, 0, 0, 0x10, 0,
    52, 0, 0, 0, 0, 0, 0, 0, 0, 0, 0, 0, 52, 0, 32, 0, 1, 0, 0, 0, 0, 0, 0, 0,
    1, 0, 0, 0, 84, 0, 0, 0, 0, 0, 0x10, 0, 0, 0, 0x10, 0, 4, 0, 0, 0, 4, 0, 0, 0, 5, 0, 0, 0,
    0, 16, 0, 0].getD j 0

/-- The file at `0x1000`, with zeros behind it. -/
def small : Loaded .bits64 where
  file := smallFile
  size := 88
  prog := 0x1000
  mem a := smallFile (a - 0x1000)
  notNull := by decide
  fits := by norm_num [Host.space, Host.pointer]
  whole := by decide
  bytes j _ := by rw [Nat.add_sub_cancel_left]
  valid := by decide
  machine := by decide

/-- The header that nvk takes is eight times as far in the file. -/
theorem sameElf_small : ¬ SameElf small (fun _ k => (0, k)) () := by
  intro h
  have hused : ⟨0, 0x1000 + 8 * 52, none⟩ ∈ (nvkEmu .bits64 (fun _ k => (0, k)) small.mem
      small.prog ()).1 := by
    decide
  have hheader := (h _ hused).header
  exact absurd hheader (by decide)

end StardustOS.Nvk
