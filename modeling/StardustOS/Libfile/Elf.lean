import Mathlib.Data.UInt

/-!
# ELF files

The file header and the program headers of `libfile/elf.h`, as the kernel reads
them: a record is a buffer of bytes, and its fields are the little endian
numbers at their offsets.
-/

namespace StardustOS.Libfile

/-- The little endian number in the first `n` bytes. -/
def le : Nat → List UInt8 → Nat
  | 0, _ => 0
  | _, [] => 0
  | n + 1, b :: bs => b.toNat + 256 * le n bs

/-- The number at an offset of a buffer. -/
def field (bytes : List UInt8) (offset size : Nat) : Nat := le size (bytes.drop offset)

/-- `sizeof(elf_header_t)`. -/
def headerSize : Nat := 52

/-- `sizeof(elf_program_t)`. -/
def programSize : Nat := 32

/-- `elf_header_t`, less the fields that nothing reads. -/
structure ElfHeader where
  ident : List UInt8
  type : UInt16
  machine : UInt16
  version : UInt32
  entry : UInt32
  phoff : UInt32
  phentsize : UInt16
  phnum : UInt16
deriving DecidableEq, Repr

/-- `elf_program_t`, less the fields that nothing reads. -/
structure ElfProgram where
  offset : UInt32
  vaddr : UInt32
  filesz : UInt32
  memsz : UInt32
deriving DecidableEq, Repr

/-- The header in a buffer. -/
def ElfHeader.ofBytes (bytes : List UInt8) : ElfHeader where
  ident := bytes.take 16
  type := UInt16.ofNat (field bytes 16 2)
  machine := UInt16.ofNat (field bytes 18 2)
  version := UInt32.ofNat (field bytes 20 4)
  entry := UInt32.ofNat (field bytes 24 4)
  phoff := UInt32.ofNat (field bytes 28 4)
  phentsize := UInt16.ofNat (field bytes 42 2)
  phnum := UInt16.ofNat (field bytes 44 2)

/-- The program header in a buffer. -/
def ElfProgram.ofBytes (bytes : List UInt8) : ElfProgram where
  offset := UInt32.ofNat (field bytes 4 4)
  vaddr := UInt32.ofNat (field bytes 8 4)
  filesz := UInt32.ofNat (field bytes 16 4)
  memsz := UInt32.ofNat (field bytes 20 4)

def ELF_REL : UInt16 := 1
def ELF_EXEC : UInt16 := 2
def ELF_SHAR : UInt16 := 3

/-- `elf_isvalid`: the magic bytes, a 32-bit little endian file, a known type
and version 1. -/
def elfIsvalid (hdr : ElfHeader) : Bool :=
  hdr.ident.take 6 = [0x7F, 69, 76, 70, 1, 1] ∧
    (hdr.type = ELF_REL ∨ hdr.type = ELF_EXEC ∨ hdr.type = ELF_SHAR) ∧ hdr.version = 1

/-- `PAGE_ALIGN_UP(n) / PAGE_SIZE`.  The macro adds a page to a multiple of the
page size. -/
def pageCount (n : UInt32) : Nat := ((n + 0x1000 - n % 0x1000) / 0x1000).toNat

/-- The sum wraps around in the last page. -/
theorem pageCount_eq (n : UInt32) :
    pageCount n = if n.toNat < 0xFFFFF000 then n.toNat / 0x1000 + 1 else 0 := by
  have hn := n.toNat_lt
  rw [pageCount, UInt32.toNat_div, UInt32.toNat_sub, UInt32.toNat_add, UInt32.toNat_mod]
  simp only [UInt32.reduceToNat]
  split <;> omega

end StardustOS.Libfile
