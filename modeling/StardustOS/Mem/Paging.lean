import StardustOS.Mem.Phys
import Mathlib.Logic.Function.Basic

/-!
# Paging

The second part of `mem.c`: two-level page tables, and the functions that map,
allocate and free pages.

Physical memory is a table of frames of 1024 words, each read as an entry.  The
two entry types of the source put the fields that the code uses at the same
bits, so one `Entry` serves for both; the other bits are only ever cleared with
the whole word.  A directory or table is reached through the kernel's identity
mapping, so a pointer to one is the address of its frame.  `memset` takes any
kernel or user address, and walks the loaded directory.  A page that is not
present there is left out: the write faults.

`virt_map` and `mem_allocident` call each other.  Each nested allocation uses up
a free frame of the kernel half, so a depth of `2^18` is never exceeded:
`virtMap_eq` is the recursion of the source, without the depth.
-/

namespace StardustOS.Mem

open Lib

instance entries_neZero : NeZero 1024 := ⟨by decide⟩

/-! ## Entries and memory -/

/-- `page_t` and `page_dir_entry_t`. -/
structure Entry where
  present : Bool
  write : Bool
  user : Bool
  frame : Frame
deriving DecidableEq, Repr

/-- The word 0. -/
def Entry.zero : Entry := ⟨false, false, false, 0⟩

/-- `PD_INDEX`. -/
def pdIndex (vaddr : Nat) : Fin 1024 := Fin.ofNat 1024 (vaddr >>> 22)

/-- `PT_INDEX`. -/
def ptIndex (vaddr : Nat) : Fin 1024 := Fin.ofNat 1024 (vaddr >>> 12 &&& 0x03ff)

/-- The address of a directory entry. -/
def pdeAddr (dir : Frame) (pdi : Fin 1024) : Nat := dir.addr + pdi.val * 4

/-- Where the linker puts `krnl_pgdir` and `krnl_pgtbl`. -/
structure Layout where
  krnlPgdir : Frame
  krnlPgtbl : Frame

/-- `&krnl_pgtbl[i] / PAGE_SIZE`. -/
def Layout.table (L : Layout) (i : Nat) : Frame := frameOf (L.krnlPgtbl.addr + i * PAGE_SIZE)

/-- The memory manager, the physical memory and the loaded directory. -/
structure Memory where
  phys : Phys
  ram : Frame → Fin 1024 → Entry
  cr3 : Frame

namespace Memory

variable (s : Memory)

/-- A word is written. -/
def setEntry (F : Frame) (k : Fin 1024) (e : Entry) : Memory :=
  { s with ram := Function.update s.ram F (Function.update (s.ram F) k e) }

/-- A frame is cleared. -/
def zeroFrame (F : Frame) : Memory :=
  { s with ram := Function.update s.ram F fun _ => Entry.zero }

/-- The static data for physical memory is replaced. -/
def setPhys (phys : Phys) : Memory := { s with phys := phys }

/-! ## Walking the tables -/

/-- `page_ispresent`. -/
def pageIspresent (dir : Frame) (vaddr : Nat) : Bool :=
  let pde := s.ram dir (pdIndex vaddr)
  if pde.present = false then false
  else
    let pg := s.ram pde.frame (ptIndex vaddr)
    pg.present

/-- `virt_ispresent`. -/
def virtIspresent (dir : Frame) (vaddr count : Nat) : Bool :=
  allUpto count fun i => s.pageIspresent dir (vaddr + i * PAGE_SIZE)

/-- `virt2phys`. -/
def virt2phys (dir : Frame) (vaddr : Nat) : Nat :=
  let pde := s.ram dir (pdIndex vaddr)
  let pg := s.ram pde.frame (ptIndex vaddr)
  pg.frame.addr + (vaddr &&& 0xfff)

/-- The part of `memset(vaddr, 0, n)` in the page of `vaddr`. -/
def memsetPage (vaddr : Nat) : Memory :=
  if s.pageIspresent s.cr3 vaddr then s.zeroFrame (frameOf (s.virt2phys s.cr3 vaddr)) else s

/-- `memset(vaddr, 0, count * PAGE_SIZE)`.  The product is an `unsigned int`. -/
def memset (vaddr count : Nat) : Memory :=
  forUpto (count * PAGE_SIZE % 2 ^ 32 / PAGE_SIZE)
    (fun i s => s.memsetPage (vaddr + i * PAGE_SIZE)) s

/-! ## Mapping and allocating pages -/

/-- The body of the loop of `virt_map`.  `alloc` is the call
`mem_allocident(dir, 1, iswrite, 0)`. -/
def virtMapPage (alloc : Memory → Nat × Memory) (dir : Frame) (vaddr paddr : Nat)
    (iswrite isuser : Bool) : Memory :=
  let pdi := pdIndex vaddr
  let pti := ptIndex vaddr
  let pg : Entry := ⟨true, iswrite, isuser, frameOf paddr⟩
  let pde := s.ram dir pdi
  if pde.present = false then
    let (pt, s) := alloc s
    -- the frame is that of the entry's own address
    let s := s.setEntry dir pdi ⟨true, iswrite, isuser, frameOf (pdeAddr dir pdi)⟩
    s.setEntry (frameOf pt) pti pg
  else s.setEntry pde.frame pti pg

/-- `virt_map`, given the call that allocates a table. -/
def virtMapWith (alloc : Memory → Nat × Memory) (dir : Frame) (vaddr paddr count : Nat)
    (iswrite isuser : Bool) : Memory :=
  forUpto count (fun i s =>
    s.virtMapPage alloc dir (vaddr + i * PAGE_SIZE) (paddr + i * PAGE_SIZE) iswrite isuser) s

/-- The page of this number is not present and the frame of this number is not
used. -/
def identFree (dir : Frame) (i : Nat) : Bool :=
  !(s.pageIspresent dir (i * PAGE_SIZE) || s.phys.physIsused (i * PAGE_SIZE) 1)

/-- `mem_allocident`, given the call
`virt_map(dir, startaddr, startaddr, count, iswrite, isuser)`. -/
def memAllocidentWith (map : Nat → Memory → Memory) (dir : Frame) (count : Nat) (isuser : Bool) :
    Nat × Memory :=
  if count = 0 then (0, s)
  else
    let first := if isuser then 256 else 0
    let last := (if isuser then 1024 else 256) * 1024
    match scanRun (s.identFree dir) count (last - first) first 0 0 with
    | none => (0, s)
    | some i =>
        let startaddr := i * PAGE_SIZE
        let s := s.setPhys (s.phys.physSetused startaddr count)
        let s := map startaddr s
        (startaddr, s.memset startaddr count)

/-- `virt_map` with at most `depth` nested table allocations.  At the depth 0
an allocation fails. -/
def virtMapFuel : Nat → Frame → Nat → Nat → Nat → Bool → Bool → Memory → Memory
  | 0, dir, vaddr, paddr, count, iswrite, isuser, s =>
      s.virtMapWith (fun s => (0, s)) dir vaddr paddr count iswrite isuser
  | depth + 1, dir, vaddr, paddr, count, iswrite, isuser, s =>
      s.virtMapWith
        (fun s => s.memAllocidentWith
          (fun a s => virtMapFuel depth dir a a 1 iswrite false s) dir 1 false)
        dir vaddr paddr count iswrite isuser

/-- `virt_map`. -/
def virtMap (dir : Frame) (vaddr paddr count : Nat) (iswrite isuser : Bool) : Memory :=
  virtMapFuel (2 ^ 18) dir vaddr paddr count iswrite isuser s

/-- `mem_allocident`. -/
def memAllocident (dir : Frame) (count : Nat) (iswrite isuser : Bool) : Nat × Memory :=
  s.memAllocidentWith (fun a s => s.virtMap dir a a count iswrite isuser) dir count isuser

/-- The body of the loop of `virt_unmap`. -/
def virtUnmapPage (dir : Frame) (vaddr : Nat) : Memory :=
  let pde := s.ram dir (pdIndex vaddr)
  let pg := s.ram pde.frame (ptIndex vaddr)
  if pg.present then s.setEntry pde.frame (ptIndex vaddr) Entry.zero else s

/-- `virt_unmap`. -/
def virtUnmap (dir : Frame) (vaddr count : Nat) : Memory :=
  forUpto count (fun i s => s.virtUnmapPage dir (vaddr + i * PAGE_SIZE)) s

/-- `virt_alloc`. -/
def virtAlloc (dir : Frame) (paddr count : Nat) (iswrite isuser : Bool) : Nat × Memory :=
  if count = 0 then (0, s)
  else
    let first := (if isuser then 256 else 0) * 1024
    let last := (if isuser then 1024 else 256) * 1024
    match scanRun (fun i => !s.pageIspresent dir (i * PAGE_SIZE)) count (last - first)
        first 0 0 with
    | none => (0, s)
    | some i =>
        let startaddr := i * PAGE_SIZE
        (startaddr, s.virtMap dir startaddr paddr count iswrite isuser)

/-- `mem_alloc`.  A `virt_alloc` that fails is not caught. -/
def memAlloc (dir : Frame) (count : Nat) (iswrite isuser : Bool) : Nat × Memory :=
  if count = 0 then (0, s)
  else
    let (paddr, phys) := s.phys.physAlloc count
    let s := s.setPhys phys
    if paddr = 0 then (0, s)
    else
      let (vaddr, s) := s.virtAlloc dir paddr count iswrite isuser
      (vaddr, s.memset vaddr count)

/-- `mem_free`. -/
def memFree (dir : Frame) (addr count : Nat) : Memory :=
  if s.virtIspresent dir addr count then
    let s := s.setPhys (s.phys.physSetfree (s.virt2phys dir addr) count)
    s.virtUnmap dir addr count
  else s

/-- `mem_identmap`. -/
def memIdentmap (dir : Frame) (addr count : Nat) : Memory :=
  (s.setPhys (s.phys.physSetused addr count)).virtMap dir addr addr count true false

/-- The body of the loop of `mem_map`. -/
def memMapPage (pgdir : Frame) (vaddr : Nat) (iswrite isuser : Bool) : Memory :=
  if !s.virtIspresent pgdir vaddr 1 then
    let (paddr, phys) := s.phys.physAlloc 1
    (s.setPhys phys).virtMap pgdir vaddr paddr 1 iswrite isuser
  else s

/-- `mem_map`. -/
def memMap (pgdir : Frame) (addr count : Nat) (iswrite isuser : Bool) : Memory :=
  forUpto count (fun i s => s.memMapPage pgdir (addr + i * PAGE_SIZE) iswrite isuser) s

/-- The entries of the kernel half, as `mem_init` and `mem_alloc_pgdir` set
them. -/
def setKernelEntries (L : Layout) (dir : Frame) : Memory :=
  forUpto 256 (fun i s => s.setEntry dir (Fin.ofNat 1024 i) ⟨true, true, false, L.table i⟩) s

/-! ## Reading back a write -/

@[simp] theorem setPhys_phys (p : Phys) : (s.setPhys p).phys = p := rfl

@[simp] theorem setPhys_ram (p : Phys) : (s.setPhys p).ram = s.ram := rfl

@[simp] theorem setEntry_ram_self (F : Frame) (k : Fin 1024) (e : Entry) :
    (s.setEntry F k e).ram F k = e := by
  simp [setEntry]

theorem setEntry_ram_of_ne {F F' : Frame} {k k' : Fin 1024} (e : Entry)
    (h : F' ≠ F ∨ k' ≠ k) : (s.setEntry F k e).ram F' k' = s.ram F' k' := by
  by_cases hF : F' = F
  · subst hF
    have hk : k' ≠ k := h.resolve_left (· rfl)
    simp [setEntry, hk]
  · simp [setEntry, hF]

theorem setEntry_row_of_ne {F F' : Frame} (k : Fin 1024) (e : Entry) (h : F' ≠ F) :
    (s.setEntry F k e).ram F' = s.ram F' := by
  simp [setEntry, h]

@[simp] theorem zeroFrame_ram_self (F : Frame) (k : Fin 1024) :
    (s.zeroFrame F).ram F k = Entry.zero := by
  simp [zeroFrame]

theorem zeroFrame_row_of_ne {F F' : Frame} (h : F' ≠ F) :
    (s.zeroFrame F).ram F' = s.ram F' := by
  simp [zeroFrame, h]

end Memory

/-! ## Pages -/

/-- The directory index of a page. -/
def Frame.pdi (p : Frame) : Fin 1024 := ⟨p.val / 1024, by omega⟩

/-- The table index of a page. -/
def Frame.pti (p : Frame) : Fin 1024 := ⟨p.val % 1024, by omega⟩

theorem Frame.eq_of_index {p q : Frame} (hd : p.pdi = q.pdi) (ht : p.pti = q.pti) : p = q := by
  have hd' := congrArg Fin.val hd
  have ht' := congrArg Fin.val ht
  simp only [Frame.pdi, Frame.pti] at hd' ht'
  ext
  omega

theorem pdIndex_eq (vaddr : Nat) : pdIndex vaddr = (frameOf vaddr).pdi := by
  ext
  simp only [pdIndex, Fin.ofNat, Frame.pdi, frameOf, PAGE_SIZE, Nat.shiftRight_eq_div_pow]
  omega

theorem ptIndex_eq (vaddr : Nat) : ptIndex vaddr = (frameOf vaddr).pti := by
  ext
  have hmask : vaddr >>> 12 &&& 0x03ff = vaddr / 2 ^ 12 % 1024 := by
    rw [Nat.shiftRight_eq_div_pow]
    exact Nat.and_two_pow_sub_one_eq_mod _ 10
  simp only [ptIndex, hmask, Fin.ofNat, Frame.pti, frameOf, PAGE_SIZE]
  omega

/-- A directory entry lies in its directory. -/
@[simp] theorem frameOf_pdeAddr (dir : Frame) (pdi : Fin 1024) :
    frameOf (pdeAddr dir pdi) = dir := by
  have := dir.isLt
  have := pdi.isLt
  ext
  simp only [frameOf, pdeAddr, Frame.addr, PAGE_SIZE]
  omega

theorem addr_frameOf {addr : Nat} (h : addr % PAGE_SIZE = 0) :
    (frameOf addr).addr = addr % 2 ^ 32 := by
  simp only [Frame.addr, frameOf, PAGE_SIZE] at *
  omega

theorem addr_aligned (p : Frame) : p.addr % PAGE_SIZE = 0 := Nat.mul_mod_left _ _

theorem step_aligned {addr : Nat} (h : addr % PAGE_SIZE = 0) (i : Nat) :
    (addr + i * PAGE_SIZE) % PAGE_SIZE = 0 := by
  rw [Nat.add_mul_mod_self_right, h]

/-- Up to `2^20` pages in a row are different pages. -/
theorem frameOf_inj {addr i j : Nat} (hi : i < 2 ^ 20) (hj : j < 2 ^ 20)
    (h : frameOf (addr + i * PAGE_SIZE) = frameOf (addr + j * PAGE_SIZE)) : i = j := by
  have := congrArg Fin.val h
  simp only [frameOf, PAGE_SIZE] at this
  omega

end StardustOS.Mem
