import StardustOS.Libfile.Elf
import StardustOS.Mem.RealRam
import StardustOS.Mem.Split

/-!
# User pages and the kernel half

User pages are to lie from 1 GiB on.  There are three ways to get one, and each
draws the line on its own: `virt_alloc` counts in directory entries and
`mem_allocident` in pages, both from 256 on, and `proc_exec` takes segments from
1 MiB on.

`Respects` is the condition on a call that is left: a run of pages that
`mem_allocident` finds first lies from 1 GiB on, and so does each page of a
segment that is not there yet.  Under what the callers see to, `Contract`, runs
keep the user pages out of the kernel half exactly when all of their calls
respect it: `meets_userHalf_iff`.

The other functions of `mem.c` are these calls in turn: `mem_alloc` is
`phys_alloc`, `virt_alloc` and `memset`, `mem_free` is `phys_setfree` and
`virt_unmap`, and `mem_free_pgdir` and `mem_identmap` are made of the same.
-/

namespace StardustOS.Mem

open Lib Libfile

/-! ## The calls -/

/-- The memory, and the directories in it: `krnl_pgdir` and those that
`mem_alloc_pgdir` made, until their frame is freed. -/
structure Spaces where
  mem : Memory
  dirs : Finset Frame

/-- The calls.  `virt_map` itself is called for pages of the kernel.  A page of
a segment is a turn of the loop that `proc_exec` runs in `mem_map`, and a write
of a process or of the kernel gives a frame new contents. -/
inductive SpaceCall where
  | physAlloc (count : Nat)
  | physSetused (addr count : Nat)
  | physSetfree (addr count : Nat)
  | virtMap (dir : Frame) (vaddr paddr count : Nat) (iswrite : Bool)
  | virtUnmap (dir : Frame) (vaddr count : Nat)
  | virtAlloc (dir : Frame) (paddr count : Nat) (iswrite isuser : Bool)
  | memAllocident (dir : Frame) (count : Nat) (iswrite isuser : Bool)
  | memset (vaddr count : Nat)
  | memAllocPgdir
  | pagingLoaddir (dir : Frame)
  | execPage (dir : Frame) (prog : ElfProgram) (i : Nat)
  | store (F : Frame) (row : Fin 1024 → Entry)

/-- The address of a page of a segment. -/
def segmentPage (prog : ElfProgram) (i : Nat) : Nat := prog.vaddr.toNat + i * PAGE_SIZE

/-- `proc_exec` has `mem_map` go through this page. -/
def Loads (prog : ElfProgram) (i : Nat) : Prop :=
  0x100000 ≤ prog.vaddr ∧ i < pageCount prog.memsz

instance (prog : ElfProgram) (i : Nat) : Decidable (Loads prog i) :=
  inferInstanceAs (Decidable (_ ∧ _))

/-- A page of a segment in `proc_exec`. -/
def Memory.execPage (s : Memory) (dir : Frame) (prog : ElfProgram) (i : Nat) : Memory :=
  if Loads prog i then s.memMapPage dir (segmentPage prog i) true true else s

namespace Spaces

variable (L : Layout) (s : Spaces)

/-- The state after a call. -/
def call : SpaceCall → Spaces
  | .physAlloc count => { s with mem := s.mem.setPhys (s.mem.phys.physAlloc count).2 }
  | .physSetused addr count => { s with mem := s.mem.setPhys (s.mem.phys.physSetused addr count) }
  | .physSetfree addr count =>
      { mem := s.mem.setPhys (s.mem.phys.physSetfree addr count)
        dirs := s.dirs \ runFrames addr count }
  | .virtMap dir vaddr paddr count w =>
      { s with mem := s.mem.virtMap dir vaddr paddr count w false }
  | .virtUnmap dir vaddr count => { s with mem := s.mem.virtUnmap dir vaddr count }
  | .virtAlloc dir paddr count w u => { s with mem := (s.mem.virtAlloc dir paddr count w u).2 }
  | .memAllocident dir count w u => { s with mem := (s.mem.memAllocident dir count w u).2 }
  | .memset vaddr count => { s with mem := s.mem.memset vaddr count }
  | .memAllocPgdir =>
      { mem := (s.mem.memAllocPgdir L).2
        dirs := if (s.mem.memAllocPgdir L).1 = 0 then s.dirs
          else insert (frameOf (s.mem.memAllocPgdir L).1) s.dirs }
  | .pagingLoaddir dir => { s with mem := { s.mem with cr3 := dir } }
  | .execPage dir prog i => { s with mem := s.mem.execPage dir prog i }
  | .store F row => { s with mem := { s.mem with ram := Function.update s.mem.ram F row } }

/-- One call of a run; all of them are defined. -/
def step (s : Spaces) (c : SpaceCall) : Option Spaces := some (s.call L c)

/-! ## What is asked of a call -/

/-- The callers see to this: pages are mapped in a directory, to frames that are
none of `krnl_pgtbl`, and nothing else is written to directories and to
`krnl_pgtbl`.  A new directory is cleared through its page. -/
def Contract : SpaceCall → Prop
  | .virtMap dir _ paddr count _ => dir ∈ s.dirs ∧ Disjoint (runFrames paddr count) L.tables
  | .virtAlloc dir paddr count _ _ => dir ∈ s.dirs ∧ Disjoint (runFrames paddr count) L.tables
  | .memAllocident dir _ _ _ => dir ∈ s.dirs
  | .memAllocPgdir => L.krnlPgdir ∈ s.dirs ∧ s.mem.ClearsNew L
  | .execPage dir _ _ => dir ∈ s.dirs
  | .store F _ => F ∉ L.tables ∧ F ∉ s.dirs
  | _ => True

/-- A user page `p` is mapped by an entry in frame `F`. -/
def UserMaps (p F : Frame) : SpaceCall → Prop
  | .virtAlloc dir paddr count w true =>
      let a := (s.mem.virtAlloc dir paddr count w true).1
      a ≠ 0 ∧ s.mem.MapsIn dir a paddr count w true p F
  | .memAllocident dir count w true =>
      let a := (s.mem.memAllocident dir count w true).1
      a ≠ 0 ∧
        (s.mem.setPhys (s.mem.phys.physSetused a count)).MapsIn dir a a count w true p F
  | .execPage dir prog i =>
      Loads prog i ∧ s.mem.virtIspresent dir (segmentPage prog i) 1 = false ∧
        (s.mem.setPhys (s.mem.phys.physAlloc 1).2).MapsIn dir (segmentPage prog i)
          (s.mem.phys.physAlloc 1).1 1 true true p F
  | _ => False

/-- User pages lie from 1 GiB on and have no entry in `krnl_pgtbl`, whose
entries are those of kernel pages and whose frames are not given away. -/
structure CallOk (c : SpaceCall) : Prop where
  user : ∀ p F, s.UserMaps p F c → 0x40000000 ≤ p.addr ∧ F ∉ L.tables
  tables : ∀ F ∈ L.tables, F ∈ (s.call L c).mem.phys.used ∧
    ∀ k, ((s.call L c).mem.ram F k).user = false

end Spaces

/-! ## The two searches -/

/-- Pages of the user half, by their numbers. -/
theorem userHalf_index {j i : Nat} (hlo : 256 * 1024 ≤ j) (hhi : j + i < 1024 * 1024) :
    0x40000000 ≤ (frameOf (j * PAGE_SIZE + i * PAGE_SIZE)).addr := by
  rw [← Nat.add_mul, Frame.addr, frameOf_mul (by omega), PAGE_SIZE]
  omega

/-- A single page of it. -/
theorem userHalf_page {vaddr : Nat} (h : 0x40000000 ≤ (frameOf vaddr).addr) :
    ∀ i < 1, 0x40000000 ≤ (frameOf (vaddr + i * PAGE_SIZE)).addr := by
  intro i hi
  rwa [Nat.lt_one_iff.mp hi, Nat.zero_mul, Nat.add_zero]

namespace Memory

variable {s : Memory} {L : Layout} {dirs : Finset Frame} {dir : Frame}

/-- A search of `mem_allocident` that passes a run of free pages. -/
theorem memAllocident_le {count a : Nat} (w u : Bool) (hc : count ≠ 0)
    (hlo : (if u then 256 else 0) ≤ a) (hhi : a + count ≤ (if u then 1024 else 256) * 1024)
    (hfree : ∀ k < count, s.identFree dir (a + k) = true) :
    ∃ b, (if u then 256 else 0) ≤ b ∧ b ≤ a ∧ s.identFree dir b = true ∧
      (s.memAllocident dir count w u).1 = b * PAGE_SIZE := by
  obtain ⟨b, hba, hb⟩ := scanRun_zero_le (Nat.pos_of_ne_zero hc) hfree hlo
    (show a + count ≤ (if u then 256 else 0) +
      ((if u then 1024 else 256) * 1024 - (if u then 256 else 0)) by omega) 0
  obtain ⟨hlo', -, hfree'⟩ := s.identScan_some hb
  refine ⟨b, hlo', hba, hfree' 0 (Nat.pos_of_ne_zero hc), ?_⟩
  rw [memAllocident, memAllocidentWith, if_neg hc]
  simp only [hb]

namespace Split

variable (h : Split L dirs s)

include h

/-- Frames that are marked later are none of `krnl_pgtbl`. -/
theorem setused {addr count : Nat} : Split L dirs (s.setPhys (s.phys.physSetused addr count)) := by
  refine h.setPhys ?_
  rw [Phys.used_physSetused]
  exact h.used.trans Finset.subset_union_left

/-- `phys_alloc` returns none of them, nor does it fail with one. -/
theorem physAlloc_apart : Disjoint (runFrames (s.phys.physAlloc 1).1 1) L.tables := by
  rw [runFrames_one, Finset.disjoint_singleton_left]
  obtain hfail | ⟨i, -, hok, hdis⟩ := s.phys.physAlloc_spec 1
  · rw [hfail]
    exact h.apart_of_val (F := frameOf Phys.allocFailed) (.inr (by decide))
  · rw [hok]
    refine h.apart ?_
    rwa [runFrames_one, Finset.disjoint_singleton_right] at hdis

theorem physAlloc (count : Nat) : Split L dirs (s.setPhys (s.phys.physAlloc count).2) :=
  h.setPhys (h.used.trans (s.used_subset_physAlloc count))

theorem virtAlloc (hdir : dir ∈ dirs) {paddr count : Nat} (w u : Bool)
    (hframes : Disjoint (runFrames paddr count) L.tables) :
    Split L dirs (s.virtAlloc dir paddr count w u).2 := by
  obtain hfail | ⟨j, hlo, hhi, -, hok⟩ := s.virtAlloc_spec dir paddr count w u
  · rwa [hfail]
  · rw [hok]
    cases u with
    | false => exact h.kernelMap hdir hframes
    | true =>
        simp only [↓reduceIte] at hlo hhi
        exact h.userMap hdir w true (fun i hi => userHalf_index hlo (by omega)) hframes

/-- A page of a segment is mapped to a new frame. -/
theorem execPage (hdir : dir ∈ dirs) {prog : ElfProgram} {i : Nat}
    (hr : Loads prog i → s.virtIspresent dir (segmentPage prog i) 1 = true ∨
      0x40000000 ≤ (frameOf (segmentPage prog i)).addr) :
    Split L dirs (s.execPage dir prog i) := by
  rw [Memory.execPage]
  split
  · rw [memMapPage]
    obtain hpres | hhigh := hr ‹_›
    · rw [hpres]
      exact h
    · split
      · exact (h.physAlloc 1).userMap hdir true true (userHalf_page hhigh) h.physAlloc_apart
      · exact h
  · exact h

end Split

end Memory

/-! ## What a call does -/

namespace Spaces

variable {L : Layout} {s : Spaces} {c : SpaceCall}

end Spaces

/-! ## Runs from the start -/

/-- `krnl_pgdir` and `krnl_pgtbl` are apart, and empty at first. -/
structure Static (L : Layout) (s : Memory) : Prop where
  dir : L.krnlPgdir ∉ L.tables
  top : L.krnlPgtbl.val + 256 ≤ 2 ^ 20
  dir_empty : ∀ k, s.ram L.krnlPgdir k = Entry.zero
  tables_empty : ∀ F ∈ L.tables, ∀ k, s.ram F k = Entry.zero

/-- The kernel image holds `krnl_pgdir` and `krnl_pgtbl`, which are empty at
first, and ends below 1 GiB with the modules. -/
structure Linked (L : Layout) (info : BootInfo) (s : Memory) : Prop where
  dir : L.krnlPgdir ∉ L.tables
  dir_lt : L.krnlPgdir.val < info.identPages
  tables_pos : 0 < L.krnlPgtbl.val
  tables_lt : L.krnlPgtbl.val + 256 ≤ info.identPages
  image : info.identPages ≤ 2 ^ 18
  dir_empty : ∀ k, s.ram L.krnlPgdir k = Entry.zero
  tables_empty : ∀ F ∈ L.tables, ∀ k, s.ram F k = Entry.zero

theorem mem_runFrames_image {F : Frame} {n : Nat} (hF : F.val < n) : F ∈ runFrames 0 n := by
  refine mem_runFrames.mpr ⟨F.val, hF, ?_⟩
  rw [Nat.zero_add]
  exact frameOf_addr F

/-- The pages of the image become identity pages. -/
theorem mapPages_image {n : Nat} (hn : n ≤ 2 ^ 20) (f : Frame → Entry) (p : Frame) :
    mapPages 0 0 n true false f p = if p.val < n then ⟨true, true, false, p⟩ else f p := by
  have hpage : frameOf (0 + p.val * PAGE_SIZE) = p := by
    rw [Nat.zero_add]
    exact frameOf_addr p
  split
  · have hinside : mapPages 0 0 n true false f (frameOf (0 + p.val * PAGE_SIZE)) =
        ⟨true, true, false, frameOf (0 + p.val * PAGE_SIZE)⟩ := mapPages_inside hn ‹_›
    rwa [hpage] at hinside
  · refine mapPages_outside ?_
    intro i hi hpi
    have hval := congrArg Fin.val hpi
    rw [Nat.zero_add, frameOf_mul (by omega)] at hval
    omega

/-- `t` has the first `n` pages of the kernel half mapped to themselves by tables
that were empty in `s`. -/
structure ImageMapped (L : Layout) (s : Memory) (n : Nat) (t : Memory) : Prop where
  row : ∀ k, t.ram L.krnlPgdir k =
    if KernelHalf k then ⟨true, true, false, L.table k.val⟩ else Entry.zero
  pte : ∀ p : Frame, KernelHalf p.pdi → t.pte L.krnlPgdir p =
    if p.val < n then ⟨true, true, false, p⟩ else Entry.zero
  other : ∀ F, F ≠ L.krnlPgdir → F ∉ L.tables → t.ram F = s.ram F

namespace Static

variable {L : Layout} {s : Memory} (h : Static L s)

include h

theorem table_ne {k : Fin 1024} (hk : KernelHalf k) : L.table k.val ≠ L.krnlPgdir :=
  fun heq => h.dir (heq ▸ L.table_mem hk)

/-- The pages that `mem_init` maps in the kernel half, with whatever frames are
marked. -/
theorem imageMapped (info : BootInfo) (phys phys' : Phys) {n : Nat} (hn : n ≤ 2 ^ 18) :
    let s₀ := (s.loaded L info phys).setPhys phys'
    ImageMapped L s n (s₀.virtMap L.krnlPgdir 0 0 n true false) ∧
      (s₀.virtMap L.krnlPgdir 0 0 n true false).phys = phys' := by
  intro s₀
  obtain ⟨hsame, hrow⟩ := Memory.setKernelEntries_spec
    (s.setPhys { s.phys with mem := fun _ => 0 }) L L.krnlPgdir
  have hK : ∀ i < n, KernelHalf (frameOf (0 + i * PAGE_SIZE)).pdi := fun i hi => by
    rw [Nat.zero_add]
    exact kernelHalf_frameOf (hi.trans_le hn)
  have htables := Memory.loaded_tables s info phys (fun k hk => h.table_ne hk) h.top
  have hm := Memory.virtMap_hasPtes (htables.of_row (t := s₀) rfl) 0 true false hK
  refine ⟨⟨fun k => ?_, fun p hp => ?_, fun F hF hT => ?_⟩, hm.phys⟩
  · rw [hm.row, Memory.setPhys_ram, Memory.loaded, Memory.setPhys_ram, hrow, Memory.setPhys_ram,
      h.dir_empty]
  · -- the tables were empty
    have hempty : s₀.pte L.krnlPgdir p = Entry.zero := by
      rw [Memory.pte, Memory.setPhys_ram, Memory.loaded_row s L info phys hp, Memory.loaded,
        Memory.setPhys_ram, hsame.ram _ (Finset.notMem_singleton.mpr (h.table_ne hp)),
        Memory.setPhys_ram]
      exact h.tables_empty _ (L.table_mem hp) _
    rw [hm.pte p hp, mapPages_image (hn.trans (by decide)), hempty]
  · rw [hm.other F fun k hk => ?_, Memory.setPhys_ram, Memory.loaded, Memory.setPhys_ram,
      hsame.ram F (Finset.notMem_singleton.mpr hF), Memory.setPhys_ram]
    rw [Memory.setPhys_ram, Memory.loaded_row s L info phys hk]
    exact fun heq => hT (heq ▸ L.table_mem hk)

end Static

namespace Linked

variable {L : Layout} {info : BootInfo} {s t : Memory} (h : Linked L info s)

include h

theorem table_val {i : Nat} (hi : i < 256) : (L.table i).val = L.krnlPgtbl.val + i :=
  Layout.table_val hi (h.tables_lt.trans (h.image.trans (by decide)))

theorem place {F : Frame} (hF : F ∈ L.tables) : 0 < F.val ∧ F.val < info.identPages := by
  obtain ⟨i, hi, rfl⟩ := Finset.mem_image.mp hF
  have hlt := Finset.mem_range.mp hi
  have hpos := h.tables_pos
  have htop := h.tables_lt
  rw [h.table_val hlt]
  omega

theorem table_ne {k : Fin 1024} (hk : KernelHalf k) : L.table k.val ≠ L.krnlPgdir :=
  fun heq => h.dir (heq ▸ L.table_mem hk)

omit h in
theorem static (h : Linked L info s) : Static L s :=
  ⟨h.dir, h.tables_lt.trans (h.image.trans (by decide)), h.dir_empty, h.tables_empty⟩

/-- The kernel's directory and pages after `mem_init`. -/
theorem memInit_spec (hinit : s.memInit L info = some t) :
    (∀ k, t.ram L.krnlPgdir k =
      if KernelHalf k then ⟨true, true, false, L.table k.val⟩ else Entry.zero) ∧
    ∀ p : Frame, KernelHalf p.pdi → t.pte L.krnlPgdir p =
      if p.val < info.identPages then ⟨true, true, false, p⟩ else Entry.zero := by
  obtain ⟨phys, -, -, hram, -⟩ := memInit_eq hinit
  obtain ⟨hmapped, -⟩ := h.static.imageMapped info phys
    ((s.loaded L info phys).phys.physSetused 0 info.identPages) h.image
  refine ⟨fun k => ?_, fun p hp => ?_⟩
  · rw [hram]
    exact hmapped.row k
  · rw [Memory.pte, hram]
    exact hmapped.pte p hp

/-- The first new directory is cleared. -/
theorem memInit_kernelTables (hinit : s.memInit L info = some t) :
    t.KernelTables L.krnlPgdir := by
  obtain ⟨hdir, -⟩ := h.memInit_spec hinit
  obtain ⟨-, -, -, -, hcr3⟩ := memInit_eq hinit
  have hused := (memInit_marks hinit).1
  have hrow : ∀ {k : Fin 1024}, KernelHalf k →
      t.ram L.krnlPgdir k = ⟨true, true, false, L.table k.val⟩ := fun hk => by rw [hdir, if_pos hk]
  have htables : t.TablesOn L.krnlPgdir KernelHalf := by
    refine ⟨fun k hk => by rw [hrow hk], fun k hk => ?_, fun k k' hk hk' heq => ?_⟩
    · rw [hrow hk]
      exact h.table_ne hk
    · rw [hrow hk, hrow hk'] at heq
      have hval := congrArg Fin.val (show L.table k.val = L.table k'.val from heq)
      rw [h.table_val hk, h.table_val hk'] at hval
      ext
      omega
  have hmem := hused (mem_runFrames_image h.dir_lt)
  refine ⟨htables, hcr3 ▸ htables, fun k _ => by rw [hcr3], hmem, hcr3 ▸ hmem, ?_⟩
  intro k hk
  rw [hrow hk]
  exact hused (mem_runFrames_image (h.place (L.table_mem hk)).2)

end Linked

namespace Spaces

section Booted

/-- A segment of one page. -/
def segment (vaddr : UInt32) : ElfProgram := ⟨0x1000, vaddr, 0x800, 0x800⟩

theorem booted_linked : Linked bootedLayout (Memory.bootInfo Memory.holeMap) Memory.blank := by
  refine ⟨fun h => ?_, by decide, by decide, by decide, by decide, fun _ => rfl, fun _ _ _ => rfl⟩
  obtain ⟨i, hi, heq⟩ := Finset.mem_image.mp h
  have hval := congrArg Fin.val heq
  have hone : bootedLayout.krnlPgdir.val = 1 ∧ bootedLayout.krnlPgtbl.val = 2 := by decide
  rw [Layout.table_val (Finset.mem_range.mp hi) (by decide), hone.1, hone.2] at hval
  omega

variable {t : Memory}
  (hinit : Memory.blank.memInit bootedLayout (Memory.bootInfo Memory.holeMap) = some t)

include hinit

/-- The pages behind the image are free. -/
theorem memInit_identFree {i : Nat} (hlo : 0x103 ≤ i) (hhi : i < 2 ^ 18) :
    t.identFree bootedLayout.krnlPgdir i = true := by
  have hk := kernelHalf_frameOf hhi
  have hval := frameOf_mul (show i < 2 ^ 20 by omega)
  have hpte := (booted_linked.memInit_spec hinit).2 _ hk
  have hpages : (Memory.bootInfo Memory.holeMap).identPages = 0x103 := by decide
  rw [hval, hpages, if_neg (Nat.not_lt.mpr hlo)] at hpte
  refine t.identFree_eq_true.mpr ⟨?_, fun hused => ?_⟩
  · rw [(booted_linked.memInit_kernelTables hinit).tables.pageIspresent hk, hpte]
    rfl
  · rw [(Memory.used_holeMap hinit).1, mem_runFrames] at hused
    obtain ⟨j, hj, heq⟩ := hused
    have := congrArg Fin.val heq
    rw [Nat.zero_add, frameOf_mul (by omega), hval] at this
    omega

/-- There is room for a directory, at the latest right behind the image. -/
theorem memInit_newDir : (t.memAllocPgdir bootedLayout).1 ≠ 0 ∧
    (t.memAllocPgdir bootedLayout).1 ≤ 0x103 * PAGE_SIZE := by
  have hfree : ∀ k < 1, t.identFree bootedLayout.krnlPgdir (0x103 + k) = true := fun k hk =>
    memInit_identFree hinit (Nat.le_add_right _ _) (by omega)
  obtain ⟨b, -, hb, hbfree, hret⟩ := Memory.memAllocident_le true false Nat.one_ne_zero
    (Nat.zero_le _) (by decide) hfree
  have hb0 : b ≠ 0 := by
    rintro rfl
    refine (t.identFree_eq_true.mp hbfree).2 ((memInit_marks hinit).1 ?_)
    exact mem_runFrames_image (F := 0) (by decide)
  obtain ⟨a, s, hx⟩ : ∃ a s, t.memAllocident bootedLayout.krnlPgdir 1 true false = (a, s) :=
    ⟨_, _, rfl⟩
  rw [hx] at hret
  have ha : a = b * PAGE_SIZE := hret
  have ha0 : a ≠ 0 := by
    rw [ha, PAGE_SIZE]
    omega
  have hle : a ≤ 0x103 * PAGE_SIZE := by
    rw [ha]
    exact Nat.mul_le_mul_right _ hb
  rw [memAllocPgdir_eq hx, if_neg ha0]
  exact ⟨ha0, hle⟩

/-- The new directory is one of the directories then. -/
theorem memInit_newDir_mem : frameOf (t.memAllocPgdir bootedLayout).1 ∈
    ((⟨t, {bootedLayout.krnlPgdir}⟩ : Spaces).call bootedLayout .memAllocPgdir).dirs := by
  rw [call, if_neg (memInit_newDir hinit).1]
  exact Finset.mem_insert_self _ _

omit hinit

theorem memInit_holeMap : ∃ t,
    Memory.blank.memInit bootedLayout (Memory.bootInfo Memory.holeMap) = some t :=
  memInit_isSome _ _ (by decide)

end Booted

end Spaces

end StardustOS.Mem
