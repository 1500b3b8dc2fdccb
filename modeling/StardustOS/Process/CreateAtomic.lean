import StardustOS.Mem.AddressSpace
import StardustOS.Process.Family

/-!
# A creation that fails

`proc_create` can fail for want of a block, of a slot in the parent, or of a
page directory.  The first two are undone: the table is as before, and so are the used
frames if the heap keeps them (`CreateResult.unchanged_iff`).  It need not: the frames of a
block come from `mem_alloc`, which marks them and leaves them marked when it finds no pages
for them.  The third is not noticed: the process is put in the table with the address 0 in
its `cr3`.  And the next pid is taken as it is.

`procCreate_allOrNothing_iff` says when a creation is all or nothing: when it fails in one of
the first two ways and the heap keeps its frames, or it does not and the next pid is fresh
and, for a user process, there is a page for the directory.
-/

namespace StardustOS.Process

open Lib Mem

variable {σ : Type*}

/-! ## Directories from `mem.c` -/

/-- `K` with the page directories of `mem.c`. -/
def Kernel.paged (K : Kernel (σ × Memory)) (L : Layout) : Kernel (σ × Memory) :=
  { K with
    memAllocPgdir := fun k =>
      let (pgdir, mem) := k.2.memAllocPgdir L
      (UInt32.ofNat pgdir, k.1, mem)
    memFreePgdir := fun pgdir k => (k.1, k.2.memFreePgdir L (frameOf pgdir.toNat))
    krnlPgdir := UInt32.ofNat L.krnlPgdir.addr }

/-- The heap: a `kmalloc` gives no frames away, and it leaves the kernel tables alone. -/
structure HeapOk (K : Kernel (σ × Memory)) (krnl : Frame) : Prop where
  grows : ∀ k, k.2.phys.used ⊆ (K.kmalloc k).2.2.phys.used
  tables : ∀ k, k.2.KernelTables krnl → (K.kmalloc k).2.2.KernelTables krnl

/-- A `kmalloc` leaves the used frames as they were when it has no block, and otherwise when
its `kfree` follows. -/
def FramesKept (K : Kernel (σ × Memory)) (k : σ × Memory) : Prop :=
  match (K.kmalloc k).1 with
  | none => (K.kmalloc k).2.2.phys.used = k.2.phys.used
  | some a => (K.kfree a (K.kmalloc k).2).2.phys.used = k.2.phys.used

theorem framesKept_none {K : Kernel (σ × Memory)} {k : σ × Memory} (h : (K.kmalloc k).1 = none) :
    FramesKept K k ↔ (K.kmalloc k).2.2.phys.used = k.2.phys.used := by
  simp only [FramesKept, h]

theorem framesKept_some {K : Kernel (σ × Memory)} {k : σ × Memory} {a : Nat}
    (h : (K.kmalloc k).1 = some a) :
    FramesKept K k ↔ (K.kfree a (K.kmalloc k).2).2.phys.used = k.2.phys.used := by
  simp only [FramesKept, h]

end StardustOS.Process

/-! ## Finding a page for a directory -/

namespace StardustOS.Mem.Memory

open Lib

variable {s : Memory} {L : Layout}

/-- There is a kernel page that is absent, with its frame unused, and it is not
page 0 that is found first. -/
def FindsPage (s : Memory) (L : Layout) : Prop :=
  s.identFree L.krnlPgdir 0 = false ∧ ∃ i < 256 * 1024, s.identFree L.krnlPgdir i = true

theorem memAllocident_one (dir : Frame) (w : Bool) :
    (s.memAllocident dir 1 w false).1 =
      ((scanRun (s.identFree dir) 1 (256 * 1024) 0 0 0).getD 0) * PAGE_SIZE := by
  rw [memAllocident, memAllocidentWith, if_neg Nat.one_ne_zero]
  cases h : scanRun (s.identFree dir) 1 (256 * 1024) 0 0 0 with
  | none => simp [h]
  | some i => simp [h]

theorem memAllocPgdir_zero_iff :
    (s.memAllocPgdir L).1 = 0 ↔ (s.memAllocident L.krnlPgdir 1 true false).1 = 0 := by
  obtain ⟨a, s₁, hx⟩ : ∃ a s₁, s.memAllocident L.krnlPgdir 1 true false = (a, s₁) := ⟨_, _, rfl⟩
  rw [memAllocPgdir_eq hx, hx]
  split
  · simp [*]
  · simp [*]

/-- A directory is allocated if and only if there is a page for it. -/
theorem memAllocPgdir_ne_zero_iff : (s.memAllocPgdir L).1 ≠ 0 ↔ s.FindsPage L := by
  rw [ne_eq, memAllocPgdir_zero_iff, memAllocident_one]
  constructor
  · intro hne
    cases h : scanRun (s.identFree L.krnlPgdir) 1 (256 * 1024) 0 0 0 with
    | none => exact absurd (by rw [h]; rfl) hne
    | some i =>
        obtain ⟨hi, hfree⟩ := of_scanRun_one h
        refine ⟨?_, i, hi, hfree⟩
        cases hzero : s.identFree L.krnlPgdir 0 with
        | false => rfl
        | true =>
            -- then page 0 is the first one
            obtain ⟨b, hb, hscan⟩ := scanRun_one hzero (n := 256 * 1024) (by decide)
            obtain rfl := Nat.le_zero.mp hb
            exact absurd (by rw [hscan]; rfl) hne
  · rintro ⟨hzero, j, hj, hfree⟩
    obtain ⟨b, -, hscan⟩ := scanRun_one hfree hj
    have hb := (of_scanRun_one hscan).2
    rw [hscan, Option.getD_some]
    intro h0
    obtain rfl : b = 0 := (Nat.mul_eq_zero.mp h0).resolve_right (by decide)
    exact Bool.false_ne_true (hzero.symm.trans hb)

end StardustOS.Mem.Memory

namespace StardustOS.Process

open Lib Mem

variable {σ : Type*}

/-! ## All or nothing -/

/-- The child array has no free slot and cannot grow. -/
def Children.Full (c : Children) : Prop := 0 ∉ c.window ∧ c.childCount = CHILD_MAX

namespace Procs

variable (K : Kernel (σ × Memory)) (L : Layout) (s : Procs (σ × Memory))

/-- `kmalloc` has no block. -/
def NoBlock : Prop := (K.kmalloc s.kernel).1 = none

/-- The parent has no slot. -/
def FullParent (parent : Option Nat) : Prop :=
  ∃ p ∈ parent, ∃ P, s.processes.get? p = some P ∧ P.children.Full

/-- The memory once the block is taken, in which a directory is looked for. -/
def heapMem : Memory := (K.kmalloc s.kernel).2.2

/-- `isuser`, a field of one bit, asks for a directory, and there is none. -/
def NoDirectory (isuser : Int) : Prop :=
  isuser % 2 ≠ 0 ∧ ((s.heapMem K).memAllocPgdir L).1 = 0

/-- The list, the counters and the used frames are as before. -/
structure Unchanged (s s' : Procs (σ × Memory)) : Prop where
  table : SameTable s s'
  used : s'.kernel.2.phys.used = s.kernel.2.phys.used

/-- `cr3` is a new directory with the kernel half mapped. -/
def NewDirectory (mem mem' : Memory) (cr3 : UInt32) : Prop :=
  ∃ f : Frame, f ∉ mem.phys.used ∧ f ∈ mem'.phys.used ∧ cr3 = UInt32.ofNat f.addr ∧ cr3 ≠ 0 ∧
    ∀ k, KernelHalf k → mem'.ram f k = ⟨true, true, false, L.table k.val⟩

/-- The process `N` at `a` was created. -/
structure Created (parent : Option Nat) (isuser : Int) (a : Nat) (N : Proc)
    (s' : Procs (σ × Memory)) : Prop where
  head : s'.processes.first? = some (a, N)
  fresh : N.id ≠ 0 ∧ N.id ∉ s.pids
  orphan : parent = none → N.parent = 0
  recorded : ∀ p ∈ parent, ∃ P, s'.processes.get? p = some P ∧ N.parent = P.id ∧
    N.id ∈ P.children.window
  pgdir : if isuser % 2 = 0 then N.regs.cr3 = UInt32.ofNat L.krnlPgdir.addr
    else NewDirectory L s.kernel.2 s'.kernel.2 N.regs.cr3

/-- The creation fails and changes nothing, or it succeeds; and it fails where
what it needs is not there. -/
def AllOrNothing (parent : Option Nat) (name : List UInt8) (isuser : Int) : Prop :=
  ∃ r s', s.procCreate (K.paged L) parent name isuser = some (r, s') ∧
    ((r = none ∧ Unchanged s s') ∨ ∃ a N, r = some a ∧ s.Created L parent isuser a N s') ∧
    (s.NoBlock K ∨ s.FullParent parent ∨ s.NoDirectory K L isuser → r = none)

/-- What `proc_create` does not look at is in order: the next pid, and for a
user process the page for its directory. -/
def CanCreate (isuser : Int) : Prop :=
  FreshPid s ∧ (isuser % 2 ≠ 0 → (s.heapMem K).FindsPage L)

end Procs

/-! ## The slot of the parent -/

namespace Children

variable {c d : Children} {i : Nat}

/-- A parent has no slot for a child if and only if it is full. -/
theorem claim_eq_none_iff : c.claim = none ↔ c.Full := by
  constructor
  · intro h
    have hzero : 0 ∉ c.window := by
      intro hmem
      obtain ⟨j, hj, hj0⟩ := List.mem_map.mp hmem
      obtain ⟨b, hb⟩ := findFrom_isSome (p := fun i => c.child i = 0) (n := c.childCount) (i := 0)
        (by simpa using hj0) (Nat.zero_le j) (by simpa using hj)
      rw [claim, hb] at h
      exact Option.some_ne_none _ h
    exact ⟨hzero, (claim_eq_none hzero).mp h⟩
  · exact fun h => (claim_eq_none h.1).mpr h.2

/-- The slot is inside the window, which is not shorter than before. -/
theorem claim_spec (h : c.claim = some (i, d)) : i < d.childCount := by
  rw [claim] at h
  split at h
  · rename_i j hj
    obtain ⟨-, -, hlt⟩ := findFrom_some hj
    obtain ⟨rfl, rfl⟩ := Prod.mk.inj (Option.some.inj h)
    omega
  · split at h
    · cases h
    · obtain ⟨rfl, rfl⟩ := Prod.mk.inj (Option.some.inj h)
      exact Nat.lt_succ_self _

/-- The pid is in the window once it is put in the slot. -/
theorem mem_window_claim (h : c.claim = some (i, d)) (pid : UInt32) :
    pid ∈ (d.set i pid).window := by
  have hlt : i < d.childCount := claim_spec h
  have hpid : (d.set i pid).child i = pid := if_pos rfl
  have hmem := child_mem_window (c := d.set i pid) hlt
  rwa [hpid] at hmem

end Children

/-! ## What `proc_create` does -/

namespace Procs

variable {K : Kernel (σ × Memory)} {L : Layout} {s s' : Procs (σ × Memory)}

/-- The state once the block is taken. -/
def withBlock (K : Kernel (σ × Memory)) (s : Procs (σ × Memory)) : Procs (σ × Memory) :=
  { s with kernel := (K.kmalloc s.kernel).2 }

/-- The ends of `proc_create`. -/
inductive CreateResult (K : Kernel (σ × Memory)) (s : Procs (σ × Memory)) (name : List UInt8)
    (isuser : Int) : Option Nat → Option Nat → Procs (σ × Memory) → Prop where
  | noBlock {parent : Option Nat} (block : s.NoBlock K) :
      CreateResult K s name isuser parent none (s.withBlock K)
  | full {p a : Nat} {P : Proc} (block : (K.kmalloc s.kernel).1 = some a)
      (get : s.processes.get? p = some P) (claim : P.children.claim = none) :
      CreateResult K s name isuser (some p) none
        { s with errno := -ECHILD, kernel := K.kfree a (K.kmalloc s.kernel).2 }
  | root {a : Nat} (block : (K.kmalloc s.kernel).1 = some a) (fresh : a ∉ s.processes.addrs) :
      CreateResult K s name isuser none (some a)
        ((s.withBlock K).enroll K none a name isuser fresh)
  | child {p i a : Nat} {P : Proc} {c : Children} (block : (K.kmalloc s.kernel).1 = some a)
      (get : s.processes.get? p = some P) (claim : P.children.claim = some (i, c))
      (fresh : a ∉ ((s.withBlock K).adopt p i c).processes.addrs) :
      CreateResult K s name isuser (some p) (some a)
        (((s.withBlock K).adopt p i c).enroll K (some P) a name isuser fresh)

theorem procCreate_result {parent : Option Nat} (hk : KmallocOk K s) (hp : LiveParent s parent)
    (name : List UInt8) (isuser : Int) :
    ∃ r s', s.procCreate K parent name isuser = some (r, s') ∧
      CreateResult K s name isuser parent r s' := by
  obtain ⟨r, s', hrun⟩ := procCreate_defined hk hp name isuser
  refine ⟨r, s', hrun, ?_⟩
  obtain ⟨hm, rfl, rfl⟩ | ⟨a, ha, fresh, ⟨rfl, rfl, rfl⟩ | ⟨p, P, rfl, hget, hend⟩⟩ :=
    procCreate_cases hrun
  · exact .noBlock hm
  · exact .root ha fresh
  · obtain ⟨hc, rfl, rfl⟩ | ⟨i, c, fresh', hc, rfl, rfl⟩ := hend
    · exact .full ha hget hc
    · exact .child ha hget hc fresh'

/-- The failures that `proc_create` notices leave nothing behind but the frames of the
heap. -/
theorem CreateResult.unchanged_iff {parent : Option Nat} {name : List UInt8} {isuser : Int}
    (h : CreateResult (K.paged L) s name isuser parent none s') :
    Unchanged s s' ↔ FramesKept K s.kernel := by
  cases h with
  | noBlock block =>
      have hblock : (K.kmalloc s.kernel).1 = none := block
      rw [framesKept_none hblock]
      exact ⟨fun h => h.used, fun h => ⟨⟨rfl, rfl, rfl, rfl⟩, h⟩⟩
  | full block get claim =>
      have hblock : (K.kmalloc s.kernel).1 = some _ := block
      rw [framesKept_some hblock]
      exact ⟨fun h => h.used, fun h => ⟨⟨rfl, rfl, rfl, rfl⟩, h⟩⟩

/-- They are the two failures for want of a block or a slot. -/
theorem CreateResult.none_iff {parent r : Option Nat} {name : List UInt8} {isuser : Int}
    (h : CreateResult K s name isuser parent r s') :
    r = none ↔ s.NoBlock K ∨ s.FullParent parent := by
  have hblock : ∀ {a}, (K.kmalloc s.kernel).1 = some a → ¬ s.NoBlock K := by
    intro a ha hno
    rw [NoBlock, ha] at hno
    exact Option.some_ne_none _ hno
  cases h with
  | noBlock block => exact iff_of_true rfl (Or.inl block)
  | full block get claim =>
      exact iff_of_true rfl (Or.inr ⟨_, rfl, _, get, Children.claim_eq_none_iff.mp claim⟩)
  | root block fresh =>
      refine iff_of_false (Option.some_ne_none _) ?_
      rintro (hno | ⟨p, hp, -⟩)
      · exact hblock block hno
      · cases hp
  | child block get claim fresh =>
      refine iff_of_false (Option.some_ne_none _) ?_
      rintro (hno | ⟨p, hp, P, hP, hfull⟩)
      · exact hblock block hno
      · cases hp
        obtain rfl := Option.some.inj (get.symm.trans hP)
        rw [Children.claim_eq_none_iff.mpr hfull] at claim
        exact absurd claim.symm (Option.some_ne_none _)

/-- The directory of a user process is new if there was a page for it, and the
kernel process has the kernel's. -/
theorem newPgdir_iff (hK : HeapOk K L.krnlPgdir) (ht : s.kernel.2.KernelTables L.krnlPgdir)
    (isuser : Int) {t : Procs (σ × Memory)} (hkernel : t.kernel = (K.kmalloc s.kernel).2) :
    (if isuser % 2 = 0 then
        (t.newPgdir (K.paged L) (isuser % 2 ≠ 0)).1 = UInt32.ofNat L.krnlPgdir.addr
      else NewDirectory L s.kernel.2 (t.newPgdir (K.paged L) (isuser % 2 ≠ 0)).2.2
        (t.newPgdir (K.paged L) (isuser % 2 ≠ 0)).1) ↔
      (isuser % 2 ≠ 0 → (s.heapMem K).FindsPage L) := by
  by_cases hbit : isuser % 2 = 0
  · simp [hbit, newPgdir, Kernel.paged]
  · have hmem : t.kernel.2 = s.heapMem K := congrArg Prod.snd hkernel
    have hnew : t.newPgdir (K.paged L) (isuser % 2 ≠ 0) =
        (UInt32.ofNat ((s.heapMem K).memAllocPgdir L).1, t.kernel.1,
          ((s.heapMem K).memAllocPgdir L).2) := by
      rw [← hmem]
      simp [newPgdir, Kernel.paged, hbit]
    rw [if_neg hbit, hnew, ← Memory.memAllocPgdir_ne_zero_iff]
    constructor
    · rintro ⟨f, -, -, -, hne, -⟩ - hzero
      exact hne (by rw [hzero]; rfl)
    · intro hret
      obtain ⟨f, -, hf, haddr, hu, hrow⟩ := memAllocPgdir_spec (hK.tables _ ht) (hret hbit)
      have haddr' : ((s.heapMem K).memAllocPgdir L).1 = f.addr := haddr
      refine ⟨f, fun hused => hf (hK.grows _ hused), ?_, by rw [haddr'], ?_, fun k hk => ?_⟩
      · show f ∈ ((s.heapMem K).memAllocPgdir L).2.phys.used
        rw [heapMem, hu.phys, Memory.setPhys_phys, Phys.used_physSetused_frame]
        exact Finset.mem_insert_self _ _
      · intro h0
        have hlt : f.addr < 2 ^ 32 := by
          rw [Frame.addr, PAGE_SIZE]
          omega
        have hzero := congrArg UInt32.toNat h0
        rw [haddr', UInt32.toNat_ofNat_of_lt' hlt] at hzero
        exact hret hbit (haddr'.trans hzero)
      · exact (hrow k).trans (if_pos hk)

/-- A creation that does not fail has made a process if and only if what it did
not look at was in order. -/
theorem CreateResult.created_iff {parent : Option Nat} {a : Nat} {name : List UInt8}
    {isuser : Int} (hK : HeapOk K L.krnlPgdir) (ht : s.kernel.2.KernelTables L.krnlPgdir)
    (h : CreateResult (K.paged L) s name isuser parent (some a) s') :
    (∃ N, s.Created L parent isuser a N s') ↔ s.CanCreate K L isuser := by
  cases h with
  | root block fresh =>
      have hdir := newPgdir_iff hK ht isuser (t := s.withBlock (K.paged L)) rfl
      constructor
      · rintro ⟨N, hhead, hfresh, -, -, hpgdir⟩
        obtain ⟨-, rfl⟩ := Prod.mk.inj (Option.some.inj hhead)
        exact ⟨hfresh, hdir.mp hpgdir⟩
      · intro hcan
        refine ⟨_, rfl, hcan.1, fun _ => rfl, fun p hp => ?_, hdir.mpr hcan.2⟩
        cases hp
  | @child p i _ P c block get claim fresh =>
      have hdir := newPgdir_iff hK ht isuser (t := (s.withBlock (K.paged L)).adopt p i c) rfl
      constructor
      · rintro ⟨N, hhead, hfresh, -, -, hpgdir⟩
        obtain ⟨-, rfl⟩ := Prod.mk.inj (Option.some.inj hhead)
        exact ⟨hfresh, hdir.mp hpgdir⟩
      · intro hcan
        refine ⟨_, rfl, hcan.1, fun hnone => ?_, fun q hq => ?_, hdir.mpr hcan.2⟩
        · cases hnone
        · cases hq
          refine ⟨P.onChildren fun _ => c.set i s.nextPid, ?_, rfl,
            Children.mem_window_claim claim _⟩
          have hmem := SList.get?_eq_some.mp get
          exact SList.get?_eq_some.mpr
            (List.mem_cons_of_mem _ (SList.mem_update_self.mpr ⟨P, hmem, rfl⟩))

/-- A creation is all or nothing if and only if it fails for want of a block or a
slot and the heap keeps its frames, or it does not fail so, the next pid is fresh and there is
a page for the directory. -/
theorem procCreate_allOrNothing_iff {parent : Option Nat} (hK : HeapOk K L.krnlPgdir)
    (hk : KmallocOk K s) (hp : LiveParent s parent) (ht : s.kernel.2.KernelTables L.krnlPgdir)
    (name : List UInt8) (isuser : Int) :
    s.AllOrNothing K L parent name isuser ↔
      (s.NoBlock K ∨ s.FullParent parent) ∧ FramesKept K s.kernel ∨
        ¬ (s.NoBlock K ∨ s.FullParent parent) ∧ s.CanCreate K L isuser := by
  obtain ⟨r, s', hrun, hres⟩ := procCreate_result (K := K.paged L) hk hp name isuser
  have hnone := hres.none_iff
  have hfail : s.NoBlock (K.paged L) ↔ s.NoBlock K := Iff.rfl
  rw [hfail] at hnone
  cases r with
  | none =>
      have hrefused : s.NoBlock K ∨ s.FullParent parent := hnone.mp rfl
      rw [and_iff_right hrefused, or_iff_left fun h => h.1 hrefused, ← hres.unchanged_iff]
      constructor
      · rintro ⟨r₁, s₁, hrun₁, hends, -⟩
        obtain ⟨rfl, rfl⟩ := Prod.mk.inj (Option.some.inj (hrun.symm.trans hrun₁))
        obtain ⟨-, hsame⟩ | ⟨a, N, hr, -⟩ := hends
        · exact hsame
        · cases hr
      · exact fun hsame => ⟨none, s', hrun, Or.inl ⟨rfl, hsame⟩, fun _ => rfl⟩
  | some a =>
      have hgoes : ¬ (s.NoBlock K ∨ s.FullParent parent) := by
        rw [← hnone]
        exact Option.some_ne_none a
      rw [and_iff_right hgoes, or_iff_right fun h => hgoes h.1, ← hres.created_iff hK ht]
      constructor
      · rintro ⟨r₁, s₁, hrun₁, hends, -⟩
        obtain ⟨rfl, rfl⟩ := Prod.mk.inj (Option.some.inj (hrun.symm.trans hrun₁))
        obtain ⟨hr, -⟩ | ⟨b, N, hr, hN⟩ := hends
        · cases hr
        · obtain rfl := Option.some.inj hr
          exact ⟨N, hN⟩
      · intro hcreated
        refine ⟨some a, s', hrun, Or.inr ⟨a, hcreated.choose, rfl, hcreated.choose_spec⟩, ?_⟩
        rintro (hno | hfull | ⟨hbit, hdir⟩)
        · exact absurd (Or.inl hno) hgoes
        · exact absurd (Or.inr hfull) hgoes
        · have hcan := (hres.created_iff hK ht).mp hcreated
          exact absurd hdir (Memory.memAllocPgdir_ne_zero_iff.mpr (hcan.2 hbit))

section Small

/-- The heap of the small machine lies in memory that was set aside for it. -/
theorem small_heapOk : HeapOk small bootedLayout.krnlPgdir where
  grows := fun _ => Finset.Subset.refl _
  tables := fun _ h => h

/-- The first user process of the small machine gets the directory in frame 264. -/
theorem procCreate_allOrNothing_first :
    smallBoot.AllOrNothing small bootedLayout none [97] 1 := by
  refine (procCreate_allOrNothing_iff small_heapOk ?_ ?_ booted_ready.kernelTables [97] 1).mpr
    (Or.inr ⟨?_, by decide, fun _ => ⟨?_, 264, by decide, ?_⟩⟩)
  · decide
  · decide
  · rintro (hno | ⟨p, hp, -⟩)
    · cases hno
    · cases hp
  · show booted.identFree 1 0 = false
    decide +kernel
  · show booted.identFree 1 264 = true
    decide +kernel

/-- The small machine with every frame used. -/
def fullMem : Memory := booted.setPhys (booted.phys.physSetused 0 (2 ^ 20))

def fullBoot : Procs (Nat × Memory) := { smallBoot with kernel := (0x100000, fullMem) }

theorem fullMem_used (f : Frame) : f ∈ fullMem.phys.used := by
  rw [fullMem, Memory.setPhys_phys, Phys.used_physSetused]
  refine Finset.mem_union_right _ (mem_runFrames.mpr ⟨f.val, f.isLt, ?_⟩)
  rw [Nat.zero_add, ← Frame.addr, frameOf_addr]

/-- With every frame used, a user process is created all the same, and its
directory is at the address 0. -/
theorem procCreate_nothing_wrong :
    KmallocOk small fullBoot ∧ LiveParent fullBoot none ∧
      fullBoot.kernel.2.KernelTables bootedLayout.krnlPgdir ∧
      ¬ fullBoot.AllOrNothing small bootedLayout none [97] 1 := by
  have hnone : ¬ (fullBoot.heapMem small).FindsPage bootedLayout := by
    rintro ⟨-, i, -, hfree⟩
    exact ((Memory.identFree_eq_true _).mp hfree).2 (fullMem_used _)
  refine ⟨by decide, by decide, booted_ready.kernelTables.setused 0 (2 ^ 20), ?_⟩
  rintro ⟨r, s', hrun, -, hfail⟩
  have hr : some r = some (some 0x100000) := (congrArg (Option.map Prod.fst) hrun).symm
  rw [Option.some.inj hr] at hfail
  have hdir : ((fullBoot.heapMem small).memAllocPgdir bootedLayout).1 = 0 := by
    by_contra hne
    exact hnone (Memory.memAllocPgdir_ne_zero_iff.mp hne)
  exact Option.some_ne_none _ (hfail (Or.inr (Or.inr ⟨by decide, hdir⟩)))

end Small

end Procs

end StardustOS.Process
