import StardustOS.Mem.BareDir
import StardustOS.Process.CreateAtomic
import StardustOS.Process.EntryPoint

/-!
# The loop of `proc_exec` that fails

`LoopFails` says where a loop over the program headers fails, and which of the
segments before had all their pages.

A loop that fails at a program header has changed no process, and disturbs nothing
where nothing was mapped.  One that fails at a segment leaves the caller with the
directory of the new process.
-/

namespace StardustOS.Process

open Lib Libfile Mem

variable {σ : Type*}

/-! ## What `proc_exec` calls -/

/-- `Ld` with the `mem_map` of `mem.c`. -/
def Loader.paged (Ld : Loader (σ × Memory)) : Loader (σ × Memory) :=
  { Ld with
    memMap := fun pgdir vaddr count k =>
      (k.1, k.2.memMap (frameOf pgdir.toNat) vaddr.toNat count true true) }

/-- The work of a part of the kernel that takes no frame, that leaves to the heap
what it holds, and that writes neither the kernel's tables nor a directory. -/
structure Undisturbed (L : Layout) (holds : σ → Nat → Finset Frame → Prop)
    (k k' : σ × Memory) : Prop where
  used : k'.2.phys.used = k.2.phys.used
  holds : ∀ a H, holds k.1 a H → holds k'.1 a H
  ready : SpaceReady L k.2 → SpaceReady L k'.2
  dirs : ∀ dir, BareDir L dir k.2 → BareDir L dir k'.2

/-- What is around `proc_exec`.  The file system and the writes to the memory of a
process take no frames.  `kmalloc` gives none away, and the frames that the heap holds for a
block are those that `kfree` frees. -/
structure Surroundings (K : Kernel (σ × Memory)) (Ld : Loader (σ × Memory)) (L : Layout)
    (holds : σ → Nat → Finset Frame → Prop) : Prop where
  resolve : ∀ path k, Undisturbed L holds k (Ld.fsResolve path k).2
  read : ∀ node offset size k, Undisturbed L holds k (Ld.fsNodeRead node offset size k).2
  memcpy : ∀ addr bytes k, Undisturbed L holds k (K.memcpy addr bytes k)
  grows : ∀ k, k.2.phys.used ⊆ (K.kmalloc k).2.2.phys.used
  block : ∀ k, ∀ a ∈ (K.kmalloc k).1, ∃ H, holds (K.kmalloc k).2.1 a H
  ready : ∀ k, SpaceReady L k.2 → SpaceReady L (K.kmalloc k).2.2
  kfree : ∀ k a H, holds k.1 a H → (K.kfree a k).2.phys.used = k.2.phys.used \ H

namespace Undisturbed

variable {L : Layout} {holds : σ → Nat → Finset Frame → Prop} {k k' k'' : σ × Memory}

theorem refl (k : σ × Memory) : Undisturbed L holds k k :=
  ⟨rfl, fun _ _ => id, id, fun _ => id⟩

theorem trans (h : Undisturbed L holds k k') (h' : Undisturbed L holds k' k'') :
    Undisturbed L holds k k'' where
  used := h'.used.trans h.used
  holds a H ha := h'.holds a H (h.holds a H ha)
  ready hs := h'.ready (h.ready hs)
  dirs dir hd := h'.dirs dir (h.dirs dir hd)

end Undisturbed

namespace Procs

/-- `mem_map` finds all pages of the segment in the directory of the process at
`a`. -/
def pagesPresent (s : Procs (σ × Memory)) (a : Nat) (prog : ElfProgram) : Bool :=
  (s.processes.get? a).all fun P => allUpto (pageCount prog.memsz) fun i =>
    s.kernel.2.virtIspresent (frameOf P.regs.cr3.toNat) (prog.vaddr.toNat + i * PAGE_SIZE) 1

section Loop

variable (K : Kernel (σ × Memory)) (Ld : Loader (σ × Memory)) (curr : Option Nat) (a node : Nat)
  (hdr : ElfHeader)

/-- The read of a program header. -/
def readHeader (i : Nat) (k : σ × Memory) : (Int × List UInt8) × σ × Memory :=
  Ld.fsNodeRead node (hdr.phoff + UInt32.ofNat (hdr.phentsize.toNat * i)) programSize k

/-- The loop over the program headers goes from `s` to `v`, where the read of a
header fails, or, with `false`, that of a segment.  The list says of each segment
that was loaded before whether all its pages were present. -/
inductive LoopFails :
    Bool → List Bool → List Nat → Procs (σ × Memory) → Procs (σ × Memory) → Prop where
  | header {i : Nat} {is : List Nat} {s : Procs (σ × Memory)} {r : Int} {bytes : List UInt8}
      {kernel : σ × Memory} (read : readHeader Ld node hdr i s.kernel = ((r, bytes), kernel))
      (neg : r < 0) : LoopFails true [] (i :: is) s { s with kernel := kernel }
  | skip {i : Nat} {is : List Nat} {s v : Procs (σ × Memory)} {b : Bool} {segs : List Bool}
      {r : Int} {bytes : List UInt8} {kernel : σ × Memory}
      (read : readHeader Ld node hdr i s.kernel = ((r, bytes), kernel)) (ok : 0 ≤ r)
      (low : (ElfProgram.ofBytes bytes).vaddr < 0x100000)
      (rest : LoopFails b segs is { s with kernel := kernel } v) : LoopFails b segs (i :: is) s v
  | segment {i c : Nat} {is : List Nat} {s v : Procs (σ × Memory)} {r r₁ : Int}
      {bytes : List UInt8} {kernel : σ × Memory}
      (read : readHeader Ld node hdr i s.kernel = ((r, bytes), kernel)) (ok : 0 ≤ r)
      (high : 0x100000 ≤ (ElfProgram.ofBytes bytes).vaddr) (caller : curr = some c)
      (load : ({ s with kernel := kernel } : Procs (σ × Memory)).loadSegment K Ld c a node
        (.ofBytes bytes) = some (r₁, v)) (neg : r₁ < 0) : LoopFails false [] (i :: is) s v
  | load {i c : Nat} {is : List Nat} {s t v : Procs (σ × Memory)} {b : Bool} {segs : List Bool}
      {r r₁ : Int} {bytes : List UInt8} {kernel : σ × Memory}
      (read : readHeader Ld node hdr i s.kernel = ((r, bytes), kernel)) (ok : 0 ≤ r)
      (high : 0x100000 ≤ (ElfProgram.ofBytes bytes).vaddr) (caller : curr = some c)
      (load : ({ s with kernel := kernel } : Procs (σ × Memory)).loadSegment K Ld c a node
        (.ofBytes bytes) = some (r₁, t)) (loaded : 0 ≤ r₁) (rest : LoopFails b segs is t v) :
      LoopFails b (({ s with kernel := kernel } : Procs (σ × Memory)).pagesPresent a
        (.ofBytes bytes) :: segs) (i :: is) s v

end Loop

/-! ## The loop -/

section Loop

variable {K : Kernel (σ × Memory)} {Ld : Loader (σ × Memory)} {L : Layout}
  {holds : σ → Nat → Finset Frame → Prop} {curr : Option Nat} {a node : Nat} {hdr : ElfHeader}
  {s v : Procs (σ × Memory)} {is : List Nat} {b : Bool} {segs : List Bool} {r : Int}

/-- A loop that returns an error fails in one of the two ways. -/
theorem loadSegments_fails (is : List Nat) {s : Procs (σ × Memory)}
    (h : loadSegments K Ld curr a node hdr is s = some (r, v)) (hr : r < 0) :
    ∃ b segs, LoopFails K Ld curr a node hdr b segs is s v := by
  induction is generalizing s with
  | nil =>
      obtain ⟨rfl, -⟩ := Prod.mk.inj (Option.some.inj h)
      exact absurd hr (by decide)
  | cons i is ih =>
      obtain ⟨r₀, bytes, kernel, hread, hturn⟩ := loadSegments_cons h
      obtain ⟨hneg, -, rfl⟩ | ⟨hok, hlow, hrest⟩ | ⟨hok, hhigh, c, r₁, t, hc, hload, hend⟩ := hturn
      · exact ⟨true, [], .header hread hneg⟩
      · obtain ⟨b, segs, hfails⟩ := ih hrest
        exact ⟨b, segs, .skip hread hok hlow hfails⟩
      · obtain ⟨hneg, -, rfl⟩ | ⟨hloaded, hrest⟩ := hend
        · exact ⟨false, [], .segment hread hok hhigh hc hload hneg⟩
        · obtain ⟨b, segs, hfails⟩ := ih hrest
          exact ⟨b, _, .load hread hok hhigh hc hload hloaded hfails⟩

/-- `mem_map` leaves pages that are present. -/
theorem memMap_of_present {m : Memory} {dir : Frame} {addr count : Nat}
    (h : ∀ i < count, m.virtIspresent dir (addr + i * PAGE_SIZE) 1 = true) :
    m.memMap dir addr count true true = m := by
  refine forUpto_inv (P := fun _ t => t = m) count rfl ?_
  rintro i t hi rfl
  rw [Memory.memMapPage, h i hi]
  rfl

/-- The process at `a` is at the head of the list `l`, as `proc_create` made it but
for its stack pointer and its entry point. -/
structure Newborn (l : SList Proc) (a : Nat) (pid parent cr3 : UInt32)
    (s : Procs (σ × Memory)) : Prop where
  fresh : a ∉ l.addrs
  head : ∃ N, s.processes = l.insertHead a N fresh ∧ N.id = pid ∧ N.parent = parent ∧
    (∀ i, N.fd i = none) ∧ N.regs.cr3 = cr3

variable {l : SList Proc} {pid parent cr3 : UInt32}

theorem Newborn.get? (h : Newborn l a pid parent cr3 s) :
    ∃ N, s.processes.get? a = some N ∧ N.regs.cr3 = cr3 := by
  obtain ⟨N, hN, -, -, -, hcr3⟩ := h.head
  exact ⟨N, by rw [hN, SList.get?_insertHead], hcr3⟩

/-- The caller is in the list behind the new process. -/
theorem Newborn.get?_ne (h : Newborn l a pid parent cr3 s) {c : Nat} (hc : c ≠ a) :
    s.processes.get? c = l.get? c := by
  obtain ⟨N, hN, -⟩ := h.head
  rw [hN, SList.get?_insertHead_ne h.fresh hc]

/-- Switching to a directory and back changes nothing. -/
theorem update_withCr3_back {c : Nat} {P : Proc} (hP : s.processes.get? c = some P) (cr3 : UInt32) :
    (s.processes.update c (Proc.withCr3 cr3)).update c (Proc.withCr3 P.regs.cr3) = s.processes := by
  rw [SList.update_update, SList.update_congr (g := id), SList.update_id]
  intro Q hQ
  obtain rfl := SList.unique hQ (SList.get?_eq_some.mp hP)
  rfl

/-- The ends of the load of a segment.  One that was loaded leaves the processes, and
the caller's directory in the CPU.  One that could not be read leaves the caller with
the directory of the new process. -/
theorem loadSegment_ends {c : Nat} {prog : ElfProgram}
    (hload : s.loadSegment K Ld c a node prog = some (r, v)) :
    ∃ N P bytes kernel, s.processes.get? a = some N ∧ s.processes.get? c = some P ∧
      segmentRead K Ld N.regs.cr3 node prog s.kernel = ((r, bytes), kernel) ∧
        v.kernel = K.memcpy prog.vaddr bytes kernel ∧ v.procCount = s.procCount ∧
          (r < 0 ∧ v.processes = s.processes.update c (Proc.withCr3 N.regs.cr3) ∨
            0 ≤ r ∧ v.processes = s.processes ∧ v.cpu.cr3 = P.regs.cr3) := by
  obtain ⟨N, old, t, bytes, kernel, hN, hto, hread, hend⟩ := loadSegment_cases hload
  obtain ⟨P, hP, hPt⟩ := Option.map_eq_some_iff.mp hto
  obtain ⟨rfl, rfl⟩ := Prod.mk.inj hPt
  obtain ⟨hneg, rfl⟩ | ⟨hok, old', hback⟩ := hend
  · exact ⟨N, P, bytes, kernel, hN, hP, hread, rfl, rfl, Or.inl ⟨hneg, rfl⟩⟩
  · obtain ⟨Q, hQ, hQv⟩ := Option.map_eq_some_iff.mp hback
    obtain ⟨-, rfl⟩ := Prod.mk.inj hQv
    exact ⟨N, P, bytes, kernel, hN, hP, hread, rfl, rfl,
      Or.inr ⟨hok, update_withCr3_back hP N.regs.cr3, rfl⟩⟩

/-- Loading a segment whose pages are all present disturbs nothing. -/
theorem loadSegment_undisturbed (hK : Surroundings K Ld L holds) {c : Nat} {prog : ElfProgram}
    (hpres : s.pagesPresent a prog = true)
    (hload : s.loadSegment (K.paged L) Ld.paged c a node prog = some (r, v)) :
    Undisturbed L holds s.kernel v.kernel := by
  obtain ⟨N, P, bytes, kernel, hN, -, hread, hkernel, -⟩ := loadSegment_ends hload
  rw [pagesPresent, hN, Option.all_some, allUpto_eq_true] at hpres
  have hmap : Ld.paged.memMap N.regs.cr3 prog.vaddr (pageCount prog.memsz) s.kernel = s.kernel :=
    congrArg (Prod.mk s.kernel.1) (memMap_of_present hpres)
  have hclear := hK.memcpy prog.vaddr (List.replicate prog.memsz.toNat 0) s.kernel
  have hfile := hK.read node prog.offset prog.filesz.toNat
    (K.memcpy prog.vaddr (List.replicate prog.memsz.toNat 0) s.kernel)
  have hafter : (Ld.fsNodeRead node prog.offset prog.filesz.toNat
      (K.memcpy prog.vaddr (List.replicate prog.memsz.toNat 0) s.kernel)).2 = kernel := by
    rw [← hmap]
    exact congrArg Prod.snd hread
  rw [hafter] at hfile
  rw [hkernel]
  exact (hclear.trans hfile).trans (hK.memcpy prog.vaddr bytes kernel)

/-- The CPU has the directory of the caller. -/
def CallerLoaded (curr : Option Nat) (l : SList Proc) (v : Procs (σ × Memory)) : Prop :=
  ∃ c ∈ curr, ∃ P, l.get? c = some P ∧ v.cpu.cr3 = P.regs.cr3

namespace LoopFails

/-- A loop that fails at a program header has changed no process. -/
theorem at_header (h : LoopFails K Ld curr a node hdr b segs is s v) (hb : b = true) :
    v.processes = s.processes ∧ v.procCount = s.procCount ∧
      (segs = [] → v.cpu = s.cpu) ∧ (segs ≠ [] → CallerLoaded curr s.processes v) := by
  induction h with
  | header read neg => exact ⟨rfl, rfl, fun _ => rfl, fun h => absurd rfl h⟩
  | skip read ok low rest ih => exact ih hb
  | segment read ok high caller load neg => cases hb
  | @load i c is s t v b segs r r₁ bytes kernel read ok high caller load loaded rest ih =>
      obtain ⟨N, P, bytes, kernel', -, hP, -, -, hcount, hend⟩ := loadSegment_ends load
      obtain ⟨-, hproc, hcpu⟩ := hend.resolve_left fun h => by omega
      obtain ⟨hproc', hcount', hnone, hsome⟩ := ih hb
      rw [hproc] at hproc' hsome
      refine ⟨hproc', hcount'.trans hcount, fun h => absurd h (List.cons_ne_nil _ _), fun _ => ?_⟩
      cases segs with
      | nil => exact ⟨c, caller, P, hP, (congrArg ProcRegs.cr3 (hnone rfl)).trans hcpu⟩
      | cons b' segs => exact hsome (List.cons_ne_nil _ _)

/-- A loop that fails at a segment leaves the caller with the new directory. -/
theorem at_segment (h : LoopFails K Ld curr a node hdr b segs is s v) (hb : b = false) :
    v.procCount = s.procCount ∧ ∃ c ∈ curr, ∃ N, s.processes.get? a = some N ∧
      v.processes = s.processes.update c (Proc.withCr3 N.regs.cr3) := by
  induction h with
  | header read neg => cases hb
  | skip read ok low rest ih => exact ih hb
  | segment read ok high caller load neg =>
      obtain ⟨N, P, bytes, kernel', hN, -, -, -, hcount, hend⟩ := loadSegment_ends load
      obtain ⟨-, hproc⟩ := hend.resolve_right fun h => by omega
      exact ⟨hcount, _, caller, N, hN, hproc⟩
  | load read ok high caller load loaded rest ih =>
      obtain ⟨_, _, _, _, -, -, -, -, hcount, hend⟩ := loadSegment_ends load
      obtain ⟨-, hproc, -⟩ := hend.resolve_left fun h => by omega
      obtain ⟨hcount', c, hc, N, hN, hproc'⟩ := ih hb
      rw [hproc] at hN hproc'
      exact ⟨hcount'.trans hcount, c, hc, N, hN, hproc'⟩

/-- Nothing is disturbed where nothing is mapped. -/
theorem undisturbed (hK : Surroundings K Ld L holds)
    (h : LoopFails (K.paged L) Ld.paged curr a node hdr b segs is s v) (hb : b = true)
    (hsegs : ∀ b ∈ segs, b = true) : Undisturbed L holds s.kernel v.kernel := by
  have hread : ∀ {i k r bytes kernel}, readHeader Ld.paged node hdr i k = ((r, bytes), kernel) →
      Undisturbed L holds k kernel := by
    intro i k r bytes kernel hi
    have hquiet := hK.read node (hdr.phoff + UInt32.ofNat (hdr.phentsize.toNat * i)) programSize k
    rwa [show (Ld.fsNodeRead _ _ _ k).2 = kernel from congrArg Prod.snd hi] at hquiet
  induction h with
  | header read neg => exact hread read
  | skip read ok low rest ih => exact (hread read).trans (ih hb hsegs)
  | segment read ok high caller load neg => cases hb
  | load read ok high caller load loaded rest ih =>
      have hload := loadSegment_undisturbed hK (hsegs _ List.mem_cons_self) load
      exact ((hread read).trans hload).trans
        (ih hb fun b hb => hsegs b (List.mem_cons_of_mem _ hb))

end LoopFails

/-! ## The new process before the loop -/

/-- A change of the head that keeps what it was made of. -/
theorem Newborn.update {t : Procs (σ × Memory)} {f : Proc → Proc} (h : Newborn l a pid parent cr3 s)
    (hf : ∀ N, (f N).id = N.id ∧ (f N).parent = N.parent ∧ (f N).fd = N.fd ∧
      (f N).regs.cr3 = N.regs.cr3)
    (ht : t.processes = s.processes.update a f) : Newborn l a pid parent cr3 t := by
  obtain ⟨N, hN, hid, hpar, hfd, hcr3⟩ := h.head
  obtain ⟨hid', hpar', hfd', hcr3'⟩ := hf N
  refine ⟨h.fresh, f N, ?_, hid'.trans hid, hpar'.trans hpar, ?_, hcr3'.trans hcr3⟩
  · rw [ht, hN, SList.update_insertHead]
  · rw [hfd']
    exact hfd

theorem pushAll_newborn (hK : Surroundings K Ld L holds) (values : List (List UInt8))
    {s s' : Procs (σ × Memory)} (hs : Newborn l a pid parent cr3 s)
    (h : pushAll (K.paged L) a values s = some s') :
    Newborn l a pid parent cr3 s' ∧ s'.procCount = s.procCount ∧ s'.cpu = s.cpu ∧
      Undisturbed L holds s.kernel s'.kernel := by
  induction values generalizing s with
  | nil =>
      obtain rfl := Option.some.inj h
      exact ⟨hs, rfl, rfl, .refl _⟩
  | cons value values ih =>
      obtain ⟨N, hN, -⟩ := hs.get?
      simp only [pushAll, hN] at h
      have hpush := hs.update (t := s.procPushstack (K.paged L) a N value)
        (f := Proc.withEsp (N.regs.esp - UInt32.ofNat value.length))
        (fun _ => ⟨rfl, rfl, rfl, rfl⟩) rfl
      obtain ⟨hnew, hcount, hcpu, hkernel⟩ := ih hpush h
      exact ⟨hnew, hcount, hcpu, (hK.memcpy _ value s.kernel).trans hkernel⟩

/-- A call that is defined got no block that is in use. -/
theorem procCreate_kmallocOk {κ : Type*} {K : Kernel κ} {s : Procs κ} {par : Option Nat}
    {name : List UInt8} {isuser : Int} {x : Option Nat × Procs κ}
    (h : s.procCreate K par name isuser = some x) : KmallocOk K s := by
  intro a ha
  obtain ⟨hnone, -⟩ | ⟨b, hb, fresh, -⟩ := procCreate_cases h
  · cases hnone.symm.trans ha
  · obtain rfl := Option.some.inj (hb.symm.trans ha)
    exact fresh

/-- What `proc_create` does when it is called by `proc_exec`. -/
theorem procCreate_curr {kernel : σ × Memory} {path : List UInt8} {x : Option Nat}
    {t : Procs (σ × Memory)}
    (h : ({ s with kernel := kernel } : Procs (σ × Memory)).procCreate K
      (s.processCurr.map Prod.fst) path 1 = some (x, t)) :
    CreateResult K { s with kernel := kernel } path 1 (s.processCurr.map Prod.fst) x t := by
  have hlive : LiveParent ({ s with kernel := kernel } : Procs (σ × Memory))
      (s.processCurr.map Prod.fst) := by
    intro p hp
    obtain ⟨n, hn, rfl⟩ := Option.map_eq_some_iff.mp hp
    exact SList.mem_addrs (processCurr_mem hn).1
  obtain ⟨x', t', hrun, hres⟩ := procCreate_result (procCreate_kmallocOk h) hlive path 1
  obtain ⟨rfl, rfl⟩ := Prod.mk.inj (Option.some.inj (hrun.symm.trans h))
  exact hres

/-- The list behind the new process, and the pid that it has for its parent. -/
inductive Kinship (s : Procs (σ × Memory)) : UInt32 → SList Proc → Prop where
  | orphan (curr : s.processCurr = none) : Kinship s 0 s.processes
  | child {c i : Nat} {P : Proc} {d : Children} (curr : s.processCurr = some (c, P))
      (claim : P.children.claim = some (i, d)) :
      Kinship s P.id (s.processes.update c (Proc.onChildren fun _ => d.set i s.nextPid))

theorem Kinship.addrs (h : Kinship s parent l) : l.addrs = s.processes.addrs := by
  cases h with
  | orphan curr => rfl
  | child curr claim => exact SList.addrs_update _ _

/-- The kernel once there is a block and a directory for the new process. -/
def grown (K : Kernel (σ × Memory)) (L : Layout) (k : σ × Memory) : σ × Memory :=
  ((K.kmalloc k).2.1, ((K.kmalloc k).2.2.memAllocPgdir L).2)

/-- The address of that directory. -/
def grownDir (K : Kernel (σ × Memory)) (L : Layout) (k : σ × Memory) : UInt32 :=
  UInt32.ofNat ((K.kmalloc k).2.2.memAllocPgdir L).1

/-- What `proc_create` leaves when it was called by `proc_exec`. -/
theorem create_newborn {kernel : σ × Memory} {path : List UInt8} {t : Procs (σ × Memory)}
    (h : ({ s with kernel := kernel } : Procs (σ × Memory)).procCreate (K.paged L)
      (s.processCurr.map Prod.fst) path 1 = some (some a, t)) :
    ∃ parent l, Kinship s parent l ∧ Newborn l a s.nextPid parent (grownDir K L kernel) t ∧
      t.procCount = s.procCount + 1 ∧ t.cpu = s.cpu ∧ t.kernel = grown K L kernel ∧
        (K.kmalloc kernel).1 = some a := by
  have hres := procCreate_curr h
  generalize hpar : s.processCurr.map Prod.fst = par at hres
  cases hres with
  | root block fresh =>
      have hcurr : s.processCurr = none := Option.map_eq_none_iff.mp hpar
      refine ⟨0, s.processes, .orphan hcurr, ⟨fresh, _, rfl, rfl, rfl, fun _ => rfl, ?_⟩, rfl,
        rfl, ?_, block⟩
      · rfl
      · rfl
  | child block get claim fresh =>
      obtain ⟨⟨c, P⟩, hn, rfl⟩ := Option.map_eq_some_iff.mp hpar
      obtain rfl := Option.some.inj ((SList.get?_eq_some.mpr (processCurr_mem hn).1).symm.trans get)
      refine ⟨P.id, _, .child hn claim, ⟨fresh, _, rfl, rfl, rfl, fun _ => rfl, ?_⟩, rfl,
        rfl, ?_, block⟩
      · rfl
      · rfl

/-- What was made for the new process when the loop begins. -/
theorem Ran.newborn (hK : Surroundings K Ld L holds) {path : List UInt8}
    {argv : Option (List (List UInt8))} {kernel : σ × Memory} {t u : Procs (σ × Memory)}
    (h : Ran (K.paged L) Ld.paged s path argv node hdr kernel a t u v r) :
    ∃ parent l, Kinship s parent l ∧ Newborn l a s.nextPid parent (grownDir K L kernel) u ∧
      u.procCount = s.procCount + 1 ∧ u.cpu = s.cpu ∧
        Undisturbed L holds (grown K L kernel) u.kernel ∧ (K.kmalloc kernel).1 = some a := by
  obtain ⟨parent, l, hkin, hnew, hcount, hcpu, hkernel, hblock⟩ := create_newborn h.create
  have hentry := hnew.update (f := Proc.withEip hdr.entry)
    (t := { t with processes := t.processes.update a (Proc.withEip hdr.entry) })
    (fun _ => ⟨rfl, rfl, rfl, rfl⟩) rfl
  obtain ⟨hpush, hcount', hcpu', hquiet⟩ := pushAll_newborn hK _ hentry h.push
  rw [← hkernel]
  exact ⟨parent, l, hkin, hpush, hcount'.trans hcount, hcpu'.trans hcpu, hquiet, hblock⟩

/-- The file system has not disturbed anything. -/
theorem execHeader_undisturbed (hK : Surroundings K Ld L holds) (path : List UInt8)
    (k : σ × Memory) : Undisturbed L holds k (execHeader Ld.paged path k).2 := by
  obtain ⟨r, node, k₁, hres⟩ : ∃ r node k₁, Ld.paged.fsResolve path k = ((r, node), k₁) :=
    ⟨_, _, _, rfl⟩
  obtain ⟨r', bytes, k₂, hread⟩ : ∃ r' bytes k₂,
      Ld.paged.fsNodeRead node 0 headerSize k₁ = ((r', bytes), k₂) := ⟨_, _, _, rfl⟩
  have hresolved : Undisturbed L holds k k₁ := by
    have hquiet := hK.resolve path k
    rwa [show (Ld.fsResolve path k).2 = k₁ from congrArg Prod.snd hres] at hquiet
  have hdone : Undisturbed L holds k k₂ := by
    have hquiet := hK.read node 0 headerSize k₁
    rw [show (Ld.fsNodeRead node 0 headerSize k₁).2 = k₂ from congrArg Prod.snd hread] at hquiet
    exact hresolved.trans hquiet
  simp only [execHeader, hres, hread]
  split
  · exact hresolved
  · split
    · exact hdone
    · split
      · exact hdone
      · exact hdone

theorem Ran.undisturbed (hK : Surroundings K Ld L holds) {path : List UInt8}
    {argv : Option (List (List UInt8))} {kernel : σ × Memory} {t u : Procs (σ × Memory)}
    (h : Ran (K.paged L) Ld.paged s path argv node hdr kernel a t u v r) :
    Undisturbed L holds s.kernel kernel := by
  have hquiet := execHeader_undisturbed hK path s.kernel
  rwa [h.header] at hquiet

end Loop

end Procs

end StardustOS.Process
