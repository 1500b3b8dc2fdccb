import StardustOS.Process.ChildSlot
import StardustOS.Process.ExecLoop

/-!
# A program that cannot be started

`proc_exec` creates a process, loads its segments, and destroys the process when
a read fails.

`procExec_noTrace` says when nothing is left of that.  A failed read of a segment
leaves the caller with the directory of the destroyed process.  A failed read of a
program header takes a slot from the caller unless the child got a new one, and it
leaves what was mapped for the segments before.  Frames that the heap took for the process
may stay taken (`FramesKept`).

The condition asks that the arguments fit the stack of the process.  Where they do not they
are written over its `id`, by which `proc_destroy` looks for it in the child array of the
caller; what such a call leaves is not modelled.
-/

namespace StardustOS.Process

open Lib Libfile Mem

variable {σ : Type*}

/-- `irq_disable`: what it returns, and the flag.  It has no `return`, so that its
callers get what `yields` says. -/
def irqDisable (yields : Bool → Bool) (intr : Bool) : Bool × Bool := (yields intr, false)

/-- `irq_restore`. -/
def irqRestore (flags : Bool) : Bool := flags

namespace Procs

section Exec

variable {κ : Type*} (K : Kernel κ) (Ld : Loader κ) (s : Procs κ)

/-- `proc_exec` with the interrupt flag: each of its returns is behind
`irq_restore(eflags)`. -/
def procExecIntr (yields : Bool → Bool) (intr : Bool) (path : List UInt8)
    (argv : Option (List (List UInt8))) : Option (ExecResult × Bool × Procs κ) :=
  let (eflags, _) := irqDisable yields intr
  (s.procExec K Ld path argv).map fun (res, s) => (res, irqRestore eflags, s)

end Exec

/-! ## What is wanted -/

/-- Everything is as before, except for the next pid. -/
structure NoTrace (s : Procs (σ × Memory)) (intr : Bool) (s' : Procs (σ × Memory))
    (intr' : Bool) : Prop where
  addrs : s'.processes.addrs = s.processes.addrs
  pids : s'.pids = s.pids
  procCount : s'.procCount = s.procCount
  caller : ∀ n ∈ s.processCurr, ∃ P, s'.processes.get? n.1 = some P ∧
    n.2.children.Same P.children ∧ P.regs.cr3 = n.2.regs.cr3
  loaded : s'.cpu.cr3 = s.cpu.cr3
  used : s'.kernel.2.phys.used = s.kernel.2.phys.used
  intr : intr' = intr

/-- The caller has a directory: a used frame, and not frame 0. -/
def CallerOk (s : Procs (σ × Memory)) : Prop :=
  ∀ n ∈ s.processCurr, frameOf n.2.regs.cr3.toNat ∈ s.kernel.2.phys.used ∧ n.2.regs.cr3 ≠ 0

section Condition

variable (K : Kernel (σ × Memory)) (Ld : Loader (σ × Memory)) (L : Layout) (s : Procs (σ × Memory))
  (path : List UInt8) (argv : Option (List (List UInt8)))

/-- The heap keeps its frames, if the file is not refused. -/
def HeapKept : Prop :=
  ∀ file kernel, execHeader Ld.paged path s.kernel = (.ok file, kernel) → FramesKept K kernel

/-- A process that is created has room for its arguments and gets a directory, its caller
gets the slot of the child back, and the loop fails at a program header before which nothing
was mapped.  Where segments were loaded, the CPU had the directory of the caller. -/
def Undone : Prop :=
  ∀ node hdr kernel a t u v r, Ran (K.paged L) Ld.paged s path argv node hdr kernel a t u v r →
    pushed argv ≤ PROC_STACKSIZE ∧ (K.kmalloc kernel).2.2.FindsPage L ∧
      (∀ n ∈ s.processCurr, n.2.children.GivesBack n.2.id s.nextPid) ∧
      ∃ segs, LoopFails (K.paged L) Ld.paged (s.processCurr.map Prod.fst) a node hdr true segs
          (List.range hdr.phnum.toNat) u v ∧
        (∀ b ∈ segs, b = true) ∧ (segs ≠ [] → ∀ n ∈ s.processCurr, s.cpu.cr3 = n.2.regs.cr3)

/-- The loop fails at a program header, after pages were mapped for a segment. -/
def MapsPages : Prop :=
  ∃ node hdr kernel a t u v r, Ran (K.paged L) Ld.paged s path argv node hdr kernel a t u v r ∧
    ∃ segs, LoopFails (K.paged L) Ld.paged (s.processCurr.map Prod.fst) a node hdr true segs
      (List.range hdr.phnum.toNat) u v ∧ false ∈ segs

end Condition

section Trace

variable {K : Kernel (σ × Memory)} {Ld : Loader (σ × Memory)} {L : Layout}
  {holds : σ → Nat → Finset Frame → Prop} {curr : Option Nat} {a node : Nat} {hdr : ElfHeader}
  {s v : Procs (σ × Memory)} {is : List Nat} {b : Bool} {segs : List Bool} {r : Int}
  {l : SList Proc} {pid parent cr3 : UInt32}

/-! ## The process is destroyed -/

/-- A process without files has none to close. -/
theorem closeFiles_none {κ : Type*} (K : Kernel κ) {N : Proc} (h : ∀ i, N.fd i = none) (k : κ) :
    closeFiles K N k = k := by
  refine forUpto_inv (P := fun _ t => t = k) _ rfl ?_
  rintro i t - rfl
  rw [h i]

/-- `proc_destroy` of the new process.  Its parent drops it, unless the search for
the parent finds the process itself. -/
theorem destroy_newborn {s' : Procs (σ × Memory)} (hnew : Newborn l a pid parent cr3 v)
    (h : v.procDestroy K a = some s') :
    s'.procCount = v.procCount - 1 ∧ s'.cpu = v.cpu ∧
      s'.kernel = K.kfree a
        (if cr3 ≠ K.krnlPgdir then K.memFreePgdir cr3 v.kernel else v.kernel) ∧
      (parent = 0 ∨ pid = parent → s'.processes = l) ∧
      (parent ≠ 0 → pid ≠ parent → ∃ n, l.find? (fun P => P.id = parent) = some n ∧
        s'.processes = l.update n.1 (Proc.onChildren fun c => c.drop pid)) := by
  obtain ⟨N, hN, rfl, rfl, hfd, rfl⟩ := hnew.head
  have hget : v.processes.get? a = some N := by rw [hN, SList.get?_insertHead]
  have hfind : v.processFrompid N.parent =
      if N.id = N.parent then some (a, N) else l.find? fun P => P.id = N.parent := by
    rw [processFrompid, hN, SList.find?_insertHead]
    simp only [decide_eq_true_eq]
  obtain ⟨P, processes, hP, hdisown, rfl⟩ := procDestroy_cases h
  obtain rfl := Option.some.inj (hget.symm.trans hP)
  rw [closeFiles_none K hfd]
  refine ⟨rfl, rfl, rfl, ?_, ?_⟩
  · intro hend
    obtain ⟨h0, rfl⟩ | ⟨h0, q, Q, hq, rfl⟩ := disown_cases hdisown
    · rw [hN, SList.remove_insertHead]
    · rw [hfind, if_pos (hend.resolve_left h0)] at hq
      obtain ⟨rfl, rfl⟩ := Prod.mk.inj (Option.some.inj hq)
      rw [hN, SList.update_insertHead, SList.remove_insertHead]
  · intro h0 hid
    obtain ⟨hzero, -⟩ | ⟨-, q, Q, hq, rfl⟩ := disown_cases hdisown
    · exact absurd hzero h0
    · rw [hfind, if_neg hid] at hq
      refine ⟨(q, Q), hq, ?_⟩
      have hne : a ≠ q := by
        rintro rfl
        exact hnew.fresh (SList.mem_addrs (SList.find?_mem hq).1)
      rw [hN, SList.update_insertHead_ne hnew.fresh hne, SList.remove_insertHead]

/-! ## The used frames -/

theorem addr_lt (f : Frame) : f.addr < 2 ^ 32 := by
  rw [Frame.addr, PAGE_SIZE]
  omega

theorem frameOf_ofNat (f : Frame) : frameOf (UInt32.ofNat f.addr).toNat = f := by
  rw [UInt32.toNat_ofNat_of_lt' (addr_lt f), frameOf_addr]

theorem ofNat_addr_inj {f g : Frame} (h : UInt32.ofNat f.addr = UInt32.ofNat g.addr) : f = g := by
  rw [← frameOf_ofNat f, h, frameOf_ofNat]

/-- The kernel after the directory and the block of the new process were freed. -/
def released (K : Kernel (σ × Memory)) (L : Layout) (a : Nat) (cr3 : UInt32) (k : σ × Memory) :
    σ × Memory :=
  K.kfree a (if cr3 ≠ (K.paged L).krnlPgdir then (K.paged L).memFreePgdir cr3 k else k)

section Release

variable {kernel k : σ × Memory} (hK : Surroundings K Ld L holds) (hready : SpaceReady L kernel.2)
  (hblock : (K.kmalloc kernel).1 = some a) (hquiet : Undisturbed L holds (grown K L kernel) k)

include hK hready hblock hquiet

/-- With a directory, the frames are those that the heap leaves. -/
theorem used_released (hfinds : (K.kmalloc kernel).2.2.FindsPage L) :
    (released K L a (grownDir K L kernel) k).2.phys.used =
      (K.kfree a (K.kmalloc kernel).2).2.phys.used := by
  obtain ⟨H, hholds⟩ := hK.block kernel a hblock
  obtain ⟨f, hf, haddr, hready', hbare, hgrown⟩ :=
    (hK.ready kernel hready).memAllocPgdir_bare (Memory.memAllocPgdir_ne_zero_iff.mpr hfinds)
  have hdir : grownDir K L kernel = UInt32.ofNat f.addr := congrArg UInt32.ofNat haddr
  have hne : grownDir K L kernel ≠ (K.paged L).krnlPgdir := by
    intro heq
    obtain rfl := ofNat_addr_inj (hdir.symm.trans heq)
    exact hf (hK.ready kernel hready).tables.krnl_used
  have hfree : ((K.paged L).memFreePgdir (grownDir K L kernel) k).2.phys.used =
      (K.kmalloc kernel).2.2.phys.used := by
    have hused' : k.2.phys.used = insert f (K.kmalloc kernel).2.2.phys.used := by
      rw [hquiet.used]
      exact hgrown
    show (k.2.memFreePgdir L (frameOf (grownDir K L kernel).toNat)).phys.used = _
    rw [hdir, frameOf_ofNat, (hquiet.dirs f hbare).used_memFreePgdir (hquiet.ready hready').tables,
      hused', Finset.erase_insert hf]
  have hback := hK.kfree ((K.paged L).memFreePgdir (grownDir K L kernel) k) a H
    (hquiet.holds a H hholds)
  rw [released, if_pos hne, hback, hfree, hK.kfree (K.kmalloc kernel).2 a H hholds]

/-- Without one, frame 0 is freed. -/
theorem zero_notMem_released (hfails : ¬ (K.kmalloc kernel).2.2.FindsPage L) :
    (0 : Frame) ∉ (released K L a (grownDir K L kernel) k).2.phys.used := by
  obtain ⟨H, hholds⟩ := hK.block kernel a hblock
  have hready' := hK.ready kernel hready
  have hzero : ((K.kmalloc kernel).2.2.memAllocPgdir L).1 = 0 := by
    by_contra hne
    exact hfails (Memory.memAllocPgdir_ne_zero_iff.mp hne)
  have hdir : grownDir K L kernel = 0 := congrArg UInt32.ofNat hzero
  have hgrown : (grown K L kernel).2 = (K.kmalloc kernel).2.2 :=
    hready'.memAllocPgdir_failed hzero
  have hne : (0 : UInt32) ≠ (K.paged L).krnlPgdir := by
    intro heq
    have hzero : UInt32.ofNat (0 : Frame).addr = UInt32.ofNat L.krnlPgdir.addr := heq
    exact hready.krnl_ne (ofNat_addr_inj hzero).symm
  have hback := hK.kfree ((K.paged L).memFreePgdir 0 k) a H (hquiet.holds a H hholds)
  rw [released, hdir, if_pos hne, hback, Finset.mem_sdiff]
  rintro ⟨hmem, -⟩
  exact (hquiet.ready (hgrown ▸ hready')).zero_notMem_memFreePgdir hmem

end Release

/-- The directory of the new process is not one that there was. -/
theorem grownDir_ne (hK : Surroundings K Ld L holds) {kernel : σ × Memory}
    (hready : SpaceReady L kernel.2) (hused : frameOf cr3.toNat ∈ kernel.2.phys.used)
    (hne : cr3 ≠ 0) : grownDir K L kernel ≠ cr3 := by
  rintro rfl
  by_cases hret : ((K.kmalloc kernel).2.2.memAllocPgdir L).1 = 0
  · exact hne (congrArg UInt32.ofNat hret)
  · obtain ⟨f, hf, haddr, -⟩ := (hK.ready kernel hready).memAllocPgdir_bare hret
    rw [grownDir, haddr, frameOf_ofNat] at hused
    exact hf (hK.grows kernel hused)

/-! ## The ends of `proc_exec` -/

section Ends

variable {path : List UInt8} {argv : Option (List (List UInt8))} {kernel : σ × Memory}
  {t u s' : Procs (σ × Memory)}

/-- The process that runs is the one that `process_frompid` finds for its pid. -/
theorem processFrompid_curr {n : Nat × Proc} (h : s.processCurr = some n) :
    s.processFrompid n.2.id = some n ∧ n.2.id ≠ 0 := by
  have hid := (processCurr_mem h).2
  rw [processCurr] at h
  split at h
  · cases h
  · split at h
    · cases h
    · rename_i h0
      rw [hid]
      exact ⟨h, h0⟩

/-- The child array of the caller at the end: a slot was claimed, and the child
dropped if the caller was found. -/
def childrenLeft (d : Children) (i : Nat) (self pid : UInt32) : Children :=
  if pid = self then d.set i pid else (d.set i pid).drop pid

theorem same_childrenLeft_iff {c d : Children} {i : Nat} (h : c.claim = some (i, d))
    {self : UInt32} (hself : self ≠ 0) :
    c.Same (childrenLeft d i self pid) ↔ c.GivesBack self pid := by
  rw [childrenLeft, Children.GivesBack]
  split
  · rename_i heq
    exact Children.same_set_iff h (heq ▸ hself)
  · exact Children.same_drop_iff h

/-- After a failed read of a program header, only the child array of the caller may
differ. -/
theorem processes_of_header (hkin : Kinship s parent l)
    (hnew : Newborn l a s.nextPid parent cr3 v) (hdestroy : v.procDestroy K a = some s') :
    (s.processCurr = none ∧ s'.processes = s.processes) ∨
      ∃ c P i d, s.processCurr = some (c, P) ∧ P.children.claim = some (i, d) ∧
        s'.processes = s.processes.update c
          (Proc.onChildren fun _ => childrenLeft d i P.id s.nextPid) := by
  obtain ⟨-, -, -, hsame, hdrop⟩ := destroy_newborn hnew hdestroy
  cases hkin with
  | orphan curr => exact Or.inl ⟨curr, hsame (Or.inl rfl)⟩
  | @child c i P d curr claim =>
      refine Or.inr ⟨c, P, i, d, curr, claim, ?_⟩
      obtain ⟨hfind, h0⟩ := processFrompid_curr curr
      by_cases hself : s.nextPid = P.id
      · rw [hsame (Or.inr hself)]
        simp only [childrenLeft, hself, ↓reduceIte]
      · obtain ⟨n, hn, hproc⟩ := hdrop h0 hself
        have hn' : n.1 = c := by
          have hlook := SList.find?_update (l := s.processes) (p := fun Q => decide (Q.id = P.id))
            (a := c) (f := Proc.onChildren fun _ => d.set i s.nextPid) fun _ => rfl
          rw [hlook] at hn
          obtain ⟨m, hm, rfl⟩ := Option.map_eq_some_iff.mp hn
          obtain rfl := Option.some.inj (hm.symm.trans hfind)
          rfl
        rw [hproc, hn', SList.update_update]
        simp only [childrenLeft, hself, ↓reduceIte]
        rfl

/-- Then the list is as before, and the caller has what it had if it got the slot
back. -/
theorem table_of_header (hkin : Kinship s parent l)
    (hnew : Newborn l a s.nextPid parent cr3 v) (hdestroy : v.procDestroy K a = some s') :
    s'.processes.addrs = s.processes.addrs ∧ s'.pids = s.pids ∧
      ((∀ n ∈ s.processCurr, ∃ P, s'.processes.get? n.1 = some P ∧
          n.2.children.Same P.children ∧ P.regs.cr3 = n.2.regs.cr3) ↔
        ∀ n ∈ s.processCurr, n.2.children.GivesBack n.2.id s.nextPid) := by
  obtain ⟨hcurr, hproc⟩ | ⟨c, P, i, d, hcurr, hclaim, hproc⟩ :=
    processes_of_header hkin hnew hdestroy
  · rw [pids, pids, hproc, hcurr]
    exact ⟨rfl, rfl, iff_of_true (fun n hn => by cases hn) fun n hn => by cases hn⟩
  · obtain ⟨-, h0⟩ := processFrompid_curr hcurr
    have hget : s'.processes.get? c =
        some (P.onChildren fun _ => childrenLeft d i P.id s.nextPid) := by
      rw [hproc, SList.get?_update (processCurr_mem hcurr).1, if_pos rfl]
    have hpids : s'.pids = s.pids := by
      rw [pids, pids, hproc]
      exact SList.map_contents_update (f := Proc.onChildren _) (fun _ => rfl) c
    refine ⟨by rw [hproc, SList.addrs_update], hpids, ?_⟩
    rw [hcurr]
    simp only [Option.mem_some_iff, forall_eq', hget, Option.some.injEq, exists_eq_left']
    exact (and_iff_left rfl).trans (same_childrenLeft_iff hclaim h0)

/-- Where the loop left the CPU. -/
theorem loaded_of_header (hkin : Kinship s parent l) (hnew : Newborn l a s.nextPid parent cr3 u)
    (hcpu : u.cpu = s.cpu) (hnone : segs = [] → v.cpu = u.cpu)
    (hsome : segs ≠ [] → CallerLoaded (s.processCurr.map Prod.fst) u.processes v) :
    v.cpu.cr3 = s.cpu.cr3 ↔ (segs ≠ [] → ∀ n ∈ s.processCurr, s.cpu.cr3 = n.2.regs.cr3) := by
  cases segs with
  | nil =>
      rw [hnone rfl, hcpu]
      exact iff_of_true rfl fun h => absurd rfl h
  | cons b segs =>
      obtain ⟨c, hc, Q, hQ, hloaded⟩ := hsome (List.cons_ne_nil _ _)
      obtain ⟨⟨c, P⟩, hcurr, rfl⟩ := Option.map_eq_some_iff.mp hc
      have hmem := (processCurr_mem hcurr).1
      have hQP : Q.regs.cr3 = P.regs.cr3 := by
        cases hkin with
        | orphan curr => cases curr.symm.trans hcurr
        | @child c' i P' d curr claim =>
            obtain ⟨rfl, rfl⟩ := Prod.mk.inj (Option.some.inj (curr.symm.trans hcurr))
            have hne : c' ≠ a := by
              rintro rfl
              refine hnew.fresh ?_
              rw [SList.addrs_update]
              exact SList.mem_addrs hmem
            rw [hnew.get?_ne hne, SList.get?_update hmem, if_pos rfl] at hQ
            obtain rfl := Option.some.inj hQ
            rfl
      rw [hloaded, hQP, hcurr]
      constructor
      · rintro heq - n hn
        obtain rfl := Option.some.inj hn
        exact heq.symm
      · intro h
        exact (h (List.cons_ne_nil _ _) (c, P) rfl).symm

/-- A call that failed at a program header before which nothing was mapped. -/
theorem noTrace_of_header (hK : Surroundings K Ld L holds) (hready : SpaceReady L s.kernel.2)
    (hran : Ran (K.paged L) Ld.paged s path argv node hdr kernel a t u v r)
    (hfails : LoopFails (K.paged L) Ld.paged (s.processCurr.map Prod.fst) a node hdr true segs
      (List.range hdr.phnum.toNat) u v)
    (hsegs : ∀ b ∈ segs, b = true) (hdestroy : v.procDestroy (K.paged L) a = some s')
    (intr intr' : Bool) :
    NoTrace s intr s' intr' ↔ intr' = intr ∧
      (FramesKept K kernel ∧ (K.kmalloc kernel).2.2.FindsPage L) ∧
        (∀ n ∈ s.processCurr, n.2.children.GivesBack n.2.id s.nextPid) ∧
          (segs ≠ [] → ∀ n ∈ s.processCurr, s.cpu.cr3 = n.2.regs.cr3) := by
  obtain ⟨parent, l, hkin, hnew, hcount, hcpu, hquiet, hblock⟩ := hran.newborn hK
  obtain ⟨hproc, hcount', hnone, hsome⟩ := hfails.at_header rfl
  have hnew' : Newborn l a s.nextPid parent (grownDir K L kernel) v := by
    obtain ⟨N, hN, hrest⟩ := hnew.head
    exact ⟨hnew.fresh, N, hproc.trans hN, hrest⟩
  obtain ⟨hdcount, hdcpu, hdkernel, -⟩ := destroy_newborn hnew' hdestroy
  obtain ⟨haddrs, hpids, hcaller⟩ := table_of_header hkin hnew' hdestroy
  have hloaded := loaded_of_header hkin hnew hcpu hnone hsome
  have hheader := hran.undisturbed hK
  have hquiet' := hquiet.trans (hfails.undisturbed hK rfl hsegs)
  have hused : s'.kernel.2.phys.used = s.kernel.2.phys.used ↔
      FramesKept K kernel ∧ (K.kmalloc kernel).2.2.FindsPage L := by
    have hready' := hheader.ready hready
    have hleft : s'.kernel = released K L a (grownDir K L kernel) v.kernel := hdkernel
    rw [hleft, ← hheader.used, framesKept_some hblock]
    by_cases hfinds : (K.kmalloc kernel).2.2.FindsPage L
    · rw [used_released hK hready' hblock hquiet' hfinds, and_iff_left hfinds]
    · refine iff_of_false ?_ fun h => hfinds h.2
      intro heq
      refine zero_notMem_released hK hready' hblock hquiet' hfinds ?_
      rw [heq]
      exact hready'.zero_used
  have hprocCount : s'.procCount = s.procCount := by
    rw [hdcount, hcount', hcount, Nat.add_sub_cancel]
  rw [← hused, ← hcaller, ← hloaded, ← hdcpu]
  constructor
  · intro h
    exact ⟨h.intr, h.used, h.caller, h.loaded⟩
  · rintro ⟨hintr, hu, hc, hl⟩
    exact ⟨haddrs, hpids, hprocCount, hc, hl, hu, hintr⟩

/-- After a failed read of a segment, the caller has another directory. -/
theorem not_noTrace_of_segment (hK : Surroundings K Ld L holds)
    (hready : SpaceReady L s.kernel.2) (hcaller : CallerOk s)
    (hran : Ran (K.paged L) Ld.paged s path argv node hdr kernel a t u v r)
    (hfails : LoopFails (K.paged L) Ld.paged (s.processCurr.map Prod.fst) a node hdr false segs
      (List.range hdr.phnum.toNat) u v)
    (hdestroy : v.procDestroy (K.paged L) a = some s') (intr intr' : Bool) :
    ¬ NoTrace s intr s' intr' := by
  obtain ⟨parent, l, hkin, hnew, hcount, hcpu, hquiet, hblock⟩ := hran.newborn hK
  obtain ⟨-, c, hc, N, hN, hproc⟩ := hfails.at_segment rfl
  obtain ⟨⟨c, P⟩, hcurr, rfl⟩ := Option.map_eq_some_iff.mp hc
  obtain ⟨hused, hne⟩ := hcaller (c, P) hcurr
  have hheader := hran.undisturbed hK
  rw [← hheader.used] at hused
  have hfresh := grownDir_ne hK (hheader.ready hready) hused hne
  intro htrace
  obtain ⟨Q, hQ, -, hcr3⟩ := htrace.caller (c, P) hcurr
  -- what the loop left at the caller's address is still there
  have hmem : c ∈ l.addrs := hkin.addrs ▸ SList.mem_addrs (processCurr_mem hcurr).1
  obtain ⟨⟨c, M⟩, hM, rfl⟩ := List.mem_map.mp hmem
  have hca : c ≠ a := by
    rintro rfl
    exact hnew.fresh hmem
  have hMu : (c, M) ∈ u.processes.nodes := by
    rw [← SList.get?_eq_some, hnew.get?_ne hca]
    exact SList.get?_eq_some.mpr hM
  have hleft : HasContext c (Proc.withCr3 N.regs.cr3 M).context v.processes :=
    ⟨_, hproc ▸ SList.mem_update_self.mpr ⟨M, hMu, rfl⟩, rfl⟩
  obtain ⟨Q', hQ', hcontext⟩ := (procDestroy_spec hdestroy).hasContext hca hleft
  obtain rfl := SList.unique (SList.get?_eq_some.mp hQ) hQ'
  have hregs : Q.regs.cr3 = N.regs.cr3 :=
    congrArg (fun x : UInt32 × ProcRegs × List UInt8 => x.2.1.cr3) hcontext
  obtain ⟨N', hN', hdir⟩ := hnew.get?
  obtain rfl := Option.some.inj (hN.symm.trans hN')
  exact hfresh (hdir.symm.trans (hregs.symm.trans hcr3))

/-- A caller that nothing was done to. -/
theorem callerKept (s : Procs (σ × Memory)) : ∀ n ∈ s.processCurr, ∃ P,
    s.processes.get? n.1 = some P ∧ n.2.children.Same P.children ∧ P.regs.cr3 = n.2.regs.cr3 :=
  fun n hn => ⟨n.2, SList.get?_eq_some.mpr (processCurr_mem hn).1, ⟨rfl, fun _ _ => Iff.rfl⟩, rfl⟩

/-- A call that gave up before there was a process leaves what the heap leaves. -/
theorem noTrace_of_refused (hheader : Undisturbed L holds s.kernel kernel)
    (hcreate : ({ s with kernel := kernel } : Procs (σ × Memory)).procCreate (K.paged L)
      (s.processCurr.map Prod.fst) path 1 = some (none, s')) (intr intr' : Bool) :
    NoTrace s intr s' intr' ↔ intr' = intr ∧ FramesKept K kernel := by
  have hcaller := callerKept s
  have hres := procCreate_curr hcreate
  generalize s.processCurr.map Prod.fst = par at hres
  cases hres with
  | noBlock block =>
      have hblock : (K.kmalloc kernel).1 = none := block
      rw [framesKept_none hblock, hheader.used]
      exact ⟨fun h => ⟨h.intr, h.used⟩, fun h => ⟨rfl, rfl, rfl, hcaller, rfl, h.2, h.1⟩⟩
  | full block get claim =>
      have hblock : (K.kmalloc kernel).1 = some _ := block
      rw [framesKept_some hblock, hheader.used]
      exact ⟨fun h => ⟨h.intr, h.used⟩, fun h => ⟨rfl, rfl, rfl, hcaller, rfl, h.2, h.1⟩⟩

end Ends

/-! ## Failed calls -/

section Claim

variable {path : List UInt8} {argv : Option (List (List UInt8))} {s' : Procs (σ × Memory)}

/-- A call that failed in its loop and left no trace undid all that was done, or it
mapped pages before. -/
theorem undone_or_mapsPages (hK : Surroundings K Ld L holds) (hready : SpaceReady L s.kernel.2)
    (hcaller : CallerOk s) {kernel : σ × Memory} {t u : Procs (σ × Memory)}
    (hran : Ran (K.paged L) Ld.paged s path argv node hdr kernel a t u v r)
    (hfits : pushed argv ≤ PROC_STACKSIZE)
    (hfails : LoopFails (K.paged L) Ld.paged (s.processCurr.map Prod.fst) a node hdr b segs
      (List.range hdr.phnum.toNat) u v)
    (hdestroy : v.procDestroy (K.paged L) a = some s') {intr intr' : Bool}
    (htrace : NoTrace s intr s' intr') :
    s.HeapKept K Ld path ∧ s.Undone K Ld L path argv ∨ s.MapsPages K Ld L path argv := by
  cases b with
  | false =>
      exact absurd htrace
        (not_noTrace_of_segment hK hready hcaller hran hfails hdestroy intr intr')
  | true =>
      by_cases hmaps : false ∈ segs
      · exact Or.inr ⟨node, hdr, kernel, a, t, u, v, r, hran, segs, hfails, hmaps⟩
      · left
        have hsegs : ∀ b ∈ segs, b = true := by
          intro b hb
          cases b with
          | true => rfl
          | false => exact absurd hb hmaps
        obtain ⟨-, ⟨hkept, hfinds⟩, hslot, hcpu⟩ :=
          (noTrace_of_header hK hready hran hfails hsegs hdestroy intr intr').mp htrace
        constructor
        · intro file kernel' hfile
          obtain ⟨-, rfl⟩ := Prod.mk.inj (hran.header.symm.trans hfile)
          exact hkept
        · intro node' hdr' kernel' a' t' u' v' r' hran'
          obtain ⟨rfl, rfl, rfl, rfl, rfl, rfl, rfl, rfl⟩ := hran.unique hran'
          exact ⟨hfits, hfinds, hslot, segs, hfails, hsegs, hcpu⟩

/-- A call that gave up before its loop left no trace if and only if the heap kept its
frames. -/
theorem noTrace_of_early {t : Procs (σ × Memory)} (hK : Surroundings K Ld L holds)
    (h : (∃ e, (execHeader Ld.paged path s.kernel).1 = .error e) ∧
        t = { s with kernel := (execHeader Ld.paged path s.kernel).2 } ∨
      (∃ file, (execHeader Ld.paged path s.kernel).1 = .ok file) ∧
        ({ s with kernel := (execHeader Ld.paged path s.kernel).2 } :
          Procs (σ × Memory)).procCreate (K.paged L) (s.processCurr.map Prod.fst) path 1 =
            some (none, t)) (intr intr' : Bool) :
    NoTrace s intr t intr' ↔ intr' = intr ∧ s.HeapKept K Ld path := by
  have hheader := execHeader_undisturbed hK path s.kernel
  obtain ⟨⟨e, he⟩, rfl⟩ | ⟨⟨file, hfile⟩, hcreate⟩ := h
  · constructor
    · refine fun htrace => ⟨htrace.intr, ?_⟩
      intro file kernel hfile
      rw [hfile] at he
      cases he
    · rintro ⟨hintr, -⟩
      exact ⟨rfl, rfl, rfl, callerKept s, rfl, hheader.used, hintr⟩
  · rw [noTrace_of_refused hheader hcreate]
    refine and_congr_right fun _ => ⟨?_, ?_⟩
    · intro hkept file' kernel hfile'
      rw [hfile'] at hkept
      exact hkept
    · exact fun hkept => hkept file _ (Prod.ext hfile rfl)

/-- A failed call leaves no trace if `irq_disable` yields the flag, the heap keeps its
frames, and no process was created or all that was done for it was undone.  Nothing else
leaves no trace, unless pages were mapped before the header of another segment could not be
read. -/
theorem procExec_noTrace (hK : Surroundings K Ld L holds) (hready : SpaceReady L s.kernel.2)
    (hcaller : CallerOk s) {yields : Bool → Bool} {intr intr' : Bool}
    (h : s.procExecIntr (K.paged L) Ld.paged yields intr path argv =
      some (.error r, intr', s')) :
    (yields intr = intr ∧ s.HeapKept K Ld path ∧ s.Undone K Ld L path argv →
        NoTrace s intr s' intr') ∧
      (NoTrace s intr s' intr' → yields intr = intr ∧
        (s.HeapKept K Ld path ∧ s.Undone K Ld L path argv ∨ s.MapsPages K Ld L path argv)) := by
  obtain ⟨⟨res, t⟩, hexec, heq⟩ := Option.map_eq_some_iff.mp h
  obtain ⟨rfl, hrest⟩ := Prod.mk.inj heq
  obtain ⟨rfl, rfl⟩ := Prod.mk.inj hrest
  obtain ⟨-, -, hrefused, hnone⟩ | ⟨node, hdr, kernel, a, t', u, v, r', hran, hfits, hend⟩ :=
    procExec_cases hexec
  · have hundone : s.Undone K Ld L path argv := fun _ _ _ _ _ _ _ _ hran =>
      absurd hran (hnone _ _ _ _ _ _ _ _)
    have htrace := noTrace_of_early hK hrefused intr (yields intr)
    constructor
    · rintro ⟨hyields, hkept, -⟩
      exact htrace.mpr ⟨hyields, hkept⟩
    · intro hleft
      obtain ⟨hyields, hkept⟩ := htrace.mp hleft
      exact ⟨hyields, Or.inl ⟨hkept, hundone⟩⟩
  · obtain ⟨-, hneg, hdestroy⟩ | ⟨-, ⟨id, hres⟩, -⟩ := hend
    · obtain ⟨b, segs, hfails⟩ := loadSegments_fails _ hran.load hneg
      constructor
      · rintro ⟨hyields, hkept, hundone⟩
        obtain ⟨-, hfinds, hslot, segs', hfails', hsegs, hcpu⟩ := hundone _ _ _ _ _ _ _ _ hran
        exact (noTrace_of_header hK hready hran hfails' hsegs hdestroy intr _).mpr
          ⟨hyields, ⟨hkept _ _ hran.header, hfinds⟩, hslot, hcpu⟩
      · exact fun htrace => ⟨htrace.intr,
          undone_or_mapsPages hK hready hcaller hran hfits hfails hdestroy htrace⟩
    · cases hres

end Claim

section Small

/-- The file system of one program, in which a read at one place fails. -/
def failingFile (bad : UInt32) : Loader (Nat × Memory) :=
  { oneFile (elfFile 1) with
    fsNodeRead := fun node offset size k =>
      if offset = bad then ((-5, []), k) else (oneFile (elfFile 1)).fsNodeRead node offset size k }

/-- The heap of the small machine holds no frames. -/
def noFrames (_ : Nat) (_ : Nat) (H : Finset Frame) : Prop := H = ∅

theorem small_surroundings (bad : UInt32) :
    Surroundings small (failingFile bad) bootedLayout noFrames where
  resolve := fun _ k => .refl k
  read := by
    intro node offset size k
    simp only [failingFile]
    split
    · exact .refl k
    · exact .refl k
  memcpy := fun _ _ k => .refl k
  grows := fun _ => Finset.Subset.refl _
  block := fun _ _ _ => ⟨∅, rfl⟩
  ready := fun _ h => h
  kfree := by
    rintro k a H rfl
    exact Finset.sdiff_empty.symm

theorem booted_spaceReady : SpaceReady bootedLayout booted where
  tables := booted_ready.kernelTables
  page_zero := booted_ready.page_zero
  zero_used := booted_used (by decide)
  krnl_ne := by decide
  no_user := by
    intro k hk
    have hlt : ¬ k.val < 256 := hk
    show (booted.ram 1 k).present = false
    simp [booted, hlt, Entry.zero]

theorem oneProcess_curr : oneProcess.processCurr.map (fun n => (n.1, n.2.id, n.2.regs.cr3)) =
    some (0x100000, 1, 0x1000) := by decide +kernel

theorem oneProcess_callerOk : CallerOk oneProcess := by
  intro n hn
  have hcurr := oneProcess_curr
  rw [hn, Option.map_some, Option.some.injEq, Prod.mk.injEq, Prod.mk.injEq] at hcurr
  rw [hcurr.2.2]
  exact ⟨booted_used (by decide), by decide⟩

theorem failingFile_header : execHeader (failingFile 52).paged [98] oneProcess.kernel =
    (.ok (0, .ofBytes ((elfFile 1).take headerSize)), oneProcess.kernel) := rfl

/-- The read of the second header of the small program fails. -/
theorem procExec_noTrace_failing : ∃ s',
    oneProcess.procExecIntr (small.paged bootedLayout) (failingFile 52).paged id true [98] none =
        some (.error (-5), true, s') ∧
      NoTrace oneProcess true s' true := by
  have he : (oneProcess.procExecIntr (small.paged bootedLayout) (failingFile 52).paged id true [98]
      none).map (fun x => (x.1, x.2.1)) = some (.error (-5), true) := by decide +kernel
  obtain ⟨⟨res, intr', s'⟩, hexec, heq⟩ := Option.map_eq_some_iff.mp he
  obtain ⟨rfl, rfl⟩ := Prod.mk.inj heq
  refine ⟨s', hexec, (procExec_noTrace (small_surroundings 52) booted_spaceReady
    oneProcess_callerOk hexec).1 ⟨rfl, fun _ _ _ => rfl, ?_⟩⟩
  intro node hdr kernel a t u v r hran
  obtain ⟨hfile, rfl⟩ := Prod.mk.inj (failingFile_header.symm.trans hran.header)
  obtain ⟨rfl, rfl⟩ := Prod.mk.inj (Except.ok.inj hfile)
  refine ⟨by decide, ⟨?_, 264, by decide, ?_⟩, ?_, [], ?_, fun b hb => ?_, fun h => absurd rfl h⟩
  · show booted.identFree 1 0 = false
    decide +kernel
  · show booted.identFree 1 264 = true
    decide +kernel
  · decide +kernel
  · have hbad : readHeader (failingFile 52).paged 0 (.ofBytes ((elfFile 1).take headerSize)) 0
        u.kernel = ((-5, []), u.kernel) := rfl
    have hrange : List.range (ElfHeader.ofBytes ((elfFile 1).take headerSize)).phnum.toNat = [0] :=
      rfl
    have hload := hran.load
    rw [hrange] at hload ⊢
    obtain ⟨r₀, bytes, k, hread, hturn⟩ := loadSegments_cons hload
    obtain ⟨hr, rfl⟩ := Prod.mk.inj (hbad.symm.trans hread)
    obtain ⟨rfl, rfl⟩ := Prod.mk.inj hr
    obtain ⟨hneg, -, rfl⟩ | ⟨hok, -⟩ | ⟨hok, -⟩ := hturn
    · exact .header hbad hneg
    · exact absurd hok (by decide)
    · exact absurd hok (by decide)
  · cases hb

/-- The read of the only segment of the small program fails. -/
theorem procExec_noTrace_wrong :
    SpaceReady bootedLayout oneProcess.kernel.2 ∧ CallerOk oneProcess ∧
      Surroundings small (failingFile 84) bootedLayout noFrames ∧ ∃ s',
        oneProcess.procExecIntr (small.paged bootedLayout) (failingFile 84).paged id true [98]
            none = some (.error (-5), true, s') ∧
          ¬ NoTrace oneProcess true s' true := by
  let e := oneProcess.procExecIntr (small.paged bootedLayout) (failingFile 84).paged id true
    [98] none
  have he : e.map (fun x => (x.1, x.2.1)) = some (.error (-5), true) := by decide +kernel
  have hcr3 : e.map (fun x => (x.2.2.processes.get? 0x100000).map fun P => P.regs.cr3) =
      some (some 0x108000) := by decide +kernel
  obtain ⟨⟨res, intr', s'⟩, hexec, heq⟩ := Option.map_eq_some_iff.mp he
  obtain ⟨rfl, rfl⟩ := Prod.mk.inj heq
  refine ⟨booted_spaceReady, oneProcess_callerOk, small_surroundings 84, s', hexec, ?_⟩
  intro htrace
  have hcurr := oneProcess_curr
  obtain ⟨n, hn, hcaller⟩ := Option.map_eq_some_iff.mp hcurr
  rw [Prod.mk.injEq, Prod.mk.injEq] at hcaller
  obtain ⟨P, hP, -, hback⟩ := htrace.caller n hn
  rw [hcaller.1] at hP
  rw [hcaller.2.2] at hback
  have hleft : (s'.processes.get? 0x100000).map (fun P => P.regs.cr3) = some 0x108000 := by
    rw [show e = _ from hexec] at hcr3
    exact Option.some.inj hcr3
  rw [hP, Option.map_some, hback] at hleft
  exact absurd hleft (by decide)

end Small

end Trace

end Procs

end StardustOS.Process
