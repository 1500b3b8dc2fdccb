import StardustOS.Lib.Run
import StardustOS.Process.Table
import Mathlib.Data.List.Perm.Lattice

/-!
# What the process calls can do

`CreateSpec`, `DestroySpec` and `ScheduleSpec` say which states
`proc_create`, `proc_destroy` and `schedule` can lead to, one constructor for
each way through the function.  Every later result about runs is a case
analysis of these.

`PidsOk` is what pids are for: no live process has pid 0, and no two have the
same.  The code gives out pids by counting, so it keeps this only as long as
the counter does not come back to a live pid (`FreshPid`).
-/

namespace StardustOS.Process

open Lib

/-- A call of `proc.c`. -/
inductive ProcCall where
  | procCreate (parent : Option Nat) (name : List UInt8) (isuser : Int)
  | procDestroy (p : Nat)
  | procSigenter (p : Nat) (signum : UInt8) (data : Option (List UInt8))
  | procSigleave (p : Nat)
  | schedule
  | processesCleanup
deriving DecidableEq, Repr

namespace Procs

variable {κ : Type*} (K : Kernel κ)

/-- One call. -/
def step (s : Procs κ) : ProcCall → Option (Procs κ)
  | .procCreate parent name isuser => (s.procCreate K parent name isuser).map Prod.snd
  | .procDestroy p => s.procDestroy K p
  | .procSigenter p signum data => (s.procSigenter K p signum data).map Prod.snd
  | .procSigleave p => (s.procSigleave p).map Prod.snd
  | .schedule => s.schedule
  | .processesCleanup => s.processesCleanup K

variable {K} {s s' : Procs κ}

/-! ## `proc_create` -/

/-- The table, the counters and the current pid are the same. -/
structure SameTable (s s' : Procs κ) : Prop where
  processes : s'.processes = s.processes
  nextPid : s'.nextPid = s.nextPid
  currPid : s'.currPid = s.currPid
  procCount : s'.procCount = s.procCount

/-- `s'` is `s` with the list `l`, in front of which the new process `N` at `a`
was put. -/
structure Enrolled (s s' : Procs κ) (l : SList Proc) (a : Nat) (N : Proc) : Prop where
  fresh : a ∉ l.addrs
  processes : s'.processes = l.insertHead a N fresh
  nextPid : s'.nextPid = s.nextPid + 1
  procCount : s'.procCount = s.procCount + 1
  currPid : s'.currPid = if s.procCount + 1 = 1 ∧ s.currPid = 0 then s.nextPid else s.currPid
  id : N.id = s.nextPid
  status : N.status = .ready
  children : N.children = .empty

/-- What `proc_create` can do. -/
inductive CreateSpec (s : Procs κ) : Option Nat → Option Nat → Procs κ → Prop where
  | failed {parent : Option Nat} {s' : Procs κ} (same : SameTable s s') :
      CreateSpec s parent none s'
  | root {a : Nat} {N : Proc} {s' : Procs κ} (parent : N.parent = 0)
      (enrolled : Enrolled s s' s.processes a N) : CreateSpec s none (some a) s'
  | child {p i a : Nat} {P N : Proc} {c : Children} {s' : Procs κ}
      (mem : (p, P) ∈ s.processes.nodes) (claim : P.children.claim = some (i, c))
      (parent : N.parent = P.id)
      (enrolled :
        Enrolled s s' (s.processes.update p (Proc.onChildren fun _ => c.set i s.nextPid)) a N) :
      CreateSpec s (some p) (some a) s'

theorem enroll_enrolled (s : Procs κ) (par : Option Proc) (a : Nat) (name : List UInt8)
    (isuser : Int) (h : a ∉ s.processes.addrs) :
    ∃ N, N.parent = par.elim 0 Proc.id ∧
      Enrolled s (s.enroll K par a name isuser h) s.processes a N :=
  ⟨_, rfl, h, rfl, rfl, rfl, rfl, rfl, rfl, rfl⟩

/-- The ends of `proc_create`: there is no block, the parent has no slot, or the
process is put in the list. -/
theorem procCreate_cases {parent r : Option Nat} {name : List UInt8} {isuser : Int}
    (h : s.procCreate K parent name isuser = some (r, s')) :
    ((K.kmalloc s.kernel).1 = none ∧ r = none ∧
        s' = { s with kernel := (K.kmalloc s.kernel).2 }) ∨
      ∃ a, (K.kmalloc s.kernel).1 = some a ∧ ∃ fresh : a ∉ s.processes.addrs,
        (parent = none ∧ r = some a ∧
            s' = enroll K { s with kernel := (K.kmalloc s.kernel).2 } none a name isuser fresh) ∨
          ∃ p P, parent = some p ∧ s.processes.get? p = some P ∧
            (P.children.claim = none ∧ r = none ∧
                s' = { s with errno := -ECHILD, kernel := K.kfree a (K.kmalloc s.kernel).2 } ∨
              ∃ i c fresh', P.children.claim = some (i, c) ∧ r = some a ∧
                s' = (adopt { s with kernel := (K.kmalloc s.kernel).2 } p i c).enroll K (some P) a
                  name isuser fresh') := by
  obtain ⟨block, kernel, hk⟩ : ∃ block kernel, K.kmalloc s.kernel = (block, kernel) := ⟨_, _, rfl⟩
  rw [hk]
  cases block with
  | none =>
      simp only [procCreate, hk, Option.some.injEq, Prod.mk.injEq] at h
      exact Or.inl ⟨rfl, h.1.symm, h.2.symm⟩
  | some a =>
      refine Or.inr ⟨a, rfl, ?_⟩
      by_cases ha : a ∈ s.processes.addrs
      · simp only [procCreate, hk, ha, ↓reduceDIte, reduceCtorEq] at h
      · refine ⟨ha, ?_⟩
        cases parent with
        | none =>
            simp only [procCreate, hk, ha, ↓reduceDIte, Option.some.injEq, Prod.mk.injEq] at h
            exact Or.inl ⟨rfl, h.1.symm, h.2.symm⟩
        | some p =>
            refine Or.inr ⟨p, ?_⟩
            cases hp : s.processes.get? p with
            | none => simp only [procCreate, hk, ha, hp, ↓reduceDIte, reduceCtorEq] at h
            | some P =>
                refine ⟨P, rfl, rfl, ?_⟩
                cases hc : P.children.claim with
                | none =>
                    simp only [procCreate, hk, ha, hp, hc, ↓reduceDIte, Option.some.injEq,
                      Prod.mk.injEq] at h
                    exact Or.inl ⟨rfl, h.1.symm, h.2.symm⟩
                | some ic =>
                    simp only [procCreate, hk, ha, hp, hc, ↓reduceDIte, Option.some.injEq,
                      Prod.mk.injEq] at h
                    exact Or.inr ⟨ic.1, ic.2, by rwa [addrs_adopt], rfl, h.1.symm, h.2.symm⟩

theorem procCreate_spec {parent r : Option Nat} {name : List UInt8} {isuser : Int}
    (h : s.procCreate K parent name isuser = some (r, s')) : CreateSpec s parent r s' := by
  obtain ⟨-, rfl, rfl⟩ | ⟨a, -, fresh, ⟨rfl, rfl, rfl⟩ | ⟨p, P, rfl, hp, hend⟩⟩ :=
    procCreate_cases h
  · exact .failed ⟨rfl, rfl, rfl, rfl⟩
  · obtain ⟨N, hN, he⟩ := enroll_enrolled (K := K)
      { s with kernel := (K.kmalloc s.kernel).2 } none a name isuser fresh
    exact .root hN ⟨he.fresh, he.processes, he.nextPid, he.procCount, he.currPid, he.id,
      he.status, he.children⟩
  · obtain ⟨-, rfl, rfl⟩ | ⟨i, c, fresh', hc, rfl, rfl⟩ := hend
    · exact .failed ⟨rfl, rfl, rfl, rfl⟩
    · obtain ⟨N, hN, he⟩ := enroll_enrolled (K := K)
        (adopt { s with kernel := (K.kmalloc s.kernel).2 } p i c) (some P) a name isuser fresh'
      exact .child (SList.get?_eq_some.mp hp) hc hN ⟨he.fresh, he.processes, he.nextPid,
        he.procCount, he.currPid, he.id, he.status, he.children⟩

/-- `kmalloc` returns no block that is in use. -/
def KmallocOk (K : Kernel κ) (s : Procs κ) : Prop :=
  ∀ a ∈ (K.kmalloc s.kernel).1, a ∉ s.processes.addrs

instance : Decidable (KmallocOk K s) :=
  inferInstanceAs (Decidable (∀ a ∈ (K.kmalloc s.kernel).1, a ∉ s.processes.addrs))

/-- The parent is in the table, or there is none. -/
def LiveParent (s : Procs κ) (parent : Option Nat) : Prop := ∀ p ∈ parent, p ∈ s.processes.addrs

instance {parent : Option Nat} : Decidable (LiveParent s parent) :=
  inferInstanceAs (Decidable (∀ p ∈ parent, p ∈ s.processes.addrs))

/-- With a block, a child is created unless its parent has no slot for it. -/
theorem procCreate_child {a p : Nat} {P : Proc} {kernel : κ}
    (hk : K.kmalloc s.kernel = (some a, kernel)) (ha : a ∉ s.processes.addrs)
    (hp : (p, P) ∈ s.processes.nodes) (name : List UInt8) (isuser : Int) :
    ∃ r s', s.procCreate K (some p) name isuser = some (r, s') ∧
      (r = none ↔ P.children.claim = none) := by
  have hget : s.processes.get? p = some P := SList.get?_eq_some.mpr hp
  cases hc : P.children.claim with
  | none => exact ⟨_, _, by simp only [procCreate, hk, ha, hget, hc, ↓reduceDIte]; rfl, by simp⟩
  | some ic => exact ⟨_, _, by simp only [procCreate, hk, ha, hget, hc, ↓reduceDIte]; rfl, by simp⟩

theorem procCreate_defined {parent : Option Nat} (hk : KmallocOk K s)
    (hp : LiveParent s parent) (name : List UInt8) (isuser : Int) :
    ∃ r s', s.procCreate K parent name isuser = some (r, s') := by
  cases hm : K.kmalloc s.kernel with
  | mk block kernel =>
  cases block with
  | none => exact ⟨_, _, by simp only [procCreate, hm]; rfl⟩
  | some a =>
      have ha : a ∉ s.processes.addrs := hk a (by rw [hm]; rfl)
      cases parent with
      | none => exact ⟨_, _, by simp only [procCreate, hm, ha, ↓reduceDIte]; rfl⟩
      | some p =>
          obtain ⟨⟨p', P⟩, hP, rfl⟩ := List.mem_map.mp (hp p rfl)
          obtain ⟨r, s', h, -⟩ := procCreate_child hm ha hP name isuser
          exact ⟨r, s', h⟩

/-- A process is created only in a block that `kmalloc` found. -/
theorem procCreate_block {parent r : Option Nat} {name : List UInt8} {isuser : Int}
    (h : s.procCreate K parent name isuser = some (r, s')) (hr : r ≠ none) :
    (K.kmalloc s.kernel).1 ≠ none := by
  intro hm
  obtain ⟨-, hnone, -⟩ | ⟨a, ha, -⟩ := procCreate_cases h
  · exact hr hnone
  · cases hm.symm.trans ha

/-! ## `proc_destroy` -/

/-- What `proc_destroy` can do to the table: the process leaves it, after its
parent, if it has one, forgot it. -/
inductive DestroySpec (s : Procs κ) (p : Nat) (s' : Procs κ) : Prop where
  | root {P : Proc} (mem : (p, P) ∈ s.processes.nodes) (noParent : P.parent = 0)
      (same : SameTable { s with
        processes := s.processes.remove p, procCount := s.procCount - 1 } s')
  | child {q : Nat} {P Q : Proc} (mem : (p, P) ∈ s.processes.nodes) (parent : P.parent ≠ 0)
      (frompid : s.processFrompid P.parent = some (q, Q))
      (same : SameTable { s with
        processes := (s.processes.update q (Proc.onChildren fun c => c.drop P.id)).remove p
        procCount := s.procCount - 1 } s')

/-- A process without a parent is in no child array. -/
theorem disown_cases {P : Proc} {l : SList Proc} (h : s.disown P = some l) :
    (P.parent = 0 ∧ l = s.processes) ∨
      P.parent ≠ 0 ∧ ∃ q Q, s.processFrompid P.parent = some (q, Q) ∧
        l = s.processes.update q (Proc.onChildren fun c => c.drop P.id) := by
  by_cases h0 : P.parent = 0
  · rw [disown, if_neg (not_not_intro h0)] at h
    exact Or.inl ⟨h0, (Option.some.inj h).symm⟩
  · rw [disown, if_pos h0] at h
    cases hq : s.processFrompid P.parent with
    | none =>
        rw [hq] at h
        cases h
    | some q =>
        rw [hq] at h
        exact Or.inr ⟨h0, q.1, q.2, rfl, (Option.some.inj h).symm⟩

theorem procDestroy_cases {p : Nat} (h : s.procDestroy K p = some s') :
    ∃ P l, s.processes.get? p = some P ∧ s.disown P = some l ∧
      s' = { s with
        processes := l.remove p
        procCount := s.procCount - 1
        kernel := K.kfree p (if P.regs.cr3 ≠ K.krnlPgdir
          then K.memFreePgdir P.regs.cr3 (closeFiles K P s.kernel)
          else closeFiles K P s.kernel) } := by
  cases hp : s.processes.get? p with
  | none => simp only [procDestroy, hp, reduceCtorEq] at h
  | some P =>
      cases hl : s.disown P with
      | none => simp only [procDestroy, hp, hl, reduceCtorEq] at h
      | some l =>
          simp only [procDestroy, hp, hl, Option.some.injEq] at h
          exact ⟨P, l, rfl, hl, h.symm⟩

theorem procDestroy_spec {p : Nat} (h : s.procDestroy K p = some s') : DestroySpec s p s' := by
  obtain ⟨P, l, hp, hl, rfl⟩ := procDestroy_cases h
  have hmem := SList.get?_eq_some.mp hp
  obtain ⟨h0, rfl⟩ | ⟨h0, q, Q, hq, rfl⟩ := disown_cases hl
  · exact .root hmem h0 ⟨rfl, rfl, rfl, rfl⟩
  · exact .child hmem h0 hq ⟨rfl, rfl, rfl, rfl⟩

/-- The process was in the table, and is not counted any more. -/
theorem DestroySpec.mem {p : Nat} (h : DestroySpec s p s') :
    ∃ P, (p, P) ∈ s.processes.nodes ∧ s'.procCount = s.procCount - 1 := by
  cases h with
  | root mem noParent same => exact ⟨_, mem, same.procCount⟩
  | child mem parent frompid same => exact ⟨_, mem, same.procCount⟩

/-- The parent of the process is in the table, or it has none. -/
def ParentOk (s : Procs κ) (P : Proc) : Prop :=
  P.parent = 0 ∨ ∃ n ∈ s.processes.nodes, n.2.id = P.parent

instance {P : Proc} : Decidable (ParentOk s P) :=
  inferInstanceAs (Decidable (P.parent = 0 ∨ ∃ n ∈ s.processes.nodes, n.2.id = P.parent))

theorem disown_defined {P : Proc} (hpar : ParentOk s P) : ∃ l, s.disown P = some l := by
  by_cases h0 : P.parent = 0
  · exact ⟨s.processes, by simp [disown, h0]⟩
  · obtain ⟨n, hn, hid⟩ := hpar.resolve_left h0
    cases hq : s.processFrompid P.parent with
    | none => simpa [hid] using SList.find?_eq_none.mp hq n hn
    | some q => exact ⟨_, by simp only [disown, h0, ne_eq, not_false_eq_true, ↓reduceIte, hq]; rfl⟩

theorem procDestroy_defined (K : Kernel κ) {p : Nat} {P : Proc}
    (hmem : (p, P) ∈ s.processes.nodes) (hpar : ParentOk s P) :
    ∃ s', s.procDestroy K p = some s' := by
  obtain ⟨l, hl⟩ := disown_defined hpar
  exact ⟨_, by simp only [procDestroy, SList.get?_eq_some.mpr hmem, hl]; rfl⟩

/-! ## The current pid -/

/-- Only the first process there is becomes the current one, and only while
`curr_pid` is 0. -/
theorem Enrolled.currPid_cases {l : SList Proc} {b : Nat} {N : Proc} (he : Enrolled s s' l b N) :
    s'.currPid = s.currPid ∨ (s'.currPid = s.nextPid ∧ s.procCount = 0 ∧ s.currPid = 0) := by
  rw [he.currPid]
  split
  · rename_i h
    exact Or.inr ⟨rfl, Nat.succ.inj h.1, h.2⟩
  · exact Or.inl rfl

theorem CreateSpec.currPid_cases {parent r : Option Nat} (h : CreateSpec s parent r s') :
    s'.currPid = s.currPid ∨
      (r ≠ none ∧ s'.currPid = s.nextPid ∧ s.procCount = 0 ∧ s.currPid = 0) := by
  cases h with
  | failed same => exact Or.inl same.currPid
  | root parent enrolled => exact enrolled.currPid_cases.imp_right fun h => ⟨by simp, h⟩
  | child mem claim parent enrolled =>
      exact enrolled.currPid_cases.imp_right fun h => ⟨by simp, h⟩

theorem DestroySpec.currPid {p : Nat} (h : DestroySpec s p s') : s'.currPid = s.currPid := by
  cases h with
  | root mem noParent same => exact same.currPid
  | child mem parent frompid same => exact same.currPid

/-! ## Signals -/

/-- What `proc_sigenter` and `proc_sigleave` can do to the table: changes of the
process, or none. -/
inductive SignalSpec (s : Procs κ) (p : Nat) (s' : Procs κ) : Prop where
  | refused (processes : s'.processes = s.processes)
  | killed (processes : s'.processes = s.processes.update p Proc.killed)
  | entered (signum : UInt8)
      (processes : s'.processes = s.processes.update p (Proc.signaled signum))
  | pushed (signum : UInt8) (esp : UInt32)
      (processes : s'.processes =
        (s.processes.update p (Proc.signaled signum)).update p (Proc.withEsp esp))
  | left (processes : s'.processes = s.processes.update p Proc.unsignaled)

theorem procSigenter_spec {p : Nat} {signum : UInt8} {data : Option (List UInt8)} {r : Int}
    (h : s.procSigenter K p signum data = some (r, s')) : SignalSpec s p s' := by
  cases hp : s.processes.get? p with
  | none => simp [procSigenter, hp] at h
  | some P =>
      simp only [procSigenter, hp] at h
      split at h
      · obtain ⟨-, rfl⟩ := Prod.mk.inj (Option.some.inj h)
        exact .refused rfl
      · split at h
        · split at h
          · obtain ⟨-, rfl⟩ := Prod.mk.inj (Option.some.inj h)
            exact .killed rfl
          · obtain ⟨-, rfl⟩ := Prod.mk.inj (Option.some.inj h)
            exact .refused rfl
        · split at h
          · obtain ⟨-, rfl⟩ := Prod.mk.inj (Option.some.inj h)
            exact .pushed signum _ rfl
          · obtain ⟨-, rfl⟩ := Prod.mk.inj (Option.some.inj h)
            exact .entered signum rfl

theorem procSigleave_spec {p : Nat} {r : Int} (h : s.procSigleave p = some (r, s')) :
    SignalSpec s p s' := by
  cases hp : s.processes.get? p with
  | none => simp [procSigleave, hp] at h
  | some P =>
      simp only [procSigleave, hp] at h
      split at h
      · obtain ⟨-, rfl⟩ := Prod.mk.inj (Option.some.inj h)
        exact .refused rfl
      · obtain ⟨-, rfl⟩ := Prod.mk.inj (Option.some.inj h)
        exact .left rfl

/-- The counters and the static data are the same, whatever became of the list. -/
theorem procSigenter_frame {p : Nat} {signum : UInt8} {data : Option (List UInt8)} {r : Int}
    (h : s.procSigenter K p signum data = some (r, s')) :
    ∃ l kernel, s' = { s with processes := l, kernel := kernel } := by
  cases hp : s.processes.get? p with
  | none => simp [procSigenter, hp] at h
  | some P =>
      simp only [procSigenter, hp] at h
      split at h
      · exact ⟨_, _, (Prod.mk.inj (Option.some.inj h)).2.symm⟩
      · split at h
        · split at h
          · exact ⟨_, _, (Prod.mk.inj (Option.some.inj h)).2.symm⟩
          · exact ⟨_, _, (Prod.mk.inj (Option.some.inj h)).2.symm⟩
        · split at h
          · exact ⟨_, _, (Prod.mk.inj (Option.some.inj h)).2.symm⟩
          · exact ⟨_, _, (Prod.mk.inj (Option.some.inj h)).2.symm⟩

theorem procSigleave_frame {p : Nat} {r : Int} (h : s.procSigleave p = some (r, s')) :
    ∃ l kernel, s' = { s with processes := l, kernel := kernel } := by
  cases hp : s.processes.get? p with
  | none => simp [procSigleave, hp] at h
  | some P =>
      simp only [procSigleave, hp] at h
      split at h
      · exact ⟨_, _, (Prod.mk.inj (Option.some.inj h)).2.symm⟩
      · exact ⟨_, _, (Prod.mk.inj (Option.some.inj h)).2.symm⟩

/-- A signal writes neither the pid nor the parent of a process. -/
theorem SignalSpec.links {p : Nat} (h : SignalSpec s p s') :
    s'.processes.contents.map (fun P => (P.id, P.parent)) =
      s.processes.contents.map fun P => (P.id, P.parent) := by
  cases h with
  | refused processes => rw [processes]
  | killed processes =>
      rw [processes, SList.map_contents_update (f := Proc.killed) fun _ => rfl]
  | entered signum processes =>
      rw [processes, SList.map_contents_update (f := Proc.signaled signum) fun _ => rfl]
  | pushed signum esp processes =>
      rw [processes, SList.map_contents_update (f := Proc.withEsp esp) fun _ => rfl,
        SList.map_contents_update (f := Proc.signaled signum) fun _ => rfl]
  | left processes =>
      rw [processes, SList.map_contents_update (f := Proc.unsignaled) fun _ => rfl]

theorem procSigenter_defined {p : Nat} (hp : p ∈ s.processes.addrs) (signum : UInt8)
    (data : Option (List UInt8)) : ∃ r s', s.procSigenter K p signum data = some (r, s') := by
  obtain ⟨⟨p, P⟩, hP, rfl⟩ := List.mem_map.mp hp
  simp only [procSigenter, SList.get?_eq_some.mpr hP]
  split
  · exact ⟨_, _, rfl⟩
  · split
    · split
      · exact ⟨_, _, rfl⟩
      · exact ⟨_, _, rfl⟩
    · split
      · exact ⟨_, _, rfl⟩
      · exact ⟨_, _, rfl⟩

theorem procSigleave_defined {p : Nat} (hp : p ∈ s.processes.addrs) :
    ∃ r s', s.procSigleave p = some (r, s') := by
  obtain ⟨⟨p, P⟩, hP, rfl⟩ := List.mem_map.mp hp
  simp only [procSigleave, SList.get?_eq_some.mpr hP]
  split
  · exact ⟨_, _, rfl⟩
  · exact ⟨_, _, rfl⟩

/-! ## `processes_cleanup` -/

/-- What every `proc_destroy` keeps, `processes_cleanup` keeps. -/
theorem cleanupFrom_inv {I : Procs κ → Prop}
    (hstep : ∀ s s' p, I s → s.procDestroy K p = some s' → I s') (rest : List (Nat × Proc))
    {s s' : Procs κ} (hs : I s) (h : cleanupFrom K rest s = some s') : I s' := by
  induction rest generalizing s with
  | nil =>
      obtain rfl : s = s' := Option.some.inj h
      exact hs
  | cons n rest ih =>
      obtain ⟨a, P⟩ := n
      by_cases hP : P.status = .zombie
      · rw [cleanupFrom, if_pos hP] at h
        obtain ⟨t, ht, hrest⟩ := Option.bind_eq_some_iff.mp h
        exact ih (hstep s t a hs ht) hrest
      · rw [cleanupFrom, if_neg hP] at h
        exact ih hs h

/-! ## `schedule` -/

/-- What `schedule` can do: nothing, or a switch from the current process to
the next. -/
inductive ScheduleSpec (s : Procs κ) : Procs κ → Prop where
  | idle (stuck : s.procCount = 0 ∨ s.processFrompid s.currPid = none) : ScheduleSpec s s
  | switched {c n : Nat} {C N : Proc} (curr : s.processFrompid s.currPid = some (c, C))
      (next : s.processNext = some (n, N)) : ScheduleSpec s (s.switch c n N)

theorem schedule_spec (h : s.schedule = some s') : ScheduleSpec s s' := by
  by_cases h0 : s.procCount = 0
  · obtain rfl : s = s' := by simpa [schedule, h0] using h
    exact .idle (Or.inl h0)
  · cases hc : s.processFrompid s.currPid with
    | none =>
        obtain rfl : s = s' := by simpa [schedule, h0, hc] using h
        exact .idle (Or.inr hc)
    | some cC =>
        cases hn : s.processNext with
        | none => simp [schedule, h0, hc, hn] at h
        | some nN =>
            obtain rfl : s.switch cC.1 nN.1 nN.2 = s' := by
              simpa [schedule, h0, hc, hn] using h
            exact .switched hc hn

theorem processNext_mem {n : Nat × Proc} (h : s.processNext = some n) :
    n ∈ s.processes.nodes := by
  unfold processNext at h
  split at h
  · cases h
  · split at h
    · cases h
    · split at h
      · exact SList.first?_mem h
      · split at h
        · obtain rfl := Option.some.inj h
          exact SList.next?_mem ‹_›
        · exact SList.first?_mem h

/-- With a live current process there is a next one. -/
theorem processNext_isSome {c : Nat × Proc} (h0 : s.procCount ≠ 0) (hpid : s.currPid ≠ 0)
    (hc : s.processFrompid s.currPid = some c) : ∃ n, s.processNext = some n := by
  simp only [processNext, h0, hpid, ↓reduceIte, hc]
  cases hn : s.processes.next? c.1 with
  | some n => exact ⟨n, rfl⟩
  | none =>
      exact Option.isSome_iff_exists.mp
        (SList.first?_isSome (List.ne_nil_of_mem (SList.find?_mem hc).1))

/-! ## Pids -/

/-- The pids of the live processes. -/
def pids (s : Procs κ) : List UInt32 := s.processes.contents.map Proc.id

/-- Pids are distinct and not 0, and `proc_count` counts the processes. -/
structure PidsOk (s : Procs κ) : Prop where
  nodup : s.pids.Nodup
  nonzero : 0 ∉ s.pids
  count : s.procCount = s.pids.length

/-- The next pid is neither 0 nor that of a live process. -/
def FreshPid (s : Procs κ) : Prop := s.nextPid ≠ 0 ∧ s.nextPid ∉ s.pids

instance : Decidable (FreshPid s) :=
  inferInstanceAs (Decidable (s.nextPid ≠ 0 ∧ s.nextPid ∉ s.pids))

theorem boot_pidsOk (cpu : ProcRegs) (fpu : List UInt8) (kernel : κ) :
    PidsOk (boot cpu fpu kernel) :=
  ⟨List.nodup_nil, List.not_mem_nil, rfl⟩

theorem mem_pids {pid : UInt32} : pid ∈ s.pids ↔ ∃ n ∈ s.processes.nodes, n.2.id = pid := by
  simp [pids, SList.contents]

theorem pids_eq_nil : s.pids = [] ↔ s.processes.nodes = [] := by
  simp [pids, SList.contents]

theorem processFrompid_mem {pid : UInt32} {n : Nat × Proc}
    (h : s.processFrompid pid = some n) : n ∈ s.processes.nodes ∧ n.2.id = pid := by
  simpa using SList.find?_mem h

theorem processFrompid_of_mem_pids {pid : UInt32} (h : pid ∈ s.pids) :
    ∃ n, s.processFrompid pid = some n := by
  obtain ⟨n, hn, hid⟩ := mem_pids.mp h
  cases hf : s.processFrompid pid with
  | none => simpa [hid] using SList.find?_eq_none.mp hf n hn
  | some m => exact ⟨m, rfl⟩

namespace PidsOk

/-- A pid belongs to one process. -/
theorem inj (h : PidsOk s) {n m : Nat × Proc} (hn : n ∈ s.processes.nodes)
    (hm : m ∈ s.processes.nodes) (hid : n.2.id = m.2.id) : n = m := by
  have hd : (s.processes.nodes.map fun n => n.2.id).Nodup := by
    simpa [pids, SList.contents, List.map_map, Function.comp_def] using h.nodup
  exact List.inj_on_of_nodup_map hd hn hm hid

theorem id_ne_zero (h : PidsOk s) {n : Nat × Proc} (hn : n ∈ s.processes.nodes) : n.2.id ≠ 0 :=
  fun h0 => h.nonzero (mem_pids.mpr ⟨n, hn, h0⟩)

/-- `process_frompid` finds every live process. -/
theorem processFrompid_eq (h : PidsOk s) {a : Nat} {P : Proc}
    (hP : (a, P) ∈ s.processes.nodes) : s.processFrompid P.id = some (a, P) :=
  SList.find?_eq_some hP (by simp) fun n hn hid => h.inj hn hP (by simpa using hid)

end PidsOk

/-! The pids after a call. -/

theorem pids_onChildren (s : Procs κ) (a : Nat) (f : Children → Children) :
    (s.processes.update a (Proc.onChildren f)).contents.map Proc.id = s.pids :=
  SList.map_contents_update (Proc.onChildren_id f) a

theorem SameTable.pids (h : SameTable s s') : s'.pids = s.pids := by
  rw [Procs.pids, h.processes, Procs.pids]

theorem Enrolled.pids {l : SList Proc} {a : Nat} {N : Proc} (h : Enrolled s s' l a N) :
    s'.pids = s.nextPid :: l.contents.map Proc.id := by
  rw [Procs.pids, h.processes, SList.contents_insertHead, List.map_cons, h.id]

theorem CreateSpec.pids {parent : Option Nat} {a : Nat} (h : CreateSpec s parent (some a) s') :
    s'.pids = s.nextPid :: s.pids := by
  cases h with
  | root parent enrolled => exact enrolled.pids
  | child mem claim parent enrolled => rw [enrolled.pids, pids_onChildren]

theorem CreateSpec.procCount {parent : Option Nat} {a : Nat}
    (h : CreateSpec s parent (some a) s') : s'.procCount = s.procCount + 1 := by
  cases h with
  | root parent enrolled => exact enrolled.procCount
  | child mem claim parent enrolled => exact enrolled.procCount

/-- The process that is destroyed, and no other, loses its pid. -/
theorem DestroySpec.pids {p : Nat} {P : Proc} (h : DestroySpec s p s')
    (hP : (p, P) ∈ s.processes.nodes) : s.pids.Perm (P.id :: s'.pids) := by
  cases h with
  | @root P' mem noParent same =>
      obtain rfl : P = P' := SList.unique hP mem
      rw [same.pids]
      exact (SList.perm_contents_remove mem).map Proc.id
  | @child q P' Q mem parent frompid same =>
      obtain rfl : P = P' := SList.unique hP mem
      have hmem := SList.mem_update (f := Proc.onChildren fun c => c.drop P.id) (a := q) |>.mpr
        ⟨P, mem, rfl⟩
      have hperm := (SList.perm_contents_remove hmem).map Proc.id
      rw [pids_onChildren, List.map_cons, apply_ite Proc.id, Proc.onChildren_id, ite_self] at hperm
      rwa [same.pids]

theorem SignalSpec.pids {p : Nat} (h : SignalSpec s p s') : s'.pids = s.pids := by
  simpa [Procs.pids, List.map_map, Function.comp_def] using congrArg (List.map Prod.fst) h.links

theorem pids_switch (s : Procs κ) (c n : Nat) (N : Proc) : (s.switch c n N).pids = s.pids :=
  (SList.map_contents_update Proc.started_id n).trans
    (SList.map_contents_update (Proc.stopped_id s.fpu s.cpu) c)

/-! What keeps `PidsOk`. -/

theorem CreateSpec.count {parent r : Option Nat} (h : CreateSpec s parent r s')
    (hs : s.procCount = s.pids.length) : s'.procCount = s'.pids.length := by
  cases r with
  | none =>
      cases h with
      | failed same => rw [same.procCount, same.pids, hs]
  | some a => rw [h.procCount, h.pids, hs, List.length_cons]

theorem CreateSpec.pidsOk {parent r : Option Nat} (h : CreateSpec s parent r s')
    (hs : PidsOk s) (hfresh : r ≠ none → FreshPid s) : PidsOk s' := by
  cases r with
  | none =>
      refine ⟨?_, ?_, h.count hs.count⟩
      · cases h with
        | failed same => exact same.pids ▸ hs.nodup
      · cases h with
        | failed same => exact same.pids ▸ hs.nonzero
  | some a =>
      obtain ⟨h0, hnew⟩ := hfresh (by simp)
      refine ⟨?_, ?_, h.count hs.count⟩
      · rw [h.pids]
        exact List.nodup_cons.mpr ⟨hnew, hs.nodup⟩
      · rw [h.pids, List.mem_cons, not_or]
        exact ⟨h0.symm, hs.nonzero⟩

theorem DestroySpec.count {p : Nat} (h : DestroySpec s p s') (hs : s.procCount = s.pids.length) :
    s'.procCount = s'.pids.length := by
  obtain ⟨P, hP, hcount⟩ := h.mem
  rw [hcount, hs, (h.pids hP).length_eq, List.length_cons, Nat.add_sub_cancel]

theorem DestroySpec.pidsOk {p : Nat} (h : DestroySpec s p s') (hs : PidsOk s) : PidsOk s' := by
  obtain ⟨P, hP, -⟩ := h.mem
  have hperm := h.pids hP
  refine ⟨(List.nodup_cons.mp (hperm.nodup hs.nodup)).2, ?_, h.count hs.count⟩
  intro h0
  exact hs.nonzero (hperm.mem_iff.mpr (List.mem_cons_of_mem _ h0))

theorem pidsOk_switch {c n : Nat} {N : Proc} (hs : PidsOk s) : PidsOk (s.switch c n N) :=
  ⟨s.pids_switch c n N ▸ hs.nodup, s.pids_switch c n N ▸ hs.nonzero,
    s.pids_switch c n N ▸ hs.count⟩

/-! ## A small machine -/

/-- The kernel of a small machine, with its directory in frame 1. -/
def small : Kernel (Nat × Mem.Memory) := Kernel.onMemory ⟨1, 2⟩

/-- The small machine before any process is created. -/
def smallBoot : Procs (Nat × Mem.Memory) := boot {} [] (0x100000, Mem.booted)

end Procs

end StardustOS.Process
