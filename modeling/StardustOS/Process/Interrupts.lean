import StardustOS.Process.ExecTrace

/-!
# The interrupt flag

`proc_create`, `proc_destroy` and `proc_exec` run with interrupts disabled and put
the flag back before they return.  The flags to put back are what `irq_disable`
returns, and it has no `return`: its callers get what is left in a register.

The calls are those of `Procs` with the flag beside the state.  `restoresFlag_iff`
says that a call and the calls within it leave the flag as it was, if `irq_disable`
yields the flag wherever it is called, and only then.
-/

namespace StardustOS.Process

open Lib Libfile Mem

/-- The interrupt flag, the number of calls of `irq_disable`, and the flag at the
entry and at the return of each call that returned, the last one first. -/
structure Irq where
  flag : Bool
  count : Nat
  log : List (Bool × Bool)
deriving DecidableEq

namespace Irq

variable (yields : Nat → Bool → Bool) (w : Irq)

/-- `irq_disable`.  Each call yields something of its own. -/
def disable : Bool × Irq :=
  let (flags, flag) := irqDisable (yields w.count) w.flag
  (flags, { w with flag := flag, count := w.count + 1 })

/-- `irq_restore`. -/
def restore (flags : Bool) : Irq := { w with flag := irqRestore flags }

/-- A call returns that was entered with the flag `entry`. -/
def returned (entry : Bool) : Irq := { w with log := (entry, w.flag) :: w.log }

/-- Interrupts were disabled and restored. -/
def masked : Irq := ⟨yields w.count w.flag, w.count + 1, w.log⟩

/-- Every call that returned left the flag as it was. -/
def Restored : Prop := ∀ call ∈ w.log, call.2 = call.1

end Irq

namespace Procs

variable {κ : Type*} (K : Kernel κ) (L : Loader κ) (yields : Nat → Bool → Bool) (s : Procs κ)

/-! ## The functions -/

/-- The block of a new process stays fresh when its parent takes it on. -/
theorem fresh_adopt {s : Procs κ} {a p i : Nat} {c : Children} (h : a ∉ s.processes.addrs) :
    a ∉ (s.adopt p i c).processes.addrs := by rwa [addrs_adopt]

/-- `proc_create`, which returns NULL without a block before it disables anything. -/
def procCreateIrq (parent : Option Nat) (name : List UInt8) (isuser : Int) (w : Irq) :
    Option (Option Nat × Irq × Procs κ) :=
  match K.kmalloc s.kernel with
  | (none, kernel) => some (none, w.returned w.flag, { s with kernel := kernel })
  | (some a, kernel) =>
      let (irqflgs, v) := w.disable yields
      let s := { s with kernel := kernel }
      if h : a ∈ s.processes.addrs then none
      else
        match parent with
        | none =>
            some (some a, (v.restore irqflgs).returned w.flag, s.enroll K none a name isuser h)
        | some p =>
            match s.processes.get? p with
            | none => none
            | some P =>
                match P.children.claim with
                | none =>
                    some (none, (v.restore irqflgs).returned w.flag,
                      { s with errno := -ECHILD, kernel := K.kfree a s.kernel })
                | some (i, c) =>
                    some (some a, (v.restore irqflgs).returned w.flag,
                      (s.adopt p i c).enroll K (some P) a name isuser (fresh_adopt h))

/-- `proc_destroy`. -/
def procDestroyIrq (p : Nat) (w : Irq) : Option (Irq × Procs κ) :=
  let (irqflgs, v) := w.disable yields
  (s.procDestroy K p).map fun s => ((v.restore irqflgs).returned w.flag, s)

/-- `proc_exec`.  As for `procExec`, pushes of more than `PROC_STACKSIZE` bytes and a loadable
segment without a current process are `none`. -/
def procExecIrq (path : List UInt8) (argv : Option (List (List UInt8))) (w : Irq) :
    Option (ExecResult × Irq × Procs κ) :=
  let (eflags, v) := w.disable yields
  match execHeader L path s.kernel with
  | (.error r, kernel) =>
      some (.error r, (v.restore eflags).returned w.flag, { s with kernel := kernel })
  | (.ok (node, hdr), kernel) =>
      let s := { s with kernel := kernel }
      let curr := s.processCurr.map Prod.fst
      match s.procCreateIrq K yields curr path 1 v with
      | none => none
      | some (none, v, s) => some (.error s.errno, (v.restore eflags).returned w.flag, s)
      | some (some a, v, s) =>
          let id := (s.processes.get? a).elim 0 Proc.id
          let s := { s with processes := s.processes.update a (Proc.withEip hdr.entry) }
          -- The pushes would run out of the stack.
          if PROC_STACKSIZE < pushed argv then none
          else
            match pushAll K a (pushes argv) s with
            | none => none
            | some s =>
                match loadSegments K L curr a node hdr (List.range hdr.phnum.toNat) s with
                | none => none
                | some (r, s) =>
                    if r < 0 then
                      (s.procDestroyIrq K yields a v).map fun (v, s) =>
                        (.error r, (v.restore eflags).returned w.flag, s)
                    else some (.created a id, (v.restore eflags).returned w.flag, s)

/-- A call of one of them. -/
inductive IrqCall where
  | procCreate (parent : Option Nat) (name : List UInt8) (isuser : Int)
  | procDestroy (p : Nat)
  | procExec (path : List UInt8) (argv : Option (List (List UInt8)))

/-- One call. -/
def irqStep (w : Irq) : IrqCall → Option (Irq × Procs κ)
  | .procCreate parent name isuser =>
      (s.procCreateIrq K yields parent name isuser w).map Prod.snd
  | .procDestroy p => s.procDestroyIrq K yields p w
  | .procExec path argv => (s.procExecIrq K L yields path argv w).map Prod.snd

/-- Each `irq_disable` of a call yields the flag at that point.  Within `proc_exec` it
is cleared: `proc_create` disables interrupts again if there is a block for the
process, and `proc_destroy` if a segment could not be loaded. -/
def YieldsFlag (w : Irq) : IrqCall → Prop
  | .procCreate _ _ _ => (K.kmalloc s.kernel).1 ≠ none → yields w.count w.flag = w.flag
  | .procDestroy _ => yields w.count w.flag = w.flag
  | .procExec path argv =>
      yields w.count w.flag = w.flag ∧
        (∀ n kernel, execHeader L path s.kernel = (.ok n, kernel) →
          (K.kmalloc kernel).1 ≠ none → yields (w.count + 1) false = false) ∧
        ∀ node hdr kernel a t u v r, Ran K L s path argv node hdr kernel a t u v r → r < 0 →
          yields (w.count + 2) false = false

variable {K L yields s} {s' : Procs κ}

/-! ## What becomes of the flag -/

/-- `proc_create` disables interrupts if it gets a block. -/
def createIrq (K : Kernel κ) (yields : Nat → Bool → Bool) (kernel : κ) (w : Irq) : Irq :=
  (if (K.kmalloc kernel).1 = none then w else w.masked yields).returned w.flag

/-- The calls do what they do without the flag. -/
theorem procCreateIrq_eq (parent : Option Nat) (name : List UInt8) (isuser : Int) (w : Irq) :
    s.procCreateIrq K yields parent name isuser w =
      (s.procCreate K parent name isuser).map fun x =>
        (x.1, createIrq K yields s.kernel w, x.2) := by
  obtain ⟨block, kernel, hk⟩ : ∃ block kernel, K.kmalloc s.kernel = (block, kernel) := ⟨_, _, rfl⟩
  cases block with
  | none => simp [procCreateIrq, procCreate, createIrq, hk]
  | some a =>
      simp only [procCreateIrq, procCreate, createIrq, hk, reduceCtorEq, ↓reduceIte]
      split
      · rfl
      · cases parent with
        | none => rfl
        | some p =>
            dsimp only
            cases s.processes.get? p with
            | none => rfl
            | some P =>
                dsimp only
                cases P.children.claim with
                | none => rfl
                | some ic => rfl

theorem procDestroyIrq_eq (p : Nat) (w : Irq) :
    s.procDestroyIrq K yields p w =
      (s.procDestroy K p).map fun s => ((w.masked yields).returned w.flag, s) := rfl

/-- The flag after `proc_exec`, and after the calls in it, that found it as in `v`. -/
def execIrq (yields : Nat → Bool → Bool) (w v : Irq) : Irq :=
  { v with flag := yields w.count w.flag }.returned w.flag

/-- The state in which the calls within `proc_exec` find the flag. -/
def cleared (w : Irq) : Irq := ⟨false, w.count + 1, w.log⟩

/-- `proc_exec` does what it does without the calls in it, and leaves the flag that
its own `irq_disable` yields. -/
theorem procExecIrq_eq (path : List UInt8) (argv : Option (List (List UInt8))) (w : Irq) :
    (s.procExecIrq K L yields path argv w).map (fun x => (x.1, x.2.1.flag, x.2.2)) =
      s.procExecIntr K L (yields w.count) w.flag path argv := by
  cases hh : execHeader L path s.kernel with
  | mk header kernel =>
  cases header with
  | error r =>
      simp only [procExecIrq, procExecIntr, procExec, hh]
      rfl
  | ok n =>
      simp only [procExecIrq, procExecIntr, procExec, hh, procCreateIrq_eq]
      cases ({ s with kernel := kernel } : Procs κ).procCreate K
          (processCurr { s with kernel := kernel } |>.map Prod.fst) path 1 with
      | none => rfl
      | some x =>
          obtain ⟨block, t⟩ := x
          cases block with
          | none => rfl
          | some a =>
              simp only [Option.map_some]
              split
              · rfl
              · cases pushAll K a (pushes argv)
                    { t with processes := t.processes.update a (Proc.withEip n.2.entry) } with
                | none => rfl
                | some u =>
                    dsimp only
                    cases loadSegments K L
                        (processCurr { s with kernel := kernel } |>.map Prod.fst) a n.1 n.2
                        (List.range n.2.phnum.toNat) u with
                    | none => rfl
                    | some x =>
                        dsimp only
                        split
                        · simp only [procDestroyIrq_eq, Option.map_map]
                          rfl
                        · rfl

/-- `proc_exec` returns before there is a process, or after `proc_create`, or after
`proc_destroy` besides. -/
theorem procExecIrq_cases {path : List UInt8} {argv : Option (List (List UInt8))} {w w' : Irq}
    {res : ExecResult} (h : s.procExecIrq K L yields path argv w = some (res, w', s')) :
    (∃ r kernel, execHeader L path s.kernel = (.error r, kernel) ∧
        w' = execIrq yields w (cleared w)) ∨
      (∃ n kernel, execHeader L path s.kernel = (.ok n, kernel) ∧
        ({ s with kernel := kernel } : Procs κ).procCreate K (s.processCurr.map Prod.fst) path 1 =
          some (none, s') ∧ w' = execIrq yields w (createIrq K yields kernel (cleared w))) ∨
      ∃ node hdr kernel a t u v r, Ran K L s path argv node hdr kernel a t u v r ∧
        (0 ≤ r ∧ w' = execIrq yields w (createIrq K yields kernel (cleared w)) ∨
          r < 0 ∧ w' = execIrq yields w
            (((createIrq K yields kernel (cleared w)).masked yields).returned
              (createIrq K yields kernel (cleared w)).flag)) := by
  cases hh : execHeader L path s.kernel with
  | mk header kernel =>
  cases header with
  | error r =>
      simp only [procExecIrq, hh, Option.some.injEq, Prod.mk.injEq] at h
      exact Or.inl ⟨r, kernel, rfl, h.2.1.symm⟩
  | ok n =>
      right
      have hcurr : ({ s with kernel := kernel } : Procs κ).processCurr = s.processCurr := rfl
      simp only [procExecIrq, hh, procCreateIrq_eq, hcurr] at h
      cases hcreate : ({ s with kernel := kernel } : Procs κ).procCreate K
          (s.processCurr.map Prod.fst) path 1 with
      | none => simp [hcreate] at h
      | some x =>
          obtain ⟨block, t⟩ := x
          rw [hcreate, Option.map_some] at h
          cases block with
          | none =>
              obtain ⟨-, hrest⟩ := Prod.mk.inj (Option.some.inj h)
              obtain ⟨rfl, rfl⟩ := Prod.mk.inj hrest
              exact Or.inl ⟨n, kernel, rfl, hcreate, rfl⟩
          | some a =>
              right
              dsimp only at h
              split at h
              · cases h
              · split at h
                · cases h
                · rename_i u hu
                  split at h
                  · cases h
                  · rename_i r v hv
                    refine ⟨n.1, n.2, kernel, a, t, u, v, r, ⟨hh, hcreate, hu, hv⟩, ?_⟩
                    split at h
                    · rename_i hneg
                      rw [procDestroyIrq_eq, Option.map_map] at h
                      obtain ⟨x, -, heq⟩ := Option.map_eq_some_iff.mp h
                      exact Or.inr ⟨hneg, (Prod.mk.inj (Prod.mk.inj heq).2).1.symm⟩
                    · rename_i hok
                      have heq := Prod.mk.inj (Option.some.inj h)
                      exact Or.inl ⟨Int.not_lt.mp hok, (Prod.mk.inj heq.2).1.symm⟩

/-! ## The calls that leave it as it was -/

theorem restored_returned {w : Irq} {entry : Bool} :
    (w.returned entry).Restored ↔ w.flag = entry ∧ w.Restored := by
  simp [Irq.Restored, Irq.returned]

theorem createIrq_flag {kernel : κ} {w : Irq} :
    (createIrq K yields kernel w).flag = w.flag ↔
      ((K.kmalloc kernel).1 ≠ none → yields w.count w.flag = w.flag) := by
  cases hk : (K.kmalloc kernel).1 with
  | none => simp [createIrq, hk, Irq.returned]
  | some a => simp [createIrq, hk, Irq.returned, Irq.masked]

theorem restored_createIrq {kernel : κ} {w : Irq} (hw : w.Restored) :
    (createIrq K yields kernel w).Restored ↔ (createIrq K yields kernel w).flag = w.flag := by
  have hcalls : (if (K.kmalloc kernel).1 = none then w else w.masked yields).Restored := by
    split
    · exact hw
    · exact hw
  exact restored_returned.trans (and_iff_left hcalls)

theorem restored_execIrq {w v : Irq} :
    (execIrq yields w v).Restored ↔ yields w.count w.flag = w.flag ∧ v.Restored := restored_returned

/-! ## The calls within `proc_exec` -/

section Reached

variable {path : List UInt8} {argv : Option (List (List UInt8))} {w : Irq} {kernel : κ}

/-- Without a header there are none. -/
theorem yieldsFlag_of_error {r : Int} (hh : execHeader L path s.kernel = (.error r, kernel)) :
    s.YieldsFlag K L yields w (.procExec path argv) ↔ yields w.count w.flag = w.flag := by
  refine and_iff_left ⟨?_, ?_⟩
  · intro n kernel' hh'
    cases hh.symm.trans hh'
  · intro node hdr kernel' a t u v r' hran
    cases hh.symm.trans hran.header

/-- A `proc_create` that returns NULL is the only one. -/
theorem yieldsFlag_of_refused {n : Nat × ElfHeader}
    (hh : execHeader L path s.kernel = (.ok n, kernel))
    (hcreate : ({ s with kernel := kernel } : Procs κ).procCreate K
      (s.processCurr.map Prod.fst) path 1 = some (none, s')) :
    s.YieldsFlag K L yields w (.procExec path argv) ↔ yields w.count w.flag = w.flag ∧
      ((K.kmalloc kernel).1 ≠ none → yields (w.count + 1) false = false) := by
  refine and_congr_right fun _ => ⟨fun hyields => hyields.1 n kernel hh, ?_⟩
  intro hyields
  refine ⟨?_, ?_⟩
  · intro n' kernel' hh' hk
    obtain ⟨-, rfl⟩ := Prod.mk.inj (hh.symm.trans hh')
    exact hyields hk
  · intro node hdr kernel' a t u v r hran
    obtain ⟨-, rfl⟩ := Prod.mk.inj (hh.symm.trans hran.header)
    cases (Prod.mk.inj (Option.some.inj (hcreate.symm.trans hran.create))).1

variable {node a : Nat} {hdr : ElfHeader} {t u v : Procs κ} {r : Int}

theorem Ran.block (h : Ran K L s path argv node hdr kernel a t u v r) :
    (K.kmalloc kernel).1 ≠ none := by
  obtain ⟨-, hnone, -⟩ | ⟨b, hb, -⟩ := procCreate_cases h.create
  · cases hnone
  · rw [hb]
    exact Option.some_ne_none b

/-- `proc_create`, and `proc_destroy` after a failed loop. -/
theorem yieldsFlag_of_ran (hran : Ran K L s path argv node hdr kernel a t u v r) :
    s.YieldsFlag K L yields w (.procExec path argv) ↔ yields w.count w.flag = w.flag ∧
      yields (w.count + 1) false = false ∧ (r < 0 → yields (w.count + 2) false = false) := by
  refine and_congr_right fun _ => and_congr ⟨?_, ?_⟩ ⟨?_, ?_⟩
  · exact fun hyields => hyields _ kernel hran.header hran.block
  · exact fun hyields _ _ _ _ => hyields
  · exact fun hyields => hyields node hdr kernel a t u v r hran
  · intro hyields node' hdr' kernel' a' t' u' v' r' hran' hneg
    obtain ⟨-, -, -, -, -, -, -, rfl⟩ := hran.unique hran'
    exact hyields hneg

/-- With a block, `proc_create` leaves what its `irq_disable` yields. -/
theorem createIrq_of_block (h : (K.kmalloc kernel).1 ≠ none) (v : Irq) :
    createIrq K yields kernel v = (v.masked yields).returned v.flag := by
  rw [createIrq, if_neg h]

/-- `proc_exec` and the calls in it. -/
theorem procExecIrq_restored {intr : Bool} {n : Nat} {w' : Irq} {res : ExecResult}
    (h : s.procExecIrq K L yields path argv ⟨intr, n, []⟩ = some (res, w', s')) :
    w'.Restored ↔ s.YieldsFlag K L yields ⟨intr, n, []⟩ (.procExec path argv) := by
  have hempty : (cleared ⟨intr, n, []⟩).Restored := by simp [Irq.Restored, cleared]
  obtain ⟨r, kernel, hh, rfl⟩ | ⟨m, kernel, hh, hcreate, rfl⟩ |
    ⟨node, hdr, kernel, a, t, u, v, r, hran, hend⟩ := procExecIrq_cases h
  · rw [yieldsFlag_of_error hh, restored_execIrq]
    exact and_iff_left hempty
  · rw [yieldsFlag_of_refused hh hcreate, restored_execIrq, restored_createIrq hempty,
      createIrq_flag]
    rfl
  · rw [yieldsFlag_of_ran hran]
    obtain ⟨hok, rfl⟩ | ⟨hneg, rfl⟩ := hend
    · rw [restored_execIrq, restored_createIrq hempty, createIrq_of_block hran.block]
      refine and_congr_right fun _ => (and_iff_left ?_).symm
      exact fun hneg => absurd hok (Int.not_le.mpr hneg)
    · rw [restored_execIrq, restored_returned, createIrq_of_block hran.block]
      refine and_congr_right fun _ => ?_
      let created : Irq := ((cleared ⟨intr, n, []⟩).masked yields).returned false
      have hcreated : created.Restored ↔ yields (n + 1) false = false :=
        restored_returned.trans (and_iff_left hempty)
      show yields (n + 2) (yields (n + 1) false) = yields (n + 1) false ∧ created.Restored ↔ _
      rw [hcreated]
      constructor
      · rintro ⟨hdestroy, hflag⟩
        rw [hflag] at hdestroy
        exact ⟨hflag, fun _ => hdestroy⟩
      · rintro ⟨hflag, hdestroy⟩
        rw [hflag]
        exact ⟨hdestroy hneg, rfl⟩

end Reached

/-- A call leaves the flag as it was, and so do the calls in it, if each
`irq_disable` that is reached yields the flag as it is, and only then. -/
theorem restoresFlag_iff (intr : Bool) (n : Nat) {c : IrqCall} {w' : Irq}
    (h : s.irqStep K L yields ⟨intr, n, []⟩ c = some (w', s')) :
    w'.Restored ↔ s.YieldsFlag K L yields ⟨intr, n, []⟩ c := by
  have hempty : (⟨intr, n, []⟩ : Irq).Restored := by simp [Irq.Restored]
  cases c with
  | procCreate parent name isuser =>
      rw [irqStep, procCreateIrq_eq, Option.map_map] at h
      obtain ⟨x, -, heq⟩ := Option.map_eq_some_iff.mp h
      obtain ⟨rfl, -⟩ := Prod.mk.inj heq
      exact (restored_createIrq hempty).trans createIrq_flag
  | procDestroy p =>
      rw [irqStep, procDestroyIrq_eq] at h
      obtain ⟨x, -, heq⟩ := Option.map_eq_some_iff.mp h
      obtain ⟨rfl, -⟩ := Prod.mk.inj heq
      exact restored_returned.trans (and_iff_left hempty)
  | procExec path argv =>
      obtain ⟨⟨res, x⟩, hexec, rfl⟩ := Option.map_eq_some_iff.mp h
      exact procExecIrq_restored hexec

section Small

/-- The second header of the small program cannot be read, and its process is
destroyed.  `irq_disable` returns the flag. -/
theorem restoresFlag_iff_exec : ∃ w' s',
    oneProcess.irqStep (small.paged bootedLayout) (failingFile 52).paged (fun _ intr => intr)
        ⟨true, 0, []⟩ (.procExec [98] none) = some (w', s') ∧
      w'.log = [(true, true), (false, false), (false, false)] ∧ w'.Restored := by
  have hlog : (oneProcess.irqStep (small.paged bootedLayout) (failingFile 52).paged
      (fun _ intr => intr) ⟨true, 0, []⟩ (.procExec [98] none)).map (fun x => x.1.log) =
      some [(true, true), (false, false), (false, false)] := by decide +kernel
  obtain ⟨⟨w', s'⟩, hstep, heq⟩ := Option.map_eq_some_iff.mp hlog
  exact ⟨w', s', hstep, heq, (restoresFlag_iff true 0 hstep).mpr
    ⟨rfl, fun _ _ _ _ => rfl, fun _ _ _ _ _ _ _ _ _ _ => rfl⟩⟩

/-- A process is created with interrupts disabled, and `irq_disable` leaves a word
with the flag set. -/
theorem restoresFlag_wrong : ∃ w' s',
    smallBoot.irqStep small (oneFile (elfFile 0)) (fun _ _ => true) ⟨false, 0, []⟩
        (.procCreate none [97] 0) = some (w', s') ∧ w'.flag = true ∧ ¬ w'.Restored := by
  have hlog : (smallBoot.irqStep small (oneFile (elfFile 0)) (fun _ _ => true) ⟨false, 0, []⟩
      (.procCreate none [97] 0)).map (fun x => x.1) = some ⟨true, 1, [(false, true)]⟩ := by
    decide +kernel
  obtain ⟨⟨w', s'⟩, hstep, rfl⟩ := Option.map_eq_some_iff.mp hlog
  refine ⟨_, s', hstep, rfl, ?_⟩
  simp [Irq.Restored]

end Small

end Procs

end StardustOS.Process
