import StardustOS.Process.Steps

/-!
# Rounds of a signal

`proc_sigenter` marks a process that has a handler and pushes the payload of the
signal on its stack.  `proc_sigleave` takes the mark off.

Nothing takes the payload off the stack again, so a round of the two gives the
process its registers back if the payload is empty (`roundsRestore_iff`), and a
stack pointer that is lower by its length otherwise.
-/

namespace StardustOS.Process

open Lib

/-- The arguments of `proc_sigenter`: `data` is NULL, or the `datasz` bytes there.
`datasz` is a `size_t`. -/
structure Signal where
  signum : UInt8
  data : Option (List UInt8)
  datasz_lt : (data.getD []).length < 2 ^ 32

namespace Signal

variable (g : Signal)

/-- What is pushed for it. -/
def payload : List UInt8 := g.data.getD []

/-- The length of the payload, as the stack pointer goes down by it. -/
def size : UInt32 := UInt32.ofNat g.payload.length

theorem size_eq_zero_iff : g.size = 0 ↔ g.payload = [] := by
  have hsize : g.size.toNat = g.payload.length := UInt32.toNat_ofNat_of_lt' g.datasz_lt
  rw [← UInt32.toNat_inj, hsize, UInt32.toNat_zero, List.length_eq_zero_iff]

end Signal

namespace Proc

/-- The handler is set. -/
def withHandler (handler : Option Nat) (P : Proc) : Proc := { P with signalHandler := handler }

/-- The process after `proc_sigenter`, which found a handler. -/
def entered (signum : UInt8) (size : UInt32) (P : Proc) : Proc :=
  (P.signaled signum).withEsp (P.regs.esp - size)

@[simp] theorem entered_issignaling (signum : UInt8) (size : UInt32) (P : Proc) :
    (P.entered signum size).issignaling = true := rfl

theorem entered_zero (signum : UInt8) (P : Proc) : P.entered signum 0 = P.signaled signum := by
  simp [entered, withEsp, signaled]

end Proc

namespace Procs

variable {κ : Type*} (K : Kernel κ) (p : Nat)

/-- A round: the process enters a signal and leaves it. -/
def round (s : Procs κ) (g : Signal) : Option (Procs κ) :=
  (s.procSigenter K p g.signum g.data).bind fun (_, s) => (s.procSigleave p).map Prod.snd

/-- A round does what it is for: both calls return 0, a call of `proc_sigenter`
between them is refused and changes nothing, and in the end the process is marked
no more and has the registers of before. -/
def Restores (s : Procs κ) (g : Signal) : Prop :=
  ∃ s₁ s₂, s.procSigenter K p g.signum g.data = some (0, s₁) ∧
    (∀ signum data, s₁.procSigenter K p signum data = some (-EINPROGRESS, s₁)) ∧
    s₁.procSigleave p = some (0, s₂) ∧
    ∃ P P', s.processes.get? p = some P ∧ s₂.processes.get? p = some P' ∧
      P'.issignaling = false ∧ P'.signum = 0 ∧ P'.regs = P.regs

/-- Every round of the process `P` does, and all of them together leave the stack
pointer where it was. -/
structure RoundsRestore (P : Proc) (s : Procs κ) (gs : List Signal) : Prop where
  each : Meets (round K p) (Restores K p) s gs
  esp : ∃ s' P', run (round K p) s gs = some s' ∧ s'.processes.get? p = some P' ∧
    P'.regs.esp = P.regs.esp

/-- The process has a handler, no signal is being handled, and its registers are
`regs`. -/
def AtRest (regs : ProcRegs) (s : Procs κ) : Prop :=
  ∃ P, s.processes.get? p = some P ∧ P.signalHandler ≠ none ∧ P.issignaling = false ∧
    P.regs = regs

variable {K p} {s s' : Procs κ} {P : Proc} {regs : ProcRegs}

/-! ## The two calls -/

/-- A process that is handling a signal gets no other one. -/
theorem procSigenter_signaling (hP : s.processes.get? p = some P) (hsig : P.issignaling = true)
    (signum : UInt8) (data : Option (List UInt8)) :
    s.procSigenter K p signum data = some (-EINPROGRESS, s) := by
  simp only [procSigenter, hP, hsig, ↓reduceIte]

/-- With a handler the process is marked, and its stack pointer goes down by the
length of the payload. -/
theorem procSigenter_handled (hP : s.processes.get? p = some P) (hsig : P.issignaling = false)
    (hhandler : P.signalHandler ≠ none) (signum : UInt8) (data : Option (List UInt8)) :
    ∃ kernel, s.procSigenter K p signum data = some (0, { s with
      processes := s.processes.update p (Proc.entered signum (UInt32.ofNat (data.getD []).length))
      kernel := kernel }) := by
  have hempty : s.processes.update p (Proc.signaled signum) =
      s.processes.update p (Proc.entered signum (UInt32.ofNat 0)) :=
    SList.update_congr fun x _ => (x.entered_zero signum).symm
  simp only [procSigenter, hP, hsig, hhandler, Bool.false_eq_true, ↓reduceIte]
  cases data with
  | none => exact ⟨s.kernel, by rw [hempty]; rfl⟩
  | some bytes =>
      cases bytes with
      | nil => exact ⟨s.kernel, by rw [hempty]; rfl⟩
      | cons b bs =>
          let size := UInt32.ofNat (b :: bs).length
          refine ⟨K.memcpy (P.regs.esp - size) (b :: bs) s.kernel, ?_⟩
          have hpush :
              s.processes.update p (Proc.withEsp (P.regs.esp - size) ∘ Proc.signaled signum) =
                s.processes.update p (Proc.entered signum size) := by
            refine SList.update_congr ?_
            intro x hx
            rw [SList.unique hx (SList.get?_eq_some.mp hP)]
            rfl
          simp only [procPushstack, SList.update_update, Option.getD_some]
          rw [hpush]

theorem procSigleave_signaling (hP : s.processes.get? p = some P) (hsig : P.issignaling = true) :
    s.procSigleave p = some (0, { s with processes := s.processes.update p Proc.unsignaled }) := by
  simp [procSigleave, hP, hsig]

/-! ## A round -/

/-- A round leaves the stack pointer below the payload. -/
theorem AtRest.round (hs : AtRest p regs s) (g : Signal) :
    ∃ s₁ s₂, s.procSigenter K p g.signum g.data = some (0, s₁) ∧
      (∀ signum data, s₁.procSigenter K p signum data = some (-EINPROGRESS, s₁)) ∧
      s₁.procSigleave p = some (0, s₂) ∧ round K p s g = some s₂ ∧
      ∃ P', s₂.processes.get? p = some P' ∧ P'.signalHandler ≠ none ∧ P'.issignaling = false ∧
        P'.signum = 0 ∧ P'.regs = { regs with esp := regs.esp - g.size } := by
  obtain ⟨P, hP, hhandler, hsig, rfl⟩ := hs
  obtain ⟨kernel, henter⟩ := procSigenter_handled (K := K) hP hsig hhandler g.signum g.data
  have hP₁ := SList.get?_update_self (f := Proc.entered g.signum g.size) hP
  let s₁ : Procs κ := { s with
    processes := s.processes.update p (Proc.entered g.signum g.size)
    kernel := kernel }
  have hleave : s₁.procSigleave p = _ := procSigleave_signaling (s := s₁) hP₁ rfl
  have hP₂ := SList.get?_update_self (f := Proc.unsignaled) hP₁
  refine ⟨s₁, _, henter, procSigenter_signaling hP₁ rfl, hleave, ?_, _, hP₂, hhandler, rfl, rfl,
    rfl⟩
  rw [Procs.round, henter]
  show (s₁.procSigleave p).map Prod.snd = _
  rw [hleave]
  rfl

theorem AtRest.restores_iff (hs : AtRest p regs s) (g : Signal) :
    Restores K p s g ↔ g.payload = [] := by
  obtain ⟨s₁, s₂, henter, hrefused, hleave, -, P', hP', -, hsig, hnum, hregs⟩ := hs.round (K := K) g
  obtain ⟨P, hP, -, -, hPregs⟩ := hs
  rw [← g.size_eq_zero_iff]
  constructor
  · rintro ⟨t₁, t₂, henter', -, hleave', Q, Q', hQ, hQ', -, -, hback⟩
    obtain ⟨-, rfl⟩ := Prod.mk.inj (Option.some.inj (henter.symm.trans henter'))
    obtain ⟨-, rfl⟩ := Prod.mk.inj (Option.some.inj (hleave.symm.trans hleave'))
    obtain rfl := Option.some.inj (hP.symm.trans hQ)
    obtain rfl := Option.some.inj (hP'.symm.trans hQ')
    have hesp : regs.esp - g.size = regs.esp :=
      congrArg ProcRegs.esp (hregs.symm.trans (hback.trans hPregs))
    simpa using hesp
  · intro hsize
    refine ⟨s₁, s₂, henter, hrefused, hleave, P, P', hP, hP', hsig, hnum, ?_⟩
    rw [hregs, hsize, hPregs]
    simp

/-- The next round starts where this one ended. -/
theorem AtRest.of_round (hs : AtRest p regs s) {g : Signal}
    (h : Procs.round K p s g = some s') :
    AtRest p { regs with esp := regs.esp - g.size } s' := by
  obtain ⟨s₁, s₂, -, -, -, hround, P', hP', hhandler, hsig, -, hregs⟩ := hs.round (K := K) g
  obtain rfl := Option.some.inj (hround.symm.trans h)
  exact ⟨P', hP', hhandler, hsig, hregs⟩

/-! ## Any number of rounds -/

/-- A round can be made whatever became of the registers, so it comes to the
payloads alone. -/
theorem meets_restores_iff (gs : List Signal) {s : Procs κ} {regs : ProcRegs}
    (hs : AtRest p regs s) :
    Meets (Procs.round K p) (Restores K p) s gs ↔ ∀ g ∈ gs, g.payload = [] := by
  induction gs generalizing s regs with
  | nil => exact iff_of_true trivial fun g hg => absurd hg List.not_mem_nil
  | cons g gs ih =>
      obtain ⟨-, t, -, -, -, hround, -⟩ := hs.round (K := K) g
      rw [Meets, hs.restores_iff, List.forall_mem_cons]
      refine and_congr_right fun _ => ?_
      constructor
      · intro hrest
        exact (ih (hs.of_round hround)).mp (hrest t hround)
      · intro hrest t' ht'
        exact (ih (hs.of_round ht')).mpr hrest

/-- Rounds with nothing to push keep the registers. -/
theorem run_round_of_empty (gs : List Signal) {s : Procs κ} (hs : AtRest p regs s)
    (hempty : ∀ g ∈ gs, g.payload = []) :
    ∃ s', run (Procs.round K p) s gs = some s' ∧ AtRest p regs s' := by
  refine run_defined (C := fun _ g => g.payload = []) ?_ gs hs (meets_of_mem gs hempty)
  intro t g ht hg
  obtain ⟨-, t', -, -, -, hround, -⟩ := ht.round (K := K) g
  refine ⟨t', hround, ?_⟩
  have hnext := ht.of_round hround
  rwa [(g.size_eq_zero_iff).mpr hg, sub_zero] at hnext

/-- Signals restore a process with a handler if they carry nothing, and only
then. -/
theorem roundsRestore_iff (hP : s.processes.get? p = some P) (hhandler : P.signalHandler ≠ none)
    (hsig : P.issignaling = false) (gs : List Signal) :
    RoundsRestore K p P s gs ↔ ∀ g ∈ gs, g.payload = [] := by
  have hs : AtRest p P.regs s := ⟨P, hP, hhandler, hsig, rfl⟩
  constructor
  · intro h
    exact (meets_restores_iff gs hs).mp h.each
  · intro hempty
    obtain ⟨s', hrun, P', hP', -, -, hregs⟩ := run_round_of_empty (K := K) gs hs hempty
    exact ⟨(meets_restores_iff gs hs).mpr hempty, s', P', hrun, hP', congrArg ProcRegs.esp hregs⟩

section Small

/-- A machine with one process, which has a handler. -/
def oneHandler : Procs (Nat × Mem.Memory) :=
  let s := (run (step small) smallBoot [.procCreate none [97] 0]).getD smallBoot
  { s with processes := s.processes.update 0x100000 (Proc.withHandler (some 0x40000000)) }

theorem oneHandler_atRest : ∃ P, oneHandler.processes.get? 0x100000 = some P ∧
    P.signalHandler ≠ none ∧ P.issignaling = false := by
  have hproc : (oneHandler.processes.get? 0x100000).map
      (fun P => (P.signalHandler, P.issignaling)) = some (some 0x40000000, false) := by
    decide +kernel
  obtain ⟨P, hP, heq⟩ := Option.map_eq_some_iff.mp hproc
  obtain ⟨hhandler, hsig⟩ := Prod.mk.inj heq
  exact ⟨P, hP, by simp [hhandler], hsig⟩

/-- Two signals without a payload. -/
theorem roundsRestore_iff_empty : ∃ P, oneHandler.processes.get? 0x100000 = some P ∧
    RoundsRestore small 0x100000 P oneHandler
      [⟨4, none, by decide⟩, ⟨7, some [], by decide⟩] := by
  obtain ⟨P, hP, hhandler, hsig⟩ := oneHandler_atRest
  exact ⟨P, hP, (roundsRestore_iff hP hhandler hsig _).mpr (by decide)⟩

/-- A payload of one byte stays on the stack. -/
theorem roundsRestore_wrong : ∃ P, oneHandler.processes.get? 0x100000 = some P ∧
    P.signalHandler ≠ none ∧ P.issignaling = false ∧
      ¬ RoundsRestore small 0x100000 P oneHandler [⟨7, some [1], by decide⟩] := by
  obtain ⟨P, hP, hhandler, hsig⟩ := oneHandler_atRest
  refine ⟨P, hP, hhandler, hsig, ?_⟩
  intro h
  have hempty := (meets_restores_iff _ ⟨P, hP, hhandler, hsig, rfl⟩).mp h.each
  exact absurd hempty (by decide)

end Small

end Procs

end StardustOS.Process
