import StardustOS.Process.EntryPoint
import StardustOS.Process.Signals

/-!
# The bounds of a process stack

`proc_create` sets the stack pointer `PROC_STACKSIZE` bytes above the stack.
`proc_exec` pushes the arguments from there, and until the process runs, so does
`proc_sigenter` its payloads.

`proc_pushstack` does not look at what is left.  `staysOnStack_iff` says that
nothing is written below the stack if all that is pushed, arguments and payloads
together, is no more than `PROC_STACKSIZE` bytes.
-/

namespace StardustOS.Process

open Lib Libfile

/-- A call that may write on the stack of a process that does not run. -/
inductive StackCall where
  | procPushstack (value : List UInt8)
  | procSigenter (g : Signal)
  | procSigleave

namespace StackCall

variable (handled : Bool)

/-- What is pushed.  A signal is delivered to a handler, unless one is being
handled already. -/
def size (signaling : Bool) : StackCall → Nat
  | procPushstack value => value.length
  | procSigenter g => if handled && !signaling then g.payload.length else 0
  | procSigleave => 0

/-- Whether a signal is being handled after the call. -/
def marks (signaling : Bool) : StackCall → Bool
  | procPushstack _ => signaling
  | procSigenter _ => signaling || handled
  | procSigleave => false

/-- What all the calls push. -/
def total : Bool → List StackCall → Nat
  | _, [] => 0
  | signaling, c :: cs => c.size handled signaling + total (c.marks handled signaling) cs

theorem total_pushes (values : List (List UInt8)) :
    total handled false (values.map procPushstack) = (values.map List.length).sum := by
  induction values with
  | nil => rfl
  | cons value values ih => rw [List.map_cons, total, List.map_cons, List.sum_cons, ← ih]; rfl

end StackCall

namespace Procs

section Stack

variable {κ : Type*} (K : Kernel κ) (a : Nat)

/-- A call for the process at `a`. -/
def stackStep (s : Procs κ) : StackCall → Option (Procs κ)
  | .procPushstack value => (s.processes.get? a).map fun P => s.procPushstack K a P value
  | .procSigenter g => (s.procSigenter K a g.signum g.data).map Prod.snd
  | .procSigleave => (s.procSigleave a).map Prod.snd

/-- After the call the stack pointer is in the `PROC_STACKSIZE` bytes from the stack
on or at their end, and so is what was written from there. -/
def OnStack (s : Procs κ) (c : StackCall) : Prop :=
  ∀ P s' P', s.processes.get? a = some P → stackStep K a s c = some s' →
    s'.processes.get? a = some P' → a + stackOffset ≤ P'.regs.esp.toNat ∧
      P'.regs.esp.toNat + c.size P.signalHandler.isSome P.issignaling ≤
        a + stackOffset + PROC_STACKSIZE

/-- The arguments that are pushed for the process that was created in `t` stay on its
stack, and so do the signals that are sent to it in `v`, once it has that handler. -/
structure StaysOnStack (hdr : ElfHeader) (argv : Option (List (List UInt8))) (t v : Procs κ)
    (handler : Option Nat) (calls : List StackCall) : Prop where
  args : Meets (stackStep K a) (OnStack K a)
    { t with processes := t.processes.update a (Proc.withEip hdr.entry) }
    ((pushes argv).map .procPushstack)
  signals : Meets (stackStep K a) (OnStack K a)
    { v with processes := v.processes.update a (Proc.withHandler handler) } calls

/-- `room` bytes are left on the stack. -/
def HasRoom (room : Nat) (handled signaling : Bool) (s : Procs κ) : Prop :=
  ∃ P, s.processes.get? a = some P ∧ P.regs.esp.toNat = a + stackOffset + room ∧
    P.signalHandler.isSome = handled ∧ P.issignaling = signaling

variable {K a} {s s' : Procs κ} {room : Nat} {handled signaling : Bool}

/-! ## One call -/

/-- A signal without a handler may kill the process. -/
theorem procSigenter_unhandled {P : Proc} (hP : s.processes.get? a = some P)
    (hsig : P.issignaling = false) (hhandler : P.signalHandler = none) (signum : UInt8)
    (data : Option (List UInt8)) :
    ∃ r s', s.procSigenter K a signum data = some (r, s') ∧
      (s'.processes.get? a = some P ∨ s'.processes.get? a = some P.killed) := by
  simp only [procSigenter, hP, hsig, hhandler, Bool.false_eq_true, ↓reduceIte]
  split
  · exact ⟨_, _, rfl, Or.inr (SList.get?_update_self hP)⟩
  · exact ⟨_, _, rfl, Or.inl hP⟩

/-- Every call is defined, and the stack pointer goes down by what it pushes. -/
theorem stackStep_spec {P : Proc} (hP : s.processes.get? a = some P) (c : StackCall) :
    ∃ s' P', stackStep K a s c = some s' ∧ s'.processes.get? a = some P' ∧
      P'.regs.esp = P.regs.esp - UInt32.ofNat (c.size P.signalHandler.isSome P.issignaling) ∧
      P'.signalHandler = P.signalHandler ∧
      P'.issignaling = c.marks P.signalHandler.isSome P.issignaling := by
  cases c with
  | procPushstack value =>
      have hpush : stackStep K a s (.procPushstack value) = some (s.procPushstack K a P value) := by
        rw [stackStep, hP]
        rfl
      exact ⟨_, P.withEsp (P.regs.esp - UInt32.ofNat value.length), hpush,
        SList.get?_update_self hP, rfl, rfl, rfl⟩
  | procSigenter g =>
      cases hsig : P.issignaling with
      | true =>
          have hrefused := procSigenter_signaling (K := K) hP hsig g.signum g.data
          exact ⟨s, P, by rw [stackStep, hrefused]; rfl, hP, by simp [StackCall.size], rfl,
            hsig⟩
      | false =>
          cases hhandler : P.signalHandler with
          | none =>
              obtain ⟨r, s', henter, hend⟩ :=
                procSigenter_unhandled (K := K) hP hsig hhandler g.signum g.data
              have hstep : stackStep K a s (.procSigenter g) = some s' := by
                rw [stackStep, henter]
                rfl
              obtain hP' | hP' := hend
              · exact ⟨s', P, hstep, hP', by simp [StackCall.size], hhandler, hsig⟩
              · exact ⟨s', P.killed, hstep, hP', by simp [StackCall.size, Proc.killed], hhandler,
                  hsig⟩
          | some handler =>
              obtain ⟨kernel, henter⟩ := procSigenter_handled (K := K) hP hsig
                (by rw [hhandler]; exact Option.some_ne_none handler) g.signum g.data
              exact ⟨_, P.entered g.signum g.size, by rw [stackStep, henter]; rfl,
                SList.get?_update_self hP, rfl, hhandler, rfl⟩
  | procSigleave =>
      cases hsig : P.issignaling with
      | true =>
          have hleave := procSigleave_signaling hP hsig
          exact ⟨_, P.unsignaled, by rw [stackStep, hleave]; rfl, SList.get?_update_self hP,
            by simp [StackCall.size, Proc.unsignaled], rfl, rfl⟩
      | false =>
          have hleave : s.procSigleave a = some (-EINTR, s) := by simp [procSigleave, hP, hsig]
          exact ⟨s, P, by rw [stackStep, hleave]; rfl, hP, by simp [StackCall.size], rfl, hsig⟩

/-- The stack pointer of a push is on the stack if there is room for it. -/
theorem push_within_iff {base size n : Nat} {esp : UInt32} (htop : base + size < 2 ^ 32)
    (hroom : room ≤ size) (hesp : esp.toNat = base + room) :
    base ≤ (esp - UInt32.ofNat n).toNat ∧ (esp - UInt32.ofNat n).toNat + n ≤ base + size ↔
      n ≤ room := by
  have hsub : (esp - UInt32.ofNat n).toNat = (2 ^ 32 - n % 2 ^ 32 + (base + room)) % 2 ^ 32 := by
    rw [UInt32.toNat_sub, UInt32.toNat_ofNat', hesp]
  rw [hsub]
  omega

/-- Then it stays so. -/
theorem push_toNat {base n : Nat} {esp : UInt32} (hesp : esp.toNat = base + room)
    (hn : n ≤ room) : (esp - UInt32.ofNat n).toNat = base + (room - n) := by
  have hlt := esp.toNat_lt
  rw [UInt32.toNat_sub, UInt32.toNat_ofNat', hesp]
  omega

/-! ## Any number of calls -/

/-- A call stays on the stack if there is room for what it pushes. -/
theorem HasRoom.onStack_iff (h : HasRoom a room handled signaling s) (c : StackCall)
    (hblock : a + stackOffset + 4 * PROC_STACKSIZE ≤ 2 ^ 32) (hroom : room ≤ PROC_STACKSIZE) :
    OnStack K a s c ↔ c.size handled signaling ≤ room := by
  obtain ⟨P, hP, hesp, rfl, rfl⟩ := h
  obtain ⟨s', P', hstep, hP', hmoved, -, -⟩ := stackStep_spec (K := K) hP c
  have htop : a + stackOffset + PROC_STACKSIZE < 2 ^ 32 := by
    rw [PROC_STACKSIZE] at hblock ⊢
    omega
  have hwithin := push_within_iff (n := c.size P.signalHandler.isSome P.issignaling) htop hroom hesp
  rw [← hmoved] at hwithin
  rw [← hwithin]
  constructor
  · intro hon
    exact hon P s' P' hP hstep hP'
  · rintro hon Q t Q' hQ ht hQ'
    obtain rfl := Option.some.inj (hP.symm.trans hQ)
    obtain rfl := Option.some.inj (hstep.symm.trans ht)
    obtain rfl := Option.some.inj (hP'.symm.trans hQ')
    exact hon

theorem HasRoom.defined (h : HasRoom a room handled signaling s) (c : StackCall) :
    ∃ s', stackStep K a s c = some s' := by
  obtain ⟨P, hP, -⟩ := h
  obtain ⟨s', -, hstep, -⟩ := stackStep_spec (K := K) hP c
  exact ⟨s', hstep⟩

/-- What is left after it. -/
theorem HasRoom.step (h : HasRoom a room handled signaling s) {c : StackCall}
    (hfits : c.size handled signaling ≤ room) (hstep : stackStep K a s c = some s') :
    HasRoom a (room - c.size handled signaling) handled (c.marks handled signaling) s' := by
  obtain ⟨P, hP, hesp, rfl, rfl⟩ := h
  obtain ⟨t, P', ht, hP', hmoved, hhandler, hmarks⟩ := stackStep_spec (K := K) hP c
  obtain rfl := Option.some.inj (ht.symm.trans hstep)
  refine ⟨P', hP', ?_, by rw [hhandler], hmarks⟩
  rw [hmoved]
  exact push_toNat hesp hfits

/-- All calls stay on the stack if there is room for what they push together. -/
theorem meets_onStack_iff (hblock : a + stackOffset + 4 * PROC_STACKSIZE ≤ 2 ^ 32)
    (calls : List StackCall) {s : Procs κ} {room : Nat} {signaling : Bool}
    (h : HasRoom a room handled signaling s) (hroom : room ≤ PROC_STACKSIZE) :
    Meets (stackStep K a) (OnStack K a) s calls ↔
      StackCall.total handled signaling calls ≤ room := by
  induction calls generalizing s room signaling with
  | nil => exact iff_of_true trivial (Nat.zero_le room)
  | cons c cs ih =>
      rw [Meets, h.onStack_iff c hblock hroom, StackCall.total]
      constructor
      · rintro ⟨hfits, hrest⟩
        obtain ⟨s', hstep⟩ := h.defined (K := K) c
        have hcs := (ih (h.step hfits hstep) (by omega)).mp (hrest s' hstep)
        omega
      · intro htotal
        refine ⟨by omega, ?_⟩
        intro s' hstep
        exact (ih (h.step (by omega) hstep) (by omega)).mpr (by omega)

/-! ## The calls after `proc_exec` -/

/-- The pushes of `proc_exec` are calls like any other. -/
theorem pushAll_eq_run (values : List (List UInt8)) (s : Procs κ) :
    pushAll K a values s = run (stackStep K a) s (values.map .procPushstack) := by
  induction values generalizing s with
  | nil => rfl
  | cons value values ih =>
      rw [List.map_cons, run, stackStep, pushAll]
      cases hP : s.processes.get? a with
      | none => rfl
      | some P => exact ih _

/-- The room that the arguments leave. -/
theorem HasRoom.pushAll (values : List (List UInt8)) {s : Procs κ} {room : Nat}
    (h : HasRoom a room handled signaling s) (hfits : (values.map List.length).sum ≤ room)
    (hpush : Procs.pushAll K a values s = some s') :
    HasRoom a (room - (values.map List.length).sum) handled signaling s' := by
  rw [pushAll_eq_run] at hpush
  induction values generalizing s room with
  | nil =>
      cases hpush
      exact h
  | cons value values ih =>
      obtain ⟨t, hstep, hrest⟩ := run_cons.mp hpush
      rw [List.map_cons, List.sum_cons] at hfits ⊢
      have hvalue : value.length ≤ room := (Nat.le_add_right _ _).trans hfits
      have hnext := h.step (c := .procPushstack value) hvalue hstep
      rw [← Nat.sub_sub]
      exact ih hnext (Nat.le_sub_of_add_le' hfits) hrest

/-- The handler is set. -/
theorem HasRoom.withHandler (h : HasRoom a room handled signaling s) (handler : Option Nat) :
    HasRoom a room handler.isSome signaling
      { s with processes := s.processes.update a (Proc.withHandler handler) } := by
  obtain ⟨P, hP, hesp, -, hsig⟩ := h
  exact ⟨P.withHandler handler, SList.get?_update_self hP, hesp, rfl, hsig⟩

variable {L : Loader κ} {path : List UInt8} {argv : Option (List (List UInt8))} {node : Nat}
  {hdr : ElfHeader} {kernel : κ} {t u v : Procs κ} {r : Int}

/-- A process that was created has all of its stack. -/
theorem Ran.hasRoom (h : Ran K L s path argv node hdr kernel a t u v r)
    (hblock : a + stackOffset + 4 * PROC_STACKSIZE ≤ 2 ^ 32) :
    HasRoom a PROC_STACKSIZE false false
      { t with processes := t.processes.update a (Proc.withEip hdr.entry) } := by
  obtain ⟨N, hN, hhandler, hsig, hesp⟩ := procCreate_get? h.create
  refine ⟨N.withEip hdr.entry, SList.get?_update_self hN, ?_, congrArg Option.isSome hhandler, hsig⟩
  show N.regs.esp.toNat = _
  rw [hesp, UInt32.toNat_ofNat_of_lt']
  rw [PROC_STACKSIZE] at hblock ⊢
  exact lt_of_lt_of_le (by omega) hblock

/-- It keeps to its stack if its arguments and the payloads of its signals fit in
`PROC_STACKSIZE` bytes, and only then. -/
theorem staysOnStack_iff (hran : Ran K L s path argv node hdr kernel a t u v r)
    (hblock : a + stackOffset + 4 * PROC_STACKSIZE ≤ 2 ^ 32) (handler : Option Nat)
    (calls : List StackCall) :
    StaysOnStack K a hdr argv t v handler calls ↔
      pushed argv + StackCall.total handler.isSome false calls ≤ PROC_STACKSIZE := by
  have hfull := hran.hasRoom hblock
  have hargs : Meets (stackStep K a) (OnStack K a)
      { t with processes := t.processes.update a (Proc.withEip hdr.entry) }
      ((pushes argv).map .procPushstack) ↔ pushed argv ≤ PROC_STACKSIZE := by
    rw [meets_onStack_iff hblock _ hfull le_rfl, StackCall.total_pushes]
    rfl
  have hsignals (hfits : pushed argv ≤ PROC_STACKSIZE) :
      Meets (stackStep K a) (OnStack K a)
        { v with processes := v.processes.update a (Proc.withHandler handler) } calls ↔
      StackCall.total handler.isSome false calls ≤ PROC_STACKSIZE - pushed argv := by
    obtain ⟨P, hP, hleft⟩ := hfull.pushAll (pushes argv) hfits hran.push
    have hloaded : v.processes.get? a = some P :=
      (loadSegments_get? hran.ne_curr _ hran.load).trans hP
    have hroom : HasRoom a (PROC_STACKSIZE - pushed argv) false false v := ⟨P, hloaded, hleft⟩
    exact meets_onStack_iff hblock calls (hroom.withHandler handler) (Nat.sub_le _ _)
  constructor
  · rintro ⟨ha, hs⟩
    have hfits := hargs.mp ha
    have hrest := (hsignals hfits).mp hs
    omega
  · intro htotal
    have hfits : pushed argv ≤ PROC_STACKSIZE := (Nat.le_add_right _ _).trans htotal
    exact ⟨hargs.mpr hfits, (hsignals hfits).mpr (Nat.le_sub_of_add_le' htotal)⟩

section Small

/-- Every argument list is pushed. -/
theorem pushAll_defined (values : List (List UInt8)) {s : Procs κ} {P : Proc}
    (hP : s.processes.get? a = some P) : ∃ u, pushAll K a values s = some u := by
  induction values generalizing s P with
  | nil => exact ⟨s, rfl⟩
  | cons value values ih =>
      simp only [pushAll, hP]
      exact ih (SList.get?_update_self hP)

/-- The first program of the small machine, which has nothing to load, comes to its
loop with any arguments. -/
theorem smallBoot_ran (argv : Option (List (List UInt8))) : ∃ hdr kernel t u v r,
    Ran small (oneFile (elfFile 0)) smallBoot [98] argv 0 hdr kernel 0x100000 t u v r := by
  have hcreate : (smallBoot.procCreate small none [98] 1).map Prod.fst = some (some 0x100000) := by
    decide +kernel
  obtain ⟨⟨-, t⟩, ht, rfl⟩ := Option.map_eq_some_iff.mp hcreate
  obtain ⟨N, hN, -⟩ := procCreate_get? ht
  let hdr := ElfHeader.ofBytes ((elfFile 0).take headerSize)
  have hproc := SList.get?_update_self (f := Proc.withEip hdr.entry) hN
  obtain ⟨u, hu⟩ := pushAll_defined (K := small)
    (s := { t with processes := t.processes.update 0x100000 (Proc.withEip hdr.entry) })
    (pushes argv) hproc
  exact ⟨hdr, smallBoot.kernel, t, u, u, 0, rfl, ht, hu, rfl⟩

/-- An argument of two letters, and signals of two bytes and of one. -/
theorem staysOnStack_iff_two : ∃ hdr kernel t u v r,
    Ran small (oneFile (elfFile 0)) smallBoot [98] (some [[104, 105]]) 0 hdr kernel 0x100000 t u v
        r ∧
      StaysOnStack small 0x100000 hdr (some [[104, 105]]) t v (some 0x40000000)
        [.procSigenter ⟨7, some [1, 2], by decide⟩, .procSigleave,
          .procSigenter ⟨7, some [3], by decide⟩] := by
  obtain ⟨hdr, kernel, t, u, v, r, hran⟩ := smallBoot_ran (some [[104, 105]])
  exact ⟨hdr, kernel, t, u, v, r, hran,
    (staysOnStack_iff hran (by decide) (some 0x40000000) _).mpr (by decide)⟩

theorem pushed_letters (n : Nat) : pushed (some [List.replicate n 65]) = n + 5 := by
  simp [pushed, pushes, Libc.cstr, argcBytes]

/-- An argument of 16380 letters. -/
theorem staysOnStack_wrong : ∃ hdr kernel t u v r,
    Ran small (oneFile (elfFile 0)) smallBoot [98] (some [List.replicate 16380 65]) 0 hdr kernel
        0x100000 t u v r ∧
      ¬ StaysOnStack small 0x100000 hdr (some [List.replicate 16380 65]) t v none [] := by
  obtain ⟨hdr, kernel, t, u, v, r, hran⟩ := smallBoot_ran (some [List.replicate 16380 65])
  refine ⟨hdr, kernel, t, u, v, r, hran, ?_⟩
  intro hstays
  have hblock : 0x100000 + stackOffset + 4 * PROC_STACKSIZE ≤ 2 ^ 32 := by decide
  have htotal := (meets_onStack_iff hblock _ (hran.hasRoom hblock) le_rfl).mp hstays.args
  rw [StackCall.total_pushes] at htotal
  rw [← pushed, pushed_letters] at htotal
  exact absurd htotal (by decide)

end Small

end Stack

end Procs

end StardustOS.Process
