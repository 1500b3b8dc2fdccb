import StardustOS.Process.Machine
import StardustOS.Process.Progress
import StardustOS.Process.Zombie

/-!
# Saved contexts

What is saved in a process that does not have the CPU stays as it is: no call
but a switch writes the registers or the FPU image of a process, and a switch
writes them only in the process that leaves.

`Asleep` says so of one process, and each call keeps it.  `LogOk` says it of
every process that was ever switched out: what the process holds is what the
log of `Logged` says was on the CPU then.
-/

namespace StardustOS.Process

open Lib

/-- What a switch saves and loads, and the pid by which the process is found. -/
def Proc.context (P : Proc) : UInt32 × ProcRegs × List UInt8 := (P.id, P.regs, P.fpuRegs)

namespace Procs

variable {κ : Type*} {K : Kernel κ} {s s' : Procs κ} {a : Nat} {P : Proc}

/-- Whom `schedule` gives the CPU to is computed. -/
instance : Decidable (s.SwitchesTo a) :=
  decidable_of_iff ((s.processFrompid s.currPid).isSome ∧ s.processNext.map Prod.fst = some a) (by
    simp [SwitchesTo, Option.isSome_iff_exists])

/-! ## Contexts from call to call -/

/-- The process at `a` has this context in the list. -/
def HasContext (a : Nat) (x : UInt32 × ProcRegs × List UInt8) (l : SList Proc) : Prop :=
  ∃ P, (a, P) ∈ l.nodes ∧ P.context = x

namespace HasContext

variable {l : SList Proc} {b : Nat} {x : UInt32 × ProcRegs × List UInt8}

theorem insertHead {N : Proc} (h : HasContext a x l) (hb : b ∉ l.addrs) :
    HasContext a x (l.insertHead b N hb) := by
  obtain ⟨P, hP, hx⟩ := h
  exact ⟨P, List.mem_cons_of_mem _ hP, hx⟩

/-- A change that writes no context. -/
theorem update {f : Proc → Proc} (h : HasContext a x l)
    (hf : ∀ Q : Proc, (f Q).context = Q.context) : HasContext a x (l.update b f) := by
  obtain ⟨P, hP, hx⟩ := h
  refine ⟨_, SList.mem_update.mpr ⟨P, hP, rfl⟩, ?_⟩
  rw [apply_ite Proc.context, hf, ite_self]
  exact hx

theorem onChildren {f : Children → Children} (h : HasContext a x l) :
    HasContext a x (l.update b (Proc.onChildren f)) := h.update fun _ => rfl

/-- A change of another process. -/
theorem update_ne {f : Proc → Proc} (h : HasContext a x l) (hne : a ≠ b) :
    HasContext a x (l.update b f) := by
  obtain ⟨P, hP, hx⟩ := h
  exact ⟨P, (SList.mem_update_ne hne).mpr hP, hx⟩

theorem remove (h : HasContext a x l) (hne : a ≠ b) : HasContext a x (l.remove b) := by
  obtain ⟨P, hP, hx⟩ := h
  exact ⟨P, SList.mem_remove.mpr ⟨hP, hne⟩, hx⟩

end HasContext

variable {x : UInt32 × ProcRegs × List UInt8}

theorem CreateSpec.hasContext {parent r : Option Nat} (h : CreateSpec s parent r s')
    (hx : HasContext a x s.processes) : HasContext a x s'.processes := by
  cases h with
  | failed same => exact same.processes ▸ hx
  | root parent enrolled => exact enrolled.processes ▸ hx.insertHead enrolled.fresh
  | child mem claim parent enrolled =>
      exact enrolled.processes ▸ hx.onChildren.insertHead enrolled.fresh

theorem DestroySpec.hasContext {p : Nat} (h : DestroySpec s p s') (hne : a ≠ p)
    (hx : HasContext a x s.processes) : HasContext a x s'.processes := by
  cases h with
  | root mem noParent same => exact same.processes ▸ hx.remove hne
  | child mem parent frompid same =>
      exact same.processes ▸ hx.onChildren.remove hne

theorem hasContext_switch {c n : Nat} {N : Proc} (hne : a ≠ c)
    (hx : HasContext a x s.processes) : HasContext a x (s.switch c n N).processes :=
  (hx.update_ne hne).update fun _ => rfl

/-! ## The process on the CPU -/

/-- The process at `a` is the current one. -/
def Current (a : Nat) (s : Procs κ) : Prop :=
  ∃ r fpu, HasContext a (s.currPid, r, fpu) s.processes

namespace Current

theorem create {parent res : Option Nat} (h : Current a s) (hc : CreateSpec s parent res s')
    (hs : PidsOk s) : Current a s' := by
  obtain ⟨r, fpu, hx⟩ := h
  rcases hc.currPid_cases with heq | ⟨-, -, -, h0⟩
  · exact ⟨r, fpu, heq ▸ hc.hasContext hx⟩
  · obtain ⟨P, hP, hPx⟩ := hx
    exact absurd ((congrArg Prod.fst hPx).trans h0) (hs.id_ne_zero hP)

theorem destroy {p : Nat} (h : Current a s) (hd : DestroySpec s p s') (hne : a ≠ p) :
    Current a s' := by
  obtain ⟨r, fpu, hx⟩ := h
  exact ⟨r, fpu, hd.currPid ▸ hd.hasContext hne hx⟩

/-- There is one current process. -/
theorem eq_curr {c : Nat} {C : Proc} (h : Current a s) (hs : PidsOk s)
    (hc : s.processFrompid s.currPid = some (c, C)) : a = c := by
  obtain ⟨r, fpu, P, hP, hPx⟩ := h
  obtain ⟨hC, hid⟩ := processFrompid_mem hc
  exact congrArg Prod.fst (hs.inj hP hC ((congrArg Prod.fst hPx).trans hid.symm))

/-- A switch makes the process it loads the current one. -/
theorem switch {c n : Nat} {N : Proc} (hN : (n, N) ∈ s.processes.nodes) :
    Current n (s.switch c n N) := by
  obtain ⟨M, hM, hid, -⟩ := mem_switch (c := c) hN
  exact ⟨M.regs, M.fpuRegs, M, hM, by rw [Proc.context, hid]; rfl⟩

end Current

/-! ## A process off the CPU -/

/-- The process at `a` is not the current one, and holds this context. -/
def Asleep (a : Nat) (r : ProcRegs) (fpu : List UInt8) (s : Procs κ) : Prop :=
  ∃ pid, HasContext a (pid, r, fpu) s.processes ∧ pid ≠ s.currPid

namespace Asleep

variable {r : ProcRegs} {fpu : List UInt8}

theorem create {parent res : Option Nat} (h : Asleep a r fpu s) (hc : CreateSpec s parent res s')
    (hfresh : res ≠ none → FreshPid s) : Asleep a r fpu s' := by
  obtain ⟨pid, hx, hne⟩ := h
  refine ⟨pid, hc.hasContext hx, ?_⟩
  rcases hc.currPid_cases with heq | ⟨hr, heq, -⟩
  · rwa [heq]
  · intro hpid
    obtain ⟨P, hP, hPx⟩ := hx
    exact (hfresh hr).2 (mem_pids.mpr ⟨_, hP, (congrArg Prod.fst hPx).trans (hpid.trans heq)⟩)

theorem destroy {p : Nat} (h : Asleep a r fpu s) (hd : DestroySpec s p s') (hne : a ≠ p) :
    Asleep a r fpu s' := by
  obtain ⟨pid, hx, hpid⟩ := h
  exact ⟨pid, hd.hasContext hne hx, hd.currPid ▸ hpid⟩

/-- A process that is asleep is not the one a switch saves. -/
theorem ne_curr {c : Nat} {C : Proc} (h : Asleep a r fpu s)
    (hc : s.processFrompid s.currPid = some (c, C)) : a ≠ c := by
  rintro rfl
  obtain ⟨pid, ⟨P, hP, hx⟩, hne⟩ := h
  obtain ⟨hC, hid⟩ := processFrompid_mem hc
  obtain rfl : P = C := SList.unique hP hC
  exact hne ((congrArg Prod.fst hx).symm.trans hid)

/-- A switch to another process leaves it asleep. -/
theorem switch {c n : Nat} {N : Proc} (h : Asleep a r fpu s) (hs : PidsOk s)
    (hc : a ≠ c) (hN : (n, N) ∈ s.processes.nodes) (hn : a ≠ n) :
    Asleep a r fpu (s.switch c n N) := by
  obtain ⟨pid, hx, -⟩ := h
  refine ⟨pid, hasContext_switch hc hx, ?_⟩
  intro hid
  obtain ⟨P, hP, hPx⟩ := hx
  exact hn (congrArg Prod.fst (hs.inj hP hN ((congrArg Prod.fst hPx).trans hid)))

/-- The process that a switch to another one takes off the CPU is asleep, with
what was on the CPU. -/
theorem switched {c n : Nat} {C N : Proc} (hs : PidsOk s)
    (hc : s.processFrompid s.currPid = some (c, C)) (hN : (n, N) ∈ s.processes.nodes)
    (hne : c ≠ n) : Asleep c s.cpu s.fpu (s.switch c n N) := by
  obtain ⟨hC, -⟩ := processFrompid_mem hc
  have hsaved := SList.mem_update_self (f := Proc.stopped s.fpu s.cpu) |>.mpr ⟨C, hC, rfl⟩
  refine ⟨C.id, ⟨_, (SList.mem_update_ne hne).mpr hsaved, rfl⟩, ?_⟩
  intro hid
  exact hne (congrArg Prod.fst (hs.inj hC hN hid))

/-- A switch to the process loads what it holds. -/
theorem loaded (h : Asleep a r fpu s) (hto : s.SwitchesTo a) (hs : s.schedule = some s') :
    s'.cpu = r ∧ s'.fpu = fpu := by
  obtain ⟨⟨c, C⟩, N, hc, hn⟩ := hto
  have hac := h.ne_curr hc
  obtain ⟨pid, ⟨P, hP, hx⟩, -⟩ := h
  obtain rfl : P = N := SList.unique hP (processNext_mem hn)
  cases schedule_spec hs with
  | idle stuck =>
      rcases stuck with h0 | hnone
      · simp [processNext, h0] at hn
      · simp [hnone] at hc
  | switched curr next =>
      obtain ⟨rfl, rfl⟩ := Prod.mk.inj (Option.some.inj (curr.symm.trans hc))
      obtain ⟨rfl, rfl⟩ := Prod.mk.inj (Option.some.inj (next.symm.trans hn))
      simp only [Procs.switch, if_neg hac]
      exact ⟨congrArg (·.2.1) hx, congrArg (·.2.2) hx⟩

/-- A `schedule` that does not switch to the process leaves it asleep. -/
theorem schedule (h : Asleep a r fpu s) (hp : PidsOk s) (hto : ¬ s.SwitchesTo a)
    (hs : s.schedule = some s') : Asleep a r fpu s' := by
  cases schedule_spec hs with
  | idle stuck => exact h
  | @switched c n C N curr next =>
      refine h.switch hp (h.ne_curr curr) (processNext_mem next) ?_
      rintro rfl
      exact hto ⟨_, N, curr, next⟩

end Asleep

/-! ## The log -/

/-- The process that `schedule` switches out, if it switches. -/
def switchedOut (s : Procs κ) : Option Nat :=
  if s.procCount = 0 then none else (s.processFrompid s.currPid).map Prod.fst

end Procs

/-- A machine, with what was on the CPU when each process was last switched
out. -/
structure Logged (κ : Type*) where
  machine : Machine κ
  out : Nat → Option (ProcRegs × List UInt8)

namespace Logged

variable {κ : Type*} (K : Kernel κ)

/-- The log after a call: `schedule` adds an entry for the process it switches
out, and `proc_destroy` takes that of the process. -/
def logged (s : Logged κ) : MachineCall → Nat → Option (ProcRegs × List UInt8)
  | .call .schedule =>
      match s.machine.procs.switchedOut with
      | none => s.out
      | some c => fun a =>
          if a = c then some (s.machine.procs.cpu, s.machine.procs.fpu) else s.out a
  | .call (.procDestroy p) => fun a => if a = p then none else s.out a
  | _ => s.out

/-- One step of the machine, and the log. -/
def step (s : Logged κ) (c : MachineCall) : Option (Logged κ) :=
  (s.machine.step K c).map fun m => ⟨m, s.logged c⟩

/-- The machine before any process is created. -/
def boot (cpu : ProcRegs) (fpu fpuRegs : List UInt8) (kernel : κ) : Logged κ where
  machine := ⟨Procs.boot cpu fpu kernel, fpuRegs⟩
  out := fun _ => none

/-- `proc_create` under a fresh pid, `proc_destroy` and `schedule`, and changes
of the registers by the code that runs. -/
def PlainCall (s : Logged κ) : MachineCall → Prop
  | .call (.procCreate _ _ _) =>
      (K.kmalloc s.machine.procs.kernel).1 ≠ none → Procs.FreshPid s.machine.procs
  | .call (.procDestroy _) => True
  | .call .schedule => True
  | .work _ _ => True
  | _ => False

instance {s : Logged κ} {c : MachineCall} : Decidable (PlainCall K s c) :=
  match c with
  | .call (.procCreate _ _ _) => inferInstanceAs (Decidable (_ ≠ none → Procs.FreshPid _))
  | .call (.procDestroy _) | .call .schedule | .work _ _ => isTrue trivial
  | .call (.procSigenter _ _ _) | .call (.procSigleave _) | .call .processesCleanup => isFalse id

/-- A process with an entry in the log is the current one, or holds what the
entry says. -/
structure LogOk (s : Logged κ) : Prop extends Procs.PidsOk s.machine.procs where
  entry : ∀ a r fpu, s.out a = some (r, fpu) → Procs.Current a s.machine.procs ∨
    Procs.Asleep a r fpu s.machine.procs

theorem boot_logOk (cpu : ProcRegs) (fpu fpuRegs : List UInt8) (kernel : κ) :
    LogOk (boot cpu fpu fpuRegs kernel) :=
  ⟨Procs.boot_pidsOk cpu fpu kernel, nofun⟩

variable {K} {s s' : Logged κ}

/-- The log of a `schedule` that switches. -/
theorem logged_switch {c : Nat} {C : Proc} (h0 : s.machine.procs.procCount ≠ 0)
    (hc : s.machine.procs.processFrompid s.machine.procs.currPid = some (c, C)) (a : Nat) :
    s.logged (.call .schedule) a =
      if a = c then some (s.machine.procs.cpu, s.machine.procs.fpu) else s.out a := by
  simp only [logged, Procs.switchedOut, h0, ↓reduceIte, hc, Option.map_some]

/-- The log of a `schedule` that leaves everything as it is. -/
theorem logged_idle (h : s.machine.procs.procCount = 0 ∨
    s.machine.procs.processFrompid s.machine.procs.currPid = none) :
    s.logged (.call .schedule) = s.out := by
  rcases h with h | h
  · simp only [logged, Procs.switchedOut, h, ↓reduceIte]
  · simp only [logged, Procs.switchedOut, h, Option.map_none, ite_self]

theorem LogOk.schedule (h : LogOk s) (hs : s.step K (.call .schedule) = some s') : LogOk s' := by
  obtain ⟨m, hm, rfl⟩ := Option.map_eq_some_iff.mp hs
  cases m with
  | mk t fpuRegs =>
  cases Procs.schedule_spec (Machine.step_call hm) with
  | idle stuck => exact ⟨h.toPidsOk, logged_idle stuck ▸ h.entry⟩
  | @switched c n C N curr next =>
      have h0 : s.machine.procs.procCount ≠ 0 := fun h0 => by simp [Procs.processNext, h0] at next
      have hN := Procs.processNext_mem next
      refine ⟨Procs.pidsOk_switch h.toPidsOk, ?_⟩
      intro a r fpu (ha : s.logged (.call .schedule) a = some (r, fpu))
      show Procs.Current a (s.machine.procs.switch c n N) ∨
        Procs.Asleep a r fpu (s.machine.procs.switch c n N)
      rw [logged_switch h0 curr] at ha
      by_cases hn : a = n
      · subst hn
        exact Or.inl (Procs.Current.switch hN)
      · right
        split at ha
        · rename_i hc
          subst hc
          obtain ⟨rfl, rfl⟩ := Prod.mk.inj (Option.some.inj ha)
          exact Procs.Asleep.switched h.toPidsOk curr hN hn
        · rename_i hc
          rcases h.entry a r fpu ha with hcurr | hasleep
          · exact absurd (hcurr.eq_curr h.toPidsOk curr) hc
          · exact hasleep.switch h.toPidsOk hc hN hn

/-- The calls keep the log right. -/
theorem step_logOk (s : Logged κ) (c : MachineCall) (s' : Logged κ) (h : LogOk s)
    (hc : PlainCall K s c) (hs : s.step K c = some s') : LogOk s' := by
  obtain ⟨m, hm, rfl⟩ := Option.map_eq_some_iff.mp hs
  cases c with
  | work cpu fpu =>
      obtain rfl := Option.some.inj hm
      exact ⟨⟨h.nodup, h.nonzero, h.count⟩, h.entry⟩
  | call c =>
      have hp := Machine.step_call hm
      cases c with
      | schedule => exact h.schedule hs
      | procCreate parent name isuser =>
          obtain ⟨⟨r, t⟩, ht, hmt⟩ := Option.map_eq_some_iff.mp hp
          obtain rfl : t = m.procs := hmt
          have hspec := Procs.procCreate_spec ht
          have hfresh : r ≠ none → Procs.FreshPid s.machine.procs := fun hr =>
            hc (Procs.procCreate_block ht hr)
          refine ⟨hspec.pidsOk h.toPidsOk hfresh, ?_⟩
          intro a regs fpu ha
          rcases h.entry a regs fpu ha with hcurr | hasleep
          · exact Or.inl (hcurr.create hspec h.toPidsOk)
          · exact Or.inr (hasleep.create hspec hfresh)
      | procDestroy p =>
          have hspec := Procs.procDestroy_spec hp
          refine ⟨hspec.pidsOk h.toPidsOk, ?_⟩
          intro a regs fpu ha
          simp only [logged] at ha
          split at ha
          · cases ha
          · rename_i hne
            rcases h.entry a regs fpu ha with hcurr | hasleep
            · exact Or.inl (hcurr.destroy hspec hne)
            · exact Or.inr (hasleep.destroy hspec hne)
      | procSigenter p signum data => exact hc.elim
      | procSigleave p => exact hc.elim
      | processesCleanup => exact hc.elim

/-- With a right log, a switch to a process loads what the log has for it. -/
theorem LogOk.loaded {a : Nat} {r : ProcRegs} {fpu : List UInt8} (h : LogOk s)
    (hto : s.machine.procs.SwitchesTo a) (hs : s.step K (.call .schedule) = some s')
    (hlog : s'.out a = some (r, fpu)) :
    s'.machine.procs.cpu = r ∧ s'.machine.procs.fpu = fpu := by
  obtain ⟨m, hm, rfl⟩ := Option.map_eq_some_iff.mp hs
  have hsched : s.machine.procs.schedule = some m.procs := Machine.step_call hm
  obtain ⟨⟨c, C⟩, N, hc, hn⟩ := hto
  have h0 : s.machine.procs.procCount ≠ 0 := fun h0 => by simp [Procs.processNext, h0] at hn
  replace hlog := (logged_switch h0 hc a).symm.trans hlog
  split at hlog
  · -- The process follows itself.
    rename_i hac
    obtain ⟨rfl, rfl⟩ := Prod.mk.inj (Option.some.inj hlog)
    have hm' : s.machine.procs.switch c a N = m.procs := by
      simpa [Procs.schedule, h0, hc, hn] using hsched
    rw [← hm']
    exact ⟨if_pos hac, if_pos hac⟩
  · rename_i hac
    rcases h.entry a r fpu hlog with hcurr | hasleep
    · exact absurd (hcurr.eq_curr h.toPidsOk hc) hac
    · exact hasleep.loaded ⟨_, N, hc, hn⟩ hsched

/-- In every run, a `schedule` that switches to a process that was switched out
before loads what was on the CPU when it was switched out last. -/
theorem runs_contextIsolation (K : Kernel κ) (cpu : ProcRegs) (fpu fpuRegs : List UInt8)
    (kernel : κ) (calls : List MachineCall) {s s' : Logged κ} {a : Nat} {r : ProcRegs}
    {image : List UInt8}
    (hcalls : Meets (step K) (PlainCall K) (boot cpu fpu fpuRegs kernel) calls)
    (hrun : run (step K) (boot cpu fpu fpuRegs kernel) calls = some s)
    (hto : s.machine.procs.SwitchesTo a) (hs : s.step K (.call .schedule) = some s')
    (hlog : s'.out a = some (r, image)) :
    s'.machine.procs.cpu = r ∧ s'.machine.procs.fpu = image :=
  (run_invariant step_logOk calls (boot_logOk cpu fpu fpuRegs kernel) hcalls hrun).loaded
    hto hs hlog

/-- The first of two processes is switched out with 7 in `eip`, and the second
changes all registers. -/
def twoContexts : List MachineCall :=
  [.call (.procCreate none [97] 0), .call (.procCreate none [98] 0), .work { eip := 7 } [1, 2],
    .call .schedule, .work { eip := 9 } [3]]

/-- The next `schedule` loads what the first process had. -/
theorem runs_contextIsolation_two :
    ∃ s s' : Logged (Nat × Mem.Memory),
      run (step Procs.small) (boot {} [] [] (0x100000, Mem.booted)) twoContexts = some s ∧
        s.step Procs.small (.call .schedule) = some s' ∧
        s'.machine.procs.cpu = { eip := 7 } ∧ s'.machine.procs.fpu = [1, 2] := by
  let r := run (step Procs.small) (boot {} [] [] (0x100000, Mem.booted)) twoContexts
  obtain ⟨s, hs⟩ := Option.isSome_iff_exists.mp (show r.isSome by decide +kernel)
  have hsched : ∀ s ∈ r, (s.step Procs.small (.call .schedule)).isSome := by decide +kernel
  have hto : ∀ s ∈ r, s.machine.procs.SwitchesTo 0x100000 := by decide +kernel
  have hlog : ∀ s ∈ r, ∀ s' ∈ s.step Procs.small (.call .schedule),
      s'.out 0x100000 = some ({ eip := 7 }, [1, 2]) := by decide +kernel
  obtain ⟨s', hs'⟩ := Option.isSome_iff_exists.mp (hsched s hs)
  exact ⟨s, s', hs, hs', runs_contextIsolation Procs.small {} [] [] (0x100000, Mem.booted)
    twoContexts (by decide +kernel) hs (hto s hs) hs' (hlog s hs s' hs')⟩

end Logged

end StardustOS.Process
