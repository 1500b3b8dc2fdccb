import StardustOS.Process.Exec

/-!
# Where a new process starts

The first context that `schedule` loads for a process is the one that
`proc_exec` prepared for it, as long as nothing is saved in its place before.
`schedule` saves in the current process only, and a new process is the current
one when it is the first there is (`StartsApart`).  So the first process, which
the kernel starts at boot, never runs its program.
-/

namespace StardustOS.Process

open Lib Libfile

/-- A tick, a `proc_exec`, or a change of the registers by the code that runs. -/
inductive ExecCall where
  | schedule
  | exec (path : List UInt8) (argv : Option (List (List UInt8)))
  | work (cpu : ProcRegs) (fpu : List UInt8)
deriving DecidableEq, Repr

namespace Procs

variable {κ : Type*} (K : Kernel κ) (L : Loader κ)

/-- One such call. -/
def execStep (s : Procs κ) : ExecCall → Option (Procs κ)
  | .schedule => s.schedule
  | .exec path argv => (s.procExec K L path argv).map Prod.snd
  | .work cpu fpu => some (s.work cpu fpu)

/-- A process that is created now gets a fresh pid, and does not become the
current one. -/
def StartsApart (s : Procs κ) : Prop :=
  FreshPid s ∧ s.nextPid ≠ s.currPid ∧ (s.procCount ≠ 0 ∨ s.currPid ≠ 0)

/-- `schedule` does not switch to the process at `a`, and processes are created
under fresh pids. -/
def NotYet (a : Nat) (s : Procs κ) : ExecCall → Prop
  | .schedule => ¬ s.SwitchesTo a
  | .exec _ _ => FreshPid s
  | .work _ _ => True

instance {s : Procs κ} : Decidable (StartsApart s) :=
  inferInstanceAs
    (Decidable (FreshPid s ∧ s.nextPid ≠ s.currPid ∧ (s.procCount ≠ 0 ∨ s.currPid ≠ 0)))

instance {a : Nat} {s : Procs κ} {c : ExecCall} : Decidable (NotYet a s c) :=
  match c with
  | .schedule => inferInstanceAs (Decidable (¬ s.SwitchesTo a))
  | .exec _ _ => inferInstanceAs (Decidable (FreshPid s))
  | .work _ _ => isTrue trivial

variable {K L} {s s' : Procs κ} {a : Nat} {path : List UInt8}
  {argv : Option (List (List UInt8))}

/-! ## `proc_exec` and the processes there are -/

theorem SameTable.pidsOk (h : SameTable s s') (hs : PidsOk s) : PidsOk s' :=
  ⟨h.pids ▸ hs.nodup, h.pids ▸ hs.nonzero, by rw [h.procCount, h.pids, hs.count]⟩

theorem SameTable.asleep {r : ProcRegs} {fpu : List UInt8} (h : SameTable s s')
    (hs : Asleep a r fpu s) : Asleep a r fpu s' := by
  obtain ⟨pid, hx, hne⟩ := hs
  exact ⟨pid, h.processes ▸ hx, h.currPid ▸ hne⟩

namespace Prepared

variable {b : Nat} {t : Procs κ}

theorem pidsOk (h : Prepared K L s path argv b t s') (hs : PidsOk s) (hfresh : FreshPid s) :
    PidsOk s' :=
  h.spares.pidsOk (h.create.pidsOk hs fun _ => hfresh)

/-- A process that is asleep is neither the new one nor the current one. -/
theorem asleep {r : ProcRegs} {fpu : List UInt8} (h : Prepared K L s path argv b t s')
    (ha : Asleep a r fpu s) (hfresh : FreshPid s) : Asleep a r fpu s' ∧ a ≠ b := by
  have hab : a ≠ b := by
    rintro rfl
    obtain ⟨pid, ⟨P, hP, -⟩, -⟩ := ha
    exact h.create.fresh (SList.mem_addrs hP)
  refine ⟨h.spares.asleep ?_ (ha.create h.create fun _ => hfresh), hab⟩
  rintro (heq | hcurr)
  · exact hab heq
  · obtain ⟨⟨c, C⟩, hc, hca⟩ := Option.map_eq_some_iff.mp hcurr.symm
    obtain rfl : c = a := hca
    obtain ⟨hC, hid⟩ := processCurr_mem hc
    obtain ⟨pid, ⟨P, hP, hx⟩, hne⟩ := ha
    obtain rfl : P = C := SList.unique hP hC
    exact hne ((congrArg Prod.fst hx).symm.trans hid)

end Prepared

theorem ExecSpec.keeps {res : ExecResult} {r : ProcRegs} {fpu : List UInt8}
    (h : ExecSpec K L s path argv res s') (hs : PidsOk s) (hfresh : FreshPid s)
    (ha : Asleep a r fpu s) : PidsOk s' ∧ Asleep a r fpu s' := by
  cases h with
  | refused same => exact ⟨same.pidsOk hs, same.asleep ha⟩
  | created prepared => exact ⟨prepared.pidsOk hs hfresh, (prepared.asleep ha hfresh).1⟩
  | destroyed prepared destroy =>
      obtain ⟨hasleep, hne⟩ := prepared.asleep ha hfresh
      exact ⟨destroy.pidsOk (prepared.pidsOk hs hfresh), hasleep.destroy destroy hne⟩

/-- A process that does not become the current one is asleep, with what was
prepared for it. -/
theorem Prepared.newAsleep {t : Procs κ} (h : Prepared K L s path argv a t s')
    (hapart : StartsApart s) :
    ∃ node hdr kernel, execHeader L path s.kernel = (.ok (node, hdr), kernel) ∧
      Asleep a (preparedRegs a (K.memAllocPgdir (K.kmalloc kernel).2).1 hdr argv) s.fpu s' := by
  obtain ⟨node, hdr, kernel, hh, hx⟩ := h.context
  refine ⟨node, hdr, kernel, hh, s.nextPid, hx, ?_⟩
  rw [h.spares.currPid]
  rcases h.create.currPid_cases with heq | ⟨-, -, h0, hcurr⟩
  · rw [heq]
    exact hapart.2.1
  · rcases hapart.2.2 with hne | hne
    · exact absurd h0 hne
    · exact absurd hcurr hne

/-! ## Runs -/

/-- A tick that switches elsewhere, a `proc_exec` and the code that runs leave a
process asleep. -/
theorem execStep_keeps {r : ProcRegs} {fpu : List UInt8} (s : Procs κ) (c : ExecCall)
    (s' : Procs κ) (h : PidsOk s ∧ Asleep a r fpu s) (hc : NotYet a s c)
    (hs : s.execStep K L c = some s') : PidsOk s' ∧ Asleep a r fpu s' := by
  cases c with
  | schedule =>
      refine ⟨?_, h.2.schedule h.1 hc hs⟩
      cases schedule_spec hs with
      | idle stuck => exact h.1
      | switched curr next => exact pidsOk_switch h.1
  | exec path argv =>
      obtain ⟨⟨res, t⟩, ht, heq⟩ := Option.map_eq_some_iff.mp hs
      obtain rfl : t = s' := heq
      exact (procExec_spec ht).keeps h.1 hc h.2
  | work cpu fpu =>
      obtain rfl := Option.some.inj hs
      exact ⟨⟨h.1.nodup, h.1.nonzero, h.1.count⟩, h.2⟩

/-- After `proc_exec` has created a process apart from the current one, the
first context that `schedule` loads for it is the one that was prepared. -/
theorem runs_startsAtEntry (K : Kernel κ) (L : Loader κ) {s s₁ s₂ s₃ : Procs κ} (hs : PidsOk s)
    (hapart : StartsApart s) (path : List UInt8) (argv : Option (List (List UInt8))) {a : Nat}
    {pid : UInt32} (hexec : s.procExec K L path argv = some (.created a pid, s₁))
    (calls : List ExecCall) (hcalls : Meets (execStep K L) (NotYet a) s₁ calls)
    (hrun : run (execStep K L) s₁ calls = some s₂) (hto : s₂.SwitchesTo a)
    (hsched : s₂.schedule = some s₃) :
    ∃ node hdr kernel, execHeader L path s.kernel = (.ok (node, hdr), kernel) ∧
      s₃.cpu = preparedRegs a (K.memAllocPgdir (K.kmalloc kernel).2).1 hdr argv := by
  cases procExec_spec hexec with
  | created prepared =>
      obtain ⟨node, hdr, kernel, hh, hasleep⟩ := prepared.newAsleep hapart
      have hfinal := run_invariant execStep_keeps calls
        ⟨prepared.pidsOk hs hapart.1, hasleep⟩ hcalls hrun
      exact ⟨node, hdr, kernel, hh, (hfinal.2.loaded hto hsched).1⟩

/-! ## Programs of the small machine -/

/-- A file with the entry point `0x40000000` and `phnum` segments of four bytes
there. -/
def elfFile (phnum : UInt8) : List UInt8 :=
  [0x7F, 69, 76, 70, 1, 1, 0, 0, 0, 0, 0, 0, 0, 0, 0, 0, 2, 0, 3, 0, 1, 0, 0, 0,
    0, 0, 0, 0x40, 52, 0, 0, 0, 0, 0, 0, 0, 0, 0, 0, 0, 52, 0, 32, 0, phnum, 0, 0, 0, 0, 0, 0, 0,
    1, 0, 0, 0, 84, 0, 0, 0, 0, 0, 0, 0x40, 0, 0, 0, 0, 4, 0, 0, 0, 4, 0, 0, 0, 7, 0, 0, 0,
    0, 0, 0, 0, 0x90, 0x90, 0xEB, 0xFE]

/-- Every path is that of one file, and the kernel uses the lower quarter of the
address space. -/
def oneFile (file : List UInt8) : Loader (Nat × Mem.Memory) where
  fsResolve _ k := ((0, 0), k)
  fsNodeRead _ offset size k :=
    let bytes := (file.drop offset.toNat).take size
    ((bytes.length, bytes), k)
  memMap pgdir vaddr count k :=
    (k.1, k.2.memMap (Mem.frameOf pgdir.toNat) vaddr.toNat count true true)
  inUse vaddr _ _ := vaddr < 0x40000000

/-- A machine with one process. -/
def oneProcess : Procs (Nat × Mem.Memory) :=
  (run (step small) smallBoot [.procCreate none [97] 0]).getD smallBoot

/-- A program that is started beside the process there is. -/
theorem runs_startsAtEntry_second :
    ∃ s₁ s₂ s₃ : Procs (Nat × Mem.Memory), ∃ node hdr kernel,
      oneProcess.procExec small (oneFile (elfFile 1)) [98] (some [[104, 105]]) =
        some (.created 0x115000 2, s₁) ∧
      run (execStep small (oneFile (elfFile 1))) s₁ [.work { eip := 9 } [3]] = some s₂ ∧
      s₂.schedule = some s₃ ∧
      execHeader (oneFile (elfFile 1)) [98] oneProcess.kernel = (.ok (node, hdr), kernel) ∧
      s₃.cpu = preparedRegs 0x115000 (small.memAllocPgdir (small.kmalloc kernel).2).1 hdr
        (some [[104, 105]]) := by
  have hpids : oneProcess.pids = [1] ∧ oneProcess.procCount = 1 := by decide +kernel
  have hok : PidsOk oneProcess :=
    ⟨by rw [hpids.1]; decide, by rw [hpids.1]; decide, by rw [hpids.1, hpids.2]; rfl⟩
  let e := oneProcess.procExec small (oneFile (elfFile 1)) [98] (some [[104, 105]])
  have he : e.map Prod.fst = some (.created 0x115000 2) := by decide +kernel
  obtain ⟨⟨res, s₁⟩, hexec, rfl⟩ := Option.map_eq_some_iff.mp he
  let calls : List ExecCall := [.work { eip := 9 } [3]]
  have hcalls : ∀ r ∈ e,
      Meets (execStep small (oneFile (elfFile 1))) (NotYet 0x115000) r.2 calls := by
    decide +kernel
  have hto : ∀ r ∈ e, (r.2.work { eip := 9 } [3]).SwitchesTo 0x115000 := by decide +kernel
  have hsched : ∀ r ∈ e, (r.2.work { eip := 9 } [3]).schedule.isSome := by decide +kernel
  obtain ⟨s₃, hs₃⟩ := Option.isSome_iff_exists.mp (hsched _ hexec)
  obtain ⟨node, hdr, kernel, hh, hcpu⟩ := runs_startsAtEntry small (oneFile (elfFile 1)) hok
    (by decide +kernel) [98] (some [[104, 105]]) hexec calls (hcalls _ hexec) rfl
    (hto _ hexec) hs₃
  exact ⟨s₁, _, s₃, node, hdr, kernel, hexec, rfl, hs₃, hh, hcpu⟩

/-- A program that is started at boot.  The first tick switches from it to
itself, and loads the registers of the code that was running. -/
theorem runs_startsAtEntry_wrong :
    ∃ s₁ s₂ s₃ : Procs (Nat × Mem.Memory),
      smallBoot.procExec small (oneFile (elfFile 0)) [98] none =
        some (.created 0x100000 1, s₁) ∧
      Meets (execStep small (oneFile (elfFile 0))) (NotYet 0x100000) s₁ [.work { eip := 9 } [3]] ∧
      run (execStep small (oneFile (elfFile 0))) s₁ [.work { eip := 9 } [3]] = some s₂ ∧
      s₂.SwitchesTo 0x100000 ∧ s₂.schedule = some s₃ ∧ s₃.cpu.eip = 9 ∧
      ¬ ∃ node hdr kernel,
        execHeader (oneFile (elfFile 0)) [98] smallBoot.kernel = (.ok (node, hdr), kernel) ∧
        s₃.cpu =
          preparedRegs 0x100000 (small.memAllocPgdir (small.kmalloc kernel).2).1 hdr none := by
  let e := smallBoot.procExec small (oneFile (elfFile 0)) [98] none
  have he : e.map Prod.fst = some (.created 0x100000 1) := by decide +kernel
  obtain ⟨⟨res, s₁⟩, hexec, rfl⟩ := Option.map_eq_some_iff.mp he
  have hcalls : ∀ r ∈ e, Meets (execStep small (oneFile (elfFile 0))) (NotYet 0x100000) r.2
      [.work { eip := 9 } [3]] := by decide +kernel
  have hto : ∀ r ∈ e, (r.2.work { eip := 9 } [3]).SwitchesTo 0x100000 := by decide +kernel
  have hsched : ∀ r ∈ e,
      (r.2.work { eip := 9 } [3]).schedule.map (fun s => s.cpu.eip) = some 9 := by
    decide +kernel
  have hentry : (execHeader (oneFile (elfFile 0)) [98] smallBoot.kernel).1.toOption.map
      (fun r => r.2.entry) = some 0x40000000 := by decide +kernel
  obtain ⟨s₃, hs₃, heip⟩ := Option.map_eq_some_iff.mp (hsched _ hexec)
  refine ⟨s₁, _, s₃, hexec, hcalls _ hexec, rfl, hto _ hexec, hs₃, heip, ?_⟩
  rintro ⟨node, hdr, kernel, hh, hcpu⟩
  rw [hh] at hentry
  have h9 : hdr.entry = 9 := by simpa [hcpu, preparedRegs] using heip
  simp [Except.toOption, h9] at hentry

end Procs

end StardustOS.Process
