import StardustOS.Process.Steps

/-!
# The books of the process table

Pids come from a counter that is never set back, and the list of processes and
`proc_count` are kept apart.  `Issued` is the table together with the pids that
were given out so far.  While fewer than 2^32 - 1 were, the counter is one more
than their number (`IssuedOk`), so the pid to come is a new one, and every pid of
the table is one of those that were given out.

Only `proc_create` gives out a pid.  Of all other calls it is enough that they
add none (`NoNewPid`).
-/

namespace StardustOS.Process

open Lib

/-- The table, and the pids of all processes that were ever created, the newest
first. -/
structure Issued (κ : Type*) where
  procs : Procs κ
  issued : List UInt32

namespace Issued

variable {κ : Type*} (K : Kernel κ) (t : Issued κ)

/-- A call of `proc_create` that returned `r` issued the pid of the process at
`r`. -/
def issue (r : Option Nat) (s : Procs κ) : Issued κ :=
  ⟨s, (r.bind fun a => (s.processes.get? a).map Proc.id).toList ++ t.issued⟩

/-- One call, and what it issued. -/
def step : ProcCall → Option (Issued κ)
  | .procCreate parent name isuser =>
      (t.procs.procCreate K parent name isuser).map fun (r, s) => t.issue r s
  | call => (t.procs.step K call).map fun s => ⟨s, t.issued⟩

/-- No process was created. -/
def boot (cpu : ProcRegs) (fpu : List UInt8) (kernel : κ) : Issued κ :=
  ⟨Procs.boot cpu fpu kernel, []⟩

/-- The books are right: the pids in use are not 0 and distinct, none was used
before, `process_count` is the length of the list, `process_get` finds a process
at each position below it, and `process_frompid` finds that process again. -/
structure Bookkeeping : Prop where
  nonzero : 0 ∉ t.procs.pids
  distinct : t.procs.pids.Nodup
  onceOnly : t.issued.Nodup
  used : t.procs.pids ⊆ t.issued
  count : t.procs.processCount = t.procs.processes.nodes.length
  get : ∀ i, (t.procs.processGet i).isSome ↔ i < t.procs.processCount
  frompid : ∀ i n, t.procs.processGet i = some n → t.procs.processFrompid n.2.id = some n

/-- The counter is above every pid that was issued. -/
structure IssuedOk : Prop extends Procs.PidsOk t.procs where
  next : t.procs.nextPid.toNat = t.issued.length + 1
  below : ∀ pid ∈ t.issued, 0 < pid.toNat ∧ pid.toNat ≤ t.issued.length
  onceOnly : t.issued.Nodup
  used : t.procs.pids ⊆ t.issued

end Issued

namespace Procs

variable {κ : Type*} {K : Kernel κ} {s s' s'' : Procs κ}

/-! ## Calls that issue no pid -/

/-- No pid is issued, and none comes to the table. -/
structure NoNewPid (s s' : Procs κ) : Prop where
  nextPid : s'.nextPid = s.nextPid
  pids : s'.pids ⊆ s.pids
  pidsOk : PidsOk s → PidsOk s'

theorem NoNewPid.refl (s : Procs κ) : NoNewPid s s := ⟨rfl, List.Subset.refl _, id⟩

theorem NoNewPid.trans (h : NoNewPid s s') (h' : NoNewPid s' s'') : NoNewPid s s'' :=
  ⟨h'.nextPid.trans h.nextPid, List.Subset.trans h'.pids h.pids, h'.pidsOk ∘ h.pidsOk⟩

theorem SameTable.noNewPid (h : SameTable s s') : NoNewPid s s' := by
  refine ⟨h.nextPid, h.pids ▸ List.Subset.refl _, ?_⟩
  intro hs
  exact ⟨h.pids ▸ hs.nodup, h.pids ▸ hs.nonzero, by rw [h.procCount, h.pids, hs.count]⟩

theorem DestroySpec.noNewPid {p : Nat} (h : DestroySpec s p s') : NoNewPid s s' := by
  refine ⟨?_, ?_, h.pidsOk⟩
  · cases h with
    | root mem noParent same => exact same.nextPid
    | child mem parent frompid same => exact same.nextPid
  · obtain ⟨P, hP, -⟩ := h.mem
    intro pid hpid
    exact (h.pids hP).mem_iff.mpr (List.mem_cons_of_mem _ hpid)

theorem SignalSpec.noNewPid {p : Nat} (h : SignalSpec s p s') (hnext : s'.nextPid = s.nextPid)
    (hcount : s'.procCount = s.procCount) : NoNewPid s s' := by
  refine ⟨hnext, h.pids ▸ List.Subset.refl _, ?_⟩
  intro hs
  exact ⟨h.pids ▸ hs.nodup, h.pids ▸ hs.nonzero, by rw [hcount, h.pids, hs.count]⟩

theorem ScheduleSpec.noNewPid (h : ScheduleSpec s s') : NoNewPid s s' := by
  cases h with
  | idle stuck => exact .refl s
  | switched curr next => exact ⟨rfl, pids_switch s _ _ _ ▸ List.Subset.refl _, pidsOk_switch⟩

/-- Only `proc_create` issues pids. -/
theorem step_noNewPid {call : ProcCall} (h : s.step K call = some s') :
    (∃ parent name isuser, call = .procCreate parent name isuser) ∨ NoNewPid s s' := by
  cases call with
  | procCreate parent name isuser => exact Or.inl ⟨parent, name, isuser, rfl⟩
  | procDestroy p => exact Or.inr (procDestroy_spec h).noNewPid
  | procSigenter p signum data =>
      obtain ⟨⟨r, t⟩, hr, rfl⟩ := Option.map_eq_some_iff.mp h
      obtain ⟨l, kernel, rfl⟩ := procSigenter_frame hr
      exact Or.inr ((procSigenter_spec hr).noNewPid rfl rfl)
  | procSigleave p =>
      obtain ⟨⟨r, t⟩, hr, rfl⟩ := Option.map_eq_some_iff.mp h
      obtain ⟨l, kernel, rfl⟩ := procSigleave_frame hr
      exact Or.inr ((procSigleave_spec hr).noNewPid rfl rfl)
  | schedule => exact Or.inr (schedule_spec h).noNewPid
  | processesCleanup =>
      refine Or.inr (cleanupFrom_inv (I := NoNewPid s) ?_ _ (.refl s) h)
      intro t t' p ht hdestroy
      exact ht.trans (procDestroy_spec hdestroy).noNewPid

/-! ## `proc_create` -/

/-- A new process has the next pid. -/
theorem CreateSpec.newPid {parent : Option Nat} {a : Nat} (h : CreateSpec s parent (some a) s') :
    (s'.processes.get? a).map Proc.id = some s.nextPid := by
  have hid : ∀ {l : SList Proc} {N : Proc}, Enrolled s s' l a N →
      (s'.processes.get? a).map Proc.id = some s.nextPid := by
    intro l N he
    have hmem : (a, N) ∈ s'.processes.nodes := he.processes ▸ List.mem_cons_self
    rw [SList.get?_eq_some.mpr hmem, Option.map_some, he.id]
  cases h with
  | root parent enrolled => exact hid enrolled
  | child mem claim parent enrolled => exact hid enrolled

theorem CreateSpec.nextPid {parent : Option Nat} {a : Nat} (h : CreateSpec s parent (some a) s') :
    s'.nextPid = s.nextPid + 1 := by
  cases h with
  | root parent enrolled => exact enrolled.nextPid
  | child mem claim parent enrolled => exact enrolled.nextPid

end Procs

namespace Issued

open Procs

variable {κ : Type*} {K : Kernel κ} {t t' : Issued κ} {s : Procs κ}

/-! ## The pids that were issued -/

theorem step_procs (t : Issued κ) (call : ProcCall) :
    (t.step K call).map procs = t.procs.step K call := by
  cases call with
  | procCreate parent name isuser => rw [step, Procs.step, Option.map_map]; rfl
  | procDestroy p => simp [step, Function.comp_def]
  | procSigenter p signum data => simp [step, Function.comp_def]
  | procSigleave p => simp [step, Function.comp_def]
  | schedule => simp [step, Function.comp_def]
  | processesCleanup => simp [step, Function.comp_def]

/-- A pid is issued, or none is. -/
theorem step_cases {call : ProcCall} (h : t.step K call = some t') :
    (∃ parent a, CreateSpec t.procs parent (some a) t'.procs ∧
      t'.issued = t.procs.nextPid :: t.issued) ∨
    (NoNewPid t.procs t'.procs ∧ t'.issued = t.issued) := by
  have hother : (t.procs.step K call).map (fun s => (⟨s, t.issued⟩ : Issued κ)) = some t' →
      (∀ parent name isuser, call ≠ .procCreate parent name isuser) →
      NoNewPid t.procs t'.procs ∧ t'.issued = t.issued := by
    intro h hne
    obtain ⟨s, hs, rfl⟩ := Option.map_eq_some_iff.mp h
    obtain ⟨parent, name, isuser, hcall⟩ | hno := step_noNewPid hs
    · exact absurd hcall (hne parent name isuser)
    · exact ⟨hno, rfl⟩
  cases call with
  | procCreate parent name isuser =>
      obtain ⟨⟨r, s⟩, hr, rfl⟩ := Option.map_eq_some_iff.mp h
      have hspec := procCreate_spec hr
      cases r with
      | none =>
          cases hspec with
          | failed same => exact Or.inr ⟨same.noNewPid, rfl⟩
      | some a =>
          refine Or.inl ⟨parent, a, hspec, ?_⟩
          show (Option.toList ((some a).bind _)) ++ t.issued = _
          rw [Option.bind_some, hspec.newPid]
          rfl
  | procDestroy p => exact Or.inr (hother h nofun)
  | procSigenter p signum data => exact Or.inr (hother h nofun)
  | procSigleave p => exact Or.inr (hother h nofun)
  | schedule => exact Or.inr (hother h nofun)
  | processesCleanup => exact Or.inr (hother h nofun)

theorem boot_issuedOk (cpu : ProcRegs) (fpu : List UInt8) (kernel : κ) :
    IssuedOk (boot cpu fpu kernel) where
  toPidsOk := boot_pidsOk cpu fpu kernel
  next := rfl
  below := fun _ h => absurd h List.not_mem_nil
  onceOnly := List.nodup_nil
  used := List.Subset.refl _

/-- Below the wrap the next pid was never issued. -/
theorem IssuedOk.fresh (h : IssuedOk t) : t.procs.nextPid ∉ t.issued := by
  intro hmem
  have hle := (h.below _ hmem).2
  rw [h.next] at hle
  omega

theorem IssuedOk.freshPid (h : IssuedOk t) : FreshPid t.procs := by
  refine ⟨?_, fun hmem => h.fresh (h.used hmem)⟩
  intro h0
  have hnext := h.next
  rw [h0] at hnext
  exact absurd hnext (Nat.succ_ne_zero _).symm

theorem IssuedOk.create {parent : Option Nat} {a : Nat} (h : IssuedOk t)
    (hc : CreateSpec t.procs parent (some a) t'.procs)
    (hissued : t'.issued = t.procs.nextPid :: t.issued)
    (hwrap : t'.issued.length < 2 ^ 32 - 1) : IssuedOk t' := by
  have hlen : t'.issued.length = t.issued.length + 1 := by rw [hissued, List.length_cons]
  refine ⟨hc.pidsOk h.toPidsOk fun _ => h.freshPid, ?_, ?_, ?_, ?_⟩
  · rw [hc.nextPid, UInt32.toNat_add, h.next, hlen]
    show (t.issued.length + 1 + 1) % 2 ^ 32 = _
    exact Nat.mod_eq_of_lt (by omega)
  · intro pid hpid
    rw [hissued] at hpid
    rw [hlen]
    cases hpid with
    | head => exact ⟨h.next ▸ Nat.succ_pos _, h.next.le⟩
    | tail _ hpid => exact ⟨(h.below pid hpid).1, Nat.le_succ_of_le (h.below pid hpid).2⟩
  · rw [hissued]
    exact List.nodup_cons.mpr ⟨h.fresh, h.onceOnly⟩
  · rw [hissued, hc.pids]
    exact List.cons_subset_cons _ h.used

theorem IssuedOk.keep (h : IssuedOk t) (hno : NoNewPid t.procs t'.procs)
    (hissued : t'.issued = t.issued) : IssuedOk t' where
  toPidsOk := hno.pidsOk h.toPidsOk
  next := by rw [hno.nextPid, hissued, h.next]
  below := hissued ▸ h.below
  onceOnly := hissued ▸ h.onceOnly
  used := hissued ▸ List.Subset.trans hno.pids h.used

/-- Pids are never taken back. -/
theorem length_issued_le {call : ProcCall} (h : t.step K call = some t') :
    t.issued.length ≤ t'.issued.length := by
  obtain ⟨parent, a, -, hissued⟩ | ⟨-, hissued⟩ := step_cases h
  · rw [hissued]
    exact Nat.le_succ _
  · exact hissued ▸ Nat.le_refl _

/-- One call below the wrap. -/
theorem IssuedOk.step {call : ProcCall} (h : IssuedOk t) (hstep : t.step K call = some t')
    (hwrap : t'.issued.length < 2 ^ 32 - 1) : IssuedOk t' := by
  obtain ⟨parent, a, hc, hissued⟩ | ⟨hno, hissued⟩ := step_cases hstep
  · exact h.create hc hissued hwrap
  · exact h.keep hno hissued

/-- What is right of the pids is right of the books. -/
theorem IssuedOk.bookkeeping (h : IssuedOk t) : Bookkeeping t := by
  have hcount : t.procs.processCount = t.procs.processes.nodes.length := by
    rw [processCount, h.count, pids, SList.contents, List.length_map, List.length_map]
  refine ⟨h.nonzero, h.nodup, h.onceOnly, h.used, hcount, ?_, ?_⟩
  · intro i
    rw [hcount]
    exact SList.nth?_isSome
  · intro i n hn
    exact h.processFrompid_eq (List.mem_of_getElem? hn)

/-- Below the wrap, what every call keeps of a table with right pids holds at the
end of every run. -/
theorem run_issuedOk {I : Procs κ → Prop} (cpu : ProcRegs) (fpu : List UInt8) (kernel : κ)
    (hboot : I (Procs.boot cpu fpu kernel))
    (hstep : ∀ s call s', PidsOk s → I s → s.step K call = some s' → I s')
    (calls : List ProcCall) (ht : run (step K) (boot cpu fpu kernel) calls = some t)
    (hwrap : t.issued.length < 2 ^ 32 - 1) : IssuedOk t ∧ I t.procs := by
  refine run_invariant (I := fun t => t.issued.length < 2 ^ 32 - 1 → IssuedOk t ∧ I t.procs) ?_
    calls (fun _ => ⟨boot_issuedOk cpu fpu kernel, hboot⟩) (meets_true calls) ht hwrap
  intro t call t' hok _ ht' hwrap
  obtain ⟨hissued, hI⟩ := hok (lt_of_le_of_lt (length_issued_le ht') hwrap)
  have hprocs : t.procs.step K call = some t'.procs := by
    rw [← step_procs, ht', Option.map_some]
  exact ⟨hissued.step ht' hwrap, hstep _ _ _ hissued.toPidsOk hI hprocs⟩

/-- In every run with fewer than 2^32 - 1 successful calls of `proc_create`, the
books of the process table are right. -/
theorem runs_bookkeeping (K : Kernel κ) (cpu : ProcRegs) (fpu : List UInt8) (kernel : κ)
    (calls : List ProcCall) {s : Procs κ}
    (hrun : run (Procs.step K) (Procs.boot cpu fpu kernel) calls = some s) :
    ∃ t, run (step K) (boot cpu fpu kernel) calls = some t ∧ t.procs = s ∧
      (t.issued.length < 2 ^ 32 - 1 → Bookkeeping t) := by
  obtain ⟨t, ht, hts⟩ := exists_run_of_map step_procs calls (s := boot cpu fpu kernel) hrun
  refine ⟨t, ht, hts, ?_⟩
  intro hwrap
  exact (run_issuedOk (I := fun _ => True) cpu fpu kernel trivial (fun _ _ _ _ _ _ => trivial)
    calls ht hwrap).1.bookkeeping

/-- Three processes are created, and the second, a child of the first, is
destroyed. -/
theorem runs_bookkeeping_three :
    ∃ t, run (step small) (boot {} [] (0x100000, Mem.booted))
        [.procCreate none [97] 0, .procCreate (some 0x100000) [98] 0, .schedule,
          .procCreate none [99] 0, .procDestroy 0x115000] = some t ∧
      t.issued = [3, 2, 1] ∧ Bookkeeping t := by
  have hview : (run (step small) (boot {} [] (0x100000, Mem.booted))
      [.procCreate none [97] 0, .procCreate (some 0x100000) [98] 0, .schedule,
        .procCreate none [99] 0, .procDestroy 0x115000]).map issued = some [3, 2, 1] := by decide
  obtain ⟨t, ht, hissued⟩ := Option.map_eq_some_iff.mp hview
  have hrun : run (Procs.step small) smallBoot _ = some t.procs :=
    (run_map (step_procs (K := small)) _ _).symm.trans (congrArg (Option.map procs) ht)
  obtain ⟨t', ht', -, hbook⟩ := runs_bookkeeping small {} [] (0x100000, Mem.booted) _ hrun
  obtain rfl : t = t' := Option.some.inj (ht.symm.trans ht')
  exact ⟨t, ht, hissued, hbook (by rw [hissued]; decide)⟩

end Issued

end StardustOS.Process
