import StardustOS.Process.Steps

/-!
# What becomes of a zombie

`proc_sigenter` makes a process a zombie and `processes_cleanup` removes it.
In between `schedule` may not touch it: it writes the status of the current
process and of the next one, whatever they are.

`SparesZombies` is the condition that a `schedule` finds no zombie in either
place.  Then a zombie stays one, with everything but its child array, `issignaling`, `signum`
and `esp` (`Proc.lasting`), until it is no longer in the table.
-/

namespace StardustOS.Process

open Lib

/-- What no call writes in a process that does not run.  Left out are the child array, which
is about other processes, and what the entry into a signal and the return from it write:
`issignaling`, `signum` and `esp`. -/
def Proc.lasting (P : Proc) : Proc :=
  { P with
    children := .empty
    issignaling := false
    signum := 0
    regs := { P.regs with esp := 0 } }

/-! ## The zombie in a list -/

/-- The block at `a` is a zombie, with what lasts of `P`. -/
def IsZombie (a : Nat) (P : Proc) (l : SList Proc) : Prop :=
  ∃ P', (a, P') ∈ l.nodes ∧ P'.status = .zombie ∧ P'.lasting = P.lasting

namespace IsZombie

variable {l : SList Proc} {a b : Nat} {P : Proc}

theorem insertHead {N : Proc} (h : IsZombie a P l) (hb : b ∉ l.addrs) :
    IsZombie a P (l.insertHead b N hb) := by
  obtain ⟨P', hP', hz⟩ := h
  exact ⟨P', List.mem_cons_of_mem _ hP', hz⟩

/-- A change that a zombie survives. -/
theorem update {f : Proc → Proc} (h : IsZombie a P l)
    (hf : ∀ Q : Proc, Q.status = .zombie → (f Q).status = .zombie ∧ (f Q).lasting = Q.lasting) :
    IsZombie a P (l.update b f) := by
  obtain ⟨P', hP', hz, hlast⟩ := h
  refine ⟨_, SList.mem_update.mpr ⟨P', hP', rfl⟩, ?_⟩
  split
  · obtain ⟨hs, hl⟩ := hf P' hz
    exact ⟨hs, hl.trans hlast⟩
  · exact ⟨hz, hlast⟩

/-- A change of another process. -/
theorem update_ne {f : Proc → Proc} (h : IsZombie a P l) (hne : a ≠ b) :
    IsZombie a P (l.update b f) := by
  obtain ⟨P', hP', hz⟩ := h
  exact ⟨P', (SList.mem_update_ne hne).mpr hP', hz⟩

theorem onChildren {f : Children → Children} (h : IsZombie a P l) :
    IsZombie a P (l.update b (Proc.onChildren f)) :=
  h.update fun _ hz => ⟨hz, rfl⟩

theorem remove (h : IsZombie a P l) : a ∉ (l.remove b).addrs ∨ IsZombie a P (l.remove b) := by
  obtain ⟨P', hP', hz⟩ := h
  by_cases hb : a = b
  · left
    intro hmem
    obtain ⟨n, hn, rfl⟩ := List.mem_map.mp hmem
    exact (SList.mem_remove.mp hn).2 hb
  · exact Or.inr ⟨P', SList.mem_remove.mpr ⟨hP', hb⟩, hz⟩

end IsZombie

namespace Procs

variable {κ : Type*} {K : Kernel κ} {s s' : Procs κ} {a : Nat} {P : Proc}

/-- The process at `a` is not in the table. -/
def Gone (a : Nat) (s : Procs κ) : Prop := a ∉ s.processes.addrs

/-- `schedule` gives the CPU to the process at `a`. -/
def SwitchesTo (s : Procs κ) (a : Nat) : Prop :=
  ∃ c N, s.processFrompid s.currPid = some c ∧ s.processNext = some (a, N)

/-- A `schedule` that switches takes the CPU from a process that is no zombie and
gives it to one that is none. -/
def SparesZombies (s : Procs κ) (call : ProcCall) : Prop :=
  call = .schedule →
    ∀ c ∈ s.processFrompid s.currPid, ∀ n ∈ s.processNext,
      c.2.status ≠ .zombie ∧ n.2.status ≠ .zombie

instance {call : ProcCall} : Decidable (SparesZombies s call) :=
  inferInstanceAs (Decidable (call = .schedule → ∀ c ∈ s.processFrompid s.currPid,
    ∀ n ∈ s.processNext, c.2.status ≠ .zombie ∧ n.2.status ≠ .zombie))

/-! ## The calls spare a zombie -/

theorem CreateSpec.zombie {parent r : Option Nat} (h : CreateSpec s parent r s')
    (hz : IsZombie a P s.processes) : IsZombie a P s'.processes := by
  cases h with
  | failed same => exact same.processes ▸ hz
  | root parent enrolled => exact enrolled.processes ▸ hz.insertHead enrolled.fresh
  | child mem claim parent enrolled =>
      exact enrolled.processes ▸ hz.onChildren.insertHead enrolled.fresh

theorem DestroySpec.zombie {p : Nat} (h : DestroySpec s p s') (hz : IsZombie a P s.processes) :
    Gone a s' ∨ IsZombie a P s'.processes := by
  cases h with
  | root mem noParent same =>
      rw [Gone, same.processes]
      exact hz.remove
  | child mem parent frompid same =>
      rw [Gone, same.processes]
      exact hz.onChildren.remove

theorem DestroySpec.gone {p : Nat} (h : DestroySpec s p s') (hg : Gone a s) : Gone a s' := by
  cases h with
  | root mem noParent same =>
      rw [Gone, same.processes]
      exact fun hmem => hg (SList.addrs_remove_subset hmem)
  | child mem parent frompid same =>
      rw [Gone, same.processes]
      exact fun hmem => hg (by simpa using SList.addrs_remove_subset hmem)

theorem SignalSpec.zombie {p : Nat} (h : SignalSpec s p s') (hz : IsZombie a P s.processes) :
    IsZombie a P s'.processes := by
  cases h with
  | refused processes => exact processes ▸ hz
  | killed processes =>
      -- A zombie that is killed once more is the same record.
      have hsame : ∀ Q : Proc, Q.status = .zombie → Q.killed = Q := fun Q hQ => by
        rw [Proc.killed, ← hQ]
      exact processes ▸ hz.update fun Q hQ => ⟨rfl, by rw [hsame Q hQ]⟩
  | entered signum processes => exact processes ▸ hz.update fun _ hQ => ⟨hQ, rfl⟩
  | pushed signum esp processes =>
      have hz' : IsZombie a P (s.processes.update p (Proc.signaled signum)) :=
        hz.update fun _ hQ => ⟨hQ, rfl⟩
      exact processes ▸ hz'.update fun _ hQ => ⟨hQ, rfl⟩
  | left processes => exact processes ▸ hz.update fun _ hQ => ⟨hQ, rfl⟩

/-- A zombie is neither of the two processes of a switch that spares zombies. -/
theorem ScheduleSpec.zombie (h : ScheduleSpec s s') (hz : IsZombie a P s.processes)
    (hspare : SparesZombies s .schedule) : IsZombie a P s'.processes := by
  cases h with
  | idle stuck => exact hz
  | switched curr next =>
      obtain ⟨P', hP', hdead, -⟩ := id hz
      obtain ⟨hc, hn⟩ := hspare rfl _ curr _ next
      have hne : ∀ {b Q}, (b, Q) ∈ s.processes.nodes → Q.status ≠ .zombie → a ≠ b := by
        rintro b Q hQ hlive rfl
        exact hlive (SList.unique hP' hQ ▸ hdead)
      exact (hz.update_ne (hne (processFrompid_mem curr).1 hc)).update_ne
        (hne (processNext_mem next) hn)

/-- `processes_cleanup` removes zombies one after another. -/
theorem cleanupFrom_zombie (rest : List (Nat × Proc)) {s s' : Procs κ}
    (h : cleanupFrom K rest s = some s') (hz : Gone a s ∨ IsZombie a P s.processes) :
    Gone a s' ∨ IsZombie a P s'.processes := by
  refine cleanupFrom_inv (I := fun s => Gone a s ∨ IsZombie a P s.processes) ?_ rest hz h
  rintro s s' p (hg | hz) ht
  · exact Or.inl ((procDestroy_spec ht).gone hg)
  · exact (procDestroy_spec ht).zombie hz

/-- One call that spares zombies leaves a zombie as it is or removes it. -/
theorem step_zombie {call : ProcCall} (hz : IsZombie a P s.processes)
    (hspare : SparesZombies s call) (h : s.step K call = some s') :
    Gone a s' ∨ IsZombie a P s'.processes := by
  cases call with
  | procCreate parent name isuser =>
      obtain ⟨⟨r, t⟩, hr, rfl⟩ := Option.map_eq_some_iff.mp h
      exact Or.inr ((procCreate_spec hr).zombie hz)
  | procDestroy p => exact (procDestroy_spec h).zombie hz
  | procSigenter p signum data =>
      obtain ⟨⟨r, t⟩, hr, rfl⟩ := Option.map_eq_some_iff.mp h
      exact Or.inr ((procSigenter_spec hr).zombie hz)
  | procSigleave p =>
      obtain ⟨⟨r, t⟩, hr, rfl⟩ := Option.map_eq_some_iff.mp h
      exact Or.inr ((procSigleave_spec hr).zombie hz)
  | schedule => exact Or.inr ((schedule_spec h).zombie hz hspare)
  | processesCleanup => exact cleanupFrom_zombie _ h (Or.inr hz)

/-- The CPU is not given to a zombie. -/
theorem not_switchesTo (hz : IsZombie a P s.processes) (hspare : SparesZombies s .schedule) :
    ¬ SwitchesTo s a := by
  rintro ⟨c, N, hc, hn⟩
  obtain ⟨P', hP', hdead, -⟩ := hz
  exact (hspare rfl c hc _ hn).2 (SList.unique hP' (processNext_mem hn) ▸ hdead)

/-- Along every run whose calls spare zombies, and from any state, a zombie
stays a zombie and gets no CPU until it is no longer in the table. -/
theorem runs_zombieStaysDead (K : Kernel κ) (s : Procs κ) {a : Nat} {P : Proc}
    (hP : (a, P) ∈ s.processes.nodes) (hdead : P.status = .zombie) (calls : List ProcCall)
    (h : Meets (step K) SparesZombies s calls) :
    Until (step K) (fun s => IsZombie a P s.processes) (Gone a)
      (fun s call => call = .schedule → ¬ SwitchesTo s a) s calls := by
  refine until_of_step (fun s call hz hspare => ⟨?_, fun s' hs' => ?_⟩) calls
    ⟨P, hP, hdead, rfl⟩ h
  · rintro rfl
    exact not_switchesTo hz hspare
  · exact step_zombie hz hspare hs'

/-! ## Zombies of the small machine -/

/-- Three processes, of which the second is killed. -/
def oneZombie : Procs (Nat × Mem.Memory) :=
  (run (step small) smallBoot [.procCreate none [97] 0, .procCreate none [98] 0,
    .procCreate none [99] 0, .procSigenter 0x115000 SIGKILL none]).getD smallBoot

/-- The first process hands over to the third, and the zombie is removed. -/
theorem runs_zombieStaysDead_removed :
    ∃ P, (0x115000, P) ∈ oneZombie.processes.nodes ∧
      Until (step small) (fun s => IsZombie 0x115000 P s.processes) (Gone 0x115000)
        (fun s call => call = .schedule → ¬ SwitchesTo s 0x115000) oneZombie
        [.schedule, .processesCleanup, .schedule] := by
  have hz : ∃ n ∈ oneZombie.processes.nodes, n.1 = 0x115000 ∧ n.2.status = .zombie := by decide
  obtain ⟨⟨a, P⟩, hP, rfl, hdead⟩ := hz
  exact ⟨P, hP, runs_zombieStaysDead small oneZombie hP hdead _ (by decide)⟩

/-- One process, killed while it is the current one. -/
def deadCurrent : Procs (Nat × Mem.Memory) :=
  (run (step small) smallBoot [.procCreate none [97] 0,
    .procSigenter 0x100000 SIGKILL none]).getD smallBoot

/-- The next `schedule` gives it the CPU, and it runs again. -/
theorem runs_zombieStaysDead_wrong :
    ∃ P, (0x100000, P) ∈ deadCurrent.processes.nodes ∧ P.status = .zombie ∧
      ¬ Until (step small) (fun s => IsZombie 0x100000 P s.processes) (Gone 0x100000)
        (fun s call => call = .schedule → ¬ SwitchesTo s 0x100000) deadCurrent [.schedule] := by
  have hz : ∃ n ∈ deadCurrent.processes.nodes, n.1 = 0x100000 ∧ n.2.status = .zombie := by decide
  have hview : deadCurrent.schedule.map (fun s => s.processes.nodes.map fun n =>
      (n.1, n.2.status)) = some [(0x100000, .running)] := by decide
  obtain ⟨⟨a, P⟩, hP, rfl, hdead⟩ := hz
  obtain ⟨s', hs', hnodes⟩ := Option.map_eq_some_iff.mp hview
  have hmem : ∀ n ∈ s'.processes.nodes, (n.1, n.2.status) = (0x100000, .running) := fun n hn => by
    simpa [hnodes] using List.mem_map_of_mem (f := fun n => (n.1, n.2.status)) hn
  refine ⟨P, hP, hdead, ?_⟩
  intro h
  obtain hgone | ⟨P', hP', hz', -⟩ := h.2.2 s' hs'
  · refine hgone ?_
    have haddr : s'.processes.addrs = [0x100000] := by
      simpa [SList.addrs, List.map_map, Function.comp_def] using congrArg (List.map Prod.fst) hnodes
    simp [haddr]
  · have := hmem _ hP'
    simp [hz'] at this

end Procs

end StardustOS.Process
