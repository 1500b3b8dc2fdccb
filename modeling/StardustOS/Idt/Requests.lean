import StardustOS.Idt.Controllers

/-!
# Requests of the devices

A request is there until it is withdrawn or brought to `irq_handler`, and it is
brought there once.  While no line changes, the requests come to `irq_handler` in
the order of their priority: the lines of the slave are between the lines 1 and 3
of the master.
-/

namespace StardustOS.Idt

open Lib Lib.I8259

attribute [local instance] neZero_input neZero_line

/-! ## What is seen of the lines -/

inductive LineEvent
  /-- A line that was down goes up. -/
  | raised (n : Fin 16)
  /-- A line goes down before its request is taken. -/
  | withdrawn (n : Fin 16)
  /-- `irq_handler` is called for a request of the line. -/
  | delivered (n : Fin 16)
deriving DecidableEq

/-- The request that is delivered with the vector, if it is still there. -/
def request (choice : Option (Fin 8)) (p : Pair) : Option (Fin 16) :=
  match choice with
  | none => none
  | some i => if i = 2 then p.slave.request.map (Fin.natAdd 8) else some (i.castAdd 8)

def lineEvents (s : Machine) : Action → List LineEvent
  | .line n true => if s.pic.Has Chip.level n then [] else [.raised n]
  | .line n false => if s.pic.Has Chip.irr n then [.withdrawn n] else []
  | .vector _ =>
      match s.phase with
      | .answered choice => ((request choice s.pic).map .delivered).toList
      | _ => []
  | _ => []

/-! ## The account of a line -/

/-- The request that the master has taken. -/
def inFlight (n : Fin 16) : Phase → Nat
  | .answered (some i) => if i ≠ 2 ∧ n = i.castAdd 8 then 1 else 0
  | _ => 0

/-- The requests of a line that are there: one at most. -/
def held (n : Fin 16) (s : Machine) : Nat :=
  (if s.pic.Has Chip.irr n then 1 else 0) + inFlight n s.phase

/-- After the boot. -/
structure Running (s : Machine) : Prop where
  inv : Inv s
  booted : ∀ rest, s.phase ≠ .boot rest

theorem Running.step {s s' : Machine} {a : Action} (hs : Running s) (h : step s a = some s') :
    Running s' := by
  refine ⟨step_inv hs.inv h, fun rest hrest => ?_⟩
  cases step_cases h with
  | line => exact hs.booted rest hrest
  | init hphase => exact hs.booted _ hphase
  | exception hphase | register hphase =>
      rw [hphase] at hrest
      cases hrest
  | _ => cases hrest

/-- Nothing is masked after the boot. -/
theorem Running.configs {s : Machine} (hs : Running s) :
    s.pic.configs = (masterConfig, slaveConfig) := by
  have hphase := hs.inv.phase
  cases hp : s.phase with
  | boot rest => exact absurd hp (hs.booted rest)
  | code e | requested | answered choice | routine rest =>
      rw [hp] at hphase
      exact hphase.1

theorem pending_master {p : Pair} (h : p.configs = (masterConfig, slaveConfig)) :
    p.master.pending = p.master.irr := by
  have himr : p.master.imr = ∅ := congrArg Config.imr (congrArg Prod.fst h)
  rw [Chip.pending, himr, Finset.sdiff_empty]

theorem pending_slave {p : Pair} (h : p.configs = (masterConfig, slaveConfig)) :
    p.slave.pending = p.slave.irr := by
  have himr : p.slave.imr = ∅ := congrArg Config.imr (congrArg Prod.snd h)
  rw [Chip.pending, himr, Finset.sdiff_empty]

section Account

variable {n : Fin 16} {s : Machine}

theorem held_eq {p : Pair} {handlers : IrqHandlers} {phase : Phase} :
    held n ⟨p, handlers, phase⟩ = (if p.Has Chip.irr n then 1 else 0) + inFlight n phase := rfl

/-- A line changes. -/
theorem account_line (hn : n ≠ 2) (hwired : s.pic.Wired) (m : Fin 16) (up : Bool) :
    (lineEvents s (.line m up)).count (.raised n) + held n s =
      held n { s with pic := s.pic.drive m up } +
        (lineEvents s (.line m up)).count (.withdrawn n) := by
  rw [held, held]
  simp only [Pair.has_irr_drive hn]
  have hlatched : s.pic.Has Chip.irr m → s.pic.Has Chip.level m := by
    induction m using Fin.addCases (m := 8) (n := 8) with
    | left i => simpa only [Pair.has_castAdd] using fun h => hwired.master h
    | right j => simpa only [Pair.has_natAdd] using fun h => hwired.slave h
  cases up with
  | true =>
      by_cases hlevel : s.pic.Has Chip.level m <;> by_cases heq : n = m
      · subst heq
        simp [lineEvents, hlevel]
      · simp [lineEvents, hlevel, heq]
      · subst heq
        have hirr : ¬ s.pic.Has Chip.irr n := fun h => hlevel (hlatched h)
        simp [lineEvents, hlevel, hirr]
      · simp [lineEvents, hlevel, heq, Ne.symm heq]
  | false =>
      by_cases hirr : s.pic.Has Chip.irr m <;> by_cases heq : n = m
      · subst heq
        simp [lineEvents, hirr]
        omega
      · simp [lineEvents, hirr, heq, Ne.symm heq]
      · subst heq
        simp [lineEvents, hirr]
      · simp [lineEvents, hirr, heq]

/-- The master takes a request. -/
theorem account_inta (hn : n ≠ 2) (hs : Running s) (hphase : s.phase = .requested) :
    held n s = held n { s with pic := s.pic.inta.2, phase := .answered s.pic.inta.1 } := by
  rw [held, held_eq, hphase, Pair.inta]
  cases hreq : s.pic.master.request with
  | none => rfl
  | some i =>
      have hi : i ∈ s.pic.master.irr :=
        pending_master hs.configs ▸ (Chip.request_eq_some.mp hreq).1
      induction n using Fin.addCases (m := 8) (n := 8) with
      | left k =>
          have hk : k ≠ 2 := fun heq => hn (congrArg (Fin.castAdd 8) heq)
          simp only [Pair.has_castAdd, Chip.take, Finset.mem_erase, inFlight,
            (Fin.castAdd_injective 8 8).eq_iff]
          by_cases heq : k = i
          · subst heq
            simp [hi, hk]
          · simp [heq]
      | right j =>
          simp only [Pair.has_natAdd, inFlight, (Pair.castAdd_ne_natAdd i j).symm, and_false,
            if_false]

theorem count_delivered (m : Fin 16) :
    [LineEvent.delivered m].count (.delivered n) = if n = m then 1 else 0 := by
  rw [List.count_singleton]
  simp only [beq_iff_eq, LineEvent.delivered.injEq, eq_comm (a := m)]

/-- A request is delivered. -/
theorem account_vector (hn : n ≠ 2) (hs : Running s) {choice : Option (Fin 8)}
    (hphase : s.phase = .answered choice) (rest : List IrqEvent) :
    held n s = held n { s with pic := (s.pic.vector choice).2, phase := .routine rest } +
      (((request choice s.pic).map LineEvent.delivered).toList).count (.delivered n) := by
  rw [held, held_eq, hphase]
  cases choice with
  | none => rfl
  | some i =>
      rw [Pair.vector, request]
      simp only [cascade_iff hs.configs]
      cases decEq i 2 with
      | isTrue hi =>
          -- the slave gives its request up now
          subst hi
          rw [if_pos rfl, if_pos rfl]
          simp only [Pair.has_irr_settle hn, inFlight, ne_eq, not_true_eq_false, false_and,
            if_false]
          cases hreq : s.pic.slave.request with
          | none => rfl
          | some j =>
              have hj : j ∈ s.pic.slave.irr :=
                pending_slave hs.configs ▸ (Chip.request_eq_some.mp hreq).1
              rw [Option.map_some, Option.map_some, Option.toList_some, count_delivered]
              induction n using Fin.addCases (m := 8) (n := 8) with
              | left k =>
                  rw [if_neg (Pair.castAdd_ne_natAdd k j)]
                  simp only [Pair.has_castAdd]
              | right k =>
                  simp only [Pair.has_natAdd, Chip.take, Finset.mem_erase,
                    (Fin.natAdd_injective 8 8).eq_iff]
                  by_cases heq : k = j
                  · subst heq
                    simp [hj]
                  · simp [heq]
      | isFalse hi =>
          -- the master has given its own up at the first cycle
          rw [if_neg hi, if_neg hi, Option.map_some, Option.toList_some, count_delivered]
          simp only [inFlight, ne_eq, hi, not_false_eq_true, true_and, Nat.add_zero]

end Account

/-- A write of an end of interrupt. -/
theorem held_write {n : Fin 16} (hn : n ≠ 2) {port : UInt16} {s : Machine} {phase : Phase}
    (hflight : inFlight n s.phase = inFlight n phase) :
    held n s = held n { s with pic := s.pic.write port 0x20, phase := phase } := by
  rw [held, held_eq, hflight]
  simp only [Pair.has_irr_write hn (show (0x20 : UInt8) &&& 0x10 = 0 from rfl)]

/-- Every step keeps the account. -/
theorem account_step {n : Fin 16} (hn : n ≠ 2) {s s' : Machine} {a : Action} (hs : Running s)
    (h : step s a = some s') :
    (lineEvents s a).count (.raised n) + held n s =
      held n s' +
        ((lineEvents s a).count (.withdrawn n) + (lineEvents s a).count (.delivered n)) := by
  cases step_cases h with
  | @line m up hm =>
      have hline := account_line hn hs.inv.wired m up
      have hnone : (lineEvents s (.line m up)).count (.delivered n) = 0 := by
        rw [List.count_eq_zero]
        cases up <;> simp only [lineEvents] <;> split_ifs <;> simp
      rw [hnone]
      exact hline
  | init hphase | booted hphase => exact absurd hphase (hs.booted _)
  | sti hphase | cli hphase | sample hphase | handler hphase | unhandled hphase =>
      simp only [lineEvents, List.count_nil, held, hphase, inFlight, Nat.zero_add, Nat.add_zero]
  | register =>
      simp only [lineEvents, List.count_nil, held, Nat.zero_add, Nat.add_zero]
  | exception =>
      simp only [lineEvents, List.count_nil, Nat.zero_add, Nat.add_zero]
      exact held_write hn rfl
  | outb hphase =>
      have hinv := hs.inv.phase
      rw [hphase] at hinv
      obtain ⟨_, _, ⟨_, rfl, _⟩, _⟩ := hinv
      simp only [lineEvents, List.count_nil, Nat.zero_add, Nat.add_zero]
      refine held_write hn ?_
      rw [hphase]
      rfl
  | inta hphase =>
      simp only [lineEvents, List.count_nil, Nat.zero_add, Nat.add_zero]
      exact account_inta hn hs hphase
  | @vector choice regs rest hphase =>
      have hvector := account_vector hn hs hphase rest
      have hcount (e : LineEvent) (he : ∀ m, e ≠ .delivered m) :
          (lineEvents s (.vector regs)).count e = 0 := by
        rw [List.count_eq_zero]
        simp only [lineEvents, hphase]
        cases request choice s.pic with
        | none => simp
        | some m => simpa using he m
      rw [hcount (.raised n) (by simp), hcount (.withdrawn n) (by simp), Nat.zero_add, Nat.zero_add]
      simp only [lineEvents, hphase]
      exact hvector

/-- A request is a line that is in the request register. -/
theorem requests_iff {p : Pair} (h : p.configs = (masterConfig, slaveConfig)) (n : Fin 16) :
    p.Requests n ↔ p.Has Chip.irr n := by
  simp only [Pair.Requests, Pair.Has, pending_master h, pending_slave h]

/-- The code of the kernel or of a process after the boot. -/
structure Booted (s : Machine) : Prop where
  run : ∃ s₀ as, AtBoot s₀ ∧ run step s₀ as = some s
  phase : ∃ e, s.phase = .code e

theorem Booted.running {s : Machine} (h : Booted s) : Running s := by
  obtain ⟨⟨s₀, as, hboot, hrun⟩, e, hphase⟩ := h
  refine ⟨run_inv hboot hrun, fun rest hrest => ?_⟩
  rw [hphase] at hrest
  cases hrest

theorem Booted.held {s : Machine} (h : Booted s) (n : Fin 16) :
    held n s = if s.pic.Requests n then 1 else 0 := by
  obtain ⟨e, hphase⟩ := h.phase
  simp only [requests_iff h.running.configs, Idt.held, hphase, inFlight, Nat.add_zero]

/-- **No request is lost and none is delivered twice.**  In every run after the boot, in which
the lines of the devices change at any time, each request of a line is there at the end,
was withdrawn by the device, or was delivered to `irq_handler`, and that once. -/
theorem requests_accounted {s s' : Machine} {as : List Action} (hs : Booted s)
    (h : run step s as = some s') (hs' : ∃ e, s'.phase = .code e) {n : Fin 16} (hn : n ≠ 2) :
    let trace := yield step lineEvents s as
    trace.count (.raised n) + (if s.pic.Requests n then 1 else 0) =
      (if s'.pic.Requests n then 1 else 0) +
        (trace.count (.withdrawn n) + trace.count (.delivered n)) := by
  have hstep (t : Machine) (a : Action) (t' : Machine) (ht : Running t)
      (hone : step t a = some t') := And.intro (ht.step hone) (account_step hn ht hone)
  have hcount := count_yield hstep as hs.running h
  have hstart := hs.held n
  obtain ⟨⟨s₀, bs, hboot, hrun⟩, _⟩ := hs
  have hend : Booted s' := ⟨⟨s₀, bs ++ as, hboot, by rw [run_append, hrun]; exact h⟩, hs'⟩
  rw [hend.held, hstart] at hcount
  exact hcount

/-- After `idt_init` the disk and the clock request. -/
def requestActions : List Action :=
  List.replicate 11 .init ++ [.line 14 true, .line 0 true]

def requesting : Machine := (run step resetMachine requestActions).getD resetMachine

theorem run_requestActions : run step resetMachine requestActions = some requesting := by rfl

theorem booted_requesting : Booted requesting where
  run := ⟨resetMachine, requestActions, atBoot_resetMachine, run_requestActions⟩
  phase := ⟨false, rfl⟩

/-- Both interrupts are taken, and no handler is registered. -/
def servingActions : List Action :=
  [.sti, .sample, .inta, .vector (regsTAt (fun _ => 0) 0), .next, .next, .sti, .sample, .inta,
    .vector (regsTAt (fun _ => 0) 0), .next, .next, .next]

def served : Machine := (run step requesting servingActions).getD requesting

theorem run_servingActions : run step requesting servingActions = some served := by rfl

theorem requests_accounted_disk :
    let trace := yield step lineEvents requesting servingActions
    trace.count (.raised 14) + (if requesting.pic.Requests 14 then 1 else 0) =
      (if served.pic.Requests 14 then 1 else 0) +
        (trace.count (.withdrawn 14) + trace.count (.delivered 14)) :=
  requests_accounted booted_requesting run_servingActions ⟨false, rfl⟩ (by decide)

/-! ## The order of the requests -/

/-- The lines of the devices, those that come first in front. -/
def lineOrder : List (Fin 16) := [0, 1, 8, 9, 10, 11, 12, 13, 14, 15, 3, 4, 5, 6, 7]

def rank (n : Fin 16) : Nat := lineOrder.idxOf n

theorem pairwise_lineOrder : lineOrder.Pairwise fun m n => rank m < rank n := by decide

theorem mem_lineOrder (n : Fin 16) : n ∈ lineOrder ↔ n ≠ 2 := by
  revert n
  decide

theorem rank_castAdd_le : ∀ i k : Fin 8, i ≤ k → i ≠ 2 → k ≠ 2 →
    rank (i.castAdd 8) ≤ rank (k.castAdd 8) := by decide

theorem rank_castAdd_le_natAdd : ∀ i j : Fin 8, i < 2 →
    rank (i.castAdd 8) ≤ rank (j.natAdd 8) := by decide

theorem rank_natAdd_le_castAdd : ∀ j i : Fin 8, 2 < i →
    rank (j.natAdd 8) ≤ rank (i.castAdd 8) := by decide

theorem rank_natAdd_le : ∀ j k : Fin 8, j ≤ k → rank (j.natAdd 8) ≤ rank (k.natAdd 8) := by decide

/-- What is left of a list in order when the first that is chosen is no longer chosen. -/
theorem filter_eq_cons {α : Type*} {r : α → Nat} {P Q : α → Prop} [DecidablePred P]
    [DecidablePred Q] {l : List α} {a : α} (hl : l.Pairwise fun b c => r b < r c) (ha : a ∈ l)
    (hP : P a) (hle : ∀ b ∈ l, P b → r a ≤ r b) (hQ : ∀ b ∈ l, Q b ↔ P b ∧ b ≠ a) :
    l.filter P = a :: l.filter Q := by
  induction l with
  | nil => cases ha
  | cons b l ih =>
      obtain ⟨hb, hl⟩ := List.pairwise_cons.mp hl
      have hQb := hQ b List.mem_cons_self
      have hQl : ∀ c ∈ l, Q c ↔ P c ∧ c ≠ a := fun c hc => hQ c (List.mem_cons_of_mem b hc)
      obtain rfl | ha := List.mem_cons.mp ha
      · have hrest : l.filter P = l.filter Q := by
          refine List.filter_congr fun c hc => decide_eq_decide.mpr ?_
          have hne : c ≠ a := fun heq => (hb c hc).ne (by rw [heq])
          rw [hQl c hc, and_iff_left hne]
        have hnot : ¬ Q a := fun h => (hQb.mp h).2 rfl
        rw [List.filter_cons_of_pos (by simpa using hP), hrest,
          List.filter_cons_of_neg (by simpa using hnot)]
      · have hnot : ¬ P b := fun h =>
          absurd (hb a ha) (Nat.not_lt.mpr (hle b List.mem_cons_self h))
        have hnotQ : ¬ Q b := fun h => hnot (hQb.mp h).1
        rw [List.filter_cons_of_neg (by simpa using hnot),
          List.filter_cons_of_neg (by simpa using hnotQ),
          ih hl ha (fun c hc => hle c (List.mem_cons_of_mem b hc)) hQl]

/-- The lines that request, in order. -/
def pendingLines (p : Pair) : List (Fin 16) := lineOrder.filter p.Requests

theorem pendingLines_congr {p p' : Pair} (h : ∀ n, n ≠ 2 → (p.Requests n ↔ p'.Requests n)) :
    pendingLines p = pendingLines p' :=
  List.filter_congr fun n hn => decide_eq_decide.mpr (h n ((mem_lineOrder n).mp hn))

/-- The lines that are still to be delivered. -/
def due (s : Machine) : List (Fin 16) :=
  match s.phase with
  | .answered (some i) =>
      if i = 2 then pendingLines s.pic else i.castAdd 8 :: pendingLines s.pic
  | _ => pendingLines s.pic

section Order

variable {p : Pair}

/-- The slave has its request at the master. -/
theorem two_mem_pending (hwired : p.Wired) (hconf : p.configs = (masterConfig, slaveConfig))
    (hlink : p.Linked) (hisr : p.slave.isr = ∅) {j : Fin 8} (hj : j ∈ p.slave.pending) :
    2 ∈ p.master.pending :=
  pending_master hconf ▸ hlink (hwired.level.mpr ((Chip.int_of_idle hisr).mpr ⟨j, hj⟩))

/-- The master takes the first of the lines, if that is its own. -/
theorem pendingLines_inta (hwired : p.Wired) (hconf : p.configs = (masterConfig, slaveConfig))
    (hlink : p.Linked) (hserved : p.serveds = (∅, ∅)) {i : Fin 8}
    (hreq : p.master.request = some i) (hi : i ≠ 2) :
    pendingLines p = i.castAdd 8 :: pendingLines p.inta.2 := by
  obtain ⟨hmem, hle, _⟩ := Chip.request_eq_some.mp hreq
  have hne : i.castAdd 8 ≠ 2 := fun heq => hi (Fin.ext (show i.val = 2 from congrArg Fin.val heq))
  refine filter_eq_cons pairwise_lineOrder ((mem_lineOrder _).mpr hne)
    ((Pair.has_castAdd _ p i).mpr hmem) ?_ ?_
  · intro b hb hbreq
    rw [mem_lineOrder] at hb
    induction b using Fin.addCases (m := 8) (n := 8) with
    | left k =>
        have hk : k ≠ 2 := fun heq => hb (congrArg (Fin.castAdd 8) heq)
        exact rank_castAdd_le i k (hle k ((Pair.has_castAdd _ p k).mp hbreq)) hi hk
    | right j =>
        have htwo := two_mem_pending hwired hconf hlink (congrArg Prod.snd hserved)
          ((Pair.has_natAdd _ p j).mp hbreq)
        exact rank_castAdd_le_natAdd i j (lt_of_le_of_ne (hle 2 htwo) hi)
  · intro b hb
    have hconf' := (configs_inta p).trans hconf
    rw [requests_iff hconf, requests_iff hconf', Pair.inta, hreq]
    induction b using Fin.addCases (m := 8) (n := 8) with
    | left k =>
        simp only [Pair.has_castAdd, Chip.take, Finset.mem_erase, ne_eq,
          (Fin.castAdd_injective 8 8).eq_iff, and_comm]
    | right j =>
        simp only [Pair.has_natAdd, ne_eq, (Pair.castAdd_ne_natAdd i j).symm, not_false_eq_true,
          and_true]

/-- The master takes the request of the slave. -/
theorem pendingLines_inta_two (hconf : p.configs = (masterConfig, slaveConfig))
    (hreq : p.master.request = some 2) : pendingLines p.inta.2 = pendingLines p := by
  refine pendingLines_congr fun n hn => ?_
  rw [requests_iff hconf, requests_iff ((configs_inta p).trans hconf), Pair.inta, hreq]
  induction n using Fin.addCases (m := 8) (n := 8) with
  | left k =>
      have hk : k ≠ 2 := fun heq => hn (congrArg (Fin.castAdd 8) heq)
      simp only [Pair.has_castAdd, Chip.take, Finset.mem_erase, ne_eq, hk, not_false_eq_true,
        true_and]
  | right j => simp only [Pair.has_natAdd]

/-- The slave gives its first line. -/
theorem pendingLines_vector (hconf : p.configs = (masterConfig, slaveConfig))
    (hmaster : ∀ i ∈ p.master.pending, i ≠ 2 → 2 < i) {j : Fin 8}
    (hreq : p.slave.request = some j) :
    pendingLines p = j.natAdd 8 :: pendingLines (p.vector (some 2)).2 := by
  obtain ⟨hmem, hle, _⟩ := Chip.request_eq_some.mp hreq
  have hne : j.natAdd 8 ≠ 2 := (Pair.castAdd_ne_natAdd 2 j).symm
  refine filter_eq_cons pairwise_lineOrder ((mem_lineOrder _).mpr hne)
    ((Pair.has_natAdd _ p j).mpr hmem) ?_ ?_
  · intro b hb hbreq
    rw [mem_lineOrder] at hb
    induction b using Fin.addCases (m := 8) (n := 8) with
    | left k =>
        have hk : k ≠ 2 := fun heq => hb (congrArg (Fin.castAdd 8) heq)
        exact rank_natAdd_le_castAdd j k (hmaster k ((Pair.has_castAdd _ p k).mp hbreq) hk)
    | right k => exact rank_natAdd_le j k (hle k ((Pair.has_natAdd _ p k).mp hbreq))
  · intro b hb
    rw [mem_lineOrder] at hb
    have hcascade := (cascade_iff hconf 2).mpr rfl
    rw [requests_iff hconf, requests_iff ((configs_vector (some 2) p).trans hconf), Pair.vector,
      if_pos hcascade, hreq, Pair.has_irr_settle hb]
    induction b using Fin.addCases (m := 8) (n := 8) with
    | left k =>
        simp only [Pair.has_castAdd, ne_eq, Pair.castAdd_ne_natAdd k j, not_false_eq_true, and_true]
    | right k =>
        simp only [Pair.has_natAdd, Chip.take, Finset.mem_erase, ne_eq,
          (Fin.natAdd_injective 8 8).eq_iff, and_comm]

end Order

/-! ## Runs in which no line changes -/

/-- What holds between two changes of the lines. -/
def Quiet : Phase → Pair → Prop
  | .requested, p => p.master.int = true
  | .answered choice, p => choice ≠ none ∧ (choice = some 2 →
      p.slave.request ≠ none ∧ ∀ i ∈ p.master.pending, i ≠ 2 → 2 < i)
  | _, _ => True

theorem pendingLines_write {s : Machine} (hs : Running s) {port : UInt16}
    (hport : port = 0x20 ∨ port = 0xA0) :
    pendingLines (s.pic.write port 0x20) = pendingLines s.pic := by
  refine pendingLines_congr fun n hn => ?_
  rw [requests_iff hs.configs, requests_iff ((configs_eoi hs.configs hport).trans hs.configs),
    Pair.has_irr_write hn rfl]

/-- The first acknowledge cycle. -/
theorem due_inta {s : Machine} (hs : Running s) (hphase : s.phase = .requested)
    (hint : s.pic.master.int = true) :
    Quiet (.answered s.pic.inta.1) s.pic.inta.2 ∧
      due { s with pic := s.pic.inta.2, phase := .answered s.pic.inta.1 } = due s := by
  have hinv := hs.inv.phase
  rw [hphase] at hinv
  obtain ⟨hconf, hserved, hlink⟩ := hinv
  obtain ⟨i, hreq⟩ := Option.isSome_iff_exists.mp hint
  have hfirst : s.pic.inta.1 = some i := hreq
  obtain ⟨hmem, hle, _⟩ := Chip.request_eq_some.mp hreq
  have hdue : due s = pendingLines s.pic := by rw [due, hphase]
  rw [hdue, hfirst, due]
  dsimp only
  cases decEq i 2 with
  | isTrue hi =>
      subst hi
      have hslave : s.pic.slave.int = true := hs.inv.wired.level.mp
        (hs.inv.wired.master (pending_master hconf ▸ hmem))
      have hsome : s.pic.slave.request ≠ none :=
        Option.isSome_iff_ne_none.mp hslave
      rw [if_pos rfl]
      refine ⟨⟨Option.some_ne_none 2, fun _ => ⟨hsome, fun k hk hne => ?_⟩⟩,
        pendingLines_inta_two hconf hreq⟩
      rw [Pair.inta, hreq] at hk
      have hkmem : k ∈ s.pic.master.pending := by
        simp only [Chip.pending, Chip.take, Finset.mem_sdiff, Finset.mem_erase] at hk ⊢
        exact ⟨hk.1.2, hk.2⟩
      exact lt_of_le_of_ne (hle k hkmem) hne.symm
  | isFalse hi =>
      rw [if_neg hi]
      exact ⟨⟨Option.some_ne_none i, fun heq => absurd (Option.some.inj heq) hi⟩,
        (pendingLines_inta hs.inv.wired hconf hlink hserved hreq hi).symm⟩

/-- The second acknowledge cycle. -/
theorem due_vector {s : Machine} (hs : Running s) {choice : Option (Fin 8)}
    (hphase : s.phase = .answered choice) (hquiet : Quiet s.phase s.pic) {regs : RegsT}
    {rest : List IrqEvent} : lineEvents s (.vector regs) ++
      (due { s with pic := (s.pic.vector choice).2, phase := .routine rest }).map .delivered =
        (due s).map .delivered := by
  rw [hphase] at hquiet
  obtain ⟨hsome, htwo⟩ := hquiet
  obtain ⟨i, rfl⟩ := Option.ne_none_iff_exists'.mp hsome
  simp only [lineEvents, due, hphase, request]
  cases decEq i 2 with
  | isTrue hi =>
      subst hi
      obtain ⟨hreq, hmaster⟩ := htwo rfl
      obtain ⟨j, hj⟩ := Option.ne_none_iff_exists'.mp hreq
      rw [if_pos rfl, if_pos rfl, hj, pendingLines_vector hs.configs hmaster hj]
      rfl
  | isFalse hi =>
      have hpic : (s.pic.vector (some i)).2 = s.pic := by
        rw [Pair.vector, if_neg fun h => hi ((cascade_iff hs.configs i).mp h)]
      rw [if_neg hi, if_neg hi, hpic]
      rfl

/-- Every step but a change of a line yields the beginning of what is due. -/
theorem due_step {s s' : Machine} {a : Action} (hs : Running s ∧ Quiet s.phase s.pic)
    (ha : ∀ n up, a ≠ .line n up) (h : step s a = some s') :
    (Running s' ∧ Quiet s'.phase s'.pic) ∧
      lineEvents s a ++ (due s').map .delivered = (due s).map .delivered := by
  obtain ⟨hs, hquiet⟩ := hs
  have hs' := hs.step h
  cases step_cases h with
  | @line n up => exact absurd rfl (ha n up)
  | init hphase | booted hphase => exact absurd hphase (hs.booted _)
  | sti hphase | cli hphase | handler hphase | unhandled hphase =>
      refine ⟨⟨hs', trivial⟩, ?_⟩
      simp only [lineEvents, due, hphase, List.nil_append]
  | sample hphase hint =>
      refine ⟨⟨hs', hint⟩, ?_⟩
      simp only [lineEvents, due, hphase, List.nil_append]
  | register hphase =>
      refine ⟨⟨hs', hquiet⟩, ?_⟩
      simp only [lineEvents, due, hphase, List.nil_append]
  | exception hphase =>
      refine ⟨⟨hs', ?_⟩, ?_⟩
      · rw [hphase]
        trivial
      · simp only [lineEvents, due, hphase, List.nil_append, pendingLines_write hs (Or.inl rfl)]
  | inta hphase =>
      rw [hphase] at hquiet
      obtain ⟨hquiet', hdue⟩ := due_inta hs hphase hquiet
      refine ⟨⟨hs', hquiet'⟩, ?_⟩
      rw [hdue]
      rfl
  | vector hphase => exact ⟨⟨hs', trivial⟩, due_vector hs hphase hquiet⟩
  | outb hphase =>
      have hinv := hs.inv.phase
      rw [hphase] at hinv
      obtain ⟨_, _, ⟨hport, rfl, _⟩, _⟩ := hinv
      refine ⟨⟨hs', trivial⟩, ?_⟩
      simp only [lineEvents, due, hphase, List.nil_append, pendingLines_write hs hport]

/-- **Requests are served in order.**  In every run after the boot in which no line changes,
the requests that are delivered are the first ones of those that are there, each once and in
the order of their lines, and the others are still there. -/
theorem requests_in_order {s s' : Machine} {as : List Action} (hs : Booted s)
    (has : ∀ a ∈ as, ∀ n up, a ≠ .line n up) (h : run step s as = some s')
    (hs' : ∃ e, s'.phase = .code e) :
    yield step lineEvents s as ++ (pendingLines s'.pic).map .delivered =
      (pendingLines s.pic).map .delivered := by
  obtain ⟨e, hphase⟩ := hs.phase
  obtain ⟨e', hphase'⟩ := hs'
  have hquiet : Quiet s.phase s.pic := by
    rw [hphase]
    trivial
  have hdue : due s = pendingLines s.pic := by rw [due, hphase]
  have hdue' : due s' = pendingLines s'.pic := by rw [due, hphase']
  have hall := yield_append (fun _ _ _ => due_step) as ⟨hs.running, hquiet⟩
    (meets_of_mem as has) h
  rw [hdue, hdue'] at hall
  exact hall

theorem requests_in_order_disk :
    yield step lineEvents requesting servingActions ++
        (pendingLines served.pic).map .delivered =
      (pendingLines requesting.pic).map .delivered :=
  requests_in_order booted_requesting (by simp [servingActions]) run_servingActions ⟨false, rfl⟩

/-- The clock comes before the disk. -/
example : pendingLines requesting.pic = [0, 14] ∧ pendingLines served.pic = [] := by
  decide +kernel

end StardustOS.Idt
