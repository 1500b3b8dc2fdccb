import Mathlib.Data.Fintype.Basic
import Mathlib.Data.Finset.Option
import Mathlib.Data.List.FinRange
import Mathlib.Data.UInt

/-!
# A pair of 8259 interrupt controllers

The controllers of a PC: the output of the slave is the input 2 of the master.
They are programmed by the initialisation words ICW1 to ICW4 and commanded by the
operation words, and answer the two acknowledge cycles of the processor.

An input requests an interrupt when it goes up.  The request lasts until it is
acknowledged or the input goes down, so a request may be gone at the acknowledge
cycle: the controller answers with its input 7 then, and puts nothing in service.
An input that was acknowledged is in service until its end of interrupt, and
holds up the requests of the inputs that do not come before it.

Inputs triggered by their level, the automatic end of interrupt, rotating
priorities, polling and the special modes are left out.
-/

namespace StardustOS.Lib.I8259

/-- For the numerals of the inputs. -/
local instance neZero_eight : NeZero 8 := ⟨by decide⟩

/-! ## Priorities -/

/-- The first of a set of inputs. -/
def first (s : Finset (Fin 8)) : Option (Fin 8) := (List.finRange 8).find? fun i => i ∈ s

variable {s : Finset (Fin 8)} {i j : Fin 8}

theorem first_eq_none : first s = none ↔ s = ∅ := by
  simp [first, Finset.eq_empty_iff_forall_notMem]

theorem first_eq_some : first s = some i ↔ i ∈ s ∧ ∀ j ∈ s, i ≤ j := by
  have hleast {k : Fin 8} (hk : first s = some k) : k ∈ s ∧ ∀ j ∈ s, k ≤ j := by
    obtain ⟨hmem, before, after, hsplit, hbefore⟩ := List.find?_eq_some_iff_append.mp hk
    refine ⟨by simpa using hmem, fun j hj => ?_⟩
    have hsorted := List.pairwise_lt_finRange 8
    have hall : j ∈ before ++ k :: after := hsplit ▸ List.mem_finRange j
    rw [hsplit, List.pairwise_append, List.pairwise_cons] at hsorted
    obtain hin | heq | hin := (List.mem_append.mp hall).imp_right List.mem_cons.mp
    · exact absurd hj (by simpa using hbefore j hin)
    · exact heq.ge
    · exact (hsorted.2.1.1 j hin).le
  refine ⟨hleast, fun ⟨hi, hle⟩ => ?_⟩
  cases hfirst : first s with
  | none => exact absurd hi (first_eq_none.mp hfirst ▸ Finset.notMem_empty i)
  | some k =>
      obtain ⟨hk, hkle⟩ := hleast hfirst
      rw [le_antisymm (hkle i hi) (hle k hk)]

@[simp] theorem first_empty : first ∅ = none := first_eq_none.mpr rfl

@[simp] theorem first_singleton (i : Fin 8) : first {i} = some i :=
  first_eq_some.mpr ⟨Finset.mem_singleton_self i, fun _ hj => (Finset.mem_singleton.mp hj).ge⟩

/-- The inputs whose bits are set. -/
def bits (v : UInt8) : Finset (Fin 8) := Finset.univ.filter fun i => v.toNat.testBit i

/-! ## One controller -/

/-- The next word of the initialisation. -/
inductive Icw
  | icw2 | icw3 | icw4
deriving DecidableEq

/-- What the initialisation and the masks say. -/
structure Config where
  expect : Option Icw := none
  /-- ICW1 said that ICW4 comes. -/
  needs4 : Bool := false
  /-- ICW1 said that there is no other controller. -/
  single : Bool := false
  base : UInt8 := 0
  cascade : UInt8 := 0
  icw4 : UInt8 := 0
  imr : Finset (Fin 8) := ∅
deriving DecidableEq

/-- A write that begins the initialisation. -/
def isIcw1 (a0 : Bool) (v : UInt8) : Prop := a0 = false ∧ v &&& 0x10 ≠ 0

instance (a0 : Bool) (v : UInt8) : Decidable (isIcw1 a0 v) := inferInstanceAs (Decidable (_ ∧ _))

/-- The rest of the initialisation after ICW3. -/
def Config.afterIcw3 (c : Config) : Option Icw := if c.needs4 then some .icw4 else none

/-- What a write to the lower or the upper port changes of it. -/
def Config.write (a0 : Bool) (v : UInt8) (c : Config) : Config :=
  if isIcw1 a0 v then
    { c with
      expect := some .icw2
      needs4 := v &&& 1 ≠ 0
      single := v &&& 2 ≠ 0
      icw4 := if v &&& 1 ≠ 0 then c.icw4 else 0
      imr := ∅ }
  else if a0 then
    match c.expect with
    | some .icw2 =>
        { c with
          base := v &&& 0xF8
          expect := if c.single then c.afterIcw3 else some .icw3 }
    | some .icw3 => { c with cascade := v, expect := c.afterIcw3 }
    | some .icw4 => { c with icw4 := v, expect := none }
    | none => { c with imr := bits v }
  else c

structure Chip extends Config where
  /-- The inputs that are up. -/
  level : Finset (Fin 8) := ∅
  irr : Finset (Fin 8) := ∅
  isr : Finset (Fin 8) := ∅
deriving DecidableEq

/-- The end of interrupt that an operation word is: that of the first input in service,
or that of the input in the word. -/
def ended (v : UInt8) (isr : Finset (Fin 8)) : Finset (Fin 8) :=
  if v >>> 5 = 1 then
    match first isr with
    | some i => isr.erase i
    | none => isr
  else if v >>> 5 = 3 then isr \ (Finset.univ.filter fun i : Fin 8 => i.val = (v &&& 7).toNat)
  else isr

/-- What a write does to the inputs in service. -/
def servedAfter (a0 : Bool) (v : UInt8) (isr : Finset (Fin 8)) : Finset (Fin 8) :=
  if a0 = false ∧ v &&& 0x18 = 0 then ended v isr else isr

namespace Chip

def write (a0 : Bool) (v : UInt8) (c : Chip) : Chip where
  toConfig := c.toConfig.write a0 v
  level := c.level
  irr := if isIcw1 a0 v then ∅ else c.irr
  isr := servedAfter a0 v c.isr

/-- The inputs that request and are not masked. -/
def pending (c : Chip) : Finset (Fin 8) := c.irr \ c.imr

/-- The input that is to be acknowledged. -/
def request (c : Chip) : Option (Fin 8) :=
  (first c.pending).filter fun i => ∀ j ∈ c.isr, i < j

/-- The output. -/
def int (c : Chip) : Bool := c.request.isSome

/-- An input is acknowledged. -/
def take (c : Chip) : Option (Fin 8) → Chip
  | some i => { c with irr := c.irr.erase i, isr := insert i c.isr }
  | none => c

/-- An input goes up or down. -/
def drive (i : Fin 8) (up : Bool) (c : Chip) : Chip :=
  if up then
    { c with
      level := insert i c.level
      irr := if i ∈ c.level then c.irr else insert i c.irr }
  else { c with level := c.level.erase i, irr := c.irr.erase i }

end Chip

/-! ## The pair -/

structure Pair where
  master : Chip
  slave : Chip
deriving DecidableEq

namespace Pair

/-- The input 2 of the master follows the output of the slave. -/
def settle (p : Pair) : Pair := { p with master := p.master.drive 2 p.slave.int }

/-- A write to one of the four ports. -/
def write (port : UInt16) (v : UInt8) (p : Pair) : Pair :=
  if port = 0x20 then { p with master := p.master.write false v }
  else if port = 0x21 then { p with master := p.master.write true v }
  else if port = 0xA0 then { p with slave := p.slave.write false v }.settle
  else if port = 0xA1 then { p with slave := p.slave.write true v }.settle
  else p

theorem sub_eight_lt {n : Fin 16} (_h : ¬ n.val < 8) : n.val - 8 < 8 := by omega

/-- A line goes up or down.  The lines of the slave come after those of the master. -/
def drive (n : Fin 16) (up : Bool) (p : Pair) : Pair :=
  if h : n.val < 8 then { p with master := p.master.drive ⟨n, h⟩ up }
  else { p with slave := p.slave.drive ⟨n - 8, sub_eight_lt h⟩ up }.settle

/-- The first acknowledge cycle.  The master takes the input that it finds. -/
def inta (p : Pair) : Option (Fin 8) × Pair :=
  (p.master.request, { p with master := p.master.take p.master.request })

/-- The second acknowledge cycle.  The vector comes from the slave that the master
names, or from the master. -/
def vector (choice : Option (Fin 8)) (p : Pair) : UInt8 × Pair :=
  match choice with
  | none => (p.master.base + 7, p)
  | some i =>
      if i ∈ bits p.master.cascade ∧ (p.slave.cascade &&& 7).toNat = i then
        (p.slave.base + UInt8.ofNat ((p.slave.request.getD 7).val),
          { p with slave := p.slave.take p.slave.request }.settle)
      else (p.master.base + UInt8.ofNat i, p)

end Pair

/-! ## Requests -/

namespace Chip

variable {c : Chip}

theorem request_eq_some : c.request = some i ↔
    i ∈ c.pending ∧ (∀ j ∈ c.pending, i ≤ j) ∧ ∀ j ∈ c.isr, i < j := by
  rw [request, Option.filter_eq_some_iff, first_eq_some]
  simp [and_assoc]

/-- Nothing holds up a request while nothing is in service. -/
theorem request_of_idle (h : c.isr = ∅) : c.request = first c.pending := by
  rw [request, h]
  cases first c.pending <;> rfl

theorem int_of_idle (h : c.isr = ∅) : c.int = true ↔ c.pending.Nonempty := by
  rw [int, request_of_idle h, Option.isSome_iff_ne_none, ne_eq, first_eq_none,
    Finset.nonempty_iff_ne_empty]

/-- An input that was acknowledged holds up what is left. -/
theorem int_take_request (c : Chip) : (c.take c.request).int = false := by
  cases hreq : c.request with
  | none => simp [take, int, hreq]
  | some i =>
      obtain ⟨_, hle, _⟩ := request_eq_some.mp hreq
      rw [int, Option.isSome_eq_false_iff, Option.isNone_iff_eq_none,
        Option.eq_none_iff_forall_ne_some]
      intro k hk
      obtain ⟨hmem, _, hlt⟩ := request_eq_some.mp hk
      have hpend : k ∈ c.pending := by
        simp only [pending, take, Finset.mem_sdiff, Finset.mem_erase] at hmem ⊢
        exact ⟨hmem.1.2, hmem.2⟩
      exact absurd (hlt i (Finset.mem_insert_self i c.isr)) (not_lt.mpr (hle k hpend))

/-- A controller requests nothing right after its initialisation has begun. -/
theorem int_icw1 {a0 : Bool} {v : UInt8} (h : isIcw1 a0 v) (c : Chip) :
    (c.write a0 v).int = false := by
  have hpending : (c.write a0 v).pending = ∅ := by
    rw [pending, write, if_pos h]
    exact Finset.empty_sdiff _
  rw [int, request, hpending, first_empty]
  rfl

/-! What an operation leaves as it was. -/

@[simp] theorem toConfig_drive (i : Fin 8) (up : Bool) (c : Chip) :
    (c.drive i up).toConfig = c.toConfig := by cases up <;> rfl

@[simp] theorem isr_drive (i : Fin 8) (up : Bool) (c : Chip) : (c.drive i up).isr = c.isr := by
  cases up <;> rfl

@[simp] theorem toConfig_take (r : Option (Fin 8)) (c : Chip) :
    (c.take r).toConfig = c.toConfig := by cases r <;> rfl

@[simp] theorem level_take (r : Option (Fin 8)) (c : Chip) : (c.take r).level = c.level := by
  cases r <;> rfl

@[simp] theorem toConfig_write (a0 : Bool) (v : UInt8) (c : Chip) :
    (c.write a0 v).toConfig = c.toConfig.write a0 v := rfl

@[simp] theorem level_write (a0 : Bool) (v : UInt8) (c : Chip) :
    (c.write a0 v).level = c.level := rfl

@[simp] theorem isr_write (a0 : Bool) (v : UInt8) (c : Chip) :
    (c.write a0 v).isr = servedAfter a0 v c.isr := rfl

/-- A request lasts while its input is up. -/
def Latched (c : Chip) : Prop := c.irr ⊆ c.level

theorem mem_level_drive (up : Bool) : j ∈ (c.drive i up).level ↔
    if j = i then up = true else j ∈ c.level := by
  cases up <;> by_cases h : j = i <;> simp [drive, h]

theorem mem_irr_drive (up : Bool) : j ∈ (c.drive i up).irr ↔
    if j = i then up = true ∧ (i ∈ c.level → i ∈ c.irr) else j ∈ c.irr := by
  cases up <;> by_cases h : j = i <;> by_cases hl : i ∈ c.level <;> simp [drive, h, hl]

theorem Latched.drive (h : c.Latched) (i : Fin 8) (up : Bool) : (c.drive i up).Latched := by
  intro j hj
  rw [mem_irr_drive] at hj
  rw [mem_level_drive]
  split_ifs at hj ⊢
  · exact hj.1
  · exact h hj

theorem Latched.take (h : c.Latched) (r : Option (Fin 8)) : (c.take r).Latched := by
  cases r with
  | none => exact h
  | some i => exact (Finset.erase_subset i c.irr).trans h

theorem Latched.write (h : c.Latched) (a0 : Bool) (v : UInt8) : (c.write a0 v).Latched := by
  rw [Latched, Chip.write]
  split_ifs
  · exact Finset.empty_subset _
  · exact h

end Chip

@[simp] theorem servedAfter_empty (a0 : Bool) (v : UInt8) : servedAfter a0 v ∅ = ∅ := by
  simp [servedAfter, ended]

/-! ## The wire between the controllers -/

namespace Pair

variable {p : Pair}

/-- The input 2 of the master is up when the slave requests, and requests last as they
should. -/
structure Wired (p : Pair) : Prop where
  level : 2 ∈ p.master.level ↔ p.slave.int = true
  master : p.master.Latched
  slave : p.slave.Latched

/-- A slave that requests has its request at the master. -/
def Linked (p : Pair) : Prop := 2 ∈ p.master.level → 2 ∈ p.master.irr

@[simp] theorem slave_settle (p : Pair) : p.settle.slave = p.slave := rfl

@[simp] theorem config_settle (p : Pair) : p.settle.master.toConfig = p.master.toConfig :=
  Chip.toConfig_drive _ _ _

@[simp] theorem isr_settle (p : Pair) : p.settle.master.isr = p.master.isr :=
  Chip.isr_drive _ _ _

/-- The wire settles whatever the slave did. -/
theorem wired_settle (hmaster : p.master.Latched) (hslave : p.slave.Latched) :
    p.settle.Wired where
  level := by rw [settle, Chip.mem_level_drive, if_pos rfl]
  master := hmaster.drive 2 _
  slave := hslave

theorem Linked.settle (h : p.Linked) : p.settle.Linked := by
  intro hup
  rw [Pair.settle, Chip.mem_level_drive, if_pos rfl] at hup
  rw [Pair.settle, Chip.mem_irr_drive, if_pos rfl]
  exact ⟨hup, h⟩

/-- There is nothing to link while the slave requests nothing. -/
theorem linked_settle_of_int (h : p.slave.int = false) : p.settle.Linked := by
  intro hup
  rw [settle, Chip.mem_level_drive, if_pos rfl, h] at hup
  cases hup

/-- The controllers after lines have changed. -/
theorem drive_wired (h : p.Wired) {n : Fin 16} (hn : n ≠ 2) (up : Bool) : (p.drive n up).Wired := by
  rw [drive]
  split_ifs with hlt
  · have hne : (2 : Fin 8) ≠ ⟨n, hlt⟩ := fun heq => hn (Fin.ext (Fin.val_eq_of_eq heq).symm)
    exact ⟨by rw [Chip.mem_level_drive, if_neg hne]; exact h.level, h.master.drive _ up, h.slave⟩
  · exact wired_settle h.master (h.slave.drive _ up)

theorem Linked.drive (h : p.Linked) {n : Fin 16} (hn : n ≠ 2) (up : Bool) :
    (p.drive n up).Linked := by
  rw [Pair.drive]
  split_ifs with hlt
  · have hne : (2 : Fin 8) ≠ ⟨n, hlt⟩ := fun heq => hn (Fin.ext (Fin.val_eq_of_eq heq).symm)
    rw [Linked, Chip.mem_level_drive, Chip.mem_irr_drive, if_neg hne, if_neg hne]
    exact h
  · exact Linked.settle h

/-! The acknowledge cycles. -/

theorem wired_inta (h : p.Wired) : p.inta.2.Wired where
  level := by
    rw [inta, Chip.level_take]
    exact h.level
  master := h.master.take _
  slave := h.slave

/-- The master keeps the request of the slave unless it takes it. -/
theorem linked_inta (h : p.Linked) (hne : p.inta.1 ≠ some 2) : p.inta.2.Linked := by
  intro hup
  rw [inta, Chip.level_take] at hup
  rw [inta]
  rw [inta] at hne
  cases hreq : p.master.request with
  | none => exact h hup
  | some i =>
      rw [hreq] at hne
      exact Finset.mem_erase.mpr ⟨fun heq => hne (congrArg some heq.symm), h hup⟩

theorem wired_vector (h : p.Wired) (choice : Option (Fin 8)) : (p.vector choice).2.Wired := by
  cases choice with
  | none => exact h
  | some i =>
      rw [vector]
      split_ifs
      · exact wired_settle h.master (h.slave.take _)
      · exact h

/-- The slave has nothing to request right after it was acknowledged. -/
theorem linked_vector (choice : Option (Fin 8)) (h : p.Linked ∨
    ∃ i, choice = some i ∧ i ∈ bits p.master.cascade ∧ (p.slave.cascade &&& 7).toNat = i) :
    (p.vector choice).2.Linked := by
  cases choice with
  | none => exact h.resolve_right fun ⟨i, hi, _⟩ => nomatch hi
  | some i =>
      rw [vector]
      split_ifs with hcascade
      · exact linked_settle_of_int (Chip.int_take_request _)
      · refine h.resolve_right fun ⟨j, hj, hboth⟩ => hcascade ?_
        cases hj
        exact hboth

/-! Lines change neither what was programmed nor what is in service. -/

@[simp] theorem master_config_drive (n : Fin 16) (up : Bool) (p : Pair) :
    (p.drive n up).master.toConfig = p.master.toConfig := by
  rw [drive]
  split_ifs
  · exact Chip.toConfig_drive _ _ _
  · exact config_settle _

@[simp] theorem slave_config_drive (n : Fin 16) (up : Bool) (p : Pair) :
    (p.drive n up).slave.toConfig = p.slave.toConfig := by
  rw [drive]
  split_ifs
  · rfl
  · exact Chip.toConfig_drive _ _ _

@[simp] theorem master_isr_drive (n : Fin 16) (up : Bool) (p : Pair) :
    (p.drive n up).master.isr = p.master.isr := by
  rw [drive]
  split_ifs
  · exact Chip.isr_drive _ _ _
  · exact isr_settle _

@[simp] theorem slave_isr_drive (n : Fin 16) (up : Bool) (p : Pair) :
    (p.drive n up).slave.isr = p.slave.isr := by
  rw [drive]
  split_ifs
  · rfl
  · exact Chip.isr_drive _ _ _

/-! The lines of the pair. -/

/-- A line is in a register. -/
def Has (f : Chip → Finset (Fin 8)) (p : Pair) (n : Fin 16) : Prop :=
  if h : n.val < 8 then ⟨n, h⟩ ∈ f p.master else ⟨n - 8, sub_eight_lt h⟩ ∈ f p.slave

instance (f : Chip → Finset (Fin 8)) (p : Pair) : DecidablePred (p.Has f) := fun n =>
  if h : n.val < 8 then decidable_of_iff (⟨n, h⟩ ∈ f p.master) (by rw [Has, dif_pos h])
  else decidable_of_iff (⟨n - 8, sub_eight_lt h⟩ ∈ f p.slave) (by rw [Has, dif_neg h])

/-- A line requests and is not masked. -/
abbrev Requests : Pair → Fin 16 → Prop := Has Chip.pending

theorem has_castAdd (f : Chip → Finset (Fin 8)) (p : Pair) (i : Fin 8) :
    p.Has f (i.castAdd 8) ↔ i ∈ f p.master := by
  rw [Has, dif_pos (show (i.castAdd 8).val < 8 from i.isLt)]
  rfl

theorem has_natAdd (f : Chip → Finset (Fin 8)) (p : Pair) (j : Fin 8) :
    p.Has f (j.natAdd 8) ↔ j ∈ f p.slave := by
  have hnot : ¬ (j.natAdd 8).val < 8 := Nat.not_lt.mpr (Nat.le_add_right 8 j)
  have hj : (j.natAdd 8).val - 8 = j := Nat.add_sub_cancel_left 8 j
  simp only [Has, dif_neg hnot, hj]

theorem drive_castAdd (i : Fin 8) (up : Bool) (p : Pair) :
    p.drive (i.castAdd 8) up = { p with master := p.master.drive i up } :=
  dif_pos (show (i.castAdd 8).val < 8 from i.isLt)

theorem drive_natAdd (j : Fin 8) (up : Bool) (p : Pair) :
    p.drive (j.natAdd 8) up = { p with slave := p.slave.drive j up }.settle := by
  have hnot : ¬ (j.natAdd 8).val < 8 := Nat.not_lt.mpr (Nat.le_add_right 8 j)
  have hj : (j.natAdd 8).val - 8 = j := Nat.add_sub_cancel_left 8 j
  simp only [drive, dif_neg hnot, hj]

theorem castAdd_ne_natAdd (i j : Fin 8) : i.castAdd 8 ≠ j.natAdd 8 := by
  intro heq
  have hval : i.val = 8 + j.val := congrArg Fin.val heq
  have hlt := i.isLt
  omega

/-- The wire concerns no line of a device. -/
theorem has_irr_settle {n : Fin 16} (hn : n ≠ 2) : p.settle.Has Chip.irr n ↔ p.Has Chip.irr n := by
  induction n using Fin.addCases (m := 8) (n := 8) with
  | left i =>
      have hne : i ≠ 2 := fun heq => hn (congrArg (Fin.castAdd 8) heq)
      rw [has_castAdd, has_castAdd, settle, Chip.mem_irr_drive, if_neg hne]
  | right j => rw [has_natAdd, has_natAdd, slave_settle]

/-- A line that goes up requests, unless it was up. -/
theorem has_irr_drive {n m : Fin 16} (hn : n ≠ 2) (up : Bool) :
    (p.drive m up).Has Chip.irr n ↔
      if n = m then up = true ∧ (p.Has Chip.level m → p.Has Chip.irr m) else p.Has Chip.irr n := by
  induction m using Fin.addCases (m := 8) (n := 8) with
  | left k =>
      rw [drive_castAdd]
      induction n using Fin.addCases (m := 8) (n := 8) with
      | left i => simp only [has_castAdd, Chip.mem_irr_drive, (Fin.castAdd_injective 8 8).eq_iff]
      | right j => simp only [has_natAdd, if_neg (castAdd_ne_natAdd k j).symm]
  | right k =>
      rw [drive_natAdd, has_irr_settle hn]
      induction n using Fin.addCases (m := 8) (n := 8) with
      | left i => simp only [has_castAdd, if_neg (castAdd_ne_natAdd i k)]
      | right j => simp only [has_natAdd, Chip.mem_irr_drive, (Fin.natAdd_injective 8 8).eq_iff]

/-- An end of interrupt takes no request away. -/
theorem has_irr_write {n : Fin 16} (hn : n ≠ 2) {port : UInt16} {v : UInt8} (hv : v &&& 0x10 = 0) :
    (p.write port v).Has Chip.irr n ↔ p.Has Chip.irr n := by
  have hnot (a0 : Bool) : ¬ isIcw1 a0 v := fun h => h.2 hv
  have hirr (a0 : Bool) (c : Chip) : (c.write a0 v).irr = c.irr := if_neg (hnot a0)
  rw [write]
  split_ifs
  · simp only [Has, hirr]
  · simp only [Has, hirr]
  · rw [has_irr_settle hn]
    simp only [Has, hirr]
  · rw [has_irr_settle hn]
    simp only [Has, hirr]
  · exact Iff.rfl

end Pair

/-! ## Writes, without the lines -/

/-- What a write to a port does to what was programmed. -/
def configsAfter (port : UInt16) (v : UInt8) (c : Config × Config) : Config × Config :=
  if port = 0x20 then (c.1.write false v, c.2)
  else if port = 0x21 then (c.1.write true v, c.2)
  else if port = 0xA0 then (c.1, c.2.write false v)
  else if port = 0xA1 then (c.1, c.2.write true v)
  else c

/-- What a write to a port does to what is in service. -/
def servedsAfter (port : UInt16) (v : UInt8) (isr : Finset (Fin 8) × Finset (Fin 8)) :
    Finset (Fin 8) × Finset (Fin 8) :=
  if port = 0x20 then (servedAfter false v isr.1, isr.2)
  else if port = 0x21 then (servedAfter true v isr.1, isr.2)
  else if port = 0xA0 then (isr.1, servedAfter false v isr.2)
  else if port = 0xA1 then (isr.1, servedAfter true v isr.2)
  else isr

namespace Pair

variable {p : Pair}

def configs (p : Pair) : Config × Config := (p.master.toConfig, p.slave.toConfig)

def serveds (p : Pair) : Finset (Fin 8) × Finset (Fin 8) := (p.master.isr, p.slave.isr)

theorem configs_write (port : UInt16) (v : UInt8) (p : Pair) :
    (p.write port v).configs = configsAfter port v p.configs := by
  rw [write, configsAfter]
  split_ifs <;> simp [configs]

theorem serveds_write (port : UInt16) (v : UInt8) (p : Pair) :
    (p.write port v).serveds = servedsAfter port v p.serveds := by
  rw [write, servedsAfter]
  split_ifs <;> simp [serveds]

theorem Wired.write (h : p.Wired) (port : UInt16) (v : UInt8) : (p.write port v).Wired := by
  rw [Pair.write]
  split_ifs
  · exact ⟨h.level, h.master.write _ _, h.slave⟩
  · exact ⟨h.level, h.master.write _ _, h.slave⟩
  · exact wired_settle h.master (h.slave.write _ _)
  · exact wired_settle h.master (h.slave.write _ _)
  · exact h

/-- Only an initialisation of the master can take the request of the slave from it. -/
theorem Linked.write (h : p.Linked) {port : UInt16} {v : UInt8}
    (hicw : port = 0x20 → v &&& 0x10 = 0) : (p.write port v).Linked := by
  rw [Pair.write]
  split_ifs with hport
  · have hnot : ¬ isIcw1 false v := fun hi => hi.2 (hicw hport)
    intro hup
    rw [Chip.write, if_neg hnot]
    exact h hup
  · exact h
  · exact Linked.settle h
  · exact Linked.settle h
  · exact h

end Pair

end StardustOS.Lib.I8259
