import StardustOS.Lib.X86

/-!
# Segments of a 32-bit x86 processor

What the processor reads in a descriptor, which selectors it lets the code of a
privilege level load, and which ports it lets it use.  There is no local descriptor
table.

The registers are valid when each holds a selector that the code of the present level
may have loaded (`ValidSegs`).  Loads, far jumps and returns that the processor allows
keep them valid.  A routine that is entered at level 0 and loads selectors of level 0 can
load those that it saved again, and return with them (`ValidSegs.leave`).
-/

namespace StardustOS.Lib.X86

deriving instance DecidableEq for Seg

/-! ## Descriptors -/

/-- What a descriptor says.  The limit is the last offset. -/
structure Descriptor where
  base : Nat
  limit : Nat
  access : UInt8
deriving DecidableEq

/-- Eight bytes of a table.  With bit 7 of the flags the limit counts pages. -/
def decode : List UInt8 → Option Descriptor
  | [l₀, l₁, b₀, b₁, b₂, access, flags, b₃] =>
      let raw := leNat [l₀, l₁, flags &&& 0x0F]
      some
        { base := leNat [b₀, b₁, b₂, b₃]
          limit := if flags &&& 0x80 = 0 then raw else raw * 4096 + 4095
          access := access }
  | _ => none

inductive Kind
  | system (type : UInt8)
  | data (expandDown writable : Bool)
  | code (conforming readable : Bool)
deriving DecidableEq

/-- The privilege level in a selector. -/
def level (sel : UInt16) : Nat := (rpl sel).toNat

theorem level_eq (sel : UInt16) : level sel = sel.toNat % 4 := by
  rw [level, rpl, UInt16.toNat_and]
  exact Nat.and_two_pow_sub_one_eq_mod _ 2

namespace Descriptor

variable (d : Descriptor)

def present : Bool := d.access &&& 0x80 ≠ 0

/-- The privilege level of the segment. -/
def dpl : Nat := (d.access >>> 5 &&& 3).toNat

def kind : Kind :=
  if d.access &&& 0x10 = 0 then .system (d.access &&& 0x0F)
  else if d.access &&& 0x08 = 0 then .data (d.access &&& 0x04 ≠ 0) (d.access &&& 0x02 ≠ 0)
  else .code (d.access &&& 0x04 ≠ 0) (d.access &&& 0x02 ≠ 0)

/-- Code that other levels may run at their own level. -/
def conforming : Bool :=
  match d.kind with
  | .code conforming _ => conforming
  | _ => false

/-- An offset is within the limit. -/
def Within (off : UInt32) : Prop :=
  match d.kind with
  | .data true _ => d.limit < off.toNat
  | _ => off.toNat ≤ d.limit

instance (off : UInt32) : Decidable (d.Within off) := by
  unfold Within
  split <;> infer_instance

/-- The linear address of a byte. -/
def linear (off : UInt32) : Option UInt32 :=
  if d.Within off then some (UInt32.ofNat d.base + off) else none

/-- The code of the level `cpl` may use the segment for data. -/
def DataAllowed (cpl sel : Nat) : Prop :=
  d.present ∧
    match d.kind with
    | .system _ => False
    | .data _ _ => sel ≤ d.dpl ∧ cpl ≤ d.dpl
    | .code conforming readable => readable ∧ (conforming ∨ sel ≤ d.dpl ∧ cpl ≤ d.dpl)

/-- It may use it for its stack. -/
def StackAllowed (cpl sel : Nat) : Prop :=
  d.present ∧ sel = cpl ∧ d.dpl = cpl ∧
    match d.kind with
    | .data _ writable => writable
    | _ => False

/-- It may be in the segment. -/
def CodeAllowed (cpl : Nat) : Prop :=
  d.present ∧
    match d.kind with
    | .code conforming _ => if conforming then d.dpl ≤ cpl else d.dpl = cpl
    | _ => False

instance (cpl sel : Nat) : Decidable (d.DataAllowed cpl sel) := by
  unfold DataAllowed
  cases d.kind <;> infer_instance

instance (cpl sel : Nat) : Decidable (d.StackAllowed cpl sel) := by
  unfold StackAllowed
  cases d.kind <;> infer_instance

instance (cpl : Nat) : Decidable (d.CodeAllowed cpl) := by
  unfold CodeAllowed
  cases d.kind <;> infer_instance

/-- What code may load, code of a more privileged level may load too. -/
theorem DataAllowed.mono {d : Descriptor} {cpl cpl' sel : Nat} (h : d.DataAllowed cpl sel)
    (hle : cpl' ≤ cpl) : d.DataAllowed cpl' sel := by
  obtain ⟨hpresent, hkind⟩ := h
  refine ⟨hpresent, ?_⟩
  cases hk : d.kind with
  | system => simp [hk] at hkind
  | data =>
      simp only [hk] at hkind ⊢
      exact ⟨hkind.1, hle.trans hkind.2⟩
  | code =>
      simp only [hk] at hkind ⊢
      exact ⟨hkind.1, hkind.2.imp_right fun h => ⟨h.1, hle.trans h.2⟩⟩

theorem DataAllowed.le {d : Descriptor} {cpl sel : Nat} (h : d.DataAllowed cpl sel) :
    cpl ≤ d.dpl ∨ d.conforming = true := by
  obtain ⟨-, hkind⟩ := h
  cases hk : d.kind with
  | system => simp [hk] at hkind
  | data =>
      simp only [hk] at hkind
      exact .inl hkind.2
  | code =>
      simp only [hk] at hkind
      obtain ⟨-, hconf | hle⟩ := hkind
      · exact .inr (by simp [conforming, hk, hconf])
      · exact .inl hle.2

/-- Code of a less privileged level may load what is not of a more privileged one. -/
theorem DataAllowed.outer {d : Descriptor} {cpl cpl' sel : Nat} (h : d.DataAllowed cpl sel)
    (hle : cpl' ≤ d.dpl ∨ d.conforming) : d.DataAllowed cpl' sel := by
  obtain ⟨hpresent, hkind⟩ := h
  refine ⟨hpresent, ?_⟩
  cases hk : d.kind with
  | system => simp [hk] at hkind
  | data =>
      simp only [hk] at hkind ⊢
      exact ⟨hkind.1, hle.resolve_right (by simp [conforming, hk])⟩
  | code conforming readable =>
      simp only [hk] at hkind ⊢
      refine ⟨hkind.1, ?_⟩
      obtain hle | hconf := hle
      · exact hkind.2.imp_right fun h => ⟨h.1, hle⟩
      · exact .inl (by simpa [Descriptor.conforming, hk] using hconf)

end Descriptor

/-! ## Loads -/

section Table

variable (table : List UInt8)

/-- The descriptor of a selector.  Bit 2 asks for the local table. -/
def descriptorAt (sel : UInt16) : Option Descriptor :=
  if sel.toNat / 4 % 2 = 1 then none else decode ((table.drop (8 * (sel.toNat / 8))).take 8)

/-- The selectors of the first descriptor, which is not used. -/
def NullSel (sel : UInt16) : Prop := sel.toNat < 4

instance (sel : UInt16) : Decidable (NullSel sel) := inferInstanceAs (Decidable (_ < _))

/-- A selector may be in `ds`, `es`, `fs` or `gs`. -/
def DataLoads (cpl : Nat) (sel : UInt16) : Prop :=
  NullSel sel ∨ ∃ d ∈ descriptorAt table sel, d.DataAllowed cpl (level sel)

/-- It may be in `ss`. -/
def StackLoads (cpl : Nat) (sel : UInt16) : Prop :=
  ¬ NullSel sel ∧ ∃ d ∈ descriptorAt table sel, d.StackAllowed cpl (level sel)

/-- It may be in `cs`, whose low bits are the present level. -/
def CodeRuns (sel : UInt16) : Prop :=
  ¬ NullSel sel ∧ ∃ d ∈ descriptorAt table sel, d.CodeAllowed (level sel)

instance (cpl : Nat) (sel : UInt16) : Decidable (DataLoads table cpl sel) :=
  inferInstanceAs (Decidable (_ ∨ _))

instance (cpl : Nat) (sel : UInt16) : Decidable (StackLoads table cpl sel) :=
  inferInstanceAs (Decidable (_ ∧ _))

instance (sel : UInt16) : Decidable (CodeRuns table sel) :=
  inferInstanceAs (Decidable (_ ∧ _))

/-- It may be in a segment register other than `cs`. -/
def Loads (cpl : Nat) (g : Seg) (sel : UInt16) : Prop :=
  match g with
  | .ss => StackLoads table cpl sel
  | _ => DataLoads table cpl sel

instance (cpl : Nat) (g : Seg) (sel : UInt16) : Decidable (Loads table cpl g sel) := by
  unfold Loads
  cases g <;> infer_instance

/-- A `mov` into a segment register.  `none` is a fault. -/
def loadSeg (sel : UInt16) (s : Segs) (g : Seg) : Option Segs :=
  if Loads table (level s.cs) g sel then some (s.set sel g) else none

/-- The same selector into several registers, one after the other. -/
def loadSegs (gs : List Seg) (sel : UInt16) (s : Segs) : Option Segs :=
  gs.foldlM (loadSeg table sel) s

/-- What a far jump puts into `cs`: the selector with the present level. -/
def withLevel (sel : UInt16) (cpl : Nat) : UInt16 := sel &&& 0xFFFC ||| UInt16.ofNat cpl

/-- A far jump. -/
def farJump (sel : UInt16) (s : Segs) : Option Segs :=
  let cs := withLevel sel (level s.cs)
  if CodeRuns table cs ∧
      (level sel ≤ level s.cs ∨ ∃ d ∈ descriptorAt table cs, d.conforming = true) then
    some { s with cs := cs }
  else none

/-- What is left in a register on a return to an outer level. -/
def outer (cpl : Nat) (sel : UInt16) : UInt16 :=
  if ¬ NullSel sel ∧ ∃ d ∈ descriptorAt table sel, d.dpl < cpl ∧ d.conforming = false then 0
  else sel

/-- `iret` to `cs`, and on a change of the level to `ss`. -/
def iretTo (cs ss : UInt16) (s : Segs) : Option Segs :=
  if CodeRuns table cs ∧ level s.cs ≤ level cs then
    if level cs = level s.cs then some { s with cs := cs }
    else if StackLoads table (level cs) ss then
      some
        { cs := cs
          ss := ss
          ds := outer table (level cs) s.ds
          es := outer table (level cs) s.es
          fs := outer table (level cs) s.fs
          gs := outer table (level cs) s.gs }
    else none
  else none

/-- The processor enters a routine at the level 0: `cs` is of the gate, and `ss` of the
task state segment on a change of the level.  `none` is a fault. -/
def enter (cs ss0 : UInt16) (s : Segs) : Option Segs :=
  if CodeRuns table cs ∧ level cs = 0 then
    if level s.cs = 0 then some { s with cs := cs }
    else if StackLoads table 0 ss0 then some { s with cs := cs, ss := ss0 }
    else none
  else none

/-- A routine ends: the data segment that was saved comes into registers, and `iret`
returns to the code and the stack segment that were. -/
def leave (gs : List Seg) (saved : Segs) (s : Segs) : Option Segs :=
  (loadSegs table gs saved.ds s).bind (iretTo table saved.cs saved.ss)

/-- `ltr`.  The segment becomes busy. -/
def loadTask (sel : UInt16) : Option (Descriptor × List UInt8) :=
  match descriptorAt table sel with
  | none => none
  | some d =>
      if NullSel sel ∨ d.present = false ∨ d.kind ≠ .system 9 then none
      else some (d, table.set (8 * (sel.toNat / 8) + 5) (d.access ||| 2))

/-! ## Ports -/

/-- The code of the level `cpl` may use the `size` ports from `port` on: by the level in the
flags, or by the bits of the task state segment, of which the processor reads two bytes. -/
def PortAllowed (m : ByteMem) (tr : Descriptor) (cpl iopl port size : Nat) : Prop :=
  let byte (off : Nat) := m (UInt32.ofNat (tr.base + off))
  let bits := leNat [byte 102, byte 103] + port / 8
  cpl ≤ iopl ∨ 103 ≤ tr.limit ∧ bits + 1 ≤ tr.limit ∧
    ∀ i < size, (leNat [byte bits, byte (bits + 1)]).testBit (port % 8 + i) = false

theorem testBit_two_bytes (b b' : UInt8) (i : Nat) : (leNat [b, b']).testBit i =
    if i < 8 then b.toNat.testBit i else b'.toNat.testBit (i - 8) := by
  have heq : leNat [b, b'] = 2 ^ 8 * b'.toNat + b.toNat := by
    simp only [leNat]
    omega
  rw [heq, Nat.testBit_two_pow_mul_add _ b.toNat_lt]

/-! ## Valid registers -/

/-- Every register may hold what it holds. -/
structure ValidSegs (s : Segs) : Prop where
  cs : CodeRuns table s.cs
  loads : ∀ g, Loads table (level s.cs) g (s.get g)

end Table

variable {table : List UInt8} {s s' : Segs} {sel : UInt16}

theorem DataLoads.mono {cpl cpl' : Nat} (h : DataLoads table cpl sel) (hle : cpl' ≤ cpl) :
    DataLoads table cpl' sel :=
  h.imp_right fun ⟨d, hd, hallowed⟩ => ⟨d, hd, hallowed.mono hle⟩

theorem Segs.get_set (s : Segs) (v : UInt16) (g g' : Seg) :
    (s.set v g).get g' = if g = g' then v else s.get g' := by
  cases g <;> cases g' <;> rfl

theorem Segs.cs_set (s : Segs) (v : UInt16) (g : Seg) : (s.set v g).cs = s.cs := by
  cases g <;> rfl

theorem loadSeg_eq_some {g : Seg} (h : loadSeg table sel s g = some s') :
    Loads table (level s.cs) g sel ∧ s' = s.set sel g := by
  rw [loadSeg] at h
  split at h
  · exact ⟨‹_›, (Option.some.inj h).symm⟩
  · exact nomatch h

theorem ValidSegs.set {g : Seg} (h : ValidSegs table s) (hg : Loads table (level s.cs) g sel) :
    ValidSegs table (s.set sel g) := by
  refine ⟨(s.cs_set sel g).symm ▸ h.cs, fun g' => ?_⟩
  rw [s.cs_set, s.get_set]
  split
  · subst_vars
    exact hg
  · exact h.loads g'

theorem ValidSegs.loadSeg {g : Seg} (h : ValidSegs table s)
    (hload : loadSeg table sel s g = some s') : ValidSegs table s' := by
  obtain ⟨hg, rfl⟩ := loadSeg_eq_some hload
  exact h.set hg

/-- Registers that may all hold a selector come to hold it. -/
theorem loadSegs_eq {gs : List Seg} (h : ∀ g ∈ gs, Loads table (level s.cs) g sel) :
    loadSegs table gs sel s = some (gs.foldl (fun s g => s.set sel g) s) := by
  induction gs generalizing s with
  | nil => rfl
  | cons g gs ih =>
      have hcs := s.cs_set sel g
      rw [loadSegs, List.foldlM_cons, X86.loadSeg, if_pos (h g List.mem_cons_self)]
      exact ih fun g' hg' => hcs.symm ▸ h g' (List.mem_cons_of_mem _ hg')

theorem ValidSegs.loadSegs {gs : List Seg} (h : ValidSegs table s)
    (hload : loadSegs table gs sel s = some s') : ValidSegs table s' := by
  induction gs generalizing s with
  | nil => exact Option.some.inj hload ▸ h
  | cons g gs ih =>
      rw [X86.loadSegs, List.foldlM_cons, Option.bind_eq_bind, Option.bind_eq_some_iff] at hload
      obtain ⟨t, ht, hload⟩ := hload
      exact ih (h.loadSeg ht) hload

/-- A change of the code segment within a level. -/
theorem ValidSegs.setCs {cs : UInt16} (h : ValidSegs table s) (hcs : CodeRuns table cs)
    (hlevel : level cs = level s.cs) : ValidSegs table { s with cs := cs } := by
  refine ⟨hcs, fun g => ?_⟩
  have hg := h.loads g
  rw [← hlevel] at hg
  cases g <;> exact hg

theorem level_withLevel {cpl : Nat} (h : cpl < 4) : level (withLevel sel cpl) = cpl := by
  have hcpl : cpl % 2 ^ 16 = cpl := Nat.mod_eq_of_lt (by omega)
  have hmask : (sel.toNat &&& 0xFFFC) % 4 = 0 := by
    rw [show (4 : Nat) = 2 ^ 2 from rfl, Nat.and_mod_two_pow]
    exact Nat.and_zero _
  rw [level_eq, withLevel, UInt16.toNat_or, UInt16.toNat_and, UInt16.toNat_ofNat', hcpl,
    show (4 : Nat) = 2 ^ 2 from rfl, Nat.or_mod_two_pow]
  show (sel.toNat &&& 0xFFFC) % 4 ||| cpl % 4 = cpl
  rw [hmask, Nat.zero_or, Nat.mod_eq_of_lt h]

theorem level_lt (sel : UInt16) : level sel < 4 := by
  rw [level_eq]
  omega

theorem ValidSegs.farJump (h : ValidSegs table s) (hjump : farJump table sel s = some s') :
    ValidSegs table s' := by
  rw [X86.farJump] at hjump
  split at hjump
  · rename_i hcs
    obtain rfl := Option.some.inj hjump
    exact h.setCs hcs.1 (level_withLevel (level_lt _))
  · exact nomatch hjump

/-- What an outer level finds in a register it may have there. -/
theorem dataLoads_outer {cpl : Nat} (cpl' : Nat) (h : DataLoads table cpl sel) :
    DataLoads table cpl' (outer table cpl' sel) := by
  rw [outer]
  split
  · exact .inl (by decide)
  · rename_i hkept
    by_cases hnull : NullSel sel
    · exact .inl hnull
    · obtain ⟨d, hd, hallowed⟩ := h.resolve_left hnull
      refine .inr ⟨d, hd, hallowed.outer ?_⟩
      by_contra hinner
      rw [not_or, Bool.not_eq_true] at hinner
      exact hkept ⟨hnull, d, hd, by omega, hinner.2⟩

/-- A level keeps what it may load. -/
theorem outer_of_dataLoads {cpl : Nat} (h : DataLoads table cpl sel) :
    outer table cpl sel = sel := by
  refine if_neg ?_
  rintro ⟨hnull, d, hd, hlt, hconf⟩
  obtain ⟨d', hd', hallowed⟩ := h.resolve_left hnull
  obtain rfl := Option.mem_unique hd hd'
  obtain hle | hconf' := hallowed.le
  · omega
  · exact absurd (hconf'.symm.trans hconf) (by decide)

theorem ValidSegs.iretTo {cs ss : UInt16} (h : ValidSegs table s)
    (hiret : iretTo table cs ss s = some s') : ValidSegs table s' := by
  rw [X86.iretTo] at hiret
  split at hiret
  · rename_i hcs
    split at hiret
    · rename_i hlevel
      obtain rfl := Option.some.inj hiret
      exact h.setCs hcs.1 hlevel
    · split at hiret
      · rename_i hss
        obtain rfl := Option.some.inj hiret
        refine ⟨hcs.1, fun g => ?_⟩
        cases g with
        | es => exact dataLoads_outer (level cs) (h.loads .es)
        | ss => exact hss
        | ds => exact dataLoads_outer (level cs) (h.loads .ds)
        | fs => exact dataLoads_outer (level cs) (h.loads .fs)
        | gs => exact dataLoads_outer (level cs) (h.loads .gs)
      · exact nomatch hiret
  · exact nomatch hiret

/-- A routine is entered with registers that are valid at its level. -/
theorem ValidSegs.enter {cs ss0 : UInt16} (h : ValidSegs table s)
    (henter : enter table cs ss0 s = some s') : ValidSegs table s' ∧ level s'.cs = 0 := by
  rw [X86.enter] at henter
  split at henter
  · rename_i hcs
    split at henter
    · rename_i hlevel
      obtain rfl := Option.some.inj henter
      exact ⟨h.setCs hcs.1 (hcs.2.trans hlevel.symm), hcs.2⟩
    · split at henter
      · rename_i hss
        obtain rfl := Option.some.inj henter
        refine ⟨⟨hcs.1, fun g => ?_⟩, hcs.2⟩
        show Loads table (level cs) g _
        rw [hcs.2]
        cases g with
        | es => exact DataLoads.mono (h.loads .es) (Nat.zero_le _)
        | ss => exact hss
        | ds => exact DataLoads.mono (h.loads .ds) (Nat.zero_le _)
        | fs => exact DataLoads.mono (h.loads .fs) (Nat.zero_le _)
        | gs => exact DataLoads.mono (h.loads .gs) (Nat.zero_le _)
      · exact nomatch henter
  · exact nomatch henter

/-- **A routine can leave** as it was entered: the registers that it saved are loaded, and
the interrupted code has its own segments again, with the one of `ds` in the others. -/
theorem ValidSegs.leave {saved : Segs} (h : ValidSegs table saved) (hlevel : level s.cs = 0)
    (hss : level saved.cs = 0 → s.ss = saved.ss) :
    leave table [.ds, .es, .fs, .gs] saved s =
      some { saved with es := saved.ds, fs := saved.ds, gs := saved.ds } := by
  have hds : DataLoads table (level saved.cs) saved.ds := h.loads .ds
  have hstack : StackLoads table (level saved.cs) saved.ss := h.loads .ss
  have hdata : ∀ g ∈ [Seg.ds, .es, .fs, .gs], Loads table (level s.cs) g saved.ds := by
    intro g hg
    have hload := hds.mono (hlevel ▸ Nat.zero_le (level saved.cs))
    cases g with
    | ss => exact absurd hg (by decide)
    | _ => exact hload
  have hcs : CodeRuns table saved.cs ∧ level s.cs ≤ level saved.cs :=
    ⟨h.cs, hlevel ▸ Nat.zero_le _⟩
  rw [X86.leave, loadSegs_eq hdata, Option.bind_some]
  refine (if_pos hcs).trans ?_
  show (if level saved.cs = level s.cs then _ else _) = _
  by_cases hsame : level saved.cs = level s.cs
  · rw [if_pos hsame]
    simp [Segs.set, hss (hsame.trans hlevel)]
  · rw [if_neg hsame, if_pos hstack]
    simp [Segs.set, outer_of_dataLoads hds]

end StardustOS.Lib.X86
