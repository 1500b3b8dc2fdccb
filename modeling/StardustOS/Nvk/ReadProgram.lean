import StardustOS.Errno
import StardustOS.Lib.HeapTrace
import StardustOS.Lib.Loop
import StardustOS.Libc.Vsnprintf
import StardustOS.Libfile.Elf

/-!
# Programs that nvk reads

`proc_exec` of nvk reads a file into a block of its size, in a loop, as a read may give
fewer bytes than it is asked for.  Each read asks for as many bytes as the file has, and
stores them at the beginning of the block, whatever was read before.

`loadsWhole_iff` says for which answers of the file this is right.

A file answers a read with an errno or with a count of bytes, which is then taken as an
`int`.  The sums do not wrap: the counts that are added never come to more than the size.
-/

namespace StardustOS.Nvk

open Lib Libc Libfile

/-! ## The source -/

/-- How a node of `size` bytes answers: the number of reads before this one, the offset
and the number of bytes that it is asked for.  A directory answers with `-EISDIR`. -/
structure Reader (size : Nat) where
  read : Nat → Nat → Nat → Except ErrorCode Nat
  bounded : ∀ k offset n c, read k offset n = .ok c → c ≤ n ∧ c ≤ size - offset

/-- A `size_t` that is assigned to an `int`. -/
def intOf (n : Nat) : Int :=
  if n % 2 ^ 32 < 2 ^ 31 then (n % 2 ^ 32 : Nat) else (n % 2 ^ 32 : Nat) - 2 ^ 32

/-- What `proc_exec` returns, the memory, and what was done with the block. -/
structure ExecEnd where
  ret : Int
  mem : Nat → UInt8
  events : List (HeapEvent Nat)

section Source

variable {size : Nat} (R : Reader size) (content : List UInt8)

/-- The loop of `proc_exec`: what is returned from within it, and the memory.  `k` reads
were made before. -/
def execRead (prog : Nat) :
    Nat → Nat → Nat → (Nat → UInt8) → Option (Option Int × (Nat → UInt8))
  | 0, _, _, _ => none
  | fuel + 1, k, total, mem =>
      if total < size then
        match R.read k total size with
        | .error e => some (some e.1, mem)
        | .ok c =>
            let mem := store mem prog ((content.drop total).take c)
            let r := intOf c
            if r < 0 then some (some r, mem)
            else execRead prog fuel (k + 1) (total + r.toNat) mem
      else some (none, mem)

/-- The header at the start of the block. -/
def headerAt (mem : Nat → UInt8) (prog : Nat) : ElfHeader :=
  .ofBytes ((List.range headerSize).map fun i => mem (prog + i))

/-- `proc_exec` of a node that was found.  `malloc` is the block, and `created` the pid
of the process. -/
def procExec (malloc : Option Nat) (created : Option Nat) (mem : Nat → UInt8) (budget : Nat) :
    Option ExecEnd :=
  match malloc with
  | none => some ⟨-ENOMEM, mem, []⟩
  | some prog =>
      (execRead R content prog budget 0 0 mem).map fun (r, mem) =>
        match r with
        | some r => ⟨r, mem, [.free prog]⟩
        | none =>
            if elfIsvalid (headerAt mem prog) = false then
              ⟨-EINVAL, mem, [.use prog, .free prog]⟩
            else
              match created with
              | none => ⟨-EINVAL, mem, [.use prog, .free prog]⟩
              -- the program runs
              | some pid => ⟨pid, mem, [.use prog, .use prog]⟩

end Source

/-! ## The whole file -/

section Conditions

variable {size : Nat} (R : Reader size)

/-- Whatever the file holds and the block held before: `proc_exec` returns, writes to the
block only, and uses it only when it holds the file.  Otherwise it gives the block back
and returns an errno. -/
def LoadsWhole : Prop :=
  ∀ content : List UInt8, content.length = size → ∀ prog created mem,
    ∃ e, Returns (procExec R content (some prog) created mem) e ∧
      (∀ a, ¬ (prog ≤ a ∧ a < prog + size) → e.mem a = mem a) ∧
      (.use prog ∈ e.events → ∀ i (hi : i < content.length), e.mem (prog + i) = content[i]) ∧
      (.use prog ∉ e.events → e.events = [.free prog] ∧ e.ret < 0)

/-- With `total` bytes counted, an answer that is negative as an `int` comes before the
counts come to the size. -/
inductive FailsFirst : Nat → Nat → Prop
  | error {k total : Nat} {e : ErrorCode} (h : total < size) (hr : R.read k total size = .error e) :
      FailsFirst k total
  | negative {k total c : Nat} (h : total < size) (hr : R.read k total size = .ok c)
      (hc : intOf c < 0) : FailsFirst k total
  | later {k total c : Nat} (h : total < size) (hr : R.read k total size = .ok c)
      (hc : 0 ≤ intOf c) (hrest : FailsFirst (k + 1) (total + (intOf c).toNat)) :
      FailsFirst k total

/-- The first answer other than 0 is the whole file, and its size is no negative `int`. -/
def WholeAtOnce : Prop :=
  size < 2 ^ 31 ∧ ∃ k, (∀ j < k, R.read j 0 size = .ok 0) ∧ R.read k 0 size = .ok size

end Conditions

variable {size : Nat} {R : Reader size} {content : List UInt8} {prog : Nat}

/-! ## The loop -/

theorem intOf_eq {n : Nat} (h : n < 2 ^ 31) : intOf n = n := by
  have hmod : n % 2 ^ 32 = n := Nat.mod_eq_of_lt (by omega)
  rw [intOf, hmod, if_pos h]

/-- The count that is added is no more than was read, and an `int`. -/
theorem intOf_le (n : Nat) : (intOf n).toNat ≤ n ∧ (intOf n).toNat < 2 ^ 31 := by
  have hmod := Nat.mod_le n (2 ^ 32)
  rw [intOf]
  split <;> omega

section Turns

variable {k total : Nat} {mem : Nat → UInt8}

/-- What a turn of the loop can be. -/
theorem turn_cases (R : Reader size) (k total : Nat) :
    size ≤ total ∨ (total < size ∧
      ((∃ e, R.read k total size = .error e) ∨
        ∃ c, R.read k total size = .ok c ∧ (intOf c < 0 ∨ 0 ≤ intOf c))) := by
  by_cases h : total < size
  · refine .inr ⟨h, ?_⟩
    cases R.read k total size with
    | error e => exact .inl ⟨e, rfl⟩
    | ok c => exact .inr ⟨c, rfl, lt_or_ge _ _⟩
  · exact .inl (Nat.le_of_not_lt h)

theorem execRead_end (fuel : Nat) (h : size ≤ total) :
    execRead R content prog (fuel + 1) k total mem = some (none, mem) :=
  if_neg (Nat.not_lt.mpr h)

theorem execRead_error (fuel : Nat) (h : total < size) {e : ErrorCode}
    (hr : R.read k total size = .error e) :
    execRead R content prog (fuel + 1) k total mem = some (some e.1, mem) := by
  rw [execRead, if_pos h, hr]

/-- A count that is negative as an `int`. -/
theorem execRead_negative (fuel : Nat) (h : total < size) {c : Nat}
    (hr : R.read k total size = .ok c) (hc : intOf c < 0) :
    execRead R content prog (fuel + 1) k total mem =
      some (some (intOf c), store mem prog ((content.drop total).take c)) := by
  rw [execRead, if_pos h, hr]
  exact if_pos hc

theorem execRead_next (fuel : Nat) (h : total < size) {c : Nat}
    (hr : R.read k total size = .ok c) (hc : 0 ≤ intOf c) :
    execRead R content prog (fuel + 1) k total mem =
      execRead R content prog fuel (k + 1) (total + (intOf c).toNat)
        (store mem prog ((content.drop total).take c)) := by
  rw [execRead, if_pos h, hr]
  exact if_neg (Int.not_lt.mpr hc)

end Turns

/-- More turns change nothing. -/
theorem execRead_succ (fuel : Nat) {k total : Nat} {mem : Nat → UInt8}
    {r : Option Int × (Nat → UInt8)} (h : execRead R content prog fuel k total mem = some r) :
    execRead R content prog (fuel + 1) k total mem = some r := by
  induction fuel generalizing k total mem with
  | zero => cases h
  | succ fuel ih =>
      obtain hend | ⟨hlt, ⟨e, hr⟩ | ⟨c, hr, hc | hc⟩⟩ := turn_cases R k total
      · rwa [execRead_end _ hend] at h ⊢
      · rwa [execRead_error _ hlt hr] at h ⊢
      · rwa [execRead_negative _ hlt hr hc] at h ⊢
      · rw [execRead_next _ hlt hr hc] at h ⊢
        exact ih h

/-- What holds where the loop ends, and before a turn when it holds behind it, holds of
every loop that ends. -/
theorem execRead_rec {P : Nat → Nat → (Nat → UInt8) → Option Int × (Nat → UInt8) → Prop}
    (hend : ∀ k {total} mem, size ≤ total → P k total mem (none, mem))
    (herror : ∀ {k total e} mem, total < size → R.read k total size = .error e →
      P k total mem (some e.1, mem))
    (hnegative : ∀ {k total c} mem, total < size → R.read k total size = .ok c → intOf c < 0 →
      P k total mem (some (intOf c), store mem prog ((content.drop total).take c)))
    (hnext : ∀ {fuel k total c mem r}, total < size → R.read k total size = .ok c → 0 ≤ intOf c →
      execRead R content prog fuel (k + 1) (total + (intOf c).toNat)
        (store mem prog ((content.drop total).take c)) = some r →
      P (k + 1) (total + (intOf c).toNat) (store mem prog ((content.drop total).take c)) r →
      P k total mem r)
    {fuel k total : Nat} {mem : Nat → UInt8} {r : Option Int × (Nat → UInt8)}
    (h : execRead R content prog fuel k total mem = some r) : P k total mem r := by
  induction fuel generalizing k total mem with
  | zero => cases h
  | succ fuel ih =>
      obtain hle | ⟨hlt, ⟨e, hr⟩ | ⟨c, hr, hc | hc⟩⟩ := turn_cases R k total
      · rw [execRead_end _ hle] at h
        cases h
        exact hend k mem hle
      · rw [execRead_error _ hlt hr] at h
        cases h
        exact herror mem hlt hr
      · rw [execRead_negative _ hlt hr hc] at h
        cases h
        exact hnegative mem hlt hr hc
      · rw [execRead_next _ hlt hr hc] at h
        exact hnext hlt hr hc h (ih h)

/-- Nothing is stored outside the block. -/
theorem execRead_outside (fuel : Nat) {k total : Nat} {mem mem' : Nat → UInt8} {o : Option Int}
    (h : execRead R content prog fuel k total mem = some (o, mem')) {a : Nat}
    (ha : ¬ (prog ≤ a ∧ a < prog + size)) : mem' a = mem a := by
  -- a read stores no more than it is asked for
  have hstore : ∀ {k total c mem}, R.read k total size = .ok c →
      store mem prog ((content.drop total).take c) a = mem a := by
    intro k total c mem hr
    have hc := (R.bounded _ _ _ _ hr).1
    rw [store_apply]
    split
    · rw [List.getD_eq_default]
      rw [List.length_take]
      omega
    · rfl
  refine execRead_rec (P := fun _ _ mem r => r.2 a = mem a) ?_ ?_ ?_ ?_ h
  · exact fun _ _ _ _ => rfl
  · exact fun _ _ _ => rfl
  · exact fun _ _ hr _ => hstore hr
  · exact fun _ hr _ _ ih => ih.trans (hstore hr)

/-! ## Errors -/

/-- The loop returns an error where one comes first. -/
theorem execRead_fails {k total : Nat} (h : FailsFirst R k total) (mem : Nat → UInt8) :
    ∃ fuel r mem', execRead R content prog fuel k total mem = some (some r, mem') ∧ r < 0 := by
  induction h generalizing mem with
  | @error k total e h hr => exact ⟨1, e.1, mem, execRead_error _ h hr, e.2.2⟩
  | negative h hr hc => exact ⟨1, _, _, execRead_negative _ h hr hc, hc⟩
  | later h hr hc _ ih =>
      obtain ⟨fuel, r, mem', hloop, hneg⟩ := ih (store mem prog _)
      exact ⟨fuel + 1, r, mem', (execRead_next _ h hr hc).trans hloop, hneg⟩

/-- It returns no other. -/
theorem failsFirst_of_loop (fuel : Nat) {k total : Nat} {mem mem' : Nat → UInt8} {r : Int}
    (h : execRead R content prog fuel k total mem = some (some r, mem')) :
    FailsFirst R k total := by
  have hret : (some r, mem').1 ≠ none := Option.some_ne_none r
  refine execRead_rec (P := fun k total _ r => r.1 ≠ none → FailsFirst R k total) ?_ ?_ ?_ ?_ h hret
  · exact fun _ _ _ _ hnone => absurd rfl hnone
  · exact fun _ hlt hr _ => .error hlt hr
  · exact fun _ hlt hr hc _ => .negative hlt hr hc
  · exact fun hlt hr hc _ ih hret => .later hlt hr hc (ih hret)

/-! ## Files in one read -/

/-- After answers of 0 the whole file is stored. -/
theorem execRead_whole (hsize : size < 2 ^ 31) (hcontent : content.length = size) {n k : Nat}
    (hzero : ∀ j < n, R.read (k + j) 0 size = .ok 0) (hwhole : R.read (k + n) 0 size = .ok size)
    (mem : Nat → UInt8) :
    ∃ fuel, execRead R content prog fuel k 0 mem = some (none, store mem prog content) := by
  obtain rfl | hpos := Nat.eq_zero_or_pos size
  · obtain rfl := List.eq_nil_of_length_eq_zero hcontent
    exact ⟨1, execRead_end _ (Nat.le_refl _)⟩
  · have hint : ∀ {m}, m ≤ size → intOf m = m := fun hm => intOf_eq (by omega)
    induction n generalizing k with
    | zero =>
        refine ⟨2, ?_⟩
        rw [Nat.add_zero] at hwhole
        rw [execRead_next 1 hpos hwhole (by rw [hint (Nat.le_refl _)]; omega),
          execRead_end 0 (by rw [hint (Nat.le_refl _)]; omega), List.drop_zero, ← hcontent,
          List.take_length]
    | succ n ih =>
        have hzero' : ∀ j < n, R.read (k + 1 + j) 0 size = .ok 0 := by
          intro j hj
          rw [Nat.add_assoc, Nat.add_comm 1 j]
          exact hzero (j + 1) (Nat.succ_lt_succ hj)
        have hwhole' : R.read (k + 1 + n) 0 size = .ok size := by
          rwa [Nat.add_assoc, Nat.add_comm 1 n]
        obtain ⟨fuel, hfuel⟩ := ih hzero' hwhole'
        have hread : R.read k 0 size = .ok 0 := hzero 0 (Nat.succ_pos _)
        refine ⟨fuel + 1, ?_⟩
        rw [execRead_next fuel hpos hread (Int.le_refl 0)]
        exact hfuel

/-- A read stores at the start of the block. -/
theorem store_start {total c : Nat} (h : total < content.length) (hc : 0 < c) (mem : Nat → UInt8) :
    store mem prog ((content.drop total).take c) prog = content[total] := by
  rw [store_apply, if_pos (Nat.le_refl prog), Nat.sub_self, List.getD_eq_getElem?_getD,
    List.getElem?_take_of_lt hc, List.getElem?_drop, Nat.add_zero, List.getElem?_eq_getElem h,
    Option.getD_some]

/-- What is stored from behind the start of the file stands at the start of the block. -/
theorem execRead_behind (hcontent : content.length = size)
    (hzero : ∀ i (hi : i < content.length), 0 < i → content[i] = 0) (fuel : Nat) {k total : Nat}
    {mem mem' : Nat → UInt8} (h : execRead R content prog fuel k total mem = some (none, mem'))
    (htotal : 0 < total) (hmem : mem prog = 0 ∨ total < size) : mem' prog = 0 := by
  refine execRead_rec (P := fun _ total mem r => r.1 = none → 0 < total →
    mem prog = 0 ∨ total < size → r.2 prog = 0) ?_ ?_ ?_ ?_ h rfl htotal hmem
  · exact fun _ _ _ hend _ _ hmem => hmem.resolve_right (Nat.not_lt.mpr hend)
  · exact fun _ _ _ hnone => nomatch hnone
  · exact fun _ _ _ _ hnone => nomatch hnone
  · intro _ _ total c mem r hlt hr _ _ ih hnone htotal _
    refine ih hnone (Nat.lt_add_right _ htotal) ?_
    obtain rfl | hpos := Nat.eq_zero_or_pos c
    · exact .inr hlt
    · have hlt' : total < content.length := hcontent.symm ▸ hlt
      exact .inl ((store_start hlt' hpos mem).trans (hzero total hlt' htotal))

/-- A file that starts with another byte than it goes on with is read at once. -/
theorem wholeAtOnce_of_loop (hcontent : content.length = size)
    (hzero : ∀ i (hi : i < content.length), 0 < i → content[i] = 0) (hsize : 0 < size) (fuel : Nat)
    {k : Nat} {mem mem' : Nat → UInt8}
    (h : execRead R content prog fuel k 0 mem = some (none, mem')) (hone : mem' prog ≠ 0) :
    size < 2 ^ 31 ∧
      ∃ n, (∀ j < n, R.read (k + j) 0 size = .ok 0) ∧ R.read (k + n) 0 size = .ok size := by
  refine execRead_rec (P := fun k total _ r => r.1 = none → total = 0 → r.2 prog ≠ 0 →
    size < 2 ^ 31 ∧ ∃ n, (∀ j < n, R.read (k + j) 0 size = .ok 0) ∧
      R.read (k + n) 0 size = .ok size) ?_ ?_ ?_ ?_ h rfl rfl hone
  · intro _ _ _ hend _ htotal _
    omega
  · exact fun _ _ _ hnone => nomatch hnone
  · exact fun _ _ _ _ hnone => nomatch hnone
  · rintro fuel k _ c mem ⟨_, mem'⟩ hlt hr hc h ih rfl rfl hone
    have hbound := (R.bounded _ _ _ _ hr).1
    obtain ⟨hle, hint⟩ := intOf_le c
    rw [Nat.zero_add] at h
    obtain hnil | hpos := Nat.eq_zero_or_pos (intOf c).toNat
    · -- an answer of 0 is followed by the others
      obtain ⟨hsmall, n, hn, hwhole⟩ := ih rfl (by rw [hnil]) hone
      have hc0 : c = 0 := by
        rw [intOf_eq (by omega)] at hnil
        omega
      refine ⟨hsmall, n + 1, ?_, ?_⟩
      · intro j hj
        cases j with
        | zero => rw [Nat.add_zero, hr, hc0]
        | succ j =>
            have hj' := hn j (Nat.lt_of_succ_lt_succ hj)
            rwa [Nat.add_assoc, Nat.add_comm 1 j] at hj'
      · rwa [Nat.add_assoc, Nat.add_comm 1 n] at hwhole
    · have hall : size ≤ (intOf c).toNat := by
        by_contra hshort
        exact hone (execRead_behind hcontent hzero fuel h hpos (.inr (Nat.lt_of_not_le hshort)))
      have hcs : c = size := by omega
      exact ⟨by omega, 0, fun j hj => absurd hj (Nat.not_lt_zero j), hcs ▸ hr⟩

/-! ## `proc_exec` -/

section Ends

variable {fuel : Nat} {mem mem' : Nat → UInt8}

/-- What the loop comes to, `proc_exec` goes on with. -/
theorem execRead_returns {o : Option Int × (Nat → UInt8)}
    (h : execRead R content prog fuel 0 0 mem = some o) :
    Returns (fun budget => execRead R content prog budget 0 0 mem) o :=
  returns_of_succ (fun n _ => execRead_succ n) h

theorem procExec_fails {r : Int} (created : Option Nat)
    (h : execRead R content prog fuel 0 0 mem = some (some r, mem')) :
    Returns (procExec R content (some prog) created mem) ⟨r, mem', [.free prog]⟩ :=
  (execRead_returns h).map _

/-- After the loop the header in the block is read. -/
theorem procExec_uses (created : Option Nat)
    (h : execRead R content prog fuel 0 0 mem = some (none, mem')) :
    ∃ e, Returns (procExec R content (some prog) created mem) e ∧ e.mem = mem' ∧
      .use prog ∈ e.events := by
  refine ⟨_, (execRead_returns h).map _, ?_⟩
  dsimp only
  split
  · exact ⟨rfl, List.mem_cons_self⟩
  · split
    · exact ⟨rfl, List.mem_cons_self⟩
    · exact ⟨rfl, List.mem_cons_self⟩

/-- What `proc_exec` returns comes from the loop. -/
theorem loop_of_procExec {created : Option Nat} {e : ExecEnd}
    (h : Returns (procExec R content (some prog) created mem) e) :
    ∃ fuel o, execRead R content prog fuel 0 0 mem = some o := by
  obtain ⟨n, hn⟩ := h
  obtain ⟨o, ho, -⟩ := Option.map_eq_some_iff.mp (hn (n + 1) (Nat.lt_succ_self n))
  exact ⟨n + 1, o, ho⟩

end Ends

/-- An errno in time ends the loop. -/
theorem FailsFirst.loadsWhole (h : FailsFirst R 0 0) : LoadsWhole R := by
  intro content _ prog created mem
  obtain ⟨fuel, r, mem', hloop, hneg⟩ : ∃ fuel r mem',
      execRead R content prog fuel 0 0 mem = some (some r, mem') ∧ r < 0 := execRead_fails h mem
  refine ⟨_, procExec_fails created hloop, fun a ha => execRead_outside fuel hloop ha, ?_,
    fun _ => ⟨rfl, hneg⟩⟩
  intro huse
  simp at huse

/-- A loop that stores the file at once. -/
theorem loadsWhole_of_store
    (h : ∀ (content : List UInt8) (prog : Nat) (mem : Nat → UInt8), content.length = size →
      ∃ fuel, execRead R content prog fuel 0 0 mem = some (none, store mem prog content)) :
    LoadsWhole R := by
  intro content hcontent prog created mem
  obtain ⟨fuel, hloop⟩ := h content prog mem hcontent
  obtain ⟨e, he, hmem, huse⟩ := procExec_uses created hloop
  refine ⟨e, he, ?_, ?_, fun hfree => absurd huse hfree⟩
  · intro a ha
    rw [hmem]
    exact execRead_outside fuel hloop ha
  · intro _ i hi
    rw [hmem, store_apply, if_pos (Nat.le_add_right _ _), Nat.add_sub_cancel_left,
      List.getD_eq_getElem _ _ hi]

/-- nvk reads the whole program.  This is so when there is nothing to read, when the first
answer other than 0 is the whole file, or when an answer that is negative as an `int` comes
before the counts come to the size of the file, and at no other time. -/
theorem loadsWhole_iff (R : Reader size) :
    LoadsWhole R ↔ size = 0 ∨ WholeAtOnce R ∨ FailsFirst R 0 0 := by
  constructor
  · intro h
    rw [or_iff_not_imp_left]
    intro hsize
    -- a file that goes on with another byte than it starts with
    let content : List UInt8 := 1 :: List.replicate (size - 1) 0
    have hcontent : content.length = size := by
      rw [List.length_cons, List.length_replicate]
      omega
    have hzero : ∀ i (hi : i < content.length), 0 < i → content[i] = 0 := by
      intro i hi hpos
      obtain ⟨i, rfl⟩ := Nat.exists_eq_succ_of_ne_zero (Nat.ne_of_gt hpos)
      exact List.getElem_replicate _
    obtain ⟨e, he, -, huse, -⟩ := h content hcontent 0 none fun _ => 0
    obtain ⟨fuel, ⟨r, mem'⟩, hloop⟩ := loop_of_procExec he
    cases r with
    | some r => exact .inr (failsFirst_of_loop fuel hloop)
    | none =>
        obtain ⟨e', he', hmem, huse'⟩ := procExec_uses none hloop
        obtain rfl := he.unique he'
        have hfirst := huse huse' 0 (by omega)
        rw [hmem] at hfirst
        have hone : mem' 0 ≠ 0 := by
          rw [hfirst, List.getElem_cons_zero]
          decide
        have hwhole := wholeAtOnce_of_loop hcontent hzero (by omega) fuel hloop hone
        simp only [Nat.zero_add] at hwhole
        exact .inl hwhole
  · rintro (rfl | ⟨hsize, n, hzero, hwhole⟩ | hfails)
    · refine loadsWhole_of_store fun content prog mem hcontent => ⟨1, ?_⟩
      obtain rfl := List.eq_nil_of_length_eq_zero hcontent
      exact execRead_end 0 (Nat.le_refl 0)
    · refine loadsWhole_of_store fun content prog mem hcontent => ?_
      refine execRead_whole hsize hcontent (n := n) ?_ ?_ mem
      · intro j hj
        rw [Nat.zero_add]
        exact hzero j hj
      · rwa [Nat.zero_add]
    · exact hfails.loadsWhole

/-- A file of two bytes that gives one byte at a time. -/
def oneByOne : Reader 2 where
  read _ offset n := .ok (min 1 (min n (2 - offset)))
  bounded := by
    intro k offset n c h
    cases h
    omega

/-- Two reads leave the second byte of the file where the first belongs. -/
theorem loadsWhole_oneByOne : ¬ LoadsWhole oneByOne := by
  intro h
  obtain ⟨e, he, -, huse, -⟩ := h [1, 2] rfl 0 none fun _ => 0
  have hloop : execRead oneByOne [1, 2] 0 3 0 0 (fun _ => 0) =
      some (none, store (store (fun _ => 0) 0 [1]) 0 [2]) := rfl
  obtain ⟨e', he', hmem, huse'⟩ := procExec_uses none hloop
  obtain rfl := he.unique he'
  have hfirst := huse huse' 0 (by decide)
  rw [hmem] at hfirst
  exact absurd hfirst (by decide)

end StardustOS.Nvk
