import StardustOS.Errno
import StardustOS.Lib.OrderedSet
import StardustOS.Lib.Run
import StardustOS.Libc.Compare

/-!
# The registry of file systems

The list `filesystems` of `fs.c`, newest first, and its counter.  The operations are a
parameter, for the registry never calls them.

`registry_right` says what a run from boot makes of it: the names are the ordered set that
the calls make, the counter is their number, and the record of a name is the one of the
registration that added it.
-/

namespace StardustOS.Fs

open Lib Libc

variable {ω : Type*}

/-! ## The source -/

/-- `fs_t`. -/
structure FsRecord (ω : Type*) where
  name : CStr
  type : Nat
  opts : ω

/-- The static data of `fs.c` on file systems. -/
structure FsTable (ω : Type*) where
  filesystems : List (FsRecord ω)
  filesystemCount : Nat

namespace FsTable

/-- No file system is registered. -/
def boot : FsTable ω := ⟨[], 0⟩

variable (s : FsTable ω)

/-- `fs_count`. -/
def fsCount : Nat := s.filesystemCount

/-- `fs_get`. -/
def fsGet (i : Nat) : Option (FsRecord ω) := s.filesystems[i]?

/-- `fs_fromname`. -/
def fsFromname (name : CStr) : Option (FsRecord ω) :=
  s.filesystems.find? fun fs => strcmp fs.name.1 name.1 = 0

/-- `register_fs`.  `mem` says whether `kmalloc` finds memory.  A name as long as its field is
stored without room for its NUL. -/
def registerFs (name : CStr) (type : Nat) (opts : ω) (mem : Bool) : Option (Int × FsTable ω) :=
  if (s.fsFromname name).isSome then some (-EEXIST, s)
  else if name.1.length > NAME_MAX then some (-ENAMETOOLONG, s)
  else if !mem then some (-ENOMEM, s)
  else if name.1.length = NAME_MAX then none
  else some (0, ⟨⟨name, type, opts⟩ :: s.filesystems, s.filesystemCount + 1⟩)

/-- `unregister_fs`. -/
def unregisterFs (name : CStr) : Int × FsTable ω :=
  match s.fsFromname name with
  | none => (-ENOENT, s)
  | some _ =>
      (0, ⟨s.filesystems.eraseP fun fs => strcmp fs.name.1 name.1 = 0, s.filesystemCount - 1⟩)

end FsTable

/-- A call that may change the registry. -/
inductive FsTableCall (ω : Type*)
  | register (name : CStr) (type : Nat) (opts : ω) (mem : Bool)
  | unregister (name : CStr)

/-- A call, if it is defined. -/
def FsTable.step (s : FsTable ω) : FsTableCall ω → Option (FsTable ω)
  | .register name type opts mem => (s.registerFs name type opts mem).map Prod.snd
  | .unregister name => some (s.unregisterFs name).2

/-! ## What is wanted -/

/-- What a call does to the set of names. -/
def FsTableCall.setCall : FsTableCall ω → Option (SetCall CStr)
  | .register name _ _ mem =>
      if mem = true ∧ name.1.length ≤ NAME_MAX then some (.add name) else none
  | .unregister name => some (.remove name)

/-- The names after a run. -/
def namesAfter (cs : List (FsTableCall ω)) : List CStr := held (cs.filterMap FsTableCall.setCall)

/-- The record is that of a registration that added its name, and the name was not
unregistered since. -/
def Installed (cs : List (FsTableCall ω)) (fs : FsRecord ω) : Prop :=
  ∃ pre post, cs = pre ++ .register fs.name fs.type fs.opts true :: post ∧
    fs.name ∉ namesAfter pre ∧ fs.name.1.length < NAME_MAX ∧ .unregister fs.name ∉ post

/-- The registry is what the calls made it. -/
structure FsTable.Right (s : FsTable ω) (cs : List (FsTableCall ω)) : Prop where
  count : s.fsCount = (namesAfter cs).length
  get : ∀ i, (s.fsGet i).map FsRecord.name = (namesAfter cs)[i]?
  fromname : ∀ name fs, s.fsFromname name = some fs ↔ fs.name = name ∧ Installed cs fs
  register : ∀ name type opts mem, (∃ s', s.registerFs name type opts mem = some (0, s')) ↔
    name ∉ namesAfter cs ∧ mem = true ∧ name.1.length < NAME_MAX
  unregister : ∀ name, (s.unregisterFs name).1 = 0 ↔ name ∈ namesAfter cs

/-! ## One call -/

theorem strcmp_names (a b : CStr) : strcmp a.1 b.1 = 0 ↔ a = b :=
  (strcmp_eq_zero a.2 b.2).trans Subtype.ext_iff.symm

namespace FsTable

variable {s s' : FsTable ω} {cs : List (FsTableCall ω)}

theorem fsFromname_isSome {name : CStr} :
    (s.fsFromname name).isSome ↔ name ∈ s.filesystems.map FsRecord.name := by
  simp only [fsFromname, List.find?_isSome, decide_eq_true_eq, strcmp_names, List.mem_map]

theorem fsFromname_cons {fs : FsRecord ω} {l : List (FsRecord ω)} {n m : Nat} {name : CStr}
    (h : fs.name ≠ name) : (FsTable.mk (fs :: l) n).fsFromname name =
      (FsTable.mk l m).fsFromname name := by
  have hskip : ¬ decide (strcmp fs.name.1 name.1 = 0) = true := by
    rwa [decide_eq_true_eq, strcmp_names]
  exact List.find?_cons_of_neg hskip

/-- A registration is refused, or adds a name. -/
theorem registerFs_cases {name : CStr} {type : Nat} {opts : ω} {mem : Bool} {r : Int}
    (h : s.registerFs name type opts mem = some (r, s')) :
    (r < 0 ∧ s' = s ∧ (name ∈ s.filesystems.map FsRecord.name ∨ mem = false ∨
        NAME_MAX < name.1.length)) ∨
      (r = 0 ∧ name ∉ s.filesystems.map FsRecord.name ∧ mem = true ∧ name.1.length < NAME_MAX ∧
        s' = ⟨⟨name, type, opts⟩ :: s.filesystems, s.filesystemCount + 1⟩) := by
  rw [registerFs] at h
  split at h
  · rename_i hsome
    cases h
    exact Or.inl ⟨by decide, rfl, Or.inl (fsFromname_isSome.mp hsome)⟩
  · rename_i hsome
    split at h
    · rename_i hlong
      cases h
      exact Or.inl ⟨by decide, rfl, Or.inr (Or.inr hlong)⟩
    · rename_i hlong
      split at h
      · rename_i hmem
        cases h
        exact Or.inl ⟨by decide, rfl, Or.inr (Or.inl (by simpa using hmem))⟩
      · rename_i hmem
        split at h
        · cases h
        · rename_i hne
          cases h
          exact Or.inr ⟨rfl, fun hn => hsome (fsFromname_isSome.mpr hn), by simpa using hmem,
            by omega, rfl⟩

theorem registerFs_zero_iff {name : CStr} {type : Nat} {opts : ω} {mem : Bool} :
    (∃ s', s.registerFs name type opts mem = some (0, s')) ↔
      name ∉ s.filesystems.map FsRecord.name ∧ mem = true ∧ name.1.length < NAME_MAX := by
  constructor
  · rintro ⟨s', h⟩
    obtain ⟨hneg, -⟩ | ⟨-, hname, hmem, hlen, -⟩ := registerFs_cases h
    · exact absurd hneg (Int.lt_irrefl 0)
    · exact ⟨hname, hmem, hlen⟩
  · rintro ⟨hname, rfl, hlen⟩
    refine ⟨⟨⟨name, type, opts⟩ :: s.filesystems, s.filesystemCount + 1⟩, ?_⟩
    rw [registerFs, if_neg (fun h => hname (fsFromname_isSome.mp h)), if_neg (by omega),
      if_neg (by decide), if_neg hlen.ne]

/-- A name that is unregistered is there and goes, or nothing happens. -/
theorem unregisterFs_cases (s : FsTable ω) (name : CStr) :
    ((s.unregisterFs name).1 < 0 ∧ (s.unregisterFs name).2 = s ∧
        name ∉ s.filesystems.map FsRecord.name) ∨
      ((s.unregisterFs name).1 = 0 ∧ name ∈ s.filesystems.map FsRecord.name ∧
        (s.unregisterFs name).2 =
          ⟨s.filesystems.eraseP fun fs => fs.name = name, s.filesystemCount - 1⟩) := by
  rw [unregisterFs]
  cases h : s.fsFromname name with
  | none =>
      refine Or.inl ⟨(by decide : -ENOENT < 0), rfl, ?_⟩
      rw [← fsFromname_isSome, h]
      exact Bool.false_ne_true
  | some fs =>
      refine Or.inr ⟨rfl, ?_, ?_⟩
      · rw [← fsFromname_isSome, h]
        rfl
      · simp only [strcmp_names]

/-! ## Every run -/

/-- The names are the set that the calls make, each once, and the records are those of the
registrations. -/
structure Inv (s : FsTable ω) (cs : List (FsTableCall ω)) : Prop where
  names : s.filesystems.map FsRecord.name = namesAfter cs
  count : s.filesystemCount = s.filesystems.length
  records : ∀ fs, fs ∈ s.filesystems ↔ Installed cs fs

theorem namesAfter_snoc (c : FsTableCall ω) :
    namesAfter (cs ++ [c]) = (c.setCall.map fun c => c.next (namesAfter cs)).getD
      (namesAfter cs) := by
  rw [namesAfter, List.filterMap_append, List.filterMap_cons, List.filterMap_nil]
  cases c.setCall with
  | none => rw [List.append_nil, Option.map_none, Option.getD_none, namesAfter]
  | some d => exact held_snoc _ d

theorem installed_snoc {c : FsTableCall ω} {fs : FsRecord ω} : Installed (cs ++ [c]) fs ↔
    (c = .register fs.name fs.type fs.opts true ∧ fs.name ∉ namesAfter cs ∧
        fs.name.1.length < NAME_MAX) ∨
      (c ≠ .unregister fs.name ∧ Installed cs fs) := by
  constructor
  · rintro ⟨pre, post, hcs, hname, hlen, hpost⟩
    rcases List.eq_nil_or_concat post with rfl | ⟨post, d, rfl⟩
    · obtain ⟨rfl, rfl⟩ := List.append_singleton_inj.mp hcs
      exact Or.inl ⟨rfl, hname, hlen⟩
    · rw [List.concat_eq_append, ← List.cons_append, ← List.append_assoc] at hcs
      obtain ⟨rfl, rfl⟩ := List.append_singleton_inj.mp hcs
      rw [List.concat_eq_append, List.mem_append, List.mem_singleton, not_or] at hpost
      exact Or.inr ⟨fun h => hpost.2 h.symm, pre, post, rfl, hname, hlen, hpost.1⟩
  · rintro (⟨rfl, hname, hlen⟩ | ⟨hc, pre, post, rfl, hname, hlen, hpost⟩)
    · exact ⟨cs, [], rfl, hname, hlen, List.not_mem_nil⟩
    · refine ⟨pre, post ++ [c], by simp, hname, hlen, ?_⟩
      rw [List.mem_append, List.mem_singleton, not_or]
      exact ⟨hpost, fun h => hc h.symm⟩

/-- A call that leaves the set of names and the records leaves the registry as it is. -/
theorem Inv.refused (h : s.Inv cs) {c : FsTableCall ω}
    (hnames : namesAfter (cs ++ [c]) = namesAfter cs)
    (hrecords : ∀ fs, Installed (cs ++ [c]) fs ↔ Installed cs fs) : s.Inv (cs ++ [c]) where
  names := h.names.trans hnames.symm
  count := h.count
  records fs := (h.records fs).trans (hrecords fs).symm

theorem Inv.step (h : s.Inv cs) {c : FsTableCall ω} (hstep : s.step c = some s') :
    s'.Inv (cs ++ [c]) := by
  cases c with
  | register name type opts mem =>
      obtain ⟨⟨r, t⟩, hr, rfl⟩ := Option.map_eq_some_iff.mp hstep
      obtain ⟨-, rfl, hwhy⟩ | ⟨-, hname, rfl, hlen, rfl⟩ := registerFs_cases hr
      · refine h.refused ?_ ?_
        · rw [namesAfter_snoc, FsTableCall.setCall]
          split_ifs with hadd
          · obtain hname | hmem | hlong := hwhy
            · exact if_pos (h.names ▸ hname)
            · exact absurd hadd.1 (hmem ▸ Bool.false_ne_true)
            · exact absurd hlong (Nat.not_lt.mpr hadd.2)
          · rfl
        · intro fs
          have hne : FsTableCall.register name type opts mem ≠ .unregister fs.name := nofun
          rw [installed_snoc, ← h.names, and_iff_right hne]
          refine or_iff_right ?_
          rintro ⟨heq, hnew, hlen⟩
          cases heq
          obtain hname | hmem | hlong := hwhy
          · exact hnew hname
          · cases hmem
          · omega
      · refine ⟨?_, congrArg (· + 1) h.count, ?_⟩
        · rw [namesAfter_snoc, FsTableCall.setCall, if_pos ⟨rfl, hlen.le⟩, ← h.names]
          exact (if_neg hname).symm
        · intro fs
          have hne : FsTableCall.register name type opts true ≠ .unregister fs.name := nofun
          rw [installed_snoc, ← h.names, ← h.records, List.mem_cons, and_iff_right hne]
          refine or_congr_left ?_
          constructor
          · rintro rfl
            exact ⟨rfl, hname, hlen⟩
          · rintro ⟨heq, -⟩
            cases heq
            rfl
  | unregister name =>
      cases hstep
      obtain ⟨-, hsame, hname⟩ | ⟨-, hname, hsame⟩ := s.unregisterFs_cases name
      · rw [hsame]
        refine h.refused ?_ ?_
        · rw [namesAfter_snoc]
          exact List.erase_of_not_mem (h.names ▸ hname)
        · intro fs
          rw [installed_snoc, or_iff_right (fun hreg => nomatch hreg.1), and_iff_right_iff_imp]
          intro hfs heq
          cases heq
          exact hname (List.mem_map_of_mem ((h.records fs).mpr hfs))
      · rw [hsame]
        refine ⟨?_, ?_, ?_⟩
        · rw [namesAfter_snoc, FsTableCall.setCall, ← h.names]
          exact map_eraseP_key FsRecord.name name s.filesystems
        · have hlen := congrArg List.length (map_eraseP_key FsRecord.name name s.filesystems)
          rw [List.length_map, List.length_erase_of_mem hname, List.length_map] at hlen
          rw [hlen, h.count]
        · intro fs
          have hnodup : (s.filesystems.map FsRecord.name).Nodup := h.names ▸ held_nodup _
          rw [mem_eraseP_key hnodup, installed_snoc, or_iff_right (fun hreg => nomatch hreg.1),
            h.records, and_comm]
          refine and_congr_left fun _ => not_congr ?_
          constructor
          · rintro rfl
            rfl
          · intro heq
            cases heq
            rfl

theorem boot_inv : (boot : FsTable ω).Inv [] where
  names := rfl
  count := rfl
  records fs := by simp [boot, Installed]

theorem run_inv (h : run step boot cs = some s) : s.Inv cs := by
  induction cs using List.reverseRecOn generalizing s with
  | nil =>
      cases h
      exact boot_inv
  | append_singleton cs c ih =>
      rw [run_append, Option.bind_eq_some_iff] at h
      obtain ⟨t, ht, hstep⟩ := h
      rw [run_singleton] at hstep
      exact (ih ht).step hstep

end FsTable

/-- The registry is what the calls made it.  After every run from boot the file systems are
an ordered set of names, the newest first, and each is the one that the registration gave
which added its name. -/
theorem registry_right {cs : List (FsTableCall ω)} {s : FsTable ω}
    (h : run FsTable.step FsTable.boot cs = some s) : s.Right cs := by
  have hinv := FsTable.run_inv h
  have hnodup : (s.filesystems.map FsRecord.name).Nodup := hinv.names ▸ held_nodup _
  constructor
  · rw [← hinv.names, List.length_map]
    exact hinv.count
  · intro i
    rw [← hinv.names, List.getElem?_map]
    rfl
  · intro name fs
    simp only [FsTable.fsFromname, strcmp_names]
    rw [find?_key hnodup, hinv.records, and_comm]
  · intro name type opts mem
    rw [← hinv.names]
    exact FsTable.registerFs_zero_iff
  · intro name
    rw [← hinv.names]
    obtain ⟨hneg, -, hname⟩ | ⟨hzero, hname, -⟩ := s.unregisterFs_cases name
    · exact iff_of_false hneg.ne hname
    · exact iff_of_true hzero hname

/-- Two file systems, of which the first is registered again and the other one goes. -/
def againAndGone : List (FsTableCall Nat) :=
  [.register ⟨[120], by decide⟩ 1 7 true, .register ⟨[121], by decide⟩ 1 8 true,
    .register ⟨[120], by decide⟩ 1 9 true, .unregister ⟨[121], by decide⟩]

theorem registry_right_again : FsTable.Right ⟨[⟨⟨[120], by decide⟩, 1, 7⟩], 1⟩ againAndGone :=
  registry_right (by rfl)

end StardustOS.Fs
