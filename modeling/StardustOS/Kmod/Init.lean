import StardustOS.Errno
import Mathlib.Data.List.Basic
import Mathlib.Tactic.Common

/-!
# Kernel modules

`module.c`: the list of installed modules, newest first, and the list of loaded
ones.  The links of the second list are in the modules, and a module is taken to
be loaded when its link is not NULL.

No two installed modules have the same id, so a pointer to a module is its id.
The init functions are the parameter `init`: the result of a call may depend on
the module and on all calls made before.

`module_init` calls itself for each dependency.  The models take the depth of
these calls as fuel, and `none` says that it was used up.
-/

namespace StardustOS.Kmod

/-- The id of a module. -/
abbrev Id := List UInt8

/-- `modinfo_t`, less the fields that nothing reads. -/
structure Modinfo where
  id : Id
  /-- NULL, or the ids up to the NULL at the end. -/
  deps : Option (List Id)
deriving DecidableEq, Repr

/-- The ids that `module_init` goes through. -/
def Modinfo.depIds (m : Modinfo) : List Id := m.deps.getD []

/-- `modules_loaded`, and the calls of init functions with their results, oldest
first. -/
structure Loaded where
  /-- `modules_loaded.slh_first`. -/
  first : Option Id
  /-- `mod_loaded.sle_next`. -/
  next : Id → Option Id
  calls : List (Id × Int)

/-- Nothing is loaded. -/
def Loaded.fresh : Loaded := ⟨none, fun _ => none, []⟩

/-- The static data of `module.c`. -/
structure Modules where
  installed : List Modinfo
  loaded : Loaded

/-- No module is installed. -/
def Modules.boot : Modules := ⟨[], .fresh⟩

/-- `module_fromid`. -/
def moduleFromid (installed : List Modinfo) (id : Id) : Option Modinfo :=
  installed.find? fun m => m.id = id

namespace Modules

variable (s : Modules)

/-- `module_install`. -/
def moduleInstall (m : Modinfo) : Int × Modules :=
  match moduleFromid s.installed m.id with
  | some _ => (-EEXIST, s)
  | none =>
      (0, {
        installed := m :: s.installed
        loaded := { s.loaded with next := fun i => if i = m.id then none else s.loaded.next i } })

/-- The loop of `modules_init` over the modules of the binary. -/
def installAll : List Modinfo → Modules → Int × Modules
  | [], s => (0, s)
  | m :: ms, s =>
      let (r, s) := s.moduleInstall m
      if r < 0 then (r, s) else installAll ms s

end Modules

namespace Loaded

/-- `SLIST_INSERT_HEAD(&modules_loaded, module, mod_loaded)`. -/
def insertHead (id : Id) (s : Loaded) : Loaded :=
  { s with
    first := some id
    next := fun i => if i = id then s.first else s.next i }

/-- A call of an init function. -/
def called (id : Id) (r : Int) (s : Loaded) : Loaded := { s with calls := s.calls ++ [(id, r)] }

end Loaded

section Init

variable (init : List (Id × Int) → Id → Int) (installed : List Modinfo)

/-- The loop of `module_init` over the dependencies, given the call
`module_init`. -/
def initDeps (moduleInit : Id → Loaded → Option (Int × Loaded)) :
    List Id → Loaded → Option (Int × Loaded)
  | [], s => some (0, s)
  | id :: ids, s =>
      match moduleInit id s with
      | none => none
      | some (r, s) => if r < 0 then some (r, s) else initDeps moduleInit ids s

/-- `module_init`, with at most `depth` nested calls. -/
def moduleInit : Nat → Id → Loaded → Option (Int × Loaded)
  | 0, _, _ => none
  | depth + 1, id, s =>
      match moduleFromid installed id with
      | none => some (-ENOENT, s)
      | some m =>
          if s.next m.id ≠ none then some (0, s)
          else
            match initDeps (moduleInit depth) m.depIds s with
            | none => none
            | some (r, s) =>
                if r < 0 then some (r, s)
                else
                  let r := init s.calls m.id
                  let s := s.called m.id r
                  if r < 0 then some (r, s) else some (r, s.insertHead m.id)

/-- The loop of `modules_init` over the installed modules. -/
def initAll (depth : Nat) : List Modinfo → Loaded → Option (Int × Loaded)
  | [], s => some (0, s)
  | m :: ms, s =>
      match moduleInit init installed depth m.id s with
      | none => none
      | some (r, s) => if r < 0 then some (r, s) else initAll depth ms s

/-- `modules_init`, for the modules `mods` of the binary. -/
def modulesInit (depth : Nat) (mods : List Modinfo) (s : Modules) : Option (Int × Modules) :=
  let (r, s) := s.installAll mods
  if r < 0 then some (r, s)
  else
    (initAll init s.installed depth s.installed s.loaded).map fun (r, l) =>
      (r, { s with loaded := l })

/-- The ways in which `module_init` returns. -/
inductive InitCase (depth : Nat) (id : Id) (s : Loaded) : Int → Loaded → Prop
  | missing (found : moduleFromid installed id = none) : InitCase depth id s (-ENOENT) s
  | linked {m : Modinfo} (found : moduleFromid installed id = some m)
      (next : s.next m.id ≠ none) : InitCase depth id s 0 s
  | depFails {m : Modinfo} {r : Int} {t : Loaded} (found : moduleFromid installed id = some m)
      (next : s.next m.id = none)
      (deps : initDeps (moduleInit init installed depth) m.depIds s = some (r, t))
      (error : r < 0) : InitCase depth id s r t
  | initFails {m : Modinfo} {r : Int} {t : Loaded} (found : moduleFromid installed id = some m)
      (next : s.next m.id = none)
      (deps : initDeps (moduleInit init installed depth) m.depIds s = some (r, t))
      (ok : 0 ≤ r) (error : init t.calls m.id < 0) :
      InitCase depth id s (init t.calls m.id) (t.called m.id (init t.calls m.id))
  | loads {m : Modinfo} {r : Int} {t : Loaded} (found : moduleFromid installed id = some m)
      (next : s.next m.id = none)
      (deps : initDeps (moduleInit init installed depth) m.depIds s = some (r, t))
      (ok : 0 ≤ r) (done : 0 ≤ init t.calls m.id) :
      InitCase depth id s (init t.calls m.id)
        ((t.called m.id (init t.calls m.id)).insertHead m.id)

variable {init installed}

theorem moduleInit_cases {depth : Nat} {id : Id} {s s' : Loaded} {r : Int}
    (h : moduleInit init installed (depth + 1) id s = some (r, s')) :
    InitCase init installed depth id s r s' := by
  cases hm : moduleFromid installed id with
  | none =>
      simp only [moduleInit, hm] at h
      cases h
      exact .missing hm
  | some m =>
      simp only [moduleInit, hm] at h
      split at h
      · next hnext =>
          cases h
          exact .linked hm hnext
      · next hnext =>
          split at h
          · cases h
          · next r₁ t ht =>
              split at h
              · next hneg =>
                  cases h
                  exact .depFails hm (not_not.mp hnext) ht hneg
              · next hpos =>
                  split at h
                  · next hneg =>
                      cases h
                      exact .initFails hm (not_not.mp hnext) ht (Int.not_lt.mp hpos) hneg
                  · next hpos' =>
                      cases h
                      exact .loads hm (not_not.mp hnext) ht (Int.not_lt.mp hpos)
                        (Int.not_lt.mp hpos')

/-- One turn of the loop over the dependencies. -/
theorem initDeps_cons_cases {f : Id → Loaded → Option (Int × Loaded)} {id : Id} {ids : List Id}
    {s s' : Loaded} {r : Int} (h : initDeps f (id :: ids) s = some (r, s')) :
    (f id s = some (r, s') ∧ r < 0) ∨
      ∃ r₁ t, f id s = some (r₁, t) ∧ 0 ≤ r₁ ∧ initDeps f ids t = some (r, s') := by
  cases hid : f id s with
  | none => simp [initDeps, hid] at h
  | some rt =>
      obtain ⟨r₁, t⟩ := rt
      simp only [initDeps, hid] at h
      split at h
      · next hneg =>
          cases h
          exact Or.inl ⟨rfl, hneg⟩
      · next hpos => exact Or.inr ⟨r₁, t, rfl, Int.not_lt.mp hpos, h⟩

end Init

end StardustOS.Kmod
