import StardustOS.Fs.Mount
import StardustOS.Lib.Run

/-!
# The mount table over runs

`mountpoint_create` looks for a target with its leading slash, and the targets
in the list have none.  So it finds no mountpoint of an absolute target, and
neither do `mountpoint_fromtarget` and `mountpoint_destroy`.

A call that is refused changes nothing.  One that is accepted leaves a
mountpoint that the API no longer finds under the target it was given
(`Accepted.fromtarget`).  So the table is as it should be exactly in the runs
that mount nothing (`meets_callOk_iff`).
-/

namespace StardustOS.Fs

open Libc Lib

/-- A call of the mountpoint API. -/
inductive MountCall where
  | create (mem : Option Mountpoint) (fs : Option FsType) (src target : List UInt8) (flags : Nat)
      (data : Option (List UInt8))
  | destroy (target : List UInt8)

/-- The target is absolute, with one leading slash. -/
structure AbsTarget (target : List UInt8) : Prop where
  lead : byteAt target 0 = slash
  single : byteAt target 1 ≠ slash

def MountCall.target : MountCall → List UInt8
  | create _ _ _ target _ _ => target
  | destroy target => target

namespace Mounts

/-- A call, if it returns. -/
def step (s : Mounts) : MountCall → Option Mounts
  | .create mem fs src target flags data =>
      (s.mountpointCreate mem fs (some src) target flags data).map fun (_, _, s) => s
  | .destroy target => some (s.mountpointDestroy target).2

/-! ## What the calls promise -/

/-- No two mountpoints have the same target. -/
def Distinct (s : Mounts) : Prop := (s.mountpoints.map Mountpoint.target).Nodup

/-- The list and its counter are as before. -/
def Unchanged (s s' : Mounts) : Prop :=
  s'.mountpoints = s.mountpoints ∧ s'.mpCount = s.mpCount

/-- `mountpoint_create` returned 0: the new mountpoint is found under its source
and its target, its target is taken, and to destroy it unmounts the file system
and gives back the table. -/
structure Created (s : Mounts) (fs : Option FsType) (src : Option (List UInt8))
    (target : List UInt8) (flags : Nat) (s' : Mounts) : Prop where
  found : ∃ mp, s'.mountpoints = mp :: s.mountpoints ∧
    mountpointFromtarget s'.mountpoints target 0 = some mp ∧
    src.bind (mountpointFromsrc s'.mountpoints) = some mp
  busy : ∀ mem fs src flags data, flags.testBit MS_BIND = true ∨ fs ≠ none →
    ∃ src' t, s'.mountpointCreate mem fs src target flags data = some (-EBUSY, src', t)
  destroyed : (s'.mountpointDestroy target).1 = 0 ∧ s.Unchanged (s'.mountpointDestroy target).2
  umount : flags.testBit MS_BIND = false → ∀ f ∈ fs,
    (s'.mountpointDestroy target).2.fsCalls = .umount f.name :: s'.fsCalls

/-- The call does what it promises, and no two mountpoints have the same target
after it. -/
def CallOk (s : Mounts) : MountCall → Prop
  | .create mem fs src target flags data => ∀ r src' s',
      s.mountpointCreate mem fs (some src) target flags data = some (r, src', s') →
        s'.Distinct ∧ (r = 0 → s.Created fs src' target flags s') ∧ (r < 0 → s.Unchanged s')
  | .destroy target =>
      (s.mountpointDestroy target).2.Distinct ∧
        ((s.mountpointDestroy target).1 < 0 → s.Unchanged (s.mountpointDestroy target).2)

/-! ## Calls that are accepted -/

/-- There is memory, and the flags ask for a bind mount or the `mount` operation
succeeds. -/
def Mountable (mem : Option Mountpoint) (fs : Option FsType) (source : Option FsNode) (flags : Nat)
    (data : Option (List UInt8)) : Prop :=
  ∃ mp, mem = some mp ∧ (flags.testBit MS_BIND = true ∨
    ∃ f, fs = some f ∧ 0 ≤ (f.mount mp.rootnode source flags data).1)

/-- `mountpoint_create` finds nothing in the way: no mountpoint has the source
or, as it is written, the target, the source is a node, and that can be
mounted. -/
structure Accepted (s : Mounts) (mem : Option Mountpoint) (fs : Option FsType)
    (src target : List UInt8) (flags : Nat) (data : Option (List UInt8)) : Prop where
  source : ∀ mp ∈ s.mountpoints, mp.source.1 ≠ cstr src 0
  target : ∀ mp ∈ s.mountpoints, mp.target.1 ≠ cstr target 0
  node : ∃ node, (fsResolve s.mountpoints (some src)).1 = .found node ∧
    Mountable mem fs (some node) flags data

/-- The call does not mount anything. -/
def Refused (s : Mounts) : MountCall → Prop
  | .create mem fs src target flags data => ¬ s.Accepted mem fs src target flags data
  | .destroy _ => True

variable {s : Mounts} {mem : Option Mountpoint} {fs : Option FsType} {source : Option FsNode}
  {src target : List UInt8} {flags : Nat} {data : Option (List UInt8)}

variable (s target) in
/-- A new mountpoint becomes the head of the list. -/
theorem createFromnode_mountable (p : Nat) (h : Mountable mem fs source flags data) :
    ∃ mp s', s.mountpointCreateFromnode mem fs source target p flags data = (0, s') ∧
      s'.mountpoints = mp :: s.mountpoints ∧ mp.target = .read target (skipSlash target p) := by
  obtain ⟨mp, rfl, hmount⟩ := h
  cases hbind : flags.testBit MS_BIND with
  | true =>
      let mp' : Mountpoint :=
        { mp with target := .read target (skipSlash target p), flags := flags, rootnode := source }
      refine ⟨mp', s.insert mp', ?_, rfl, rfl⟩
      simp [mountpointCreateFromnode, hbind, mp']
  | false =>
      obtain ⟨f, rfl, hr⟩ := hmount.resolve_left (by simp [hbind])
      let mp' : Mountpoint :=
        { mp with
          target := .read target (skipSlash target p)
          flags := flags
          fsname := f.name
          rootnode := (f.mount mp.rootnode source flags data).2 }
      refine ⟨mp', { s with fsCalls := .mount f.name :: s.fsCalls }.insert mp', ?_, rfl, rfl⟩
      simp [mountpointCreateFromnode, hbind, mp', Int.not_lt.mpr hr]

/-- Nothing is mounted, and the result is an error code. -/
theorem createFromnode_refused {p : Nat} (h : ¬ Mountable mem fs source flags data) {r : Int}
    {s' : Mounts} (hr : s.mountpointCreateFromnode mem fs source target p flags data = (r, s')) :
    r < 0 ∧ s.Unchanged s' := by
  cases mem with
  | none =>
      simp only [mountpointCreateFromnode] at hr
      split at hr
      · obtain ⟨rfl, rfl⟩ := Prod.mk.inj hr
        exact ⟨by decide, rfl, rfl⟩
      · obtain ⟨rfl, rfl⟩ := Prod.mk.inj hr
        exact ⟨by decide, rfl, rfl⟩
  | some mp =>
      cases hbind : flags.testBit MS_BIND with
      | true => exact absurd ⟨mp, rfl, .inl hbind⟩ h
      | false =>
          cases fs with
          | none =>
              simp only [mountpointCreateFromnode, hbind, Bool.not_false, Option.isNone_none,
                Bool.and_true, ↓reduceIte] at hr
              obtain ⟨rfl, rfl⟩ := Prod.mk.inj hr
              exact ⟨by decide, rfl, rfl⟩
          | some f =>
              have hlt : (f.mount mp.rootnode source flags data).1 < 0 :=
                Int.not_le.mp fun hle => h ⟨mp, rfl, .inr ⟨f, rfl, hle⟩⟩
              simp only [mountpointCreateFromnode, hbind, Bool.not_false, Option.isNone_some,
                Bool.and_false, Bool.false_eq_true, hlt, ↓reduceIte] at hr
              obtain ⟨rfl, rfl⟩ := Prod.mk.inj hr
              exact ⟨hlt, rfl, rfl⟩

/-! ## The targets of the list -/

theorem mountpointFromsrc_eq_none :
    mountpointFromsrc s.mountpoints src = none ↔
      ∀ mp ∈ s.mountpoints, mp.source.1 ≠ cstr src 0 := by
  simp only [mountpointFromsrc, List.find?_eq_none, decide_eq_true_eq, CStr.strcmp_eq_zero]

theorem mountpointFromtarget_eq_none {mps : List Mountpoint} {p : Nat} :
    mountpointFromtarget mps target p = none ↔ ∀ mp ∈ mps, mp.target.1 ≠ cstr target p := by
  simp only [mountpointFromtarget, List.find?_eq_none, decide_eq_true_eq, CStr.strcmp_eq_zero]

/-- The target that is stored is not the one that was given. -/
theorem stored_ne (h : AbsTarget target) : cstr target 1 ≠ cstr target 0 := by
  cases target with
  | nil => exact absurd h.lead (by decide)
  | cons c t =>
      obtain rfl : c = slash := h.lead
      have hcons : cstr (slash :: t) 0 = slash :: cstr (slash :: t) 1 := by
        simp [cstr, slash]
      rw [hcons]
      exact fun heq => List.cons_ne_self _ _ heq.symm

/-- An accepted call returns 0, and its target is not found. -/
theorem Accepted.fromtarget (h : s.Accepted mem fs src target flags data)
    (habs : AbsTarget target) :
    ∃ src' s', s.mountpointCreate mem fs (some src) target flags data = some (0, src', s') ∧
      mountpointFromtarget s'.mountpoints target 0 = none := by
  obtain ⟨node, hnode, hmount⟩ := h.node
  have hfs : (!flags.testBit MS_BIND && fs.isNone) = false := by
    obtain ⟨mp, -, hbind | ⟨f, rfl, -⟩⟩ := hmount
    · rw [hbind, Bool.not_true, Bool.false_and]
    · rw [Option.isNone_some, Bool.and_false]
  have hsrc := mountpointFromsrc_eq_none.mpr h.source
  have htarget := mountpointFromtarget_eq_none.mpr h.target
  have hp : skipSlash target 0 = 1 := if_pos habs.lead
  have hp' : skipSlash target 1 = 1 := if_neg habs.single
  obtain ⟨src', hres⟩ : ∃ src', fsResolve s.mountpoints (some src) = (.found node, src') :=
    ⟨_, Prod.ext hnode rfl⟩
  obtain ⟨mp, s', hcreate, hlist, hmp⟩ :=
    createFromnode_mountable s target 1 hmount
  have hidx : (mp :: s.mountpoints).findIdx? (fun mp => strcmp mp.target.1 (cstr target 1) = 0) =
      some 0 := by
    rw [List.findIdx?_cons, if_pos]
    rw [decide_eq_true_eq, CStr.strcmp_eq_zero, hmp, hp']
    rfl
  have heq : s.mountpointCreate mem fs (some src) target flags data =
      some (0, src', { s' with
        mountpoints := { mp with source := .read (src'.getD []) 0 } :: s.mountpoints }) := by
    simp only [mountpointCreate, hfs, Bool.false_eq_true, ↓reduceIte, Option.bind_some, hsrc,
      htarget, Option.isSome_none, Bool.or_self, hres, hp, hcreate, lt_irrefl, hlist, hidx,
      List.modify_zero_cons]
  refine ⟨_, _, heq, mountpointFromtarget_eq_none.mpr ?_⟩
  intro mp' hmp'
  rcases List.mem_cons.mp hmp' with rfl | hmp'
  · show mp.target.1 ≠ cstr target 0
    rw [hmp, hp']
    exact stored_ne habs
  · exact h.target mp' hmp'

/-- Every error code of `fs_resolve` is negative. -/
theorem fsResolve_error {mps : List Mountpoint} {path path' : Option (List UInt8)} {r : Int}
    (h : fsResolve mps path = (.error r, path')) : r < 0 := by
  cases path with
  | none =>
      obtain ⟨hr, -⟩ := Prod.mk.inj h
      obtain rfl := Resolved.error.inj hr
      decide
  | some buf =>
      simp only [fsResolve] at h
      split at h
      · rename_i r' hmount
        obtain ⟨hr, -⟩ := Prod.mk.inj h
        obtain rfl := Resolved.error.inj hr
        simp only [fsResolveMount] at hmount
        split at hmount
        · cases hmount
        · split at hmount
          · cases hmount
          · obtain rfl := Except.error.inj hmount
            decide
      · exact fsNodeResolve_error (Prod.mk.inj h).1

/-- A refused call that returns changes nothing. -/
theorem create_refused (h : ¬ s.Accepted mem fs src target flags data) {r : Int}
    {src' : Option (List UInt8)} {s' : Mounts}
    (hr : s.mountpointCreate mem fs (some src) target flags data = some (r, src', s')) :
    r < 0 ∧ s.Unchanged s' := by
  have herror : ∀ {e : Int} {t : Option (List UInt8)}, e < 0 → some (e, t, s) = some (r, src', s') →
      r < 0 ∧ s.Unchanged s' := by
    rintro e t he ⟨⟩
    exact ⟨he, rfl, rfl⟩
  simp only [mountpointCreate, Option.bind_some] at hr
  split at hr
  · exact herror (by decide) hr
  · split at hr
    · exact herror (by decide) hr
    · rename_i hfree
      simp only [Bool.or_eq_true, not_or, Bool.not_eq_true, Option.isSome_eq_false_iff,
        Option.isNone_iff_eq_none, mountpointFromsrc_eq_none, mountpointFromtarget_eq_none] at hfree
      split at hr
      · cases hr
      · rename_i hres
        exact herror (fsResolve_error hres) hr
      · rename_i node _ hres
        have hmount : ¬ Mountable mem fs (some node) flags data := fun hmount =>
          h ⟨hfree.1, hfree.2, node, by rw [hres], hmount⟩
        cases hcreate : s.mountpointCreateFromnode mem fs (some node) target (skipSlash target 0)
          flags data with
        | mk r₁ s₁ =>
        obtain ⟨hneg, hsame⟩ := createFromnode_refused hmount hcreate
        simp only [hcreate, hneg, ↓reduceIte] at hr
        cases hr
        exact ⟨hneg, hsame⟩

/-! ## Runs -/

theorem Unchanged.distinct {s' : Mounts} (h : s.Unchanged s') (hs : s.Distinct) : s'.Distinct := by
  rw [Distinct, h.1]
  exact hs

/-- A call that is refused does what it promises, and only such a call does. -/
theorem callOk_iff_refused (hs : s.Distinct) (c : MountCall) (habs : AbsTarget c.target) :
    s.CallOk c ↔ s.Refused c := by
  cases c with
  | create mem fs src target flags data =>
      constructor
      · intro hok haccept
        obtain ⟨src', s', hcreate, hnone⟩ := haccept.fromtarget habs
        obtain ⟨mp, -, hfound, -⟩ := ((hok 0 src' s' hcreate).2.1 rfl).found
        rw [hnone] at hfound
        cases hfound
      · intro hrefuse r src' s' hcreate
        obtain ⟨hneg, hsame⟩ := create_refused hrefuse hcreate
        exact ⟨hsame.distinct hs, fun hr => absurd hr hneg.ne, fun _ => hsame⟩
  | destroy target =>
      refine ⟨fun _ => trivial, ?_⟩
      intro _
      simp only [CallOk, mountpointDestroy]
      split
      · exact ⟨hs, fun _ => ⟨rfl, rfl⟩⟩
      · refine ⟨?_, fun h => absurd h (lt_irrefl 0)⟩
        exact hs.sublist (List.eraseP_sublist.map _)

/-- A call that does what it promises keeps the targets distinct. -/
theorem CallOk.step_distinct {c : MountCall} {s' : Mounts} (h : s.CallOk c)
    (hstep : s.step c = some s') : s'.Distinct := by
  cases c with
  | create mem fs src target flags data =>
      obtain ⟨⟨r, src', t⟩, hcreate, rfl⟩ := Option.map_eq_some_iff.mp hstep
      exact (h r src' t hcreate).1
  | destroy target =>
      obtain rfl := Option.some.inj hstep
      exact h.1

/-- In a run of calls with absolute targets, from a table with distinct targets:
every call does what it promises, and the targets stay distinct, exactly when
every call is refused in the state it is made in. -/
theorem meets_callOk_iff (calls : List MountCall) (hcalls : ∀ c ∈ calls, AbsTarget c.target)
    (hs : s.Distinct) : Meets step CallOk s calls ↔ Meets step Refused s calls :=
  meets_congr (I := Distinct) (Q := fun c => AbsTarget c.target)
    (fun _ c hs habs => callOk_iff_refused hs c habs)
    (fun _ _ _ _ _ hok hstep => hok.step_distinct hstep) calls hs hcalls

/-! ## A root file system -/

/-- Memory of zeroes. -/
def zeroes : Mountpoint := ⟨none, .read [] 0, .read [] 0, .read [] 0, 0⟩

/-- A file system with the directory `/d`. -/
def initrd : FsType := ⟨.read [105] 0, fun _ _ _ _ => (0, some (.dir [] 0 [.dir [100] 1 []]))⟩

/-- The file system is mounted at `/`. -/
def booted : Mounts :=
  (boot.mountpointCreateFromnode (some zeroes) (some initrd) none [47] 0 0 none).2

theorem meets_callOk_booted :
    Meets step CallOk booted [.create none (some initrd) [47, 100] [47, 109] 0 none,
      .destroy [47, 109]] := by
  refine (meets_callOk_iff _ ?_ (by unfold Distinct; decide)).mpr ⟨?_, fun _ _ => ⟨trivial, ?_⟩⟩
  · simp only [List.forall_mem_cons, List.not_mem_nil, false_implies, implies_true, and_true]
    exact ⟨⟨rfl, by decide⟩, ⟨rfl, by decide⟩⟩
  · rintro ⟨-, -, node, -, mp, hmem, -⟩
    cases hmem
  · exact fun _ _ => trivial

/-- The directory `/d` is mounted at `/m`: no mountpoint has the target `/m`
then, and it cannot be destroyed. -/
theorem meets_callOk_wrong :
    (∃ src' s', booted.mountpointCreate (some zeroes) none (some [47, 100]) [47, 109] 1 none =
        some (0, src', s') ∧ mountpointFromtarget s'.mountpoints [47, 109] 0 = none ∧
        (s'.mountpointDestroy [47, 109]).1 = -EINVAL) ∧
      ¬ Meets step CallOk booted [.create (some zeroes) none [47, 100] [47, 109] 1 none] := by
  have habs : AbsTarget [47, 109] := ⟨rfl, by decide⟩
  have hnode : (fsResolve booted.mountpoints (some [47, 100])).1 = .found (.dir [100] 1 []) := by
    have hmount : fsResolveMount booted.mountpoints [47, 100] 0 =
        .ok ⟨_, .dir [] 0 [.dir [100] 1 []], 1⟩ := rfl
    simp only [fsResolve, hmount]
    rw [fsNodeResolve]
    rfl
  have haccept : booted.Accepted (some zeroes) none [47, 100] [47, 109] 1 none :=
    ⟨by decide, by decide, _, hnode, _, rfl, .inl rfl⟩
  obtain ⟨src', s', hcreate, hnone⟩ := haccept.fromtarget habs
  refine ⟨⟨src', s', hcreate, hnone, by simp only [mountpointDestroy, hnone]⟩, ?_⟩
  intro h
  obtain ⟨mp, -, hfound, -⟩ := ((h.1 0 src' s' hcreate).2.1 rfl).found
  rw [hnone] at hfound
  cases hfound

end Mounts

end StardustOS.Fs
