import StardustOS.Fs.MountTable
import StardustOS.Fs.PathWalk
import StardustOS.Process.ExecTrace
import StardustOS.Sys.Descriptors

/-!
# What resolving leaves of a path

`fs_node_resolve` casts its constant path and hands it to `dirname`, which writes
NULs into it.  They stay there: at each level of the recursion only more of them
are written (`fsNodeResolve_cutFrom`).  So `fs_resolve` gives a path back as it
was exactly when there is nothing to write, and then it does not recurse either
(`FlatPath`).

`nl_open`, `proc_exec` and `mountpoint_create` pass on their caller's string, so
it fares the same there.  They do more with the kernel than resolve, and the
string is a part of that kernel that the rest leaves alone (`OpenBeside`,
`ExecBeside`).
-/

namespace StardustOS.Fs

open Libc

/-! ## `fs_node_resolve` -/

theorem fsNodeResolve_cutFrom (node : FsNode) (buf : List UInt8) (path : Nat) :
    CutFrom buf (fsNodeResolve node buf path).2 := by
  fun_induction fsNodeResolve node buf path with
  | case1 => exact dirname_cutFrom _ _
  | case2 _ _ _ _ _ _ _ _ _ _ _ ih => exact (dirname_cutFrom _ _).trans ih
  | case3 => exact dirname_cutFrom _ _
  | case4 => exact dirname_cutFrom _ _
  | case5 => exact dirname_cutFrom _ _

/-- Nothing is written without a slash to write over. -/
theorem fsNodeResolve_flat (node : FsNode) {buf : List UInt8} {path : Nat}
    (h : Flat buf (skipSlash buf path)) : (fsNodeResolve node buf path).2 = buf := by
  obtain ⟨hbuf, hlen⟩ := dirname_flat h
  rw [fsNodeResolve]
  simp only [hbuf, hlen, Nat.lt_irrefl, if_false]
  split
  · rfl
  · split
    · rfl
    · rfl

/-- What is written over is not written back. -/
theorem fsNodeResolve_writes (node : FsNode) {buf : List UInt8} {path : Nat}
    (h : ¬ Flat buf (skipSlash buf path)) : (fsNodeResolve node buf path).2 ≠ buf := by
  obtain ⟨i, hslash, hnul⟩ := dirname_writes h
  have hcut : CutFrom (dirname buf (skipSlash buf path)).2 (fsNodeResolve node buf path).2 := by
    rw [fsNodeResolve]
    split
    · exact .refl _
    · split
      · split
        · exact fsNodeResolve_cutFrom _ _ _
        · exact .refl _
      · split
        · exact .refl _
        · exact .refl _
  intro hbuf
  have hafter := hcut.nul hnul
  rw [hbuf, hslash] at hafter
  exact absurd hafter (by decide)

/-! ## `fs_resolve` -/

variable (mps : List Mountpoint) (path : Option (List UInt8))

/-- The path is left as it is, and resolves to the same when it is resolved
again. -/
structure KeepsPath : Prop where
  bytes : (fsResolve mps path).2 = path
  again : (fsResolve mps (fsResolve mps path).2).1 = (fsResolve mps path).1

/-- The path is NULL, or there is no mountpoint for it, or what is passed to
`fs_node_resolve`, less a slash that it begins with, has no slash behind its first
character. -/
def FlatPath : Prop :=
  ∀ buf, path = some buf → ∀ e, fsResolveMount mps buf 0 = .ok e →
    Flat buf (skipSlash buf e.path)

theorem fsResolve_bytes_iff : (fsResolve mps path).2 = path ↔ FlatPath mps path := by
  cases path with
  | none => exact iff_of_true rfl fun buf h => by cases h
  | some buf =>
      cases hmount : fsResolveMount mps buf 0 with
      | error r =>
          refine iff_of_true (by simp only [fsResolve, hmount]) ?_
          rintro buf' ⟨⟩ e he
          cases hmount.symm.trans he
      | ok e =>
          simp only [fsResolve, hmount, Option.some.injEq]
          constructor
          · rintro h buf' ⟨⟩ e' he
            cases hmount.symm.trans he
            exact Classical.not_not.mp fun hflat => fsNodeResolve_writes e.root hflat h
          · exact fun h => fsNodeResolve_flat e.root (h buf rfl e hmount)

/-- A path that is kept resolves to the same again. -/
theorem keepsPath_iff : KeepsPath mps path ↔ FlatPath mps path := by
  rw [← fsResolve_bytes_iff]
  exact ⟨KeepsPath.bytes, fun h => ⟨h, by rw [h]⟩⟩

/-! ## `mountpoint_create` -/

/-- `mountpoint_create` returns before it resolves its source. -/
def Mounts.Refuses (s : Mounts) (fs : Option FsType) (src : Option (List UInt8))
    (target : List UInt8) (flags : Nat) : Prop :=
  (flags.testBit MS_BIND = false ∧ fs.isNone) ∨
    (src.bind (mountpointFromsrc s.mountpoints)).isSome ∨
      (mountpointFromtarget s.mountpoints target 0).isSome

/-- What it leaves of its source is what `fs_resolve` leaves of it, once it is
called. -/
theorem mountpointCreate_source {s s' : Mounts} {mem : Option Mountpoint} {fs : Option FsType}
    {src src' : Option (List UInt8)} {target : List UInt8} {flags : Nat}
    {data : Option (List UInt8)} {r : Int}
    (h : s.mountpointCreate mem fs src target flags data = some (r, src', s')) :
    (s.Refuses fs src target flags ∧ src' = src) ∨
      (¬ s.Refuses fs src target flags ∧ src' = (fsResolve s.mountpoints src).2) := by
  rw [Mounts.mountpointCreate] at h
  split at h
  · rename_i hfs
    cases h
    exact Or.inl ⟨Or.inl (by simpa using hfs), rfl⟩
  rename_i hfs
  split at h
  · rename_i hbusy
    cases h
    exact Or.inl ⟨Or.inr (by simpa using hbusy), rfl⟩
  rename_i hbusy
  refine Or.inr ⟨?_, ?_⟩
  · rintro (hr | hr)
    · exact hfs (by simpa using hr)
    · exact hbusy (by simpa using hr)
  · obtain ⟨res, left, hres⟩ : ∃ res left, fsResolve s.mountpoints src = (res, left) :=
      ⟨_, _, rfl⟩
    simp only [hres] at h ⊢
    cases res with
    | fault => cases h
    | error e =>
        cases h
        rfl
    | found node =>
        simp only at h
        split at h
        · cases h
          rfl
        · split at h
          · cases h
          · cases h
            rfl

theorem mountpointCreate_keeps_iff {s s' : Mounts} {mem : Option Mountpoint} {fs : Option FsType}
    {src src' : Option (List UInt8)} {target : List UInt8} {flags : Nat}
    {data : Option (List UInt8)} {r : Int}
    (h : s.mountpointCreate mem fs src target flags data = some (r, src', s')) :
    src' = src ↔ s.Refuses fs src target flags ∨ FlatPath s.mountpoints src := by
  obtain ⟨hr, hsrc⟩ | ⟨hr, rfl⟩ := mountpointCreate_source h
  · exact iff_of_true hsrc (Or.inl hr)
  · rw [fsResolve_bytes_iff, or_iff_right hr]

/-! ## `nl_open` -/

section Open

open Sys

variable {σ N : Type*}

/-- The caller's string `str` in the world: `fs_resolve` works on it as on the
mountpoints, and `fs_node_open` leaves it alone. -/
structure OpenBeside (W : Nodes σ N) (str : σ → Option (List UInt8)) : Prop where
  resolve : ∀ w, str (W.fsResolve (str w) w).2 = (fsResolve mps (str w)).2
  openNode : ∀ node fd w, str (W.fsNodeOpen node fd w).2 = str w

/-- There is a process, and it has a free descriptor. -/
def CanOpen (s : Files σ N) : Prop := ∃ p, s.curr = some p ∧ p.opened ≠ Set.univ

variable {mps} {W : Nodes σ N} {str : σ → Option (List UInt8)}

/-- What `nl_open` leaves of the string is what `fs_resolve` leaves of it, once it is
called. -/
theorem nlOpen_string (hW : OpenBeside mps W str) (s : Files σ N) (mode : Int) :
    (¬ CanOpen s ∧ str (s.nlOpen W (str s.world) mode).2.world = str s.world) ∨
      (CanOpen s ∧ str (s.nlOpen W (str s.world) mode).2.world =
        (fsResolve mps (str s.world)).2) := by
  have hres := hW.resolve s.world
  cases hcurr : s.curr with
  | none =>
      simp only [Files.nlOpen, hcurr]
      refine Or.inl ⟨?_, trivial⟩
      rintro ⟨p, hp, -⟩
      cases hcurr.symm.trans hp
  | some p =>
      cases hfree : Fin.find? fun i => (p.fd i).node.isNone with
      | none =>
          simp only [Files.nlOpen, hcurr, hfree]
          refine Or.inl ⟨?_, trivial⟩
          rintro ⟨q, hq, hfull⟩
          cases hcurr.symm.trans hq
          exact hfull (Files.find?_eq_none.mp hfree)
      | some i =>
          have hcan : CanOpen s := by
            refine ⟨p, hcurr, ?_⟩
            intro hfull
            cases (Files.find?_eq_none.mpr hfull).symm.trans hfree
          refine Or.inr ⟨hcan, ?_⟩
          rw [← hres]
          obtain ⟨res, w, hw⟩ : ∃ res w, W.fsResolve (str s.world) s.world = (res, w) :=
            ⟨_, _, rfl⟩
          cases res with
          | error e => simp only [Files.nlOpen, hcurr, hfree, hw]
          | ok node =>
              simp only [Files.nlOpen, hcurr, hfree, hw]
              obtain ⟨r, w', hw'⟩ : ∃ r w',
                  W.fsNodeOpen node (Files.newFd p node mode) w = (r, w') := ⟨_, _, rfl⟩
              have hkept := hW.openNode node (Files.newFd p node mode) w
              rw [hw'] at hkept
              simp only [Files.newFd] at hw'
              rw [hw']
              cases r with
              | error e => exact hkept
              | ok n => exact hkept

theorem nlOpen_keeps_iff (hW : OpenBeside mps W str) (s : Files σ N) (mode : Int) :
    str (s.nlOpen W (str s.world) mode).2.world = str s.world ↔
      ¬ CanOpen s ∨ FlatPath mps (str s.world) := by
  obtain ⟨hcan, hkept⟩ | ⟨hcan, hkept⟩ := nlOpen_string hW s mode
  · exact iff_of_true hkept (Or.inl hcan)
  · rw [hkept, fsResolve_bytes_iff, or_iff_right (not_not.mpr hcan)]

end Open

/-! ## `proc_exec` -/

section Exec

open Process

variable {κ : Type*}

/-- The caller's string `str` in the kernel: `fs_resolve` works on it as on the
mountpoints, and nothing else that `proc_exec` calls writes to it. -/
structure ExecBeside (K : Kernel κ) (L : Loader κ) (str : κ → List UInt8) : Prop where
  resolve : ∀ k, some (str (L.fsResolve (str k) k).2) = (fsResolve mps (some (str k))).2
  kernel : Procs.KernelKeeps K str
  loader : Procs.LoaderKeeps L str

variable {mps} {K : Kernel κ} {L : Loader κ} {str : κ → List UInt8}

theorem procExec_keeps_iff (hK : ExecBeside mps K L str) {s s' : Procs κ}
    {argv : Option (List (List UInt8))} {res : ExecResult}
    (h : s.procExec K L (str s.kernel) argv = some (res, s')) :
    str s'.kernel = str s.kernel ↔ FlatPath mps (some (str s.kernel)) := by
  rw [Procs.procExec_keeps hK.kernel hK.loader h, ← fsResolve_bytes_iff, ← hK.resolve,
    Option.some.injEq]

end Exec

/-! ## All callers -/

/-- `fs_resolve`, `nl_open`, `proc_exec` and `mountpoint_create` keep their path
exactly when it is flat, or when they do not resolve it. -/
theorem resolve_keeps_iff {σ N κ : Type*} {W : Nodes σ N} {K : Process.Kernel κ}
    {L : Process.Loader κ} {str : σ → Option (List UInt8)} {str' : κ → List UInt8}
    (mps : List Mountpoint) (hW : OpenBeside mps W str) (hK : ExecBeside mps K L str') :
    (∀ path, KeepsPath mps path ↔ FlatPath mps path) ∧
    (∀ (s : Sys.Files σ N) mode, str (s.nlOpen W (str s.world) mode).2.world = str s.world ↔
      ¬ CanOpen s ∨ FlatPath mps (str s.world)) ∧
    (∀ (s s' : Process.Procs κ) argv res, s.procExec K L (str' s.kernel) argv = some (res, s') →
      (str' s'.kernel = str' s.kernel ↔ FlatPath mps (some (str' s.kernel)))) ∧
    ∀ (s s' : Mounts) mem fs src src' target flags data r, s.mountpoints = mps →
      s.mountpointCreate mem fs src target flags data = some (r, src', s') →
        (src' = src ↔ s.Refuses fs src target flags ∨ FlatPath mps src) := by
  refine ⟨keepsPath_iff mps, nlOpen_keeps_iff hW, ?_, ?_⟩
  · intro s s' argv res h
    exact procExec_keeps_iff hK h
  · rintro s s' mem fs src src' target flags data r rfl h
    exact mountpointCreate_keeps_iff h

/-- `smallTree` is mounted at `/`. -/
def smallMount : Mountpoint where
  rootnode := some smallTree
  fsname := ⟨[], by decide⟩
  source := ⟨[], by decide⟩
  target := ⟨[], by decide⟩
  flags := 0

/-- A path that begins with a slash is passed on without it. -/
theorem smallMount_entry (rest : List UInt8) :
    fsResolveMount [smallMount] (slash :: rest) 0 = .ok ⟨smallMount, smallTree, 1⟩ := by
  simp [fsResolveMount, smallMount, skipSlash, byteAt, strncmp, Mountpoint.withRoot]

/-- A flat path there is kept. -/
theorem flatPath_smallMount {rest : List UInt8}
    (h : Flat (slash :: rest) (skipSlash (slash :: rest) 1)) :
    FlatPath [smallMount] (some (slash :: rest)) := by
  rintro buf ⟨⟩ e he
  obtain rfl := Except.ok.inj ((smallMount_entry rest).symm.trans he)
  exact h

/-- `/etc/rc` in ASCII, with its NUL. -/
def etcRc : List UInt8 := slash :: (nameEtc ++ slash :: (nameRc ++ [0]))

/-- The same as it is left. -/
def etcCut : List UInt8 := slash :: (nameEtc ++ 0 :: (nameRc ++ [0]))

/-- `/etc/rc` is not found.  It is `/etc` afterwards, which is found. -/
theorem resolve_keeps_wrong :
    fsResolve [smallMount] (some etcRc) = (.error (-ENOENT), some etcCut) ∧
      (fsResolve [smallMount] (some etcCut)).1 = .found (.dir nameEtc 4 [.file nameRc 5]) ∧
      ¬ KeepsPath [smallMount] (some etcRc) := by
  have hdescend : fsNodeResolve smallTree etcRc 1 =
      fsNodeResolve (.dir nameEtc 4 [.file nameRc 5]) etcCut 4 := by
    rw [fsNodeResolve]
    rfl
  have hend : fsNodeResolve (.dir nameEtc 4 [.file nameRc 5]) etcCut 4 =
      (.error (-ENOENT), etcCut) := by
    rw [fsNodeResolve]
    rfl
  have hfirst : fsResolve [smallMount] (some etcRc) = (.error (-ENOENT), some etcCut) := by
    simp only [fsResolve, etcRc, smallMount_entry]
    rw [← etcRc, hdescend, hend]
  have hsecond : (fsNodeResolve smallTree etcCut 1).1 =
      .found (.dir nameEtc 4 [.file nameRc 5]) := by
    rw [fsNodeResolve]
    rfl
  refine ⟨hfirst, ?_, ?_⟩
  · simp only [fsResolve, etcCut, smallMount_entry]
    exact hsecond
  · intro h
    have hbytes := h.bytes
    rw [hfirst] at hbytes
    exact absurd hbytes (by decide)

/-- A world that is the caller's string. -/
def stringNodes (mps : List Mountpoint) : Nodes (Option (List UInt8)) FsNode where
  mode _ _ := 0
  size _ _ := 0
  opts _ _ := ⟨none, none, none, none⟩
  fsResolve _ str :=
    let (r, str) := fsResolve mps str
    match r with
    | .found node => (.ok node, str)
    | .error _ | .fault => (.error (errno ENOENT ENOENT_range), str)

theorem stringNodes_beside (mps : List Mountpoint) : OpenBeside mps (stringNodes mps) id where
  resolve w := by
    simp only [stringNodes, id]
    split
    · rfl
    · rfl
    · rfl
  openNode _ _ _ := rfl

/-- A kernel that is the caller's string and has no memory for anything else. -/
def stringKernel : Process.Kernel (List UInt8) where
  kmalloc k := (none, k)
  kfree _ k := k
  memAllocPgdir k := (0, k)
  memFreePgdir _ k := k
  krnlPgdir := 0
  fsNodeClose _ k := k
  ttyName _ := none
  memcpy _ _ k := k

/-- Its files cannot be read. -/
def stringLoader (mps : List Mountpoint) : Process.Loader (List UInt8) where
  fsResolve _ k := ((0, 0), ((fsResolve mps (some k)).2).getD k)
  fsNodeRead _ _ _ k := ((- EIO, []), k)
  memMap _ _ _ k := k
  inUse _ _ _ := false

theorem stringKernel_beside (mps : List Mountpoint) :
    ExecBeside mps stringKernel (stringLoader mps) id where
  resolve k := by
    simp only [stringLoader, fsResolve, id]
    split
    · rfl
    · rfl
  kernel := ⟨fun _ => rfl, fun _ _ => rfl, fun _ => rfl, fun _ _ => rfl, fun _ _ => rfl,
    fun _ _ _ => rfl⟩
  loader := ⟨fun _ _ _ _ => rfl, fun _ _ _ _ => rfl⟩

/-- `/etc` in ASCII, with its NUL. -/
def etcPath : List UInt8 := slash :: (nameEtc ++ [0])

/-- A process without files, in a world where the string is `/etc`. -/
def etcFiles : Sys.Files (Option (List UInt8)) FsNode where
  curr := some ⟨1, 0, 0, fun _ => ⟨none, 0, 0, 0, 0, 0⟩⟩
  world := some etcPath

/-- `/etc` is kept by `fs_resolve`, and by `nl_open`. -/
theorem resolve_keeps_iff_etc : KeepsPath [smallMount] (some etcPath) ∧
    (etcFiles.nlOpen (stringNodes [smallMount]) etcFiles.world 0).2.world = etcFiles.world := by
  have hkeeps := resolve_keeps_iff [smallMount] (stringNodes_beside [smallMount])
    (stringKernel_beside [smallMount])
  have hflat : FlatPath [smallMount] (some etcPath) := by
    refine flatPath_smallMount ?_
    intro i h1 hi
    have hall : ∀ i < 3, 1 ≤ i → byteAt etcPath (1 + i) ≠ slash := by decide
    exact hall i hi h1
  have hopen := (hkeeps.2.1 etcFiles 0).mpr (Or.inr hflat)
  simp only [id] at hopen
  exact ⟨(hkeeps.1 _).mpr hflat, hopen⟩

end StardustOS.Fs
