import StardustOS.Fs.Mount

/-!
# The mountpoint that a path is resolved in

A path belongs to the mountpoint with the longest target that is a prefix of it
in whole components (`Longest`).  `fs_resolve` takes the newest one whose target
is a prefix of it as a string.  If that has no root node, or there is none, it
looks for the target `/`, which is not how the target of the root mount is
stored.

`resolvesLongest_iff` says when the two agree: no mountpoint that was mounted
after the longest one may have a target that is a prefix of the path as a
string.
-/

namespace StardustOS.Fs

open Libc

variable {mps : List Mountpoint} {buf : List UInt8} {path : Nat}

/-! ## Targets and paths -/

/-- The target `/t` is a prefix of the path `/p` in whole components: it is `/`,
it is the path, or a slash follows it there. -/
def Under (t p : List UInt8) : Prop := t = [] ∨ t = p ∨ t ++ [slash] <+: p

instance (t p : List UInt8) : Decidable (Under t p) :=
  inferInstanceAs (Decidable (t = [] ∨ t = p ∨ t ++ [slash] <+: p))

theorem Under.prefix {t p : List UInt8} (h : Under t p) : t <+: p := by
  rcases h with rfl | rfl | h
  · exact List.nil_prefix
  · exact List.prefix_rfl
  · exact (List.prefix_append t [slash]).trans h

/-- `mp` has the longest target that is a prefix of the path `/p` in whole
components. -/
structure Longest (mps : List Mountpoint) (p : List UInt8) (mp : Mountpoint) : Prop where
  mem : mp ∈ mps
  under : Under mp.target.1 p
  longest : ∀ mp' ∈ mps, Under mp'.target.1 p → mp'.target.1.length ≤ mp.target.1.length

/-- The path `/p` is resolved in the mountpoint of the longest target, and
`fs_node_resolve` gets the rest of it.  Without such a mountpoint it is not
resolved. -/
def ResolvesLongest (mps : List Mountpoint) (buf : List UInt8) (path : Nat) : Prop :=
  match fsResolveMount mps buf path with
  | .ok e =>
      Longest mps (cstr buf (path + 1)) e.mp ∧ e.mp.rootnode = some e.root ∧
        cstr buf (path + 1) = e.mp.target.1 ++ cstr buf e.path
  | .error _ => ∀ mp ∈ mps, ¬ Under mp.target.1 (cstr buf (path + 1))

/-! ## The order of the mounts -/

section Order

variable (mps) (P : List UInt8 → Prop)

/-- `mp` has such a target, and no newer mountpoint has. -/
def Newest (mp : Mountpoint) : Prop :=
  P mp.target.1 ∧ ∃ newer older, mps = newer ++ mp :: older ∧ ∀ mp' ∈ newer, ¬ P mp'.target.1

/-- The newest mountpoint with such a target, if there is one, has no root
node. -/
def Rootless : Prop := ∀ mp, Newest mps P mp → mp.rootnode = none

end Order

/-- The mountpoints are in the order that `fs_resolve` needs for the path `/p`:
the longest target has a root node and is newer than every other target that is
a prefix of the path as a string.

The target `/`, which stands for `//`, answers where no root node was found. -/
def InOrder (mps : List Mountpoint) (p : List UInt8) : Prop :=
  (∃ mp, Longest mps p mp ∧ mp.rootnode ≠ none ∧
    (Newest mps (· <+: p) mp ∨ Rootless mps (· <+: p) ∧ Newest mps (· = [slash]) mp)) ∨
  (∀ mp ∈ mps, ¬ Under mp.target.1 p) ∧ Rootless mps (· <+: p) ∧ Rootless mps (· = [slash])

/-- A search of the list from its head. -/
theorem find?_eq_some_iff_newest {f : Mountpoint → Bool} {P : List UInt8 → Prop}
    (h : ∀ mp, f mp = true ↔ P mp.target.1) {mp : Mountpoint} :
    mps.find? f = some mp ↔ Newest mps P mp := by
  rw [List.find?_eq_some_iff_append, Newest, h]
  simp only [Bool.not_eq_true', ← Bool.not_eq_true, h]

/-- It has a root node. -/
theorem Newest.find_withRoot {f : Mountpoint → Bool} {P : List UInt8 → Prop}
    (h : ∀ mp, f mp = true ↔ P mp.target.1) {mp : Mountpoint} {root : FsNode}
    (hnew : Newest mps P mp) (hroot : mp.rootnode = some root) :
    (mps.find? f).bind Mountpoint.withRoot = some (mp, root) := by
  rw [(find?_eq_some_iff_newest h).mpr hnew, Option.bind_some, Mountpoint.withRoot, hroot,
    Option.map_some]

theorem Rootless.find_withRoot {f : Mountpoint → Bool} {P : List UInt8 → Prop}
    (h : ∀ mp, f mp = true ↔ P mp.target.1) (hless : Rootless mps P) :
    (mps.find? f).bind Mountpoint.withRoot = none := by
  rw [Option.bind_eq_none_iff]
  intro mp hmp
  rw [Mountpoint.withRoot, hless mp ((find?_eq_some_iff_newest h).mp hmp), Option.map_none]

variable (mps) in
/-- The newest mountpoint with such a target has a root node, or not. -/
theorem newest_or_rootless (P : List UInt8 → Prop) :
    (∃ mp root, Newest mps P mp ∧ mp.rootnode = some root) ∨ Rootless mps P := by
  by_cases hless : Rootless mps P
  · exact .inr hless
  · simp only [Rootless, not_forall] at hless
    obtain ⟨mp, hnew, hroot⟩ := hless
    obtain ⟨root, hroot⟩ := Option.ne_none_iff_exists'.mp hroot
    exact .inl ⟨mp, root, hnew, hroot⟩

/-- There is one newest mountpoint. -/
theorem Newest.unique {P : List UInt8 → Prop} {mp mp' : Mountpoint} (h : Newest mps P mp)
    (h' : Newest mps P mp') : mp = mp' := by
  classical
  have hf : ∀ mp : Mountpoint, decide (P mp.target.1) = true ↔ P mp.target.1 := fun _ =>
    decide_eq_true_iff
  rw [← find?_eq_some_iff_newest hf] at h h'
  exact Option.some.inj (h.symm.trans h')

/-! ## What `fs_resolve` picks -/

/-- The search of `fs_resolve`. -/
theorem starts_iff (p : Nat) (mp : Mountpoint) :
    decide (strncmp (cstr buf p) mp.target.1 mp.target.1.length = 0) = true ↔
      mp.target.1 <+: cstr buf p := by
  rw [decide_eq_true_iff]
  exact mp.target.strncmp_eq_zero buf p

/-- The search for the target `/`. -/
theorem slash_iff (mp : Mountpoint) :
    decide (strcmp mp.target.1 (cstr [slash] 0) = 0) = true ↔ mp.target.1 = [slash] := by
  rw [decide_eq_true_iff]
  exact mp.target.strcmp_eq_zero [slash] 0

section Picks

variable {p : Nat} (hp : skipSlash buf path = p)

include hp

/-- The newest target that is a prefix as a string has a root node. -/
theorem fsResolveMount_starts {mp : Mountpoint} {root : FsNode}
    (hnew : Newest mps (· <+: cstr buf p) mp) (hroot : mp.rootnode = some root) :
    fsResolveMount mps buf path = .ok ⟨mp, root, p + mp.target.1.length⟩ := by
  simp only [fsResolveMount, hp, hnew.find_withRoot (starts_iff p) hroot]

/-- It has none, and the target `/` answers. -/
theorem fsResolveMount_slash {mp : Mountpoint} {root : FsNode}
    (hless : Rootless mps (· <+: cstr buf p)) (hnew : Newest mps (· = [slash]) mp)
    (hroot : mp.rootnode = some root) :
    fsResolveMount mps buf path = .ok ⟨mp, root, p + mp.target.1.length⟩ := by
  simp only [fsResolveMount, hp, hless.find_withRoot (starts_iff p), mountpointFromtarget,
    hnew.find_withRoot slash_iff hroot]

/-- No mountpoint answers. -/
theorem fsResolveMount_none (hless : Rootless mps (· <+: cstr buf p))
    (hslash : Rootless mps (· = [slash])) : fsResolveMount mps buf path = .error (-EINVAL) := by
  simp only [fsResolveMount, hp, hless.find_withRoot (starts_iff p), mountpointFromtarget,
    hslash.find_withRoot slash_iff]

end Picks

/-! ## The rest of the path -/

theorem takeWhile_drop {f : UInt8 → Bool} :
    ∀ {n : Nat} {l : List UInt8}, n ≤ (l.takeWhile f).length →
      (l.drop n).takeWhile f = (l.takeWhile f).drop n
  | 0, _, _ => rfl
  | n + 1, [], h => by simp at h
  | n + 1, a :: l, h => by
      cases ha : f a with
      | false => simp [ha] at h
      | true =>
          simp only [List.takeWhile_cons, ha, ↓reduceIte, List.length_cons] at h ⊢
          rw [List.drop_succ_cons, List.drop_succ_cons, takeWhile_drop (by omega)]

/-- Past a prefix of a string there is the rest of it. -/
theorem cstr_eq_append {t : List UInt8} {p : Nat} (h : t <+: cstr buf p) :
    cstr buf p = t ++ cstr buf (p + t.length) := by
  have hrest : cstr buf (p + t.length) = (cstr buf p).drop t.length := by
    rw [cstr, ← List.drop_drop]
    exact takeWhile_drop h.length_le
  rw [hrest]
  exact (List.prefix_iff_eq_append.mp h).symm

/-! ## The longest target -/

/-- A mountpoint that answers for a path resolves it as it should exactly when
it has the longest target. -/
theorem resolvesLongest_ok {mp : Mountpoint} {root : FsNode} (hroot : mp.rootnode = some root)
    (h : fsResolveMount mps buf path = .ok ⟨mp, root, path + 1 + mp.target.1.length⟩) :
    ResolvesLongest mps buf path ↔ Longest mps (cstr buf (path + 1)) mp := by
  simp only [ResolvesLongest, h]
  exact ⟨And.left, fun hmp => ⟨hmp, hroot, cstr_eq_append hmp.under.prefix⟩⟩

/-- `fs_resolve` resolves an absolute path in the mountpoint with the longest
target, passing on the rest of the path, exactly when the mountpoints are in
order for it. -/
theorem resolvesLongest_iff (mps : List Mountpoint) (buf : List UInt8) (path : Nat)
    (habs : byteAt buf path = slash) :
    ResolvesLongest mps buf path ↔ InOrder mps (cstr buf (path + 1)) := by
  have hp : skipSlash buf path = path + 1 := if_pos habs
  rcases newest_or_rootless mps (· <+: cstr buf (path + 1)) with
    ⟨mp, root, hnew, hroot⟩ | hless
  · rw [resolvesLongest_ok hroot (fsResolveMount_starts hp hnew hroot)]
    have hnot : ¬ Rootless mps (· <+: cstr buf (path + 1)) := fun hless => by
      simp [hless mp hnew] at hroot
    constructor
    · exact fun hmp => .inl ⟨mp, hmp, by simp [hroot], .inl hnew⟩
    · rintro (⟨mp', hmp', -, hnew' | ⟨hless, -⟩⟩ | ⟨-, hless, -⟩)
      · rwa [hnew.unique hnew']
      · exact absurd hless hnot
      · exact absurd hless hnot
  · have hnot : ∀ mp, mp.rootnode ≠ none → ¬ Newest mps (· <+: cstr buf (path + 1)) mp :=
      fun mp hroot hnew => hroot (hless mp hnew)
    rcases newest_or_rootless mps (· = [slash]) with ⟨mp, root, hnew, hroot⟩ | hslash
    · rw [resolvesLongest_ok hroot (fsResolveMount_slash hp hless hnew hroot)]
      constructor
      · exact fun hmp => .inl ⟨mp, hmp, by simp [hroot], .inr ⟨hless, hnew⟩⟩
      · rintro (⟨mp', hmp', hroot', hnew' | ⟨-, hnew'⟩⟩ | ⟨-, -, hslash⟩)
        · exact absurd hnew' (hnot mp' hroot')
        · rwa [hnew.unique hnew']
        · simp [hslash mp hnew] at hroot
    · simp only [ResolvesLongest, fsResolveMount_none hp hless hslash]
      constructor
      · exact fun hnone => .inr ⟨hnone, hless, hslash⟩
      · rintro (⟨mp', hmp', hroot', hnew' | ⟨-, hnew'⟩⟩ | ⟨hnone, -⟩)
        · exact absurd hnew' (hnot mp' hroot')
        · exact absurd (hslash mp' hnew') hroot'
        · exact hnone

/-! ## Two mounts -/

/-- Directories that are bound to targets, in order. -/
def bindAll (l : List (FsNode × List UInt8)) : List Mountpoint :=
  let mem := ⟨none, .read [] 0, .read [] 0, .read [] 0, 0⟩
  let bind := fun (s : Mounts) (n : FsNode × List UInt8) =>
    (s.mountpointCreateFromnode (some mem) none (some n.1) n.2 0 1 none).2
  (l.foldl bind .boot).mountpoints

def rootDir : FsNode := .dir [] 0 []

def mntDir : FsNode := .dir [109] 1 []

/-- The target `/m` is mounted after `/`. -/
def rootFirst : List Mountpoint := bindAll [(rootDir, [47]), (mntDir, [47, 109])]

/-- The target `/m` is mounted before `/`. -/
def rootLast : List Mountpoint := bindAll [(mntDir, [47, 109]), (rootDir, [47])]

/-- With `/m` after `/`, the path `/m/x` is resolved in the mountpoint of `/m`. -/
theorem resolvesLongest_rootFirst : ResolvesLongest rootFirst [47, 109, 47, 120, 0] 0 := by
  refine (resolvesLongest_iff _ _ _ (by decide)).mpr (.inl ⟨_, ⟨.head _, ?_, ?_⟩, ?_, .inl ?_⟩)
  · decide
  · rintro mp (_ | ⟨_, _ | ⟨_, ⟨⟩⟩⟩) _
    · exact le_rfl
    · decide
  · exact Option.some_ne_none mntDir
  · exact ⟨by decide, [], _, rfl, by simp⟩

/-- With `/m` before `/`, the path `/m/x` is resolved in the root mount.  With
`/m` after `/`, the path `/mx` is not. -/
theorem resolvesLongest_wrong :
    ¬ ResolvesLongest rootLast [47, 109, 47, 120, 0] 0 ∧
    ¬ ResolvesLongest rootFirst [47, 109, 120, 0] 0 := by
  constructor
  · intro h
    have heq : fsResolveMount rootLast [47, 109, 47, 120, 0] 0 = .ok ⟨_, rootDir, 1⟩ := rfl
    simp only [ResolvesLongest, heq] at h
    have := h.1.longest _ (.tail _ (.head _)) (by decide)
    revert this
    decide
  · intro h
    have heq : fsResolveMount rootFirst [47, 109, 120, 0] 0 = .ok ⟨_, mntDir, 2⟩ := rfl
    simp only [ResolvesLongest, heq] at h
    have := h.1.under
    revert this
    decide

end StardustOS.Fs
