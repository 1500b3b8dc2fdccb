import StardustOS.Fs.Node
import Mathlib.Data.List.Find

/-!
# Resolving a path against walking it

`walk` is what a path means: its components are followed one directory level at
a time.  `fs_node_resolve` does something else, since `dirname` cuts the array
at its last slash before the first comparison is made.

* One component: the whole name is compared, and the result is right
  (`fsNodeResolve_single`).
* More components: the array now reads as the path without its last component,
  `d`.  If `d` is one character long, the child of that name is returned in
  place of the node below it (`fsNodeResolve_short`).  Otherwise the first
  child whose name starts with `d` is entered with the empty path, which no
  child can have (`fsNodeResolve_lead`); and a `d` that holds a slash starts
  no name.

`fsNodeResolve_correct_iff` puts these together: on which trees and paths the
code returns what the walk reaches.
-/

namespace StardustOS.Fs

open Libc

/-! ## Paths -/

/-- A path component: not empty, without slash and without NUL. -/
structure Component (c : List UInt8) : Prop where
  ne_nil : c ≠ []
  noSlash : slash ∉ c
  noNul : 0 ∉ c

/-- The components of a path with one slash between each two. -/
def joinSlash : List (List UInt8) → List UInt8
  | [] => []
  | [c] => c
  | c :: cs => c ++ slash :: joinSlash cs

/-- The array that holds a path: a leading slash or none, the components, NUL,
and whatever follows. -/
def pathBuf (lead : Bool) (cs : List (List UInt8)) (rest : List UInt8) : List UInt8 :=
  (if lead then [slash] else []) ++ (joinSlash cs ++ 0 :: rest)

theorem joinSlash_append_singleton (l : List UInt8) :
    ∀ {cs : List (List UInt8)}, cs ≠ [] → joinSlash (cs ++ [l]) = joinSlash cs ++ slash :: l
  | [c], _ => by simp [joinSlash]
  | c :: c' :: cs, _ => by
      have ih := joinSlash_append_singleton l (List.cons_ne_nil c' cs)
      simp only [List.cons_append] at ih
      simp [joinSlash, ih]

theorem joinSlash_noNul :
    ∀ {cs : List (List UInt8)}, (∀ c ∈ cs, Component c) → 0 ∉ joinSlash cs
  | [], _ => by simp [joinSlash]
  | [c], h => (h c (by simp)).noNul
  | c :: c' :: cs, h => by
      have hc := (h c (by simp)).noNul
      have ih := joinSlash_noNul fun x hx => h x (List.mem_cons_of_mem _ hx)
      simp [joinSlash, hc, ih, slash]

theorem joinSlash_ne_nil {cs : List (List UInt8)} (hcs : cs ≠ [])
    (h : ∀ c ∈ cs, Component c) : joinSlash cs ≠ [] := by
  match cs, hcs with
  | [c], _ => exact (h c (by simp)).ne_nil
  | c :: c' :: cs, _ => simp [joinSlash]

/-- A path of components does not start with a slash. -/
theorem deref_joinSlash_ne {cs : List (List UInt8)} (rest : List UInt8)
    (h : ∀ c ∈ cs, Component c) : deref (joinSlash cs ++ 0 :: rest) ≠ slash := by
  match cs with
  | [] => simp [joinSlash, deref, slash]
  | (a :: c) :: cs =>
      have ha : a ≠ slash := fun e => (h (a :: c) (by simp)).noSlash (e ▸ List.mem_cons_self)
      cases cs <;> simpa [joinSlash, deref] using ha
  | [] :: cs => exact absurd rfl (h [] (by simp)).ne_nil

/-! ## Trees and what a path means in them -/

/-- A tree: sibling names are distinct components, at every level. -/
inductive FsNode.WellFormed : FsNode → Prop where
  | file {n : List UInt8} {i : Nat} : WellFormed (.file n i)
  | dir {n : List UInt8} {i : Nat} {cs : List FsNode} :
      (cs.map FsNode.name).Nodup → (∀ c ∈ cs, Component c.name) → (∀ c ∈ cs, WellFormed c) →
      WellFormed (.dir n i cs)

/-- The child of a name. -/
def FsNode.child (n : FsNode) (c : List UInt8) : Option FsNode :=
  n.children.find? fun k => k.name = c

/-- The node that the components lead to, one directory level at a time. -/
def walk : FsNode → List (List UInt8) → Option FsNode
  | n, [] => some n
  | n, c :: cs => (n.child c).bind fun k => walk k cs

/-- What `fs_node_resolve` is to return for a walk that ends so. -/
def Resolved.ofWalk : Option FsNode → Resolved
  | some n => .found n
  | none => .error (-ENOENT)

/-- The first child whose name starts with `c`. -/
def FsNode.childStarting (n : FsNode) (c : List UInt8) : Option FsNode :=
  n.children.find? fun k => c.isPrefixOf k.name

theorem FsNode.WellFormed.component {n k : FsNode} (h : n.WellFormed) (hk : k ∈ n.children) :
    Component k.name := by
  cases h with
  | file => simp at hk
  | dir _ hc _ => exact hc k (by simpa using hk)

theorem FsNode.WellFormed.of_mem {n k : FsNode} (h : n.WellFormed) (hk : k ∈ n.children) :
    k.WellFormed := by
  cases h with
  | file => simp at hk
  | dir _ _ hw => exact hw k (by simpa using hk)

theorem FsNode.child_mem {n k : FsNode} {c : List UInt8} (h : n.child c = some k) :
    k ∈ n.children := List.mem_of_find?_eq_some h

theorem FsNode.childStarting_mem {n k : FsNode} {c : List UInt8}
    (h : n.childStarting c = some k) : k ∈ n.children := List.mem_of_find?_eq_some h

/-- No name starts with a string that holds a slash. -/
theorem FsNode.childStarting_slash {n : FsNode} (hn : n.WellFormed) {c : List UInt8}
    (hc : slash ∈ c) : n.childStarting c = none := by
  rw [childStarting, List.find?_eq_none]
  intro k hk hp
  exact (hn.component hk).noSlash ((List.isPrefixOf_iff_prefix.mp hp).subset hc)

/-! ## The searches of `fs_node_resolve` -/

/-- The whole-name search is the child of that name. -/
theorem find_strcmp {n : FsNode} (hn : n.WellFormed) {c : List UInt8} (hc : 0 ∉ c) :
    (n.children.find? fun k => strcmp k.name c = 0) = n.child c := by
  rw [FsNode.child]
  refine List.find?_congr fun k hk => ?_
  rw [Bool.eq_iff_iff, decide_eq_true_eq, strcmp_eq_zero (hn.component hk).noNul hc,
    decide_eq_true_eq]

/-- The search that stops at the length of `c` is for a name starting with `c`. -/
theorem find_strncmp {n : FsNode} (hn : n.WellFormed) {c : List UInt8} (hc : 0 ∉ c) :
    (n.children.find? fun k => strncmp k.name c c.length = 0) = n.childStarting c := by
  rw [FsNode.childStarting]
  refine List.find?_congr fun k hk => ?_
  rw [Bool.eq_iff_iff, decide_eq_true_eq, strncmp_length_eq_zero (hn.component hk).noNul hc,
    List.isPrefixOf_iff_prefix]

theorem FsNode.getChild_of_isDir {n : FsNode} (h : n.isDir = true) :
    n.getChild = some n.children := by
  cases n with
  | file n i => simp at h
  | dir n i cs => rfl

theorem fsNodeResolve_file {n : FsNode} (h : n.isDir = false) (buf : List UInt8) (path : Nat) :
    (fsNodeResolve n buf path).1 = .fault := by
  cases n with
  | file n i => rw [fsNodeResolve]; rfl
  | dir n i cs => simp at h

section Calls

variable {n : FsNode} {buf c : List UInt8} {path p : Nat}

/-- A call that compares whole names. -/
theorem fsNodeResolve_whole (hn : n.WellFormed) (hd : n.isDir = true) (hc : 0 ∉ c)
    (hp : skipSlash buf path = p) (hlen : (dirname buf p).1.strlen (dirname buf p).2 = 1)
    (hstr : cstr (dirname buf p).2 p = c) :
    (fsNodeResolve n buf path).1 = .ofWalk (n.child c) := by
  rw [fsNodeResolve]
  simp only [hp, hlen, hstr, n.getChild_of_isDir hd, Nat.lt_irrefl, ↓reduceIte, find_strcmp hn hc]
  cases n.child c <;> rfl

/-- A call that compares up to the length of `c` and descends. -/
theorem fsNodeResolve_descend (hn : n.WellFormed) (hd : n.isDir = true) (hc : 0 ∉ c)
    (hp : skipSlash buf path = p)
    (hlen : (dirname buf p).1.strlen (dirname buf p).2 = c.length)
    (hstr : cstr (dirname buf p).2 p = c) (h1 : 1 < c.length) :
    (fsNodeResolve n buf path).1 =
      match n.childStarting c with
      | some k => (fsNodeResolve k (dirname buf p).2 (p + c.length)).1
      | none => .error (-ENOENT) := by
  rw [fsNodeResolve]
  simp only [hp, hlen, hstr, n.getChild_of_isDir hd, h1, ↓reduceIte, find_strncmp hn hc]
  cases n.childStarting c <;> rfl

/-- The empty path leads nowhere, since no name is empty. -/
theorem fsNodeResolve_empty (hn : n.WellFormed) (hd : n.isDir = true) (h0 : byteAt buf path = 0) :
    (fsNodeResolve n buf path).1 = .error (-ENOENT) := by
  have hp : skipSlash buf path = path := by simp [skipSlash, h0, slash]
  have hdir : dirname buf path = (.lit [dot], buf) := by simp [dirname, h0]
  have hstr : cstr buf path = [] := by
    rw [cstr]
    cases hb : buf.drop path with
    | nil => rfl
    | cons b bs =>
        have hb0 : b = 0 := by
          have hget : buf[path]? = some b := by
            rw [← List.head?_drop, hb]
            rfl
          simpa [byteAt, List.getD_eq_getElem?_getD, hget] using h0
        simp [hb0]
  have hnone : n.child [] = none := by
    rw [FsNode.child, List.find?_eq_none]
    intro k hk
    simpa using (hn.component hk).ne_nil
  rw [fsNodeResolve_whole hn hd List.not_mem_nil hp (by rw [hdir]; rfl) (by rw [hdir]; exact hstr),
    hnone]
  rfl

end Calls

/-! ## The three kinds of paths -/

section Paths

variable {root : FsNode} {lead : Bool} {rest : List UInt8}

theorem skipSlash_pathBuf {cs : List (List UInt8)} (h : ∀ c ∈ cs, Component c) :
    skipSlash (pathBuf lead cs rest) 0 = (if lead then [slash] else []).length := by
  cases lead with
  | true => simp [skipSlash, pathBuf, byteAt]
  | false =>
      have hne := deref_joinSlash_ne rest h
      have hbyte : byteAt (joinSlash cs ++ 0 :: rest) 0 = deref (joinSlash cs ++ 0 :: rest) := by
        cases joinSlash cs <;> rfl
      simp [skipSlash, pathBuf, hbyte, hne]

/-- One component is resolved right. -/
theorem fsNodeResolve_single (hroot : root.WellFormed) (hd : root.isDir = true) {c : List UInt8}
    (hc : Component c) :
    (fsNodeResolve root (pathBuf lead [c] rest) 0).1 = .ofWalk (root.child c) := by
  have hp := @skipSlash_pathBuf lead rest [c] (by simpa using hc)
  have hdir := @dirname_noSlash (if lead then [slash] else []) c rest hc.noNul hc.noSlash
  refine fsNodeResolve_whole hroot hd hc.noNul hp ?_ ?_
  · simp only [pathBuf, joinSlash, hdir]
    rfl
  · simp only [pathBuf, joinSlash, hdir]
    exact cstr_append _ hc.noNul

section Cut

variable {cs : List (List UInt8)} {l : List UInt8}

/-- What `dirname` makes of a path of two components or more. -/
theorem dirname_pathBuf (hcs : cs ≠ []) (hc : ∀ c ∈ cs, Component c) (hl : Component l) :
    dirname (pathBuf lead (cs ++ [l]) rest) (if lead then [slash] else []).length =
      (.ptr (if lead then [slash] else []).length,
        (if lead then [slash] else []) ++ (joinSlash cs ++ 0 :: (l ++ 0 :: rest))) := by
  rw [pathBuf, joinSlash_append_singleton l hcs]
  exact dirname_cut (joinSlash_ne_nil hcs hc) hl.ne_nil (joinSlash_noNul hc) hl.noNul hl.noSlash

/-- The last component is gone and the rest is one character: the child of that
name is returned. -/
theorem fsNodeResolve_short (hroot : root.WellFormed) (hd : root.isDir = true) (hcs : cs ≠ [])
    (hc : ∀ c ∈ cs, Component c) (hl : Component l) (h1 : (joinSlash cs).length = 1) :
    (fsNodeResolve root (pathBuf lead (cs ++ [l]) rest) 0).1 =
      .ofWalk (root.child (joinSlash cs)) := by
  have hall : ∀ c ∈ cs ++ [l], Component c :=
    List.forall_mem_append.mpr ⟨hc, by simpa using hl⟩
  have hdir := @dirname_pathBuf lead rest cs l hcs hc hl
  refine fsNodeResolve_whole hroot hd (joinSlash_noNul hc) (skipSlash_pathBuf hall) ?_ ?_
  · rw [hdir, CPtr.strlen, strlen_body (joinSlash_noNul hc), h1]
  · rw [hdir]
    exact cstr_append _ (joinSlash_noNul hc)

/-- The last component is gone and the rest is longer: the first child whose
name starts with it is entered with an empty path. -/
theorem fsNodeResolve_lead (hroot : root.WellFormed) (hd : root.isDir = true) (hcs : cs ≠ [])
    (hc : ∀ c ∈ cs, Component c) (hl : Component l) (h1 : 1 < (joinSlash cs).length) :
    (fsNodeResolve root (pathBuf lead (cs ++ [l]) rest) 0).1 =
      match root.childStarting (joinSlash cs) with
      | some k => if k.isDir then .error (-ENOENT) else .fault
      | none => .error (-ENOENT) := by
  have hall : ∀ c ∈ cs ++ [l], Component c :=
    List.forall_mem_append.mpr ⟨hc, by simpa using hl⟩
  have hnul := joinSlash_noNul hc
  have hdir := @dirname_pathBuf lead rest cs l hcs hc hl
  rw [fsNodeResolve_descend hroot hd hnul (skipSlash_pathBuf hall)
    (by rw [hdir, CPtr.strlen, strlen_body hnul]) (by rw [hdir]; exact cstr_append _ hnul) h1]
  cases hk : root.childStarting (joinSlash cs) with
  | none => rfl
  | some k =>
      cases hkd : k.isDir with
      | false => simpa [hkd] using fsNodeResolve_file hkd _ _
      | true =>
          have hbyte : byteAt (dirname (pathBuf lead (cs ++ [l]) rest)
              (if lead then [slash] else []).length).2
              ((if lead then [slash] else []).length + (joinSlash cs).length) = 0 := by
            rw [hdir, byteAt_append, ← Nat.add_zero (joinSlash cs).length, byteAt_append]
            rfl
          simpa [hkd] using
            fsNodeResolve_empty (hroot.of_mem (FsNode.childStarting_mem hk)) hkd hbyte

end Cut

/-! ## On which paths the code is right -/

/-- The trees and paths on which `fs_node_resolve` returns what the walk
reaches.  The root must be a directory.  A path of two components or more must
lead nowhere, and then the walk of the first component alone must not get in
the way: no child has its one-character name, or the first child whose name
starts with it is a directory. -/
def ResolvesRight (root : FsNode) : List (List UInt8) → Prop
  | [_] => root.isDir = true
  | [c, l] => root.isDir = true ∧ walk root [c, l] = none ∧
      if c.length = 1 then root.child c = none
      else ∀ k, root.childStarting c = some k → k.isDir = true
  | cs => root.isDir = true ∧ walk root cs = none

theorem Resolved.ofWalk_eq_error {o : Option FsNode} :
    Resolved.ofWalk o = .error (-ENOENT) ↔ o = none := by
  cases o <;> simp [ofWalk]

theorem Resolved.ofWalk_inj {o o' : Option FsNode} :
    Resolved.ofWalk o = Resolved.ofWalk o' ↔ o = o' := by
  cases o <;> cases o' <;> simp [ofWalk]

/-- A child of a name is not the node one level below it. -/
theorem child_eq_walk_iff {n : FsNode} {c l : List UInt8} :
    n.child c = walk n [c, l] ↔ n.child c = none := by
  constructor
  · intro h
    cases hc : n.child c with
    | none => rfl
    | some k =>
        rw [walk, hc, Option.bind_some, walk] at h
        cases hl : k.child l with
        | none => simp [hl] at h
        | some k' =>
            simp only [hl, walk, Option.bind_some, Option.some.injEq] at h
            exact absurd h.symm (FsNode.child_ne (FsNode.child_mem hl))
  · intro h
    rw [walk, h, Option.bind_none]

theorem resolve_two_iff (hroot : root.WellFormed) (hd : root.isDir = true) {c l : List UInt8}
    (hc : Component c) (hl : Component l) :
    (fsNodeResolve root (pathBuf lead [c, l] rest) 0).1 = .ofWalk (walk root [c, l]) ↔
      ResolvesRight root [c, l] := by
  have hcs : ∀ x ∈ [c], Component x := by simpa using hc
  have hpos : 0 < c.length := List.length_pos_iff.mpr hc.ne_nil
  by_cases h1 : c.length = 1
  · have h := @fsNodeResolve_short root lead rest [c] l hroot hd (List.cons_ne_nil _ _) hcs hl h1
    rw [show [c, l] = [c] ++ [l] from rfl, h, Resolved.ofWalk_inj]
    simp only [joinSlash, List.cons_append, List.nil_append, ResolvesRight, h1, ↓reduceIte, hd,
      true_and, child_eq_walk_iff]
    constructor
    · intro hnone
      exact ⟨by rw [walk, hnone, Option.bind_none], hnone⟩
    · exact fun hr => hr.2
  · have h := @fsNodeResolve_lead root lead rest [c] l hroot hd (List.cons_ne_nil _ _) hcs hl
      (by simp only [joinSlash]; omega)
    rw [show [c, l] = [c] ++ [l] from rfl, h]
    simp only [joinSlash, List.cons_append, List.nil_append, ResolvesRight, h1, ↓reduceIte, hd,
      true_and]
    cases hk : root.childStarting c with
    | none =>
        simp only [reduceCtorEq, false_implies, implies_true, and_true]
        rw [eq_comm, Resolved.ofWalk_eq_error]
    | some k =>
        cases hkd : k.isDir with
        | true =>
            simp only [↓reduceIte, Option.some.injEq, forall_eq', hkd, and_true]
            rw [eq_comm, Resolved.ofWalk_eq_error]
        | false =>
            cases walk root [c, l] <;> simp [Resolved.ofWalk, hkd]

theorem resolve_many_iff (hroot : root.WellFormed) (hd : root.isDir = true)
    {c₁ c₂ c₃ : List UInt8} {cs : List (List UInt8)}
    (hc : ∀ c ∈ c₁ :: c₂ :: c₃ :: cs, Component c) :
    (fsNodeResolve root (pathBuf lead (c₁ :: c₂ :: c₃ :: cs) rest) 0).1 =
        .ofWalk (walk root (c₁ :: c₂ :: c₃ :: cs)) ↔
      ResolvesRight root (c₁ :: c₂ :: c₃ :: cs) := by
  obtain ⟨init, l, hil⟩ : ∃ init l, c₃ :: cs = init ++ [l] :=
    ⟨_, _, (List.dropLast_concat_getLast (List.cons_ne_nil c₃ cs)).symm⟩
  have hsplit : c₁ :: c₂ :: c₃ :: cs = (c₁ :: c₂ :: init) ++ [l] := by
    rw [hil, List.cons_append, List.cons_append]
  rw [hsplit] at hc
  obtain ⟨hci, hcl⟩ := List.forall_mem_append.mp hc
  have hjoin : joinSlash (c₁ :: c₂ :: init) = c₁ ++ slash :: joinSlash (c₂ :: init) := rfl
  have hslash : slash ∈ joinSlash (c₁ :: c₂ :: init) := by simp [hjoin]
  have hpos : 0 < c₁.length := List.length_pos_iff.mpr (hci c₁ List.mem_cons_self).ne_nil
  have h := @fsNodeResolve_lead root lead rest (c₁ :: c₂ :: init) l hroot hd
    (List.cons_ne_nil _ _) hci (by simpa using hcl)
    (by rw [hjoin, List.length_append, List.length_cons]; omega)
  rw [FsNode.childStarting_slash hroot hslash] at h
  rw [hsplit, h, ← hsplit, eq_comm, Resolved.ofWalk_eq_error]
  simp [ResolvesRight, hd]

/-- `fs_node_resolve` returns the node the components lead to, or `ENOENT` when
there is none, exactly on the trees and paths of `ResolvesRight`. -/
theorem fsNodeResolve_correct_iff {cs : List (List UInt8)} (hroot : root.WellFormed)
    (hcs : cs ≠ []) (hc : ∀ c ∈ cs, Component c) :
    (fsNodeResolve root (pathBuf lead cs rest) 0).1 = .ofWalk (walk root cs) ↔
      ResolvesRight root cs := by
  cases hd : root.isDir with
  | false =>
      rw [fsNodeResolve_file hd]
      have hno : ¬ ResolvesRight root cs := by
        match cs, hcs with
        | [_], _ => simp [ResolvesRight, hd]
        | [_, _], _ => simp [ResolvesRight, hd]
        | _ :: _ :: _ :: _, _ => simp [ResolvesRight, hd]
      cases walk root cs <;> simp [Resolved.ofWalk, hno]
  | true =>
      match cs, hcs with
      | [c], _ =>
          rw [fsNodeResolve_single hroot hd (hc c List.mem_cons_self)]
          cases hw : root.child c <;> simp [walk, hw, ResolvesRight, hd]
      | [c, l], _ =>
          exact resolve_two_iff hroot hd (hc c (by simp)) (hc l (by simp))
      | c₁ :: c₂ :: c₃ :: cs, _ => exact resolve_many_iff hroot hd hc

end Paths

/-! ## A small tree -/

section Tree

/-- `init` in ASCII. -/
def nameInit : List UInt8 := [105, 110, 105, 116]

/-- `etc` in ASCII. -/
def nameEtc : List UInt8 := [101, 116, 99]

/-- `rc` in ASCII. -/
def nameRc : List UInt8 := [114, 99]

/-- `/init`, `/a/b` and `/etc/rc`. -/
def smallTree : FsNode :=
  .dir [slash] 0 [.file nameInit 1, .dir [97] 2 [.file [98] 3], .dir nameEtc 4 [.file nameRc 5]]

theorem smallTree_components : ∀ c ∈ [nameInit, [97], [98], nameEtc, nameRc], Component c := by
  have h : ∀ c ∈ [nameInit, [97], [98], nameEtc, nameRc], c ≠ [] ∧ slash ∉ c ∧ 0 ∉ c := by
    decide
  exact fun c hc => ⟨(h c hc).1, (h c hc).2.1, (h c hc).2.2⟩

theorem smallTree_wellFormed : smallTree.WellFormed := by
  refine .dir (by decide) ?_ ?_
  · intro c hc
    simp only [List.mem_cons, List.not_mem_nil, or_false] at hc
    rcases hc with rfl | rfl | rfl <;> exact smallTree_components _ (by decide)
  · intro c hc
    simp only [List.mem_cons, List.not_mem_nil, or_false] at hc
    rcases hc with rfl | rfl | rfl
    · exact .file
    · refine .dir (by decide) ?_ ?_ <;> intro k hk <;> obtain rfl := List.mem_singleton.mp hk
      · exact smallTree_components _ (by decide)
      · exact .file
    · refine .dir (by decide) ?_ ?_ <;> intro k hk <;> obtain rfl := List.mem_singleton.mp hk
      · exact smallTree_components _ (by decide)
      · exact .file

/-- `/init` is resolved right. -/
theorem fsNodeResolve_init :
    (fsNodeResolve smallTree (pathBuf true [nameInit] []) 0).1 =
      .ofWalk (walk smallTree [nameInit]) := by
  refine (fsNodeResolve_correct_iff smallTree_wellFormed (List.cons_ne_nil _ _) ?_).mpr rfl
  intro c hc
  obtain rfl := List.mem_singleton.mp hc
  exact smallTree_components _ (by decide)

/-- `/a/b` is there, but resolves to `/a`; and `/etc/rc` is there, but is not
found. -/
theorem fsNodeResolve_wrong :
    smallTree.WellFormed ∧
      walk smallTree [[97], [98]] = some (.file [98] 3) ∧
      (fsNodeResolve smallTree (pathBuf true [[97], [98]] []) 0).1 =
        .found (.dir [97] 2 [.file [98] 3]) ∧
      walk smallTree [nameEtc, nameRc] = some (.file nameRc 5) ∧
      (fsNodeResolve smallTree (pathBuf true [nameEtc, nameRc] []) 0).1 = .error (-ENOENT) := by
  have hc : ∀ c ∈ [[97], nameEtc], ∀ x ∈ [c], Component x := by
    intro c hc x hx
    obtain rfl := List.mem_singleton.mp hx
    have hsub : ∀ c ∈ [[97], nameEtc], c ∈ [nameInit, [97], [98], nameEtc, nameRc] := by decide
    exact smallTree_components _ (hsub _ hc)
  refine ⟨smallTree_wellFormed, rfl, ?_, rfl, ?_⟩
  · exact fsNodeResolve_short smallTree_wellFormed rfl (List.cons_ne_nil _ _)
      (hc _ (by decide)) (smallTree_components _ (by decide)) rfl
  · exact fsNodeResolve_lead smallTree_wellFormed rfl (List.cons_ne_nil _ _)
      (hc _ (by decide)) (smallTree_components _ (by decide)) (by decide)

end Tree

end StardustOS.Fs
