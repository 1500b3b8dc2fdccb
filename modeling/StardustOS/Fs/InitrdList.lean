import StardustOS.Fs.Initrd
import Mathlib.Data.List.Nodup

/-!
# Listing the initial ramdisk

`initrd_get_child` looks at each node of the list, but it stats the directory it
was called on and not the node, and it compares the name it finds with what
`dirname` leaves of the directory's own path.  Each turn of the loop shortens
that path in its array, and once nothing is left behind the first character every
node matches.  So a directory that is listed often enough lists all nodes, itself
included (`repeats_eq`), and the root lists all nodes from the start.

`ListingOk` is the exact condition under which this is right.  In an archive with
a directory it asks that there is nothing to list at all.
-/

namespace StardustOS.Fs

open Libc

/-! ## What is to be listed -/

/-- The name of the directory an entry is in: all up to the last slash before the
last character.  It is empty for the root. -/
def ZipEntry.parentDir (e : ZipEntry) : List UInt8 :=
  (e.filename.1.dropLast.reverse.dropWhile (· ≠ slash)).reverse

/-- The entries whose parent is the directory. -/
def Zip.children (zip : Zip) (dir : List UInt8) : List Nat :=
  (List.range zip.entries.length).filter fun k => (zip.stat k).any fun e => e.parentDir = dir

/-- The calls `get_child(d, i)`, `get_child(d, i + 1)` and so on give the nodes of
the list and then `-ENOENT`. -/
inductive Enumerates (d : Option Nat) : Nat → Initrd → List Nat → Initrd → Prop where
  | done {i : Nat} {s s' : Initrd}
      (last : initrdGetChild s d i = some (.error (errno ENOENT), s')) : Enumerates d i s [] s'
  | next {i n : Nat} {s s' t : Initrd} {l : List Nat}
      (child : initrdGetChild s d i = some (.ok n, s')) (rest : Enumerates d (i + 1) s' l t) :
      Enumerates d i s (n :: l) t

/-- Each enumeration of the directory gives the list, however often it is
repeated. -/
def Repeats (d : Option Nat) (s : Initrd) (l : List Nat) : Prop :=
  ∃ t : Nat → Initrd, t 0 = s ∧ ∀ k, Enumerates d 0 (t k) l (t (k + 1))

/-- A directory lists its children, each once, again and again. -/
def ListsChildren (s : Initrd) (d : Option Nat) (dir : List UInt8) : Prop :=
  ∃ l, Repeats d s l ∧ l.Perm (s.zip.children dir)

/-- The root and the nodes of all directories list their children. -/
structure Lists (s : Initrd) : Prop where
  root : ListsChildren s none []
  dirs : ∀ k e, s.zip.stat k = some e → e.isDirectory = true →
    ListsChildren s (some k) e.filename.1

/-- The nodes in the list are those of the top level, and with a directory there
are none, and none that should be. -/
structure ListingOk (zip : Zip) (mem : MountMem) : Prop where
  top : ∀ k e, zip.stat k = some e → (mem.listNode k = true ↔ e.parentDir = [])
  dirs : ∀ k e, zip.stat k = some e → e.isDirectory = true →
    (∀ j < zip.entries.length, mem.listNode j = false) ∧ zip.children e.filename.1 = [] ∧
      e.nodeName ≠ [slash]

/-! ## The mounted archive -/

/-- What `initrd_mount` leaves when it succeeds. -/
structure Mounted (zip : Zip) (mem : MountMem) (s : Initrd) : Prop where
  archive : s.zip = zip
  made : ∀ k, s.made[k]? = (zip.stat k).map fun e => e.node k
  nodes : s.nodes = ((List.range zip.entries.length).filter mem.listNode).reverse

theorem mountFrom_mounted {head : Nat} {zip : Zip} {mem : MountMem} (rest : List ZipEntry)
    {pre : List ZipEntry} {ino ino' : UInt32} {s s' : Initrd} (hsplit : zip.entries = pre ++ rest)
    (hzip : s.zip = zip) (hmade : s.made = pre.mapIdx fun k e => e.node k)
    (hnodes : s.nodes = ((List.range pre.length).filter mem.listNode).reverse)
    (hend : s.nodesEnd = head)
    (h : mountFrom mem pre.length rest ino s = some (.ok s', ino')) :
    Mounted zip mem s' ∧ s'.nodesEnd = head := by
  induction rest generalizing pre ino s with
  | nil =>
      obtain rfl : s = s' := Except.ok.inj (Prod.mk.inj (Option.some.inj h)).1
      rw [List.append_nil] at hsplit
      subst hsplit
      refine ⟨⟨hzip, ?_, hnodes⟩, hend⟩
      intro k
      rw [hmade, List.getElem?_mapIdx, Zip.stat]
  | cons e rest ih =>
      obtain ⟨-, r, ino₁, herror⟩ | ⟨-, hnext⟩ := mountFrom_turn mem pre.length e rest ino
      · rw [herror] at h
        cases h
      · rw [hnext] at h
        split at h
        · cases h
        · refine ih (hsplit.trans (List.append_cons _ _ _)) ?_ ?_ ?_ ?_ (by simpa using h)
          · exact hzip
          · simp [hmade, List.mapIdx_append]
          · rw [List.length_append, List.length_singleton, List.range_succ, List.filter_append,
              List.reverse_append, ← hnodes]
            cases hl : mem.listNode pre.length with
            | true => simp [hl]
            | false => simp [hl]
          · exact hend

theorem initrdMount_mounted {head : Nat} {zip : Zip} {mem : MountMem} {ino ino' : UInt32}
    {s : Initrd} (h : initrdMount head zip mem ino = some (.ok s, ino')) :
    Mounted zip mem s ∧ s.nodesEnd = head := by
  obtain ⟨-, e, ino₁, herror⟩ | ⟨-, hloop⟩ := initrdMount_root zip mem ino
  · rw [herror] at h
    cases h
  · rw [hloop] at h
    have hsplit : zip.entries = [] ++ zip.entries := rfl
    exact mountFrom_mounted zip.entries hsplit rfl rfl rfl rfl h

/-- Where something is added to the list, `kmalloc` left NULL in its head. -/
theorem head_eq_zero_of_mounted {head : Nat} {zip : Zip} {mem : MountMem} {ino ino' : UInt32}
    {s : Initrd} (h : initrdMount head zip mem ino = some (.ok s, ino')) (hne : zip.entries ≠ []) :
    head = 0 := by
  obtain ⟨stat, rest, hentries⟩ := List.exists_cons_of_ne_nil hne
  obtain ⟨-, e, ino₁, herror⟩ | ⟨-, hloop⟩ := initrdMount_root zip mem ino
  · rw [herror] at h
    cases h
  · rw [hloop, hentries] at h
    obtain ⟨-, e, ino₁, herror⟩ | ⟨-, hnext⟩ := mountFrom_turn mem 0 stat rest (ino + 1)
    · rw [herror] at h
      cases h
    · rw [hnext] at h
      split at h
      · cases h
      · rename_i hend
        exact not_not.mp hend

/-! ## The loop of `initrd_get_child` -/

theorem strlen_str (buf : List UInt8) (d : CPtr) : d.strlen buf = (d.str buf).length := by
  cases d with
  | lit s => rfl
  | ptr p => rfl

/-- An empty string is the start of every name. -/
theorem strncmp_of_nil {path : List UInt8} {d : CPtr} (h : d.str path = []) (name : List UInt8) :
    strncmp name (d.str path) (d.strlen path) = 0 := by
  rw [strlen_str, h, List.length_nil, strncmp]

/-- The loop makes the path in its array no longer.  If it keeps its length, every
node matched. -/
theorem childLoop_spec {zip : Zip} {statIndex : Nat} {e : ZipEntry}
    (hstat : zip.stat statIndex = some e) (ln : List Nat) (path : List UInt8) (i : Nat) :
    strlen (childLoop zip statIndex ln path i).2 0 ≤ strlen path 0 ∧
      (strlen (childLoop zip statIndex ln path i).2 0 = strlen path 0 →
        (childLoop zip statIndex ln path i).1 = ln[i]?) := by
  induction ln generalizing path i with
  | nil => exact ⟨Nat.le_refl _, fun _ => rfl⟩
  | cons n ln ih =>
      simp only [childLoop, hstat]
      obtain ⟨hnil, hle⟩ | hlt := dirname_shorter path 0
      · rw [if_pos (strncmp_of_nil hnil _)]
        split
        · rename_i h0
          exact ⟨hle, fun _ => by rw [h0, List.getElem?_cons_zero]⟩
        · rename_i h0
          obtain ⟨i, rfl⟩ := Nat.exists_eq_succ_of_ne_zero h0
          obtain ⟨hle', heq⟩ := ih (dirname path 0).2 i
          refine ⟨hle'.trans hle, ?_⟩
          intro hsame
          exact heq (Nat.le_antisymm hle' (hsame ▸ hle))
      · -- A path that got shorter does not get its length back.
        have hshort : ∀ {r : Option Nat × List UInt8} {x : Option Nat},
            strlen r.2 0 ≤ strlen (dirname path 0).2 0 →
              strlen r.2 0 ≤ strlen path 0 ∧ (strlen r.2 0 = strlen path 0 → r.1 = x) := by
          intro r x hr
          exact ⟨hr.trans hlt.le, fun hsame => absurd (hsame ▸ hr) (Nat.not_le.mpr hlt)⟩
        split
        · split
          · exact hshort (Nat.le_refl _)
          · exact hshort (ih _ _).1
        · exact hshort (ih _ _).1

/-- On the root the path is the string `/`, which `dirname` leaves alone. -/
theorem childLoop_root {zip : Zip} {statIndex : Nat} {e : ZipEntry}
    (hstat : zip.stat statIndex = some e) (ln : List Nat) (i : Nat) :
    (childLoop zip statIndex ln [slash, 0] i).1 = ln[i]? := by
  induction ln generalizing i with
  | nil => rfl
  | cons n ln ih =>
      have hdir : dirname [slash, 0] 0 = (.ptr 0, [slash, 0]) := by decide
      simp only [childLoop, hstat, hdir]
      rw [if_pos (strncmp_of_nil rfl _)]
      cases i with
      | zero => rfl
      | succ i => exact ih i

/-! ## Enumerations -/

/-- `initrd_get_child` on the node of an entry changes the path of that node. -/
theorem initrdGetChild_entry {s : Initrd} {k : Nat} {node : InitrdNode}
    (hnode : s.made[k]? = some node) (hname : strcmp node.name [slash] ≠ 0)
    (hend : s.nodesEnd = 0) (i : Nat) : initrdGetChild s (some k) i =
      some (childResult (childLoop s.zip node.index s.nodes node.path i).1,
        { s with
          made := s.made.set k
            { node with path := (childLoop s.zip node.index s.nodes node.path i).2 } }) := by
  simp only [initrdGetChild, hnode, hname, hend, ne_eq, not_true, or_self, if_false]

/-- The node at `k` of the mounted archive `s`, with the path as it is now. -/
structure DirNode (s : Initrd) (k : Nat) (node : InitrdNode) : Prop where
  made : s.made[k]? = some node
  named : strcmp node.name [slash] ≠ 0
  stat : ∃ e, s.zip.stat node.index = some e
  ended : s.nodesEnd = 0

theorem childResult_ok {r : Option Nat} {n : Nat} (h : childResult r = .ok n) : r = some n := by
  cases r with
  | none => cases h
  | some m => exact congrArg some (Except.ok.inj h)

theorem childResult_error {r : Option Nat} {e : ErrorCode} (h : childResult r = .error e) :
    r = none := by
  cases r with
  | none => rfl
  | some m => cases h

/-- One call leaves a node for the directory whose path is no longer. -/
theorem DirNode.call {s s' : Initrd} {k i : Nat} {node : InitrdNode} {r : Except ErrorCode Nat}
    (hdir : DirNode s k node) (h : initrdGetChild s (some k) i = some (r, s')) :
    ∃ node', DirNode s' k node' ∧ s'.nodes = s.nodes ∧
      strlen node'.path 0 ≤ strlen node.path 0 ∧
      (strlen node'.path 0 = strlen node.path 0 → r = childResult s.nodes[i]?) := by
  obtain ⟨e, hstat⟩ := hdir.stat
  rw [initrdGetChild_entry hdir.made hdir.named hdir.ended] at h
  obtain ⟨rfl, rfl⟩ := Prod.mk.inj (Option.some.inj h)
  obtain ⟨hle, heq⟩ := childLoop_spec hstat s.nodes node.path i
  refine ⟨{ node with path := (childLoop s.zip node.index s.nodes node.path i).2 },
    ⟨?_, hdir.named, ⟨e, hstat⟩, hdir.ended⟩, rfl, hle, ?_⟩
  · have hlt : k < s.made.length := (List.getElem?_eq_some_iff.mp hdir.made).1
    rw [List.getElem?_set_self hlt]
  · intro hsame
    rw [heq hsame]

/-- An enumeration keeps the list, and makes the path of the directory no longer.
If it keeps its length, all nodes were enumerated. -/
theorem Enumerates.spec {s t : Initrd} {k i : Nat} {node : InitrdNode} {l : List Nat}
    (h : Enumerates (some k) i s l t) (hdir : DirNode s k node) :
    ∃ node', DirNode t k node' ∧ t.nodes = s.nodes ∧ strlen node'.path 0 ≤ strlen node.path 0 ∧
      (strlen node'.path 0 = strlen node.path 0 → l = s.nodes.drop i) := by
  induction h generalizing node with
  | done last =>
      obtain ⟨node', hdir', hnodes, hle, heq⟩ := hdir.call last
      refine ⟨node', hdir', hnodes, hle, ?_⟩
      intro hsame
      exact (List.drop_eq_nil_of_le
        (List.getElem?_eq_none_iff.mp (childResult_error (heq hsame).symm))).symm
  | next child _ ih =>
      obtain ⟨mid, hmid, hnodes, hle, heq⟩ := hdir.call child
      obtain ⟨node', hdir', hnodes', hle', heq'⟩ := ih hmid
      refine ⟨node', hdir', hnodes'.trans hnodes, hle'.trans hle, ?_⟩
      intro hsame
      have hmidEq : strlen mid.path 0 = strlen node.path 0 := Nat.le_antisymm hle (hsame ▸ hle')
      have hget := childResult_ok (heq hmidEq).symm
      rw [heq' (hsame.trans hmidEq.symm), hnodes]
      exact (List.drop_eq_getElem?_toList_append.trans (by rw [hget]; rfl)).symm

/-- What a directory gives each time is the whole list. -/
theorem repeats_eq {s : Initrd} {k : Nat} {l : List Nat} {node : InitrdNode}
    (h : Repeats (some k) s l) (hdir : DirNode s k node) : l = s.nodes := by
  induction hn : strlen node.path 0 using Nat.strong_induction_on generalizing s node with
  | h n ih =>
      obtain ⟨t, rfl, hrun⟩ := h
      obtain ⟨node', hdir', hnodes, hle, heq⟩ := (hrun 0).spec hdir
      obtain hsame | hlt := hle.eq_or_lt
      · rw [heq hsame, List.drop_zero]
      · rw [← hnodes]
        exact ih _ (hn ▸ hlt) ⟨fun j => t (j + 1), rfl, fun j => hrun (j + 1)⟩ hdir' rfl

/-- Calls that leave the archive as it is and give the nodes in order enumerate
them. -/
theorem enumerates_of_calls {s : Initrd} {d : Option Nat} {ns : List Nat} {i : Nat}
    (h : ∀ j, initrdGetChild s d (i + j) = some (childResult ns[j]?, s)) :
    Enumerates d i s ns s := by
  induction ns generalizing i with
  | nil => exact .done (h 0)
  | cons n ns ih =>
      refine .next (h 0) (ih fun j => ?_)
      rw [Nat.add_assoc, Nat.add_comm 1 j, h (j + 1), List.getElem?_cons_succ]

/-- The calls decide what is enumerated. -/
theorem Enumerates.det {s t t' : Initrd} {d : Option Nat} {i : Nat} {l l' : List Nat}
    (h : Enumerates d i s l t) (h' : Enumerates d i s l' t') : l = l' ∧ t = t' := by
  induction h generalizing l' with
  | done last =>
      cases h' with
      | done last' => exact ⟨rfl, (Prod.mk.inj (Option.some.inj (last.symm.trans last'))).2⟩
      | next child' _ => cases (Prod.mk.inj (Option.some.inj (last.symm.trans child'))).1
  | next child _ ih =>
      cases h' with
      | done last' => cases (Prod.mk.inj (Option.some.inj (child.symm.trans last'))).1
      | next child' rest' =>
          obtain ⟨hn, rfl⟩ := Prod.mk.inj (Option.some.inj (child.symm.trans child'))
          obtain ⟨rfl, rfl⟩ := ih rest'
          exact ⟨by rw [Except.ok.inj hn], rfl⟩

theorem repeats_of_calls {s : Initrd} {d : Option Nat} {l : List Nat}
    (h : ∀ i, initrdGetChild s d i = some (childResult l[i]?, s)) : Repeats d s l := by
  refine ⟨fun _ => s, rfl, fun _ => enumerates_of_calls ?_⟩
  intro j
  rw [Nat.zero_add, h]

/-! ## The root and the directories -/

section Mounted

variable {zip : Zip} {mem : MountMem} {s : Initrd}

theorem Zip.mem_children {dir : List UInt8} {k : Nat} :
    k ∈ zip.children dir ↔ ∃ e, zip.stat k = some e ∧ e.parentDir = dir := by
  rw [Zip.children, List.mem_filter, List.mem_range, Option.any_eq_true]
  constructor
  · rintro ⟨-, e, he, hdir⟩
    exact ⟨e, he, of_decide_eq_true hdir⟩
  · rintro ⟨e, he, hdir⟩
    exact ⟨(List.getElem?_eq_some_iff.mp he).1, e, he, decide_eq_true hdir⟩

theorem Mounted.mem_nodes (hm : Mounted zip mem s) {k : Nat} :
    k ∈ s.nodes ↔ (∃ e, zip.stat k = some e) ∧ mem.listNode k = true := by
  rw [hm.nodes, List.mem_reverse, List.mem_filter, List.mem_range]
  refine and_congr_left fun _ => ?_
  exact ⟨fun hk => ⟨_, List.getElem?_eq_getElem hk⟩,
    fun ⟨_, he⟩ => (List.getElem?_eq_some_iff.mp he).1⟩

theorem Mounted.made_entry (hm : Mounted zip mem s) {k : Nat} {e : ZipEntry}
    (he : zip.stat k = some e) : s.made[k]? = some (e.node k) := by
  rw [hm.made, he, Option.map_some]

/-- `initrd_get_child` takes the node of an entry for the root by its name. -/
theorem ZipEntry.strcmp_node (e : ZipEntry) (k : Nat) :
    strcmp (e.node k).name [slash] = 0 ↔ e.nodeName = [slash] :=
  strcmp_eq_zero (basename_noNul _ _) (by decide)

theorem Mounted.nodes_eq_nil (hm : Mounted zip mem s) :
    s.nodes = [] ↔ ∀ j < zip.entries.length, mem.listNode j = false := by
  rw [hm.nodes, List.reverse_eq_nil_iff, List.filter_eq_nil_iff]
  simp

/-- Two directories have no child in common. -/
theorem Zip.nil_of_perm {l : List Nat} {dir dir' : List UInt8} (h : l.Perm (zip.children dir))
    (h' : l.Perm (zip.children dir')) (hne : dir ≠ dir') : l = [] := by
  rw [List.eq_nil_iff_forall_not_mem]
  intro j hj
  obtain ⟨e, he, rfl⟩ := Zip.mem_children.mp (h.mem_iff.mp hj)
  obtain ⟨e', he', rfl⟩ := Zip.mem_children.mp (h'.mem_iff.mp hj)
  obtain rfl := Option.some.inj (he.symm.trans he')
  exact hne rfl

theorem Mounted.perm_children (hm : Mounted zip mem s) (dir : List UInt8) :
    s.nodes.Perm (zip.children dir) ↔
      ∀ k e, zip.stat k = some e → (mem.listNode k = true ↔ e.parentDir = dir) := by
  have hnodup : s.nodes.Nodup := by
    rw [hm.nodes, List.nodup_reverse]
    exact List.nodup_range.filter _
  have hnodup' : (zip.children dir).Nodup := List.nodup_range.filter _
  rw [List.perm_ext_iff_of_nodup hnodup hnodup']
  refine forall_congr' fun k => ?_
  rw [hm.mem_nodes, Zip.mem_children]
  cases zip.stat k with
  | none => simp
  | some e => simp

theorem Mounted.getChild_root (hm : Mounted zip mem s) (hend : s.nodesEnd = 0)
    (hword : zip.word = 0) (i : Nat) :
    initrdGetChild s none i = some (childResult s.nodes[i]?, s) := by
  rw [initrdGetChild, if_neg (not_not.mpr hend), hm.archive, hword]
  cases he : zip.stat 0 with
  | none =>
      have hnil : s.nodes = [] := by
        rw [hm.nodes, List.getElem?_eq_none_iff.mp he |> Nat.le_zero.mp]
        rfl
      rw [hnil]
      rfl
  | some e =>
      dsimp only
      rw [show (0 : UInt32).toNat = 0 from rfl, childLoop_root he]

theorem Mounted.listsChildren_root (hm : Mounted zip mem s) (hend : s.nodesEnd = 0)
    (hword : zip.word = 0) : ListsChildren s none [] ↔
      ∀ k e, zip.stat k = some e → (mem.listNode k = true ↔ e.parentDir = []) := by
  have hcalls := repeats_of_calls (hm.getChild_root hend hword)
  rw [← hm.perm_children, ← hm.archive]
  constructor
  · rintro ⟨l, ⟨t, rfl, hrun⟩, hperm⟩
    obtain ⟨t', ht', hrun'⟩ := hcalls
    obtain ⟨rfl, -⟩ := (hrun 0).det (ht' ▸ hrun' 0)
    exact hperm
  · intro hperm
    exact ⟨s.nodes, hcalls, hperm⟩

/-- A directory that can be listed has a node of its own, and lists all nodes. -/
theorem Mounted.nodes_of_lists (hm : Mounted zip mem s) (hend : s.nodesEnd = 0) {k : Nat}
    {e : ZipEntry} (he : zip.stat k = some e) {dir : List UInt8}
    (h : ListsChildren s (some k) dir) :
    e.nodeName ≠ [slash] ∧ s.nodes.Perm (zip.children dir) := by
  obtain ⟨l, hrep, hperm⟩ := h
  have hmade := hm.made_entry he
  have hnamed : strcmp (e.node k).name [slash] ≠ 0 := by
    intro hslash
    obtain ⟨t, rfl, hrun⟩ := hrep
    have hnone : ∀ i, initrdGetChild (t 0) (some k) i = none := by
      intro i
      simp only [initrdGetChild, hmade, hslash, true_or, if_true]
    cases hrun 0 with
    | done last => simp [hnone] at last
    | next child _ => simp [hnone] at child
  constructor
  · exact mt (e.strcmp_node k).mpr hnamed
  · have hdir : DirNode s k (e.node k) := ⟨hmade, hnamed, ⟨e, hm.archive ▸ he⟩, hend⟩
    rw [← repeats_eq hrep hdir, ← hm.archive]
    exact hperm

/-- Without nodes in the list a directory is listed as an empty one. -/
theorem Mounted.listsChildren_nil (hm : Mounted zip mem s) (hend : s.nodesEnd = 0) {k : Nat}
    {e : ZipEntry} (he : zip.stat k = some e) (hname : e.nodeName ≠ [slash]) (hnil : s.nodes = [])
    {dir : List UInt8} (hdir : zip.children dir = []) : ListsChildren s (some k) dir := by
  have hmade := hm.made_entry he
  have hnamed : strcmp (e.node k).name [slash] ≠ 0 := mt (e.strcmp_node k).mp hname
  refine ⟨[], repeats_of_calls ?_, by rw [hm.archive, hdir]⟩
  intro i
  rw [initrdGetChild_entry hmade hnamed hend, hnil, childLoop]
  -- The path is stored back as it was.
  have hset : s.made.set k (e.node k) = s.made := by
    obtain ⟨hk, hget⟩ := List.getElem?_eq_some_iff.mp hmade
    rw [← hget, List.set_getElem_self hk]
  cases s
  cases hnil
  exact congrArg (fun made => some (childResult none, Initrd.mk _ made [] _)) hset

/-- A list that does not end with NULL is not listed. -/
theorem not_lists_of_nodesEnd (hend : s.nodesEnd ≠ 0) : ¬ Lists s := by
  intro h
  obtain ⟨l, ⟨t, rfl, hrun⟩, -⟩ := h.root
  have hnone : ∀ i, initrdGetChild (t 0) none i = none := fun i => if_pos hend
  cases hrun 0 with
  | done last => simp [hnone] at last
  | next child _ => simp [hnone] at child

/-- The root and the directories list their children exactly in the archives of
`ListingOk`, and where the list ends. -/
theorem lists_iff {head : Nat} {ino ino' : UInt32} (hword : zip.word = 0)
    (h : initrdMount head zip mem ino = some (.ok s, ino')) :
    Lists s ↔ head = 0 ∧ ListingOk zip mem := by
  obtain ⟨hm, hhead⟩ := initrdMount_mounted h
  obtain hne | hzero := ne_or_eq head 0
  · exact iff_of_false (not_lists_of_nodesEnd (hhead ▸ hne)) fun hok => hne hok.1
  rw [and_iff_right hzero]
  have hend : s.nodesEnd = 0 := hhead.trans hzero
  constructor
  · intro hlists
    have htop := (hm.listsChildren_root hend hword).mp hlists.root
    refine ⟨htop, ?_⟩
    intro k e he hdir
    obtain ⟨hname, hperm⟩ := hm.nodes_of_lists hend he (hlists.dirs k e (hm.archive ▸ he) hdir)
    -- The nodes in the list are children of the root and of this directory.
    have hne : e.filename.1 ≠ [] := by
      intro hempty
      have hlast := e.dir_iff.mp hdir
      rw [hempty] at hlast
      cases hlast
    have hnil := Zip.nil_of_perm hperm ((hm.perm_children []).mpr htop) hne
    refine ⟨hm.nodes_eq_nil.mp hnil, ?_, hname⟩
    rw [hnil] at hperm
    exact hperm.nil_eq.symm
  · intro hok
    refine ⟨(hm.listsChildren_root hend hword).mpr hok.top, ?_⟩
    intro k e he hdir
    rw [hm.archive] at he
    obtain ⟨hlist, hchildren, hname⟩ := hok.dirs k e he hdir
    exact hm.listsChildren_nil hend he hname (hm.nodes_eq_nil.mpr hlist) hchildren

end Mounted

/-! ## Two archives -/

/-- Enough memory for everything. -/
def MountMem.all : MountMem := ⟨true, true, true, fun _ => true, fun _ => true, fun _ => true⟩

/-- The archive of the files `f` and `g`, of `a/f` without its directory, and of `h`. -/
def filesZip : Zip where
  entries :=
    [⟨⟨[102], by decide⟩, false, by decide, by decide⟩,
      ⟨⟨[103], by decide⟩, false, by decide, by decide⟩,
      ⟨⟨[97, slash, 102], by decide⟩, false, by decide, by decide⟩,
      ⟨⟨[104], by decide⟩, false, by decide, by decide⟩]
  word := 0

/-- The archive of a directory `a/` and the file `a/f` in it. -/
def dirZip : Zip where
  entries :=
    [⟨⟨[97, slash], by decide⟩, true, by decide, by decide⟩,
      ⟨⟨[97, slash, 102], by decide⟩, false, by decide, by decide⟩]
  word := 0

/-- What `initrd_mount` makes of an archive, with memory for the node of each entry. -/
def Zip.mounted (zip : Zip) (mem : MountMem) : Initrd where
  zip := zip
  made := zip.entries.mapIdx fun k e => e.node k
  nodes := ((List.range zip.entries.length).filter mem.listNode).reverse
  nodesEnd := 0

/-- Enough memory for everything but the place of `a/f` in the list. -/
def filesMem : MountMem := { MountMem.all with listNode := fun k => k ≠ 2 }

theorem lists_iff_files : Lists (filesZip.mounted filesMem) := by
  have h : initrdMount 0 filesZip filesMem 1 = some (.ok (filesZip.mounted filesMem), 6) := by rfl
  refine (lists_iff rfl h).mpr ⟨rfl, ?_, ?_⟩
  · intro k e he
    match k with
    | 0 | 1 | 2 | 3 =>
        cases he
        decide
    | k + 4 => cases he
  · intro k e he hdir
    match k with
    | 0 | 1 | 2 | 3 =>
        cases he
        cases hdir
    | k + 4 => cases he

/-- The root lists the file of the directory too. -/
theorem lists_wrong :
    initrdMount 0 dirZip .all 1 = some (.ok (dirZip.mounted .all), 4) ∧
      initrdGetChild (dirZip.mounted .all) none 0 = some (.ok 1, dirZip.mounted .all) ∧
        dirZip.children [] = [0] ∧ ¬ Lists (dirZip.mounted .all) := by
  have h : initrdMount 0 dirZip .all 1 = some (.ok (dirZip.mounted .all), 4) := by rfl
  obtain ⟨hm, hend⟩ := initrdMount_mounted h
  refine ⟨h, hm.getChild_root hend rfl 0, by decide, ?_⟩
  intro hlists
  have htop := (hm.listsChildren_root hend rfl).mp hlists.root 1 _ rfl
  exact absurd (htop.mp rfl) (by decide)

end StardustOS.Fs
