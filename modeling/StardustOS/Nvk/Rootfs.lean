import Mathlib.Data.List.Nodup
import Mathlib.Data.List.Perm.Basic
import StardustOS.Fs.Initrd
import StardustOS.Fs.NodeType
import StardustOS.Libc.Digits

/-!
# The root file system of the virtual kernel

`rootfs.c` of nvk lists directories of the host.  All nodes it makes go to one list,
whatever directory they are of, and `rootfs_get_child` reads that list by position
before it looks at the host.  Beyond the list it goes to the entry whose index is the
difference to the length of the list.

So once a node was made of the root directory, the root goes on to give that node and
then the first entry of the host over and over.  `faithful_iff` says that the listings
are right only where the root directory has nothing to list.

The host is the function `host` from paths to what is there.  Its memory is taken to
suffice.
-/

namespace StardustOS.Nvk

open Libc Fs

/-! ## The host -/

/-- What a path of the host leads to, as `stat` tells, and the names in a directory in the
order of `readdir`. -/
inductive HostFile
  | missing
  | file (size : Nat)
  | dir (size : Nat) (names : { names : List (List UInt8) // names.Nodup })
  | other

/-- `"%s/%s"`. -/
def join (path name : List UInt8) : List UInt8 := path ++ ascii '/' :: name

/-- The name is `.` or `..`. -/
def Dots (name : List UInt8) : Prop := name = asciiText ['.'] ∨ name = asciiText ['.', '.']

instance (name : List UInt8) : Decidable (Dots name) :=
  inferInstanceAs (Decidable (_ ∨ _))

/-- What `opendir` finds to read. -/
def HostFile.names : HostFile → Option (List (List UInt8))
  | .dir _ names => some names.1
  | _ => none

/-- The type of the node that `rootfs_get_child` makes, and the size. -/
def HostFile.node : HostFile → Option (NodeType × Nat)
  | .dir size _ => some (.dir, size)
  | .file size => some (.file, size)
  | .missing | .other => none

/-! ## The source -/

/-- A node, with the path of its `struct rootfs_node`. -/
structure RootfsNode where
  name : List UInt8
  mode : UInt32
  ino : Nat
  size : Nat
  path : List UInt8
deriving DecidableEq, Repr

/-- `struct rootfs`, with `next_inode`. -/
structure Rootfs where
  path : List UInt8
  cachedNodes : List RootfsNode
  nextInode : UInt32

/-- The loop over the entries that are left in the stream. -/
def readLoop : List (List UInt8) → Nat → Option (List UInt8)
  | [], _ => none
  | name :: rest, index =>
      if Dots name then readLoop rest index
      else if index = 0 then some name
      else readLoop rest (index - 1)

/-- What a node shows of its entry: its name, its mode and its path. -/
def RootfsNode.view (node : RootfsNode) : List UInt8 × UInt32 × List UInt8 :=
  (node.name, node.mode, node.path)

namespace Rootfs

section Source

variable (host : List UInt8 → HostFile) (seek : List UInt8 → Nat → Nat) (s : Rootfs)

/-- The path of a directory.  The root node is `none`. -/
def pathOf : Option RootfsNode → List UInt8
  | none => s.path
  | some node => node.path

/-- `rootfs_get_child` makes the node of the entry.  A name that leaves no room for its NUL
is undefined, and `liblist_add` finds memory. -/
def makeNode (path name : List UInt8) : Option (Except ErrorCode RootfsNode × Rootfs) :=
  match (host (join path name)).node with
  | none =>
      match host (join path name) with
      | .missing => some (.error (errno ENOENT ENOENT_range), s)
      | _ => some (.error (errno EINVAL EINVAL_range), s)
  | some (type, size) =>
      if name.length = NAME_MAX then none
      else
        let (r, nextInode) := fsNodeCreate true name s.nextInode
        let s := { s with nextInode }
        match asInt r with
        | .error e => some (.error e, s)
        | .ok ino =>
            let node : RootfsNode :=
              { name := name
                mode := 6 <<< type.num
                ino := ino
                size := size
                path := join path name }
            some (.ok node, { s with cachedNodes := node :: s.cachedNodes })

/-- `rootfs_get_child`.  `seek path index` is the number of entries that
`seekdir(dir, index)` passes over. -/
def rootfsGetChild (node : Option RootfsNode) (index : Nat) :
    Option (Except ErrorCode RootfsNode × Rootfs) :=
  match s.cachedNodes[index]? with
  | some cachedNode => some (.ok cachedNode, s)
  | none =>
      let path := s.pathOf node
      let index := index - s.cachedNodes.length
      match (host path).names with
      | none => some (.error (errno EINVAL EINVAL_range), s)
      | some names =>
          match readLoop (names.drop (seek path index)) index with
          | none => some (.error (errno ENOENT ENOENT_range), s)
          | some name => s.makeNode host path name

end Source

/-! ## Listings -/

section Listings

variable (host : List UInt8 → HostFile) (seek : List UInt8 → Nat → Nat)

/-- The root, or a node of a directory that was made. -/
def Known (s : Rootfs) : Option RootfsNode → Prop
  | none => True
  | some node => node ∈ s.cachedNodes ∧ node.mode = 6 <<< NodeType.dir.num

/-- The states that calls on directory nodes lead to, from the mount of the path on. -/
inductive Reached (path : List UInt8) : Rootfs → Prop
  | mounted (nextInode : UInt32) : Reached path ⟨path, [], nextInode⟩
  | call {s s' : Rootfs} {node : Option RootfsNode} {index : Nat}
      {r : Except ErrorCode RootfsNode} (reached : Reached path s) (known : s.Known node)
      (result : s.rootfsGetChild host seek node index = some (r, s')) : Reached path s'

/-- The nodes that a directory gives for the indices from `i` on, until the first error. -/
inductive Lists (dir : Option RootfsNode) : Rootfs → Nat → List RootfsNode → Prop
  | done {s s' : Rootfs} {i : Nat} {e : ErrorCode}
      (result : s.rootfsGetChild host seek dir i = some (.error e, s')) : Lists dir s i []
  | next {s s' : Rootfs} {i : Nat} {node : RootfsNode} {nodes : List RootfsNode}
      (result : s.rootfsGetChild host seek dir i = some (.ok node, s'))
      (rest : Lists dir s' (i + 1) nodes) : Lists dir s i (node :: nodes)

/-- What is to be shown of an entry of a directory of the host, if it is to be listed. -/
def wantedEntry (path name : List UInt8) : Option (List UInt8 × UInt32 × List UInt8) :=
  if Dots name then none
  else (host (join path name)).node.map fun (type, _) => (name, 6 <<< type.num, join path name)

/-- The regular files and subdirectories of a directory of the host. -/
def wanted (path : List UInt8) : List (List UInt8 × UInt32 × List UInt8) :=
  ((host path).names.getD []).filterMap (wantedEntry host path)

/-- Whatever was looked up, every directory lists its regular files and subdirectories, each
once. -/
def Faithful (path : List UInt8) : Prop :=
  ∀ s, Reached host seek path s → ∀ dir, s.Known dir →
    ∃ nodes, Lists host seek dir s 0 nodes ∧
      (nodes.map RootfsNode.view).Perm (wanted host (s.pathOf dir))

end Listings

/-! ## A root directory with nothing to list -/

/-- The directory has neither regular files nor subdirectories. -/
def Bare (host : List UInt8 → HostFile) (path : List UInt8) : Prop :=
  ∀ names, (host path).names = some names → ∀ name ∈ names,
    Dots name ∨ (host (join path name)).node = none

variable {host : List UInt8 → HostFile} {seek : List UInt8 → Nat → Nat} {s s' : Rootfs}
  {path name : List UInt8}

theorem readLoop_mem {names : List (List UInt8)} {index : Nat}
    (h : readLoop names index = some name) : name ∈ names ∧ ¬ Dots name := by
  induction names generalizing index with
  | nil => cases h
  | cons first rest ih =>
      rw [readLoop] at h
      split at h
      · exact ⟨List.mem_cons_of_mem _ (ih h).1, (ih h).2⟩
      · rename_i hdots
        split at h
        · obtain rfl := Option.some.inj h
          exact ⟨List.mem_cons_self, hdots⟩
        · exact ⟨List.mem_cons_of_mem _ (ih h).1, (ih h).2⟩

theorem wantedEntry_eq_none : wantedEntry host path name = none ↔
    Dots name ∨ (host (join path name)).node = none := by
  rw [wantedEntry]
  split
  · rename_i hdots
    exact iff_of_true rfl (Or.inl hdots)
  · rename_i hdots
    rw [Option.map_eq_none_iff, or_iff_right hdots]

theorem bare_iff : Bare host path ↔ wanted host path = [] := by
  rw [Bare, wanted]
  cases (host path).names with
  | none => exact iff_of_true (fun _ h => by cases h) rfl
  | some names =>
      rw [Option.getD_some, List.filterMap_eq_nil_iff]
      simp only [wantedEntry_eq_none, Option.some.injEq, forall_eq']

/-- A lookup in a bare root directory fails and changes nothing. -/
theorem rootfsGetChild_bare (seek : List UInt8 → Nat → Nat) (h : Bare host s.path)
    (hempty : s.cachedNodes = []) (index : Nat) :
    ∃ e, s.rootfsGetChild host seek none index = some (.error e, s) := by
  rw [rootfsGetChild, hempty, List.getElem?_nil]
  dsimp only
  rw [pathOf]
  cases hnames : (host s.path).names with
  | none => exact ⟨_, rfl⟩
  | some names =>
      dsimp only
      split
      · exact ⟨_, rfl⟩
      · rename_i name hread
        obtain ⟨hmem, hdots⟩ := readLoop_mem hread
        have hnode := (h names hnames name (List.mem_of_mem_drop hmem)).resolve_left hdots
        rw [makeNode, hnode]
        dsimp only
        split <;> exact ⟨_, rfl⟩

/-- No node is ever made. -/
theorem reached_bare (h : Bare host path) (hs : Reached host seek path s) :
    s.path = path ∧ s.cachedNodes = [] := by
  induction hs with
  | mounted nextInode => exact ⟨rfl, rfl⟩
  | @call s s' node index r reached known result ih =>
      obtain ⟨hpath, hempty⟩ := ih
      cases node with
      | none =>
          obtain ⟨e, he⟩ := rootfsGetChild_bare seek (hpath ▸ h) hempty index
          obtain ⟨-, rfl⟩ := Prod.mk.inj (Option.some.inj (he.symm.trans result))
          exact ⟨hpath, hempty⟩
      | some node =>
          have hmem := known.1
          rw [hempty] at hmem
          cases hmem

theorem faithful_of_bare (h : Bare host path) : Faithful host seek path := by
  intro s hs dir hdir
  obtain ⟨hpath, hempty⟩ := reached_bare h hs
  cases dir with
  | none =>
      obtain ⟨e, he⟩ := rootfsGetChild_bare seek (hpath ▸ h) hempty 0
      refine ⟨[], .done he, ?_⟩
      rw [pathOf, hpath, bare_iff.mp h]
      exact List.Perm.nil
  | some node =>
      have hmem := hdir.1
      rw [hempty] at hmem
      cases hmem

/-! ## A root directory with something to list -/

/-- What the making of a node takes, and what the node shows. -/
theorem makeNode_ok {node : RootfsNode} (h : s.makeNode host path name = some (.ok node, s')) :
    (∃ type size, (host (join path name)).node = some (type, size) ∧ name.length < NAME_MAX ∧
      node.view = (name, 6 <<< type.num, join path name)) ∧
      s' = { s with cachedNodes := node :: s.cachedNodes, nextInode := s.nextInode + 1 } := by
  rw [makeNode] at h
  split at h
  · split at h <;> cases h
  · rename_i type size hnode
    split at h
    · cases h
    · rename_i hfull
      dsimp only at h
      split at h
      · cases h
      · rename_i ino hino
        have hshort : ¬ NAME_MAX < name.length := by
          intro hlong
          rw [fsNodeCreate, if_pos hlong, asInt] at hino
          cases hino
        cases h
        refine ⟨⟨type, size, hnode, by omega, rfl⟩, ?_⟩
        rw [fsNodeCreate, if_neg hshort]
        rfl

/-- A node of a name that fits is made while inode numbers last. -/
theorem makeNode_of_node {type : NodeType} {size : Nat}
    (hnode : (host (join path name)).node = some (type, size)) (hname : name.length < NAME_MAX)
    (hino : s.nextInode.toNat < 2 ^ 31) :
    ∃ node, node.view = (name, 6 <<< type.num, join path name) ∧
      s.makeNode host path name = some (.ok node,
        { s with cachedNodes := node :: s.cachedNodes, nextInode := s.nextInode + 1 }) := by
  obtain ⟨ino, hok⟩ := (asInt_fsNodeCreate hname true s.nextInode).mpr ⟨rfl, hino⟩
  refine ⟨⟨name, 6 <<< type.num, ino, size, join path name⟩, rfl, ?_⟩
  rw [makeNode, hnode]
  dsimp only
  rw [if_neg hname.ne, hok, fsNodeCreate_next hname.le rfl]

/-- Just past the list, the root goes to the first entry of the host. -/
theorem rootfsGetChild_past (host : List UInt8 → HostFile) (hseek : ∀ p, seek p 0 = 0)
    (s : Rootfs) :
    s.rootfsGetChild host seek none s.cachedNodes.length =
      match (host s.path).names with
      | none => some (.error (errno EINVAL EINVAL_range), s)
      | some names =>
          match readLoop names 0 with
          | none => some (.error (errno ENOENT ENOENT_range), s)
          | some name => s.makeNode host s.path name := by
  rw [rootfsGetChild, List.getElem?_eq_none le_rfl]
  simp only [Nat.sub_self, pathOf, hseek, List.drop_zero]

/-- When the root has gone past the list once, it gives the same entry for the next index,
while inode numbers last. -/
theorem rootfsGetChild_again (hseek : ∀ p, seek p 0 = 0) {node : RootfsNode}
    (h : s.rootfsGetChild host seek none s.cachedNodes.length = some (.ok node, s'))
    (hino : (s.nextInode + 1).toNat < 2 ^ 31) :
    s'.cachedNodes.length = s.cachedNodes.length + 1 ∧
      ∃ node' s'', s'.rootfsGetChild host seek none s'.cachedNodes.length = some (.ok node', s'') ∧
        node'.view = node.view := by
  rw [rootfsGetChild_past host hseek] at h
  cases hnames : (host s.path).names with
  | none =>
      rw [hnames] at h
      cases h
  | some names =>
      rw [hnames] at h
      dsimp only at h
      cases hread : readLoop names 0 with
      | none =>
          rw [hread] at h
          cases h
      | some name =>
          rw [hread] at h
          obtain ⟨⟨type, size, hnode, hname, hview⟩, rfl⟩ := makeNode_ok h
          obtain ⟨node', hview', hmade⟩ := makeNode_of_node (s := { s with
            cachedNodes := node :: s.cachedNodes, nextInode := s.nextInode + 1 }) hnode hname hino
          have hpast := rootfsGetChild_past host hseek { s with
            cachedNodes := node :: s.cachedNodes, nextInode := s.nextInode + 1 }
          rw [hnames] at hpast
          dsimp only at hpast
          rw [hread] at hpast
          exact ⟨rfl, node', _, hpast.trans hmade, hview'.trans hview.symm⟩

/-- A directory should list nothing twice. -/
theorem wanted_nodup (host : List UInt8 → HostFile) (path : List UInt8) :
    (wanted host path).Nodup := by
  have hnames : ((host path).names.getD []).Nodup := by
    cases host path with
    | dir size names => exact names.2
    | missing | file size | other => exact List.nodup_nil
  refine List.Nodup.filterMap ?_ hnames
  intro name name' v hv hv'
  rw [Option.mem_def, wantedEntry] at hv hv'
  split at hv
  · cases hv
  · split at hv'
    · cases hv'
    · obtain ⟨a, -, rfl⟩ := Option.map_eq_some_iff.mp hv
      obtain ⟨b, -, hb⟩ := Option.map_eq_some_iff.mp hv'
      exact (Prod.mk.inj hb).1.symm

theorem bare_of_faithful (hseek : ∀ p, seek p 0 = 0) (h : Faithful host seek path) :
    Bare host path := by
  obtain ⟨nodes, hlists, hperm⟩ := h _ (.mounted 0) none trivial
  rw [bare_iff]
  cases hlists with
  | done result => exact List.perm_nil.mp hperm.symm
  | next result rest =>
      have hino : ((0 : UInt32) + 1).toNat < 2 ^ 31 := by decide
      obtain ⟨hlen, node', s'', hagain, hview⟩ := rootfsGetChild_again hseek result hino
      rw [hlen] at hagain
      cases rest with
      | done result' => cases hagain.symm.trans result'
      | next result' rest' =>
          obtain ⟨hnode, -⟩ := Prod.mk.inj (Option.some.inj (hagain.symm.trans result'))
          obtain rfl := Except.ok.inj hnode
          have hdouble := hperm.nodup_iff.mpr (wanted_nodup host path)
          rw [List.map_cons, List.map_cons, hview, List.nodup_cons] at hdouble
          exact absurd List.mem_cons_self hdouble.1

/-- Every directory is listed faithfully exactly when the root directory has nothing to
list. -/
theorem faithful_iff (host : List UInt8 → HostFile) (seek : List UInt8 → Nat → Nat)
    (hseek : ∀ p, seek p 0 = 0) (path : List UInt8) :
    Faithful host seek path ↔ Bare host path :=
  ⟨bare_of_faithful hseek, faithful_of_bare⟩

/-- A host with a directory "r" that holds a regular file "a", and a directory "s" that
holds a socket "b". -/
def twoRoots (path : List UInt8) : HostFile :=
  if path = [114] then .dir 4096 ⟨[asciiText ['.'], [97]], by decide⟩
  else if path = join [114] [97] then .file 1
  else if path = [115] then .dir 4096 ⟨[asciiText ['.'], [98]], by decide⟩
  else if path = join [115] [98] then .other
  else .missing

/-- The socket is not listed. -/
theorem faithful_iff_socket : Faithful twoRoots (fun _ i => i) [115] :=
  (faithful_iff twoRoots (fun _ i => i) (fun _ => rfl) [115]).mpr (by
    intro names hnames name hname
    obtain rfl := Option.some.inj hnames
    rcases List.mem_cons.mp hname with rfl | hrest
    · exact Or.inl (by decide)
    · rw [List.mem_singleton.mp hrest]
      exact Or.inr rfl)

/-- The file is listed for ever. -/
theorem not_faithful : ¬ Faithful twoRoots (fun _ i => i) [114] := by
  intro h
  rcases bare_of_faithful (fun _ => rfl) h _ rfl [97] (by decide) with hdots | hnode
  · exact absurd hdots (by decide)
  · cases hnode

end Rootfs

end StardustOS.Nvk
