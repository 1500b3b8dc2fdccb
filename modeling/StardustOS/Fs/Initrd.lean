import StardustOS.Fs.NodeIo
import StardustOS.Libc.Libgen
import StardustOS.Process.Table

/-!
# The initial ramdisk

`initrd.c`: `initrd_mount` makes a node for each entry of a zip archive, and
`initrd_get_child` lists the nodes of a directory.  The archive is read by
miniz, so it is the list of what `mz_zip_reader_file_stat` reports of its
entries.

A directory keeps the path it was stored under in an array of its own, and each
turn of the loop of `initrd_get_child` calls `dirname` on that array.  The nodes
are numbered like the entries they were made of, and an outcome of `none` is an
undefined call.

Nothing sets the head of the list `nodes`, so the mount takes the word that
`kmalloc` left there.  What it leaves in the other fields of `struct initrd` is
taken to be NULL.
-/

namespace StardustOS.Fs

open Libc
open Process (PATH_MAX)

/-! ## The archive -/

/-- What `mz_zip_reader_file_stat` reports of an entry: `m_filename` and
`m_is_directory`. -/
structure ZipEntry where
  filename : CStr
  isDirectory : Bool
  dir_iff : isDirectory = true ↔ filename.1.getLast? = some slash
  fits : filename.1.length < PATH_MAX

/-- `mz_zip_archive`: the entries, and the second word of the record, which is
the upper half of `m_archive_size`. -/
structure Zip where
  entries : List ZipEntry
  word : UInt32

/-- `mz_zip_reader_file_stat`. -/
def Zip.stat (zip : Zip) (k : Nat) : Option ZipEntry := zip.entries[k]?

/-! ## Nodes -/

/-- A node of an entry: its name, whether it has a `get_child`, and the `index`
and `path` of its `struct initrd_node`. -/
structure InitrdNode where
  name : List UInt8
  isDir : Bool
  index : Nat
  path : List UInt8

/-- `struct initrd`, with all nodes that were made. -/
structure Initrd where
  zip : Zip
  made : List InitrdNode
  /-- `nodes`, the last one added first. -/
  nodes : List Nat
  /-- The word at the end of the list. -/
  nodesEnd : Nat

/-- `fs_node_create`.  `mem` says whether `kmalloc` finds memory. -/
def fsNodeCreate (mem : Bool) (name : List UInt8) (nextInode : UInt32) :
    Except ErrorCode Nat × UInt32 :=
  if NAME_MAX < name.length then (.error (errno ENAMETOOLONG), nextInode)
  else if !mem then (.error (errno ENOMEM), nextInode)
  else (.ok nextInode.toNat, nextInode + 1)

/-- A node is made when its name fits, there is memory, and the inode number is not taken
for an error code. -/
theorem asInt_fsNodeCreate_iff (name : List UInt8) (mem : Bool) (nextInode : UInt32) :
    (∃ ino, asInt (fsNodeCreate mem name nextInode).1 = .ok ino) ↔
      name.length ≤ NAME_MAX ∧ mem = true ∧ nextInode.toNat < 2 ^ 31 := by
  rw [fsNodeCreate]
  split
  · rename_i hname
    simp [asInt, Nat.not_le.mpr hname]
  rename_i hname
  rw [Nat.not_lt] at hname
  cases mem with
  | false => simp [asInt]
  | true =>
      have hmod : nextInode.toNat % 2 ^ 32 = nextInode.toNat :=
        Nat.mod_eq_of_lt nextInode.toNat_lt
      simp only [Bool.not_true, Bool.false_eq_true, if_false, true_and, asInt, hmod, hname]
      split
      · rename_i hino
        exact iff_of_true ⟨_, rfl⟩ hino
      · rename_i hino
        exact iff_of_false (fun ⟨ino, h⟩ => by cases h) hino

/-- The same for a name that fits. -/
theorem asInt_fsNodeCreate {name : List UInt8} (hname : name.length < NAME_MAX) (mem : Bool)
    (nextInode : UInt32) : (∃ ino, asInt (fsNodeCreate mem name nextInode).1 = .ok ino) ↔
      mem = true ∧ nextInode.toNat < 2 ^ 31 := by
  rw [asInt_fsNodeCreate_iff, and_iff_right hname.le]

/-- A node that is made takes the next inode number. -/
theorem fsNodeCreate_next {name : List UInt8} (hname : name.length ≤ NAME_MAX) {mem : Bool}
    (hmem : mem = true) (nextInode : UInt32) :
    (fsNodeCreate mem name nextInode).2 = nextInode + 1 := by
  simp [fsNodeCreate, Nat.not_lt.mpr hname, hmem]

/-- The array `path` with the name of the entry in it. -/
def ZipEntry.pathArray (stat : ZipEntry) : List UInt8 :=
  stat.filename.1 ++ List.replicate (PATH_MAX - stat.filename.1.length) 0

/-- The name of the node of an entry, which leaves its mark in `path`. -/
def ZipEntry.nodeName (stat : ZipEntry) : List UInt8 :=
  let (name, path) := basename stat.pathArray 0
  name.str path

/-- The node of an entry. -/
def ZipEntry.node (stat : ZipEntry) (i : Nat) : InitrdNode where
  name := stat.nodeName
  isDir := stat.isDirectory
  index := i
  path := (basename stat.pathArray 0).2

/-! ## `initrd_mount` -/

/-- What the calls of `initrd_mount` outside `initrd.c` find: memory for the
`struct initrd`, for the node of the root, and, for each entry, for the
`struct initrd_node`, for the node, and for its place in the list; and whether
`mz_zip_reader_init` succeeds. -/
structure MountMem where
  initrd : Bool
  reader : Bool
  root : Bool
  initrdNode : Nat → Bool
  node : Nat → Bool
  listNode : Nat → Bool

/-- The loop of `initrd_mount` from entry `i` on.  The result of `liblist_add` is
not looked at. -/
def mountFrom (mem : MountMem) :
    Nat → List ZipEntry → UInt32 → Initrd → Option (Except ErrorCode Initrd × UInt32)
  | _, [], ino, s => some (.ok s, ino)
  | i, stat :: rest, ino, s =>
      if !mem.initrdNode i then some (.error (errno ENOMEM), ino)
      else
        let (r, ino) := fsNodeCreate (mem.node i) stat.nodeName ino
        match asInt r with
        | .error e => some (.error e, ino)
        | .ok _ =>
            -- `liblist_add` first goes through the whole list.
            if s.nodesEnd ≠ 0 then none
            else
              mountFrom mem (i + 1) rest ino
                { s with
                  made := s.made ++ [stat.node i]
                  nodes := if mem.listNode i then i :: s.nodes else s.nodes }

/-- `initrd_mount`, where `kmalloc` left `head` in the head of `nodes`. -/
def initrdMount (head : Nat) (zip : Zip) (mem : MountMem) (ino : UInt32) :
    Option (Except ErrorCode Initrd × UInt32) :=
  if !mem.initrd then some (.error (errno ENOMEM), ino)
  else if !mem.reader then some (.error (errno EINVAL EINVAL_range), ino)
  else
    let (r, ino) := fsNodeCreate mem.root [slash] ino
    match asInt r with
    | .error e => some (.error e, ino)
    | .ok _ => mountFrom mem 0 zip.entries ino ⟨zip, [], [], head⟩

/-- The turn of the loop for entry `i` comes to `liblist_add`. -/
structure ZipEntry.Made (stat : ZipEntry) (mem : MountMem) (i : Nat) (ino : UInt32) : Prop where
  initrdNode : mem.initrdNode i = true
  fits : stat.nodeName.length ≤ NAME_MAX
  node : mem.node i = true
  ino : ino.toNat < 2 ^ 31

/-- `initrd_mount` comes to its loop. -/
structure MountMem.RootMade (mem : MountMem) (ino : UInt32) : Prop where
  initrd : mem.initrd = true
  reader : mem.reader = true
  root : mem.root = true
  ino : ino.toNat < 2 ^ 31

/-- What a turn of the loop does, by the end of the list. -/
theorem mountFrom_turn (mem : MountMem) (i : Nat) (stat : ZipEntry) (rest : List ZipEntry)
    (ino : UInt32) :
    (¬ stat.Made mem i ino ∧ ∃ e ino', ∀ s,
      mountFrom mem i (stat :: rest) ino s = some (.error e, ino')) ∨
    (stat.Made mem i ino ∧ ∀ s, mountFrom mem i (stat :: rest) ino s =
      if s.nodesEnd ≠ 0 then none
      else
        mountFrom mem (i + 1) rest (ino + 1)
          { s with
            made := s.made ++ [stat.node i]
            nodes := if mem.listNode i then i :: s.nodes else s.nodes }) := by
  cases hnode : mem.initrdNode i with
  | false =>
      refine Or.inl ⟨fun hm => by simp [hm.initrdNode] at hnode, errno ENOMEM, ino, fun s => ?_⟩
      rw [mountFrom, hnode]
      rfl
  | true =>
      have hcreate := asInt_fsNodeCreate_iff stat.nodeName (mem.node i) ino
      cases hr : asInt (fsNodeCreate (mem.node i) stat.nodeName ino).1 with
      | error e =>
          refine Or.inl ⟨fun hm => ?_, e, (fsNodeCreate (mem.node i) stat.nodeName ino).2,
            fun s => ?_⟩
          · obtain ⟨n, hn⟩ := hcreate.mpr ⟨hm.fits, hm.node, hm.ino⟩
            cases hr.symm.trans hn
          · simp [mountFrom, hnode, hr]
      | ok n =>
          obtain ⟨hfits, hmem, hino⟩ := hcreate.mp ⟨n, hr⟩
          refine Or.inr ⟨⟨hnode, hfits, hmem, hino⟩, fun s => ?_⟩
          simp [mountFrom, hnode, hr, fsNodeCreate_next hfits hmem]

/-- What `initrd_mount` does before the loop. -/
theorem initrdMount_root (zip : Zip) (mem : MountMem) (ino : UInt32) :
    (¬ mem.RootMade ino ∧ ∃ e ino', ∀ head,
      initrdMount head zip mem ino = some (.error e, ino')) ∨
    (mem.RootMade ino ∧ ∀ head, initrdMount head zip mem ino =
      mountFrom mem 0 zip.entries (ino + 1) ⟨zip, [], [], head⟩) := by
  cases hinitrd : mem.initrd with
  | false =>
      refine Or.inl ⟨fun hm => by simp [hm.initrd] at hinitrd, errno ENOMEM, ino, fun head => ?_⟩
      rw [initrdMount, hinitrd]
      rfl
  | true =>
      cases hreader : mem.reader with
      | false =>
          refine Or.inl ⟨fun hm => by simp [hm.reader] at hreader,
            errno EINVAL EINVAL_range, ino, fun head => ?_⟩
          rw [initrdMount, hinitrd, hreader]
          rfl
      | true =>
          have hcreate := asInt_fsNodeCreate_iff [slash] mem.root ino
          cases hr : asInt (fsNodeCreate mem.root [slash] ino).1 with
          | error e =>
              refine Or.inl ⟨fun hm => ?_, e, (fsNodeCreate mem.root [slash] ino).2,
                fun head => ?_⟩
              · obtain ⟨n, hn⟩ := hcreate.mpr ⟨by decide, hm.root, hm.ino⟩
                cases hr.symm.trans hn
              · simp [initrdMount, hinitrd, hreader, hr]
          | ok n =>
              obtain ⟨hfits, hroot, hino⟩ := hcreate.mp ⟨n, hr⟩
              refine Or.inr ⟨⟨hinitrd, hreader, hroot, hino⟩, fun head => ?_⟩
              simp [initrdMount, hinitrd, hreader, hr, fsNodeCreate_next hfits hroot]

/-- A list that ends with NULL lets the loop go on. -/
theorem mountFrom_ended (mem : MountMem) (rest : List ZipEntry) (i : Nat) (ino : UInt32)
    {s : Initrd} (hend : s.nodesEnd = 0) : ∃ out, mountFrom mem i rest ino s = some out := by
  induction rest generalizing i ino s with
  | nil => exact ⟨_, rfl⟩
  | cons stat rest ih =>
      obtain ⟨-, e, ino', herror⟩ | ⟨-, hnext⟩ := mountFrom_turn mem i stat rest ino
      · exact ⟨_, herror s⟩
      · rw [hnext, if_neg (not_not.mpr hend)]
        exact ih _ _ (by exact hend)

/-! ## `initrd_get_child` -/

/-- The loop of `initrd_get_child` over the list, with the array `path`. -/
def childLoop (zip : Zip) (statIndex : Nat) :
    List Nat → List UInt8 → Nat → Option Nat × List UInt8
  | [], path, _ => (none, path)
  | n :: ln, path, index =>
      let (d, path) := dirname path 0
      let d := d.next
      match zip.stat statIndex with
      | none => childLoop zip statIndex ln path index
      | some stat =>
          if strncmp stat.filename.1 (d.str path) (d.strlen path) = 0 then
            if index = 0 then (some n, path) else childLoop zip statIndex ln path (index - 1)
          else childLoop zip statIndex ln path index

/-- The return value, and the child. -/
def childResult : Option Nat → Except ErrorCode Nat
  | none => .error (errno ENOENT ENOENT_range)
  | some n => .ok n

/-- `initrd_get_child`, on the root or on the node of an entry.  The root has
the `struct initrd` itself for its `impl`, and the second word of it is taken for
the index.  A node of an entry whose name is `/` has no `struct initrd`.  A list
that does not end with NULL is empty, so the loop goes astray at once. -/
def initrdGetChild (s : Initrd) : Option Nat → Nat → Option (Except ErrorCode Nat × Initrd)
  | none, index =>
      if s.nodesEnd ≠ 0 then none
      else
        let (r, _) := childLoop s.zip s.zip.word.toNat s.nodes [slash, 0] index
        some (childResult r, s)
  | some k, index =>
      match s.made[k]? with
      | none => none
      | some node =>
          if strcmp node.name [slash] = 0 ∨ s.nodesEnd ≠ 0 then none
          else
            let (r, path) := childLoop s.zip node.index s.nodes node.path index
            some (childResult r, { s with made := s.made.set k { node with path := path } })

end StardustOS.Fs
