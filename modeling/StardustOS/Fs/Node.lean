import StardustOS.Libc.Libgen
import StardustOS.Errno

/-!
# File system nodes and `fs_node_resolve`

A node keeps its name, its inode number and its `get_child` operation.  A
directory's `get_child` enumerates its children, so it is the list of them.  A
file has none: its creators leave the operation unset.

`fs_node_resolve` is recursive in the child it descends into and in the path,
which it passes on as a pointer further into the same array.  It terminates
because that pointer moves: the recursive call is made only when the length it
adds is at least two.
-/

namespace StardustOS.Fs

open Libc

/-- A node of a file system tree. -/
inductive FsNode where
  /-- A node without a `get_child` operation. -/
  | file (name : List UInt8) (ino : Nat)
  /-- A directory, whose `get_child(node, &child, i)` gives the child of index
  `i` and a negative errno past the last one. -/
  | dir (name : List UInt8) (ino : Nat) (children : List FsNode)

namespace FsNode

def name : FsNode → List UInt8
  | file n _ => n
  | dir n _ _ => n

/-- `node->opts.get_child`, as the children it enumerates. -/
def getChild : FsNode → Option (List FsNode)
  | file _ _ => none
  | dir _ _ cs => some cs

/-- The children of a node, none for a file. -/
def children (n : FsNode) : List FsNode := n.getChild.getD []

/-- The node is a directory. -/
def isDir (n : FsNode) : Bool := n.getChild.isSome

@[simp] theorem isDir_dir (n : List UInt8) (i : Nat) (cs : List FsNode) :
    (dir n i cs).isDir = true := rfl

@[simp] theorem isDir_file (n : List UInt8) (i : Nat) : (file n i).isDir = false := rfl

@[simp] theorem children_dir (n : List UInt8) (i : Nat) (cs : List FsNode) :
    (dir n i cs).children = cs := rfl

@[simp] theorem children_file (n : List UInt8) (i : Nat) : (file n i).children = [] := rfl

theorem sizeOf_child_lt {n k : FsNode} (h : k ∈ n.children) : sizeOf k < sizeOf n := by
  cases n with
  | file n i => simp at h
  | dir n i cs =>
      have hk : sizeOf k < sizeOf cs := List.sizeOf_lt_of_mem (by simpa using h)
      simp only [dir.sizeOf_spec]
      omega

/-- No node is its own child. -/
theorem child_ne {n k : FsNode} (h : k ∈ n.children) : k ≠ n := by
  rintro rfl
  exact Nat.lt_irrefl _ (sizeOf_child_lt h)

end FsNode

/-- What `fs_node_resolve` returns. -/
inductive Resolved where
  /-- `0`, with `*foundptr` set to the node. -/
  | found (node : FsNode)
  /-- An error code, with `*foundptr` untouched. -/
  | error (r : Int)
  /-- No return: the code calls a `get_child` operation that is not set. -/
  | fault

/-- A pointer that `dirname` returns with length over one is its argument. -/
theorem dirname_strlen_le {buf : List UInt8} {path : Nat}
    (h : 1 < (dirname buf path).1.strlen (dirname buf path).2) :
    path + (dirname buf path).1.strlen (dirname buf path).2 ≤ buf.length := by
  have hptr : (dirname buf path).1 = .ptr path := by
    revert h
    rw [dirname]
    split
    · simp [CPtr.strlen]
    · split
      · simp
      · split <;> simp [CPtr.strlen]
  have hle := strlen_le (dirname buf path).2 path
  rw [dirname_length] at hle
  rw [hptr, CPtr.strlen] at h ⊢
  omega

/-- `if (path[0] == '/') path++`. -/
def skipSlash (buf : List UInt8) (path : Nat) : Nat :=
  if byteAt buf path = slash then path + 1 else path

theorem le_skipSlash (buf : List UInt8) (path : Nat) : path ≤ skipSlash buf path := by
  rw [skipSlash]
  split <;> omega

/-- `fs_node_resolve(&node, &found, buf + path)`, with the array as it leaves
it. -/
def fsNodeResolve (node : FsNode) (buf : List UInt8) (path : Nat) : Resolved × List UInt8 :=
  let p := skipSlash buf path
  let buf' := (dirname buf p).2
  let plen := (dirname buf p).1.strlen buf'
  match node.getChild with
  | none => (.fault, buf')
  | some children =>
      if 1 < plen then
        match children.find? fun tmpnode => strncmp tmpnode.name (cstr buf' p) plen = 0 with
        | some tmpnode => fsNodeResolve tmpnode buf' (p + plen)
        | none => (.error (-ENOENT), buf')
      else
        match children.find? fun tmpnode => strcmp tmpnode.name (cstr buf' p) = 0 with
        | some tmpnode => (.found tmpnode, buf')
        | none => (.error (-ENOENT), buf')
termination_by buf.length - path
decreasing_by
  have hlen : 1 < (dirname buf (skipSlash buf path)).1.strlen
      (dirname buf (skipSlash buf path)).2 := ‹_›
  have hp := le_skipSlash buf path
  have hle := dirname_strlen_le hlen
  rw [dirname_length]
  omega

/-- Every error code of `fs_node_resolve` is negative. -/
theorem fsNodeResolve_error {r : Int} {n : FsNode} {buf : List UInt8} {path : Nat}
    (h : (fsNodeResolve n buf path).1 = .error r) : r < 0 := by
  fun_induction fsNodeResolve n buf path with
  | case1 => cases h
  | case2 _ _ _ _ _ _ _ _ _ _ _ ih => exact ih h
  | case3 | case5 =>
      obtain rfl := Resolved.error.inj h
      decide
  | case4 => cases h

end StardustOS.Fs
