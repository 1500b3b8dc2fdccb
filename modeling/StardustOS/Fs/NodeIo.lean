import StardustOS.Errno
import Mathlib.Data.UInt

/-!
# Reading and writing nodes

`fs_node_open`, `fs_node_close`, `fs_node_read`, `fs_node_write` and
`fs_node_vioctl` of `fs.c`.
The nodes are pointers `N`.  Their operations and `fs_resolve` are parameters,
which may change a state `σ` of the rest of the kernel.

`size_t` has no negative values, so a `size_t` that is returned is a number of
bytes or stands for an error code.  `Except ErrorCode Nat` says which it is, and
`sizeT` gives the value.

The last three functions call themselves for the target of a link.  The
models take the depth of these calls as fuel, and `none` says that it was used
up.
-/

namespace StardustOS.Fs

/-- `FS_NODE_DIR` and `FS_NODE_LINK`. -/
def FS_NODE_DIR : UInt32 := 2
def FS_NODE_LINK : UInt32 := 4

/-- `FS_NODE_TYPE_GET`. -/
def nodeTypeGet (mode : UInt32) : UInt32 := mode >>> 6

/-- The `size_t` of a result. -/
def sizeT : Except ErrorCode Nat → UInt32
  | .ok n => .ofNat n
  | .error e => .ofInt e.1

/-- A result that is assigned to an `int`: half of the sizes turn negative. -/
def asInt : Except ErrorCode Nat → Except ErrorCode Nat
  | .error e => .error e
  | .ok n =>
      if h : n % 2 ^ 32 < 2 ^ 31 then .ok n else .error ⟨(n % 2 ^ 32 : Nat) - 2 ^ 32, by omega⟩

/-- `fd_t`. -/
structure Fd (N : Type*) where
  node : Option N
  gid : UInt32
  uid : UInt32
  pid : UInt32
  offset : UInt32
  mode : Int

/-- The operations of a node that files use; NULL where they are not set. -/
structure FsNodeOpts (σ N : Type*) where
  openFd : Option (N → Fd N → σ → Except ErrorCode Nat × σ)
  closeFd : Option (N → Fd N → σ → Except ErrorCode Nat × σ)
  /-- The result and the bytes in the buffer, for an offset and a size. -/
  read : Option (N → UInt32 → UInt32 → σ → Except ErrorCode Nat × List UInt8 × σ)
  write : Option (N → UInt32 → List UInt8 → UInt32 → σ → Except ErrorCode Nat × σ)

/-- The nodes and `fs_resolve`. -/
structure Nodes (σ N : Type*) where
  mode : N → σ → UInt32
  size : N → σ → UInt32
  opts : N → σ → FsNodeOpts σ N
  /-- `none` is the path NULL. -/
  fsResolve : Option (List UInt8) → σ → Except ErrorCode N × σ

namespace Nodes

variable {σ N α : Type*} (W : Nodes σ N)

/-- `fs_node_open`. -/
def fsNodeOpen (node : N) (fd : Fd N) (w : σ) : Except ErrorCode Nat × σ :=
  match (W.opts node w).openFd with
  | none => (.ok 0, w)
  | some op => op node fd w

/-- `fs_node_close`. -/
def fsNodeClose (node : N) (fd : Fd N) (w : σ) : Except ErrorCode Nat × σ :=
  match (W.opts node w).closeFd with
  | none => (.ok 0, w)
  | some op => op node fd w

/-- What `fs_node_read` and `fs_node_write` have in common: the operation `io`
is called on the node, or on the target of the link that it is. -/
def fsNodeIo (io : N → σ → Option (σ → Except ErrorCode Nat × α × σ)) (empty : α) :
    Nat → N → σ → Option (Except ErrorCode Nat × α × σ)
  | 0, _, _ => none
  | depth + 1, node, w =>
      let type := nodeTypeGet (W.mode node w)
      match (W.opts node w).read, io node w with
      | none, _ => some (.error (errno ENOSYS), empty, w)
      | some _, none => some (.error (errno ENOSYS), empty, w)
      | some read, some io' =>
          if type = FS_NODE_LINK then
            let (r, path, w) := read node 0 (W.size node w) w
            match asInt r with
            | .error e => some (.error e, empty, w)
            | .ok _ =>
                match W.fsResolve (some path) w with
                | (.error e, w) => some (.error e, empty, w)
                | (.ok parentnode, w) => fsNodeIo io empty depth parentnode w
          else if type = FS_NODE_DIR then some (.error (errno EISDIR), empty, w)
          else some (io' w)

/-- `fs_node_read`, with the bytes in the buffer. -/
def fsNodeRead (depth : Nat) (node : N) (offset size : UInt32) (w : σ) :
    Option (Except ErrorCode Nat × List UInt8 × σ) :=
  W.fsNodeIo (fun node w => (W.opts node w).read.map fun read => read node offset size) []
    depth node w

/-- `fs_node_write`. -/
def fsNodeWrite (depth : Nat) (node : N) (offset : UInt32) (buff : List UInt8) (size : UInt32)
    (w : σ) : Option (Except ErrorCode Nat × Unit × σ) :=
  W.fsNodeIo
    (fun node w => (W.opts node w).write.map fun write w =>
      let (r, w) := write node offset buff size w
      (r, (), w)) ()
    depth node w

end Nodes

/-- The nodes, with their `ioctl` operations: the request and the arguments. -/
structure CtlNodes (σ N : Type*) extends Nodes σ N where
  ioctl : N → σ → Option (N → Int → List UInt32 → σ → Except ErrorCode Nat × σ)

/-- `fs_node_vioctl`. -/
def CtlNodes.fsNodeVioctl {σ N : Type*} (W : CtlNodes σ N) (depth : Nat) (node : N) (req : Int)
    (ap : List UInt32) (w : σ) : Option (Except ErrorCode Nat × Unit × σ) :=
  W.fsNodeIo
    (fun node w => (W.ioctl node w).map fun ioctl w =>
      let (r, w) := ioctl node req ap w
      (r, (), w)) ()
    depth node w

end StardustOS.Fs
