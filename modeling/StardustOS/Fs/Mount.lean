import StardustOS.Fs.Node

/-!
# Mountpoints

The part of `fs.c` on mountpoints: the list `mountpoints`, newest first, its
counter, and `fs_resolve`, which picks a mountpoint for a path.

The targets in the list have lost a leading slash.  `mountpoint_create_fromnode`
removes it, and so does `mountpoint_create` before it calls that function.
`mountpoint_fromtarget` and `mountpoint_destroy` compare their argument as it
is.

`fs_resolve` cuts the path that it is given, as `fs_node_resolve` does, so
`mountpoint_create` stores what is left of its source.

The names have the size of their fields in the source and `strcpy` does not
check it.  Longer names are kept whole here.
-/

namespace StardustOS.Fs

open Libc

/-- `MS_BIND`: bit 0 of the flags. -/
def MS_BIND : Nat := 0

/-- `mountpoint_t`. -/
structure Mountpoint where
  rootnode : Option FsNode
  fsname : CStr
  source : CStr
  target : CStr
  flags : Nat

/-- `fs_t`, with the `mount` operation.  Nothing calls `umount`. -/
structure FsType where
  name : CStr
  /-- The result, and `*targetptr` after the call, for what it was before, the
  source, the flags and the data. -/
  mount : Option FsNode → Option FsNode → Nat → Option (List UInt8) → Int × Option FsNode

/-- A call of an operation of a file system. -/
inductive FsCall where
  | mount (name : CStr)
  | umount (name : CStr)
deriving DecidableEq

/-- The static data of `fs.c` on mountpoints, and the calls of file system
operations, newest first. -/
structure Mounts where
  mountpoints : List Mountpoint
  mpCount : Nat
  fsCalls : List FsCall

/-- Nothing is mounted. -/
def Mounts.boot : Mounts := ⟨[], 0, []⟩

/-! ## Lookup -/

/-- `mountpoint_fromsrc`. -/
def mountpointFromsrc (mps : List Mountpoint) (src : List UInt8) : Option Mountpoint :=
  mps.find? fun mp => strcmp mp.source.1 (cstr src 0) = 0

/-- `mountpoint_fromtarget`, for a pointer into the array `target`. -/
def mountpointFromtarget (mps : List Mountpoint) (target : List UInt8) (p : Nat) :
    Option Mountpoint :=
  mps.find? fun mp => strcmp mp.target.1 (cstr target p) = 0

/-- The mountpoint that `fs_resolve` uses, its root node, and the pointer that
is passed to `fs_node_resolve`. -/
structure Entry where
  mp : Mountpoint
  root : FsNode
  path : Nat

/-- A mountpoint with its root node, unless that is NULL. -/
def Mountpoint.withRoot (mp : Mountpoint) : Option (Mountpoint × FsNode) :=
  mp.rootnode.map fun root => (mp, root)

/-- `fs_resolve` up to the call of `fs_node_resolve`. -/
def fsResolveMount (mps : List Mountpoint) (buf : List UInt8) (path : Nat) : Except Int Entry :=
  let p := skipSlash buf path
  let mp := mps.find? fun mp => strncmp (cstr buf p) mp.target.1 mp.target.1.length = 0
  match mp.bind Mountpoint.withRoot with
  | some (mp, root) => .ok ⟨mp, root, p + mp.target.1.length⟩
  | none =>
      -- No target matched, or the mountpoint has no root node.
      match (mountpointFromtarget mps [slash] 0).bind Mountpoint.withRoot with
      | some (mp, root) => .ok ⟨mp, root, p + mp.target.1.length⟩
      | none => .error (-EINVAL)

/-- `fs_resolve`, with the path as it leaves it. -/
def fsResolve (mps : List Mountpoint) : Option (List UInt8) → Resolved × Option (List UInt8)
  | none => (.error (-EINVAL), none)
  | some buf =>
      match fsResolveMount mps buf 0 with
      | .error r => (.error r, some buf)
      | .ok e =>
          let (r, buf) := fsNodeResolve e.root buf e.path
          (r, some buf)

/-! ## Mounting -/

namespace Mounts

variable (s : Mounts)

/-- `SLIST_INSERT_HEAD(&mountpoints, mp, mp_list); mp_count++`. -/
def insert (mp : Mountpoint) : Mounts :=
  { s with mountpoints := mp :: s.mountpoints, mpCount := (s.mpCount + 1) % 2 ^ 32 }

/-- `mountpoint_create_fromnode`, for a pointer into the array `target`.  `mem`
is what `kmalloc` returns: NULL, or memory with these contents. -/
def mountpointCreateFromnode (mem : Option Mountpoint) (fs : Option FsType)
    (source : Option FsNode) (target : List UInt8) (p : Nat) (flags : Nat)
    (data : Option (List UInt8)) : Int × Mounts :=
  let bind := flags.testBit MS_BIND
  if !bind && fs.isNone then (-EINVAL, s)
  else
    match mem with
    | none => (-ENOMEM, s)
    | some mp =>
        let mp := { mp with target := .read target (skipSlash target p), flags := flags }
        match if bind then none else fs with
        | none => (0, s.insert { mp with rootnode := source })
        | some fs =>
            let (r, rootnode) := fs.mount mp.rootnode source flags data
            let s := { s with fsCalls := .mount fs.name :: s.fsCalls }
            if r < 0 then (r, s)
            else (0, s.insert { mp with fsname := fs.name, rootnode := rootnode })

/-- `mountpoint_create`, with the source as it leaves it.  It does not return
when a directory has no `get_child`, or when it does not find the mountpoint
that it created. -/
def mountpointCreate (mem : Option Mountpoint) (fs : Option FsType) (src : Option (List UInt8))
    (target : List UInt8) (flags : Nat) (data : Option (List UInt8)) :
    Option (Int × Option (List UInt8) × Mounts) :=
  if !flags.testBit MS_BIND && fs.isNone then some (-EINVAL, src, s)
  else if (src.bind (mountpointFromsrc s.mountpoints)).isSome ||
      (mountpointFromtarget s.mountpoints target 0).isSome then some (-EBUSY, src, s)
  else
    let p := skipSlash target 0
    match fsResolve s.mountpoints src with
    | (.fault, _) => none
    | (.error r, src) => some (r, src, s)
    | (.found sourcenode, src) =>
        let (r, s) := s.mountpointCreateFromnode mem fs (some sourcenode) target p flags data
        if r < 0 then some (r, src, s)
        else
          match s.mountpoints.findIdx? fun mp => strcmp mp.target.1 (cstr target p) = 0 with
          | none => none
          | some i =>
              let copy := fun mp : Mountpoint => { mp with source := .read (src.getD []) 0 }
              some (0, src, { s with mountpoints := s.mountpoints.modify i copy })

/-- `mountpoint_destroy`. -/
def mountpointDestroy (target : List UInt8) : Int × Mounts :=
  match mountpointFromtarget s.mountpoints target 0 with
  | none => (-EINVAL, s)
  | some _ =>
      (0, { s with
        mountpoints := s.mountpoints.eraseP fun mp => strcmp mp.target.1 (cstr target 0) = 0
        mpCount := (s.mpCount + (2 ^ 32 - 1)) % 2 ^ 32 })

end Mounts

end StardustOS.Fs
