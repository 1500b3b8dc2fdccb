import StardustOS.Dev.BusDrivers
import StardustOS.Fs.Initrd
import StardustOS.Fs.NodeType

/-!
# What the memory of the heap held before

`kmalloc` clears nothing, and `fs_node_create`, `initrd_mount`, `register_bus` and
`bus_adddev` set some fields of the records they make and no others.  The functions that
use the records read more: the operations of a node that nobody set, the end of the device
list of a bus, the driver name, the resource list and the flags of a bus device.

This file makes the same calls with two contents of the memory, and `same_iff` says for
which pairs of contents nothing comes out differently.
-/

namespace StardustOS.Heap

open Lib Fs Dev

/-! ## The branches of the functions on nodes -/

/-- Where a function on nodes goes: it returns, it calls an operation, or it reads a link. -/
inductive Branch (ρ ι : Type*)
  | ret (r : Except ErrorCode Nat)
  | call (op : ι)
  | link (read : ρ)
deriving DecidableEq

/-- The branch of `fs_node_open` and `fs_node_close`. -/
def openBranch {ι : Type*} (op : Option ι) : Branch ι ι :=
  match op with
  | none => .ret (.ok 0)
  | some op => .call op

/-- The branch of `fs_node_write` and `fs_node_vioctl`. -/
def ioBranch {ρ ι : Type*} (mode : UInt32) (read : Option ρ) (io : Option ι) : Branch ρ ι :=
  match read, io with
  | some read, some io =>
      if nodeTypeGet mode = FS_NODE_LINK then .link read
      else if nodeTypeGet mode = FS_NODE_DIR then .ret (.error (errno EISDIR EISDIR_range))
      else .call io
  | _, _ => .ret (.error (errno ENOSYS ENOSYS_range))

section Functions

variable {σ N α : Type*} (W : Nodes σ N) (node : N) (w : σ)

theorem fsNodeOpen_branch (fd : Fd N) : W.fsNodeOpen node fd w =
    match openBranch (W.opts node w).openFd with
    | .ret r => (r, w)
    | .call op | .link op => op node fd w := by
  rw [Nodes.fsNodeOpen]
  cases (W.opts node w).openFd <;> rfl

theorem fsNodeClose_branch (fd : Fd N) : W.fsNodeClose node fd w =
    match openBranch (W.opts node w).closeFd with
    | .ret r => (r, w)
    | .call op | .link op => op node fd w := by
  rw [Nodes.fsNodeClose]
  cases (W.opts node w).closeFd <;> rfl

/-- `fs_node_write` and `fs_node_vioctl` are this function with an operation each. -/
theorem fsNodeIo_branch (io : N → σ → Option (σ → Except ErrorCode Nat × α × σ)) (empty : α)
    (depth : Nat) : W.fsNodeIo io empty (depth + 1) node w =
      match ioBranch (W.mode node w) (W.opts node w).read (io node w) with
      | .ret r => some (r, empty, w)
      | .call op => some (op w)
      | .link read =>
          let (r, path, w) := read node 0 (W.size node w) w
          match asInt r with
          | .error e => some (.error e, empty, w)
          | .ok _ =>
              match W.fsResolve (some path) w with
              | (.error e, w) => some (.error e, empty, w)
              | (.ok parentnode, w) => W.fsNodeIo io empty depth parentnode w := by
  rw [Nodes.fsNodeIo]
  cases (W.opts node w).read with
  | none => cases io node w <;> rfl
  | some read =>
      cases io node w with
      | none => rfl
      | some op =>
          dsimp only [ioBranch]
          split
          · rfl
          · split <;> rfl

end Functions

/-! ## The nodes of `initrd_mount` -/

/-- The operation pointers of a node that the functions read; `none` is NULL. -/
structure OpWords where
  openFd : Option Nat
  closeFd : Option Nat
  read : Option Nat
  write : Option Nat
  ioctl : Option Nat
deriving DecidableEq, Repr

namespace OpWords

/-- No operation is set. -/
def absent : OpWords := ⟨none, none, none, none, none⟩

/-- The operations of a node that `initrd_mount` makes in memory with the content: a
directory gets a `get_child`, a file gets `initrd_read`. -/
def mounted (initrdRead : Nat) (isDir : Bool) (mem : OpWords) : OpWords :=
  if isDir then mem else { mem with read := some initrdRead }

/-- The mode of such a node. -/
def mode (isDir : Bool) : UInt32 := 6 <<< (if isDir then NodeType.dir.num else NodeType.file.num)

/-- The branches of `fs_node_open`, `fs_node_close`, `fs_node_write` and `fs_node_vioctl`. -/
def branches (isDir : Bool) (ops : OpWords) : List (Branch Nat Nat) :=
  [openBranch ops.openFd, openBranch ops.closeFd, ioBranch (mode isDir) ops.read ops.write,
    ioBranch (mode isDir) ops.read ops.ioctl]

/-- On a node in memory with the content the functions go where they go when an operation
that was not set is absent. -/
def AsAbsent (initrdRead : Nat) (isDir : Bool) (mem : OpWords) : Prop :=
  branches isDir (mounted initrdRead isDir mem) =
    branches isDir (mounted initrdRead isDir absent)

/-- The memory is NULL where the functions look. -/
def Blank (isDir : Bool) (mem : OpWords) : Prop :=
  mem.openFd = none ∧ mem.closeFd = none ∧
    if isDir then
      (mem.read = none ∨ mem.write = none) ∧ (mem.read = none ∨ mem.ioctl = none)
    else mem.write = none ∧ mem.ioctl = none

theorem openBranch_eq_ret {ι : Type*} {op : Option ι} :
    openBranch op = .ret (.ok 0) ↔ op = none := by
  cases op with
  | none => exact iff_of_true rfl rfl
  | some op => exact iff_of_false (fun h => by cases h) (fun h => by cases h)

/-- `FS_NODE_TYPE_GET` takes none of these nodes for a link or a directory, so operations
that are there are called. -/
theorem ioBranch_eq_ret {ρ ι : Type*} {isDir : Bool} {read : Option ρ} {io : Option ι} :
    ioBranch (mode isDir) read io = .ret (.error (errno ENOSYS ENOSYS_range)) ↔
      read = none ∨ io = none := by
  cases read with
  | none => exact iff_of_true rfl (Or.inl rfl)
  | some read =>
      cases io with
      | none => exact iff_of_true rfl (Or.inr rfl)
      | some io =>
          have hcall : ioBranch (mode isDir) (some read) (some io) = .call io := by
            cases isDir <;> rfl
          rw [hcall]
          exact iff_of_false (fun h => by cases h) (fun h => by rcases h with h | h <;> cases h)

/-- The functions return where an operation that was not set is absent. -/
theorem asAbsent_iff_rets {initrdRead : Nat} {isDir : Bool} {mem : OpWords} :
    AsAbsent initrdRead isDir mem ↔
      (mounted initrdRead isDir mem).openFd = none ∧
      (mounted initrdRead isDir mem).closeFd = none ∧
      ((mounted initrdRead isDir mem).read = none ∨
        (mounted initrdRead isDir mem).write = none) ∧
      ((mounted initrdRead isDir mem).read = none ∨
        (mounted initrdRead isDir mem).ioctl = none) := by
  have habsent : branches isDir (mounted initrdRead isDir absent) =
      [.ret (.ok 0), .ret (.ok 0), .ret (.error (errno ENOSYS ENOSYS_range)),
        .ret (.error (errno ENOSYS ENOSYS_range))] := by
    cases isDir <;> rfl
  rw [AsAbsent, habsent, branches]
  simp only [List.cons.injEq, and_true, openBranch_eq_ret, ioBranch_eq_ret]

theorem asAbsent_iff (initrdRead : Nat) (isDir : Bool) (mem : OpWords) :
    AsAbsent initrdRead isDir mem ↔ Blank isDir mem := by
  rw [asAbsent_iff_rets, Blank]
  cases isDir with
  | true => exact Iff.rfl
  | false => simp [mounted]

section Node

variable {σ N : Type*} {W : CtlNodes σ N} {node : N} {w : σ} {isDir : Bool}

/-- The node has the kind, and the operations whose words are not NULL. -/
structure Of (W : CtlNodes σ N) (node : N) (w : σ) (isDir : Bool) (ops : OpWords) : Prop where
  mode : W.mode node w = OpWords.mode isDir
  openFd : (W.opts node w).openFd = none ↔ ops.openFd = none
  closeFd : (W.opts node w).closeFd = none ↔ ops.closeFd = none
  read : (W.opts node w).read = none ↔ ops.read = none
  write : (W.opts node w).write = none ↔ ops.write = none
  ioctl : W.ioctl node w = none ↔ ops.ioctl = none

/-- On such a node every function returns at once: opening and closing do nothing, and it is
neither written nor controlled. -/
theorem returns_of_asAbsent {initrdRead : Nat} {mem : OpWords}
    (hof : Of W node w isDir (mounted initrdRead isDir mem))
    (h : AsAbsent initrdRead isDir mem) (fd : Fd N) (depth : Nat) (offset size : UInt32)
    (buff : List UInt8) (req : Int) (ap : List UInt32) :
    W.fsNodeOpen node fd w = (.ok 0, w) ∧ W.fsNodeClose node fd w = (.ok 0, w) ∧
      W.fsNodeWrite (depth + 1) node offset buff size w =
        some (.error (errno ENOSYS ENOSYS_range), (), w) ∧
      W.fsNodeVioctl (depth + 1) node req ap w =
        some (.error (errno ENOSYS ENOSYS_range), (), w) := by
  obtain ⟨hopen, hclose, hwrite, hioctl⟩ := asAbsent_iff_rets.mp h
  have hio {op : Option Nat} {io : Option (σ → Except ErrorCode Nat × Unit × σ)}
      (hop : (mounted initrdRead isDir mem).read = none ∨ op = none)
      (hsame : op = none → io = none) :
      ioBranch (W.mode node w) (W.opts node w).read io =
        .ret (.error (errno ENOSYS ENOSYS_range)) := by
    rw [hof.mode, ioBranch_eq_ret, hof.read]
    exact hop.imp_right hsame
  refine ⟨?_, ?_, ?_, ?_⟩
  · rw [fsNodeOpen_branch, openBranch_eq_ret.mpr (hof.openFd.mpr hopen)]
  · rw [fsNodeClose_branch, openBranch_eq_ret.mpr (hof.closeFd.mpr hclose)]
  · rw [Nodes.fsNodeWrite, fsNodeIo_branch,
      hio hwrite fun hnone => by rw [hof.write.mpr hnone, Option.map_none]]
  · rw [CtlNodes.fsNodeVioctl, fsNodeIo_branch,
      hio hioctl fun hnone => by rw [hof.ioctl.mpr hnone, Option.map_none]]

end Node

end OpWords

/-- What `initrd_mount` returns and the nodes that it makes, where `kmalloc` left `head` in the
head of the list. -/
def mountedNodes (head : Nat) (zip : Zip) (mem : MountMem) (ino : UInt32) :
    Option (Except ErrorCode (List InitrdNode) × UInt32) :=
  (initrdMount head zip mem ino).map fun (r, ino) => (r.map Initrd.made, ino)

/-- The mounts return the same and make the same nodes, and on each node the functions take the
same branches with both contents, those of a node without the operations that were not set.  The
root is `none`, and the other nodes go by their entries. -/
def NodesSame (initrdRead : Nat) (zip : Zip) (mem : MountMem) (ino : UInt32) (heads : Nat × Nat)
    (c c' : Option Nat → OpWords) : Prop :=
  ∃ r, mountedNodes heads.1 zip mem ino = some r ∧ mountedNodes heads.2 zip mem ino = some r ∧
    ∀ made, r.1 = .ok made →
      (OpWords.AsAbsent initrdRead true (c none) ∧ OpWords.AsAbsent initrdRead true (c' none)) ∧
        ∀ node ∈ made, OpWords.AsAbsent initrdRead node.isDir (c (some node.index)) ∧
          OpWords.AsAbsent initrdRead node.isDir (c' (some node.index))

/-- The mount comes to a call of `liblist_add`. -/
def AddsNode (zip : Zip) (mem : MountMem) (ino : UInt32) : Prop :=
  mem.RootMade ino ∧ ∃ stat, zip.stat 0 = some stat ∧ stat.Made mem 0 (ino + 1)

/-- Both contents are NULL where the functions look. -/
def NodesBlank (zip : Zip) (mem : MountMem) (ino : UInt32) (heads : Nat × Nat)
    (c c' : Option Nat → OpWords) : Prop :=
  (AddsNode zip mem ino → heads.1 = 0 ∧ heads.2 = 0) ∧
    ∀ made ino', mountedNodes 0 zip mem ino = some (.ok made, ino') →
      (OpWords.Blank true (c none) ∧ OpWords.Blank true (c' none)) ∧
        ∀ node ∈ made, OpWords.Blank node.isDir (c (some node.index)) ∧
          OpWords.Blank node.isDir (c' (some node.index))

section Mounting

variable {head : Nat} {zip : Zip} {mem : MountMem} {ino : UInt32}

theorem mountedNodes_ended (zip : Zip) (mem : MountMem) (ino : UInt32) :
    ∃ r, mountedNodes 0 zip mem ino = some r := by
  rw [mountedNodes]
  obtain ⟨-, e, ino', herror⟩ | ⟨-, hloop⟩ := initrdMount_root zip mem ino
  · rw [herror]
    exact ⟨_, rfl⟩
  · have hended : (⟨zip, [], [], 0⟩ : Initrd).nodesEnd = 0 := rfl
    obtain ⟨out, hout⟩ := mountFrom_ended mem zip.entries 0 (ino + 1) hended
    rw [hloop, hout]
    exact ⟨_, rfl⟩

/-- The first `liblist_add` goes through what `kmalloc` left. -/
theorem mountedNodes_unended (h : AddsNode zip mem ino) (hhead : head ≠ 0) :
    mountedNodes head zip mem ino = none := by
  obtain ⟨hroot, stat, hstat, hmade⟩ := h
  obtain ⟨rest, hentries⟩ : ∃ rest, zip.entries = stat :: rest := by
    obtain ⟨hlt, hget⟩ := List.getElem?_eq_some_iff.mp hstat
    exact ⟨zip.entries.tail, by rw [← hget, List.getElem_zero, List.cons_head_tail]⟩
  obtain ⟨hnot, -⟩ | ⟨-, hloop⟩ := initrdMount_root zip mem ino
  · exact absurd hroot hnot
  · obtain ⟨hnot, -⟩ | ⟨-, hnext⟩ := mountFrom_turn mem 0 stat rest (ino + 1)
    · exact absurd hmade hnot
    · rw [mountedNodes, hloop, hentries, hnext, if_pos hhead, Option.map_none]

/-- Before it nothing depends on that. -/
theorem mountedNodes_of_not_addsNode (h : ¬ AddsNode zip mem ino) (head : Nat) :
    mountedNodes head zip mem ino = mountedNodes 0 zip mem ino := by
  rw [mountedNodes, mountedNodes]
  obtain ⟨-, e, ino', herror⟩ | ⟨hroot, hloop⟩ := initrdMount_root zip mem ino
  · rw [herror, herror]
  · rw [hloop, hloop]
    cases hentries : zip.entries with
    | nil => rfl
    | cons stat rest =>
        obtain ⟨-, e, ino', herror⟩ | ⟨hmade, -⟩ := mountFrom_turn mem 0 stat rest (ino + 1)
        · rw [herror, herror]
        · have hstat : zip.stat 0 = some stat := by
            rw [Zip.stat, hentries, List.getElem?_cons_zero]
          exact absurd ⟨hroot, stat, hstat, hmade⟩ h

/-- The mounts with both contents return the same and make the same nodes exactly when no head
that is not NULL is come to. -/
theorem mountedNodes_same_iff {heads : Nat × Nat}
    (r : Except ErrorCode (List InitrdNode) × UInt32) :
    mountedNodes heads.1 zip mem ino = some r ∧ mountedNodes heads.2 zip mem ino = some r ↔
      (AddsNode zip mem ino → heads.1 = 0 ∧ heads.2 = 0) ∧
        mountedNodes 0 zip mem ino = some r := by
  by_cases hadds : AddsNode zip mem ino
  · by_cases hheads : heads.1 = 0 ∧ heads.2 = 0
    · simp [hheads.1, hheads.2]
    · refine iff_of_false ?_ fun h => hheads (h.1 hadds)
      rintro ⟨h, h'⟩
      by_cases hhead : heads.1 = 0
      · rw [mountedNodes_unended hadds fun hhead' => hheads ⟨hhead, hhead'⟩] at h'
        cases h'
      · rw [mountedNodes_unended hadds hhead] at h
        cases h
  · rw [mountedNodes_of_not_addsNode hadds heads.1, mountedNodes_of_not_addsNode hadds heads.2]
    simp [hadds]

end Mounting

theorem nodesSame_iff (initrdRead : Nat) (zip : Zip) (mem : MountMem) (ino : UInt32)
    (heads : Nat × Nat) (c c' : Option Nat → OpWords) :
    NodesSame initrdRead zip mem ino heads c c' ↔ NodesBlank zip mem ino heads c c' := by
  obtain ⟨⟨r, ino'⟩, hr⟩ := mountedNodes_ended zip mem ino
  simp only [NodesSame, NodesBlank, OpWords.asAbsent_iff, ← and_assoc, mountedNodes_same_iff]
  simp only [and_assoc, hr, Option.some.injEq]
  constructor
  · rintro ⟨r, hheads, rfl, hnodes⟩
    refine ⟨hheads, fun made ino' h => hnodes made ?_⟩
    exact (Prod.mk.inj h).1
  · rintro ⟨hheads, hnodes⟩
    refine ⟨(r, ino'), hheads, rfl, fun made h => hnodes made ino' ?_⟩
    exact Prod.ext h rfl

/-! ## Buses -/

/-- What a walk over the whole device list of a bus sees. -/
def seen (bus : Bus) : Option (List BusDev) := if bus.devEnd = 0 then some bus.devList else none

/-- The resource lists that `unregister_bus` goes through, and frees. -/
def unregisterLists (bus : Bus) : Option (List Nat) :=
  if bus.devEnd = 0 then some (bus.devList.map BusDev.resList) else none

theorem seen_eq_some {bus : Bus} {l : List BusDev} :
    seen bus = some l ↔ bus.devEnd = 0 ∧ bus.devList = l := by
  rw [seen]
  split
  · next hend => rw [and_iff_right hend, Option.some.injEq]
  · next hend => exact iff_of_false (fun h => by cases h) fun h => hend h.1

/-- The functions on a bus depend on what is seen of its list. -/
theorem lookups_of_seen {bus bus' : Bus} {l : List BusDev} (h : seen bus = some l)
    (h' : seen bus' = some l) (devs : Devices) (name d : List UInt8) :
    bus.busGetdevbyname name = bus'.busGetdevbyname name ∧
      bus.busGetdev devs d = bus'.busGetdev devs d ∧
      (bus.busRegdev devs name d).map Prod.fst = (bus'.busRegdev devs name d).map Prod.fst ∧
      unregisterLists bus = unregisterLists bus' := by
  obtain ⟨hend, hl⟩ := seen_eq_some.mp h
  obtain ⟨hend', hl'⟩ := seen_eq_some.mp h'
  have hname : bus.busGetdevbyname name = bus'.busGetdevbyname name := by
    rw [Bus.busGetdevbyname, Bus.busGetdevbyname, Bus.found_eq hend, Bus.found_eq hend', hl, hl']
  have hdev : bus.busGetdev devs d = bus'.busGetdev devs d := by
    rw [Bus.busGetdev, Bus.busGetdev, Bus.found_eq hend, Bus.found_eq hend', hl, hl']
  refine ⟨hname, hdev, ?_, ?_⟩
  · rw [Bus.busRegdev, Bus.busRegdev, hname, hdev]
    rcases bus'.busGetdev devs d with _ | _ | dev
    · rfl
    · rcases bus'.busGetdevbyname name with _ | _ | bdev
      · rfl
      · rfl
      · dsimp only [Option.bind_eq_bind, Option.bind_some]
        split <;> rfl
    · rfl
  · rw [unregisterLists, unregisterLists, if_pos hend, if_pos hend', hl, hl']

/-- A call of `bus_adddev`, with two contents of the memory for the bus device. -/
structure AddCall where
  name : List UInt8
  block : Option (BusDev × BusDev)

/-- The calls of `bus_adddev`, with their results. -/
def addDevs (bus : Bus) : List (List UInt8 × Option BusDev) → Option (List Int × Bus)
  | [] => some ([], bus)
  | (name, block) :: calls =>
      (bus.busAdddev name block).bind fun (r, bus) =>
        (addDevs bus calls).map fun (rs, bus) => (r :: rs, bus)

/-- The results of the calls and what is seen of the list after them. -/
def observed (bus : Bus) (calls : List (List UInt8 × Option BusDev)) :
    Option (List Int × List BusDev) :=
  (addDevs bus calls).bind fun (rs, bus) => (seen bus).map fun l => (rs, l)

/-- The calls with the first content. -/
def firsts (calls : List AddCall) : List (List UInt8 × Option BusDev) :=
  calls.map fun call => (call.name, call.block.map Prod.fst)

/-- The calls with the second content. -/
def seconds (calls : List AddCall) : List (List UInt8 × Option BusDev) :=
  calls.map fun call => (call.name, call.block.map Prod.snd)

/-- The calls that add a bus device find the same driver name, resource list and flags in
both contents.  The names are those of the bus devices there are. -/
def CallsAgree : List (List UInt8) → List AddCall → Prop
  | _, [] => True
  | names, call :: calls =>
      if call.name ∈ names then CallsAgree names calls
      else
        match call.block with
        | none => CallsAgree names calls
        | some (mem, mem') =>
            call.name.length < NAME_MAX ∧ mem.dname = mem'.dname ∧ mem.resList = mem'.resList ∧
              mem.flags = mem'.flags ∧ CallsAgree (call.name :: names) calls

section Adding

variable {bus bus' : Bus} {name : List UInt8}

/-- A bus device stays where it is, counted from the end of the list. -/
theorem busAdddev_suffix (hend : bus.devEnd = 0) {block : Option BusDev} {r : Int}
    (h : bus.busAdddev name block = some (r, bus')) :
    bus'.devEnd = 0 ∧ bus.devList <:+ bus'.devList := by
  by_cases hname : name ∈ bus.devList.map BusDev.name
  · rw [Bus.busAdddev_known hend hname] at h
    cases h
    exact ⟨hend, List.suffix_rfl⟩
  · rw [Bus.busAdddev_new hend hname] at h
    cases block with
    | none =>
        cases h
        exact ⟨hend, List.suffix_rfl⟩
    | some mem =>
        dsimp only at h
        split at h
        · cases h
          exact ⟨hend, List.suffix_cons _ _⟩
        · cases h

theorem addDevs_suffix (hend : bus.devEnd = 0) {calls : List (List UInt8 × Option BusDev)}
    {rs : List Int} (h : addDevs bus calls = some (rs, bus')) : bus.devList <:+ bus'.devList := by
  induction calls generalizing bus rs with
  | nil =>
      cases h
      exact List.suffix_rfl
  | cons call calls ih =>
      obtain ⟨⟨r, bus₁⟩, hadd, h⟩ := Option.bind_eq_some_iff.mp h
      obtain ⟨⟨rs', bus₂⟩, hrest, heq⟩ := Option.map_eq_some_iff.mp h
      cases heq
      obtain ⟨hend₁, hsuffix⟩ := busAdddev_suffix hend hadd
      exact hsuffix.trans (ih hend₁ hrest)

theorem observed_cons (bus : Bus) (name : List UInt8) (block : Option BusDev)
    (calls : List (List UInt8 × Option BusDev)) :
    observed bus ((name, block) :: calls) = (bus.busAdddev name block).bind fun (r, bus) =>
      (observed bus calls).map fun (rs, l) => (r :: rs, l) := by
  rw [observed, addDevs]
  cases bus.busAdddev name block with
  | none => rfl
  | some res =>
      simp only [Option.bind_some, observed]
      cases addDevs res.2 calls with
      | none => rfl
      | some res' =>
          simp only [Option.map_some, Option.bind_some]
          cases seen res'.2 <;> rfl

/-- Where the calls on two buses return the same and leave the same to be seen, the functions
on them give the same afterwards. -/
theorem lookups_same {calls calls' : List (List UInt8 × Option BusDev)} {rs : List Int}
    {l : List BusDev} (h : observed bus calls = some (rs, l))
    (h' : observed bus' calls' = some (rs, l)) (devs : Devices) (name d : List UInt8) :
    ∃ left left', addDevs bus calls = some (rs, left) ∧ addDevs bus' calls' = some (rs, left') ∧
      left.busGetdevbyname name = left'.busGetdevbyname name ∧
      left.busGetdev devs d = left'.busGetdev devs d ∧
      (left.busRegdev devs name d).map Prod.fst = (left'.busRegdev devs name d).map Prod.fst ∧
      unregisterLists left = unregisterLists left' := by
  obtain ⟨⟨rs₁, left⟩, hadd, hseen⟩ := Option.bind_eq_some_iff.mp h
  obtain ⟨⟨rs₂, left'⟩, hadd', hseen'⟩ := Option.bind_eq_some_iff.mp h'
  obtain ⟨_, hl, heq⟩ := Option.map_eq_some_iff.mp hseen
  obtain ⟨_, hl', heq'⟩ := Option.map_eq_some_iff.mp hseen'
  cases heq
  cases heq'
  exact ⟨left, left', hadd, hadd', lookups_of_seen hl hl' devs name d⟩

/-- What is seen in the end has the bus devices that were there. -/
theorem observed_suffix (hend : bus.devEnd = 0) {calls : List (List UInt8 × Option BusDev)}
    {rs : List Int} {l : List BusDev} (h : observed bus calls = some (rs, l)) :
    bus.devList <:+ l := by
  obtain ⟨⟨rs', bus'⟩, hadd, hseen⟩ := Option.bind_eq_some_iff.mp h
  obtain ⟨l', hl, heq⟩ := Option.map_eq_some_iff.mp hseen
  cases heq
  rw [← (seen_eq_some.mp hl).2]
  exact addDevs_suffix hend hadd

/-- What is put before both observations alike makes no difference. -/
theorem exists_same_map {α β : Type*} {f : α → β} (hf : Function.Injective f) {x y : Option α} :
    (∃ o, x.map f = some o ∧ y.map f = some o) ↔ ∃ o, x = some o ∧ y = some o := by
  constructor
  · rintro ⟨o, hx, hy⟩
    obtain ⟨a, rfl, ha⟩ := Option.map_eq_some_iff.mp hx
    obtain ⟨b, rfl, hb⟩ := Option.map_eq_some_iff.mp hy
    exact ⟨a, rfl, congrArg some (hf (hb.trans ha.symm))⟩
  · rintro ⟨o, rfl, rfl⟩
    exact ⟨_, rfl, rfl⟩

theorem cons_fst_injective (r : Int) :
    Function.Injective fun (rs, l) => ((r :: rs, l) : List Int × List BusDev) := by
  rintro ⟨rs, l⟩ ⟨rs', l'⟩ h
  cases h
  rfl

/-- Lists of one length that are seen alike in the end are alike. -/
theorem devList_eq_of_observed (hend : bus.devEnd = 0) (hend' : bus'.devEnd = 0)
    (hlen : bus.devList.length = bus'.devList.length)
    {calls calls' : List (List UInt8 × Option BusDev)}
    (h : ∃ o, observed bus calls = some o ∧ observed bus' calls' = some o) :
    bus.devList = bus'.devList := by
  obtain ⟨⟨rs, l⟩, hobs, hobs'⟩ := h
  have hsuffix := List.suffix_of_suffix_length_le (observed_suffix hend hobs)
    (observed_suffix hend' hobs') hlen.le
  exact hsuffix.eq_of_length hlen

/-- What the contents have in common when the new records are the same. -/
theorem record_eq_iff (name : List UInt8) (mem mem' : BusDev) :
    ({ mem with name := name } : BusDev) = { mem' with name := name } ↔
      mem.dname = mem'.dname ∧ mem.resList = mem'.resList ∧ mem.flags = mem'.flags := by
  rw [BusDev.mk.injEq]
  simp only [true_and]

/-- With a bus device added to both, what comes after is observed alike exactly when the
records are the same and it is observed alike from there. -/
theorem observed_withDev_iff (hend : bus.devEnd = 0) (dev dev' : BusDev)
    (calls calls' : List (List UInt8 × Option BusDev)) :
    (∃ o, observed (bus.withDev dev) calls = some o ∧
        observed (bus.withDev dev') calls' = some o) ↔
      dev = dev' ∧ ∃ o, observed (bus.withDev dev) calls = some o ∧
        observed (bus.withDev dev) calls' = some o := by
  constructor
  · intro h
    have hlist : (bus.withDev dev).devList = (bus.withDev dev').devList :=
      devList_eq_of_observed hend hend rfl h
    obtain rfl := (List.cons.inj hlist).1
    exact ⟨rfl, h⟩
  · rintro ⟨rfl, h⟩
    exact h

/-- The calls are observed alike exactly when the contents agree. -/
theorem observed_same_iff (hend : bus.devEnd = 0) (calls : List AddCall) :
    (∃ o, observed bus (firsts calls) = some o ∧ observed bus (seconds calls) = some o) ↔
      CallsAgree (bus.devList.map BusDev.name) calls := by
  induction calls generalizing bus with
  | nil =>
      refine iff_of_true ⟨([], bus.devList), ?_, ?_⟩ trivial
      · simp [observed, addDevs, firsts, seen, hend]
      · simp [observed, addDevs, seconds, seen, hend]
  | cons call calls ih =>
      rw [firsts, seconds, List.map_cons, List.map_cons, observed_cons, observed_cons, ← firsts,
        ← seconds, CallsAgree]
      by_cases hname : call.name ∈ bus.devList.map BusDev.name
      · rw [if_pos hname, Bus.busAdddev_known hend hname, Bus.busAdddev_known hend hname, ← ih hend]
        exact exists_same_map (cons_fst_injective _)
      · rw [if_neg hname, Bus.busAdddev_new hend hname, Bus.busAdddev_new hend hname]
        cases hblock : call.block with
        | none =>
            dsimp only
            rw [← ih hend]
            exact exists_same_map (cons_fst_injective _)
        | some block =>
            obtain ⟨mem, mem'⟩ := block
            dsimp only [Option.map_some]
            by_cases hlen : call.name.length < NAME_MAX
            · rw [if_pos hlen, if_pos hlen, Option.bind_some, Option.bind_some,
                and_iff_right hlen]
              rw [exists_same_map (cons_fst_injective _)]
              dsimp only
              rw [observed_withDev_iff hend, record_eq_iff, and_assoc, and_assoc]
              refine and_congr_right fun _ => and_congr_right fun _ => and_congr_right fun _ => ?_
              exact ih hend
            · rw [if_neg hlen, if_neg hlen]
              exact iff_of_false (fun ⟨o, h, _⟩ => by cases h) fun h => hlen h.1

end Adding

/-- `register_bus` and the calls of `bus_adddev` on the bus that it makes: their results, and
what is seen of the device list. -/
def afterCalls (type : Option (List UInt8)) (name : List UInt8) (block : Option Nat)
    (calls : List (List UInt8 × Option BusDev)) : Option (Int × List Int × List BusDev) :=
  (Bus.registerBus type name block).bind fun
    | (r, none) => some (r, [], [])
    | (r, some bus) => (observed bus calls).map fun (rs, l) => (r, rs, l)

/-- With both contents the calls are defined, return the same, and leave the same list. -/
def BusesSame (type : Option (List UInt8)) (name : List UInt8) (block : Option (Nat × Nat))
    (calls : List AddCall) : Prop :=
  ∃ o, afterCalls type name (block.map Prod.fst) (firsts calls) = some o ∧
    afterCalls type name (block.map Prod.snd) (seconds calls) = some o

/-- The name or the type is too long for `register_bus`. -/
def TooLong (type : Option (List UInt8)) (name : List UInt8) : Prop :=
  (∃ t ∈ type, t.length > NAME_MAX) ∨ name.length > NAME_MAX

/-- The name or the type leaves no room for its NUL. -/
def Full (type : Option (List UInt8)) (name : List UInt8) : Prop :=
  (∃ t ∈ type, t.length = NAME_MAX) ∨ name.length = NAME_MAX

/-- The device list starts with NULL in both contents, and the calls that add a bus device
find contents that agree. -/
def BusesAgree (type : Option (List UInt8)) (name : List UInt8) (block : Option (Nat × Nat))
    (calls : List AddCall) : Prop :=
  TooLong type name ∨
    ∀ heads ∈ block, ¬ Full type name ∧ heads.1 = 0 ∧ heads.2 = 0 ∧ CallsAgree [] calls

section Registering

variable {type : Option (List UInt8)} {name : List UInt8}

theorem registerBus_long (h : TooLong type name) (block : Option Nat) :
    Bus.registerBus type name block = some (-ENAMETOOLONG, none) := if_pos h

theorem registerBus_none (h : ¬ TooLong type name) :
    Bus.registerBus type name none = some (-ENOMEM, none) := if_neg h

theorem registerBus_full (h : ¬ TooLong type name) (hfull : Full type name) (head : Nat) :
    Bus.registerBus type name (some head) = none := (if_neg h).trans (if_pos hfull)

theorem registerBus_made (h : ¬ TooLong type name) (hfull : ¬ Full type name) (head : Nat) :
    Bus.registerBus type name (some head) = some (0, some ⟨name, [], head, 0⟩) :=
  (if_neg h).trans (if_neg hfull)

/-- A list that does not end with NULL is not seen, and nothing can be added to it. -/
theorem observed_unended {bus : Bus} (hlist : bus.devList = []) (hend : bus.devEnd ≠ 0)
    (calls : List (List UInt8 × Option BusDev)) : observed bus calls = none := by
  cases calls with
  | nil => simp [observed, addDevs, seen, hend]
  | cons call calls =>
      rw [observed_cons]
      have hnone : bus.call ⟨[], 0⟩ (.adddev call.1 call.2) = none :=
        Bus.call_eq_none hlist hend _
      rw [Bus.call] at hnone
      rw [hnone]
      rfl

theorem afterCalls_made (h : ¬ TooLong type name) (hfull : ¬ Full type name) (head : Nat)
    (calls : List (List UInt8 × Option BusDev)) : afterCalls type name (some head) calls =
      (observed ⟨name, [], head, 0⟩ calls).map (Prod.mk 0) := by
  rw [afterCalls, registerBus_made h hfull]
  rfl

end Registering

theorem busesSame_iff (type : Option (List UInt8)) (name : List UInt8)
    (block : Option (Nat × Nat)) (calls : List AddCall) :
    BusesSame type name block calls ↔ BusesAgree type name block calls := by
  rw [BusesSame, BusesAgree]
  by_cases hlong : TooLong type name
  · have hafter : ∀ block calls,
        afterCalls type name block calls = some (-ENAMETOOLONG, [], []) := by
      intro block calls
      rw [afterCalls, registerBus_long hlong]
      rfl
    exact iff_of_true ⟨_, hafter _ _, hafter _ _⟩ (Or.inl hlong)
  · rw [or_iff_right hlong]
    cases block with
    | none =>
        have hafter : ∀ calls, afterCalls type name none calls = some (-ENOMEM, [], []) := by
          intro calls
          rw [afterCalls, registerBus_none hlong]
          rfl
        exact iff_of_true ⟨_, hafter _, hafter _⟩ fun heads h => by cases h
    | some heads =>
        simp only [Option.map_some, Option.mem_def, Option.some.injEq, forall_eq']
        by_cases hfull : Full type name
        · refine iff_of_false ?_ fun h => h.1 hfull
          rintro ⟨o, h, -⟩
          rw [afterCalls, registerBus_full hlong hfull] at h
          cases h
        · rw [and_iff_right hfull, afterCalls_made hlong hfull, afterCalls_made hlong hfull,
            exists_same_map (Prod.mk_right_injective 0)]
          obtain ⟨head, head'⟩ := heads
          dsimp only
          by_cases hhead : head = 0
          · by_cases hhead' : head' = 0
            · rw [hhead, hhead', and_iff_right rfl, and_iff_right rfl]
              exact observed_same_iff rfl calls
            · rw [observed_unended rfl hhead' (seconds calls)]
              refine iff_of_false ?_ fun h => hhead' h.2.1
              rintro ⟨o, -, h⟩
              cases h
          · rw [observed_unended rfl hhead (firsts calls)]
            refine iff_of_false ?_ fun h => hhead h.1
            rintro ⟨o, h, -⟩
            cases h

/-! ## Both -/

/-- What the heap held before makes no difference to the nodes of a mounted archive and to
a bus with its devices exactly when the two contents are blank and agree where they are
read. -/
theorem same_iff (initrdRead : Nat) (zip : Zip) (mem : MountMem) (ino : UInt32)
    (heads : Nat × Nat) (c c' : Option Nat → OpWords) (type : Option (List UInt8))
    (name : List UInt8) (block : Option (Nat × Nat)) (calls : List AddCall) :
    NodesSame initrdRead zip mem ino heads c c' ∧ BusesSame type name block calls ↔
      NodesBlank zip mem ino heads c c' ∧ BusesAgree type name block calls :=
  and_congr (nodesSame_iff initrdRead zip mem ino heads c c')
    (busesSame_iff type name block calls)

/-- Memory for the mount of an archive. -/
def allFound : MountMem := ⟨true, true, true, fun _ => true, fun _ => true, fun _ => true⟩

/-- The root of an empty archive, in zeroed memory and in memory that holds a pointer where
`open` is. -/
theorem not_same :
    ¬ (NodesSame 0x200000 ⟨[], 0⟩ allFound 0 (0, 0) (fun _ => OpWords.absent)
        (fun _ => { OpWords.absent with openFd := some 0x1000 }) ∧
      BusesSame none [112] (some (0, 0)) []) := by
  rintro ⟨⟨r, hmount, -, h⟩, -⟩
  obtain rfl := Option.some.inj hmount
  have hroot := (h _ rfl).1.2
  cases (List.cons.inj hroot).1

end StardustOS.Heap
