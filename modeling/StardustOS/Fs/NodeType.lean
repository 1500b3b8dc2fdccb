import StardustOS.Fs.NodeIo
import Mathlib.Tactic.Common

/-!
# The type of a node

A mode holds the type of its node and the permissions.  `FS_NODE_TYPE_SET` puts
`6 << type` in it and `FS_NODE_TYPE_GET` takes out `mode >> 6`, so the type comes
back only where the permissions make up for the difference (`PermOk`): never for
a link and a block device, and for a directory only if they are from 128 on and
below 192.

`TypeAgrees` is the contract of the two macros and of the three functions that
look at the type.  These functions look at the operations first, so it asks for
operations as well (`OptsOk`).
-/

namespace StardustOS.Fs

/-- `FS_NODE_FILE` to `FS_NODE_CHR`. -/
inductive NodeType where
  | file
  | dir
  | sock
  | link
  | blk
  | chr
deriving DecidableEq, Repr

/-- The number of a type. -/
def NodeType.num : NodeType → UInt32
  | file => 1
  | dir => FS_NODE_DIR
  | sock => 3
  | link => FS_NODE_LINK
  | blk => 5
  | chr => 6

/-- `FS_NODE_TYPE_SET`. -/
def nodeTypeSet (mode : UInt32) (type : NodeType) : UInt32 := mode ||| (6 <<< type.num)

/-- Which of the operations of a node are set. -/
structure HasOpts where
  read : Bool
  write : Bool
  ioctl : Bool
deriving DecidableEq, Repr

namespace CtlNodes

variable {σ N α : Type*} (W : CtlNodes σ N) (node : N) (w : σ)

/-- The node has these operations and no others. -/
structure Has (has : HasOpts) : Prop where
  read : (W.opts node w).read.isSome = has.read
  write : (W.opts node w).write.isSome = has.write
  ioctl : (W.ioctl node w).isSome = has.ioctl

/-- A function on nodes with the depth of its calls answers as it should on a
node of the type: on a directory with an error and without an operation, on a
link as on the target that the link's `read` names, and otherwise with the
node's own operation `own`. -/
def Answers (type : NodeType) (call : Nat → N → σ → Option (Except ErrorCode Nat × α × σ))
    (own : Option (σ → Except ErrorCode Nat × α × σ)) (empty : α) : Prop :=
  match type with
  | .dir => ∀ depth, call (depth + 1) node w = some (.error (errno EISDIR EISDIR_range), empty, w)
  | .link =>
      ∃ read, (W.opts node w).read = some read ∧ ∀ depth, call (depth + 1) node w =
        let (r, path, w) := read node 0 (W.size node w) w
        match asInt r with
        | .error e => some (.error e, empty, w)
        | .ok _ =>
            match W.fsResolve (some path) w with
            | (.error e, w) => some (.error e, empty, w)
            | (.ok parentnode, w) => call depth parentnode w
  | .file | .sock | .blk | .chr =>
      ∀ op, own = some op → ∀ depth, call (depth + 1) node w = some (op w)

/-- `fs_node_read`, `fs_node_write` and `fs_node_vioctl` answer as they should. -/
structure Dispatches (type : NodeType) : Prop where
  read : ∀ offset size, W.Answers node w type
    (fun depth node w => W.fsNodeRead depth node offset size w)
    ((W.opts node w).read.map fun read => read node offset size) []
  write : ∀ offset buff size, W.Answers node w type
    (fun depth node w => W.fsNodeWrite depth node offset buff size w)
    ((W.opts node w).write.map fun write w =>
      let (r, w) := write node offset buff size w
      (r, (), w)) ()
  ioctl : ∀ req ap, W.Answers node w type
    (fun depth node w => W.fsNodeVioctl depth node req ap w)
    ((W.ioctl node w).map fun ioctl w =>
      let (r, w) := ioctl node req ap w
      (r, (), w)) ()

end CtlNodes

universe u v

/-- Every node whose mode was made of these permissions and this type, and that
has these operations, is found to be of the type and treated as such. -/
def TypeAgrees (type : NodeType) (perm : UInt32) (has : HasOpts) : Prop :=
  ∀ (σ : Type u) (N : Type v) (W : CtlNodes σ N) (node : N) (w : σ),
    W.mode node w = nodeTypeSet perm type → W.Has node w has →
      nodeTypeGet (W.mode node w) = type.num ∧ W.Dispatches node w type

/-- What the permissions have to be from bit 6 on. -/
def PermOk (type : NodeType) (perm : UInt32) : Prop :=
  match type with
  | .file => perm.toNat / 64 = 1
  | .dir => perm.toNat / 64 = 2
  | .sock => perm.toNat / 64 = 3
  | .chr => perm.toNat / 64 ∈ [0, 2, 4, 6]
  | .link | .blk => False

/-- A directory has all operations, and any other node that can be written or
controlled can be read. -/
def OptsOk (type : NodeType) (has : HasOpts) : Prop :=
  match type with
  | .dir => has.read ∧ has.write ∧ has.ioctl
  | _ => has.write ∨ has.ioctl → has.read

/-! ## The macros -/

/-- What `FS_NODE_TYPE_GET` takes out of a mode. -/
theorem toNat_nodeTypeGet (mode : UInt32) : (nodeTypeGet mode).toNat = mode.toNat / 64 := by
  rw [nodeTypeGet, UInt32.toNat_shiftRight, Nat.shiftRight_eq_div_pow]
  rfl

theorem toNat_nodeTypeGet_set (perm : UInt32) (type : NodeType) :
    (nodeTypeGet (nodeTypeSet perm type)).toNat =
      perm.toNat / 64 ||| (6 <<< type.num : UInt32).toNat / 64 := by
  rw [toNat_nodeTypeGet, nodeTypeSet, UInt32.toNat_or]
  exact Nat.or_div_two_pow (n := 6)

/-- What gives `n` together with the bits of `m` is not above `n`. -/
theorem or_eq_iff {q m n : Nat} {l : List Nat}
    (hl : (List.range (n + 1)).filter (fun q => q ||| m = n) = l) : q ||| m = n ↔ q ∈ l := by
  rw [← hl, List.mem_filter, List.mem_range, decide_eq_true_eq]
  constructor
  · rintro rfl
    exact ⟨Nat.lt_succ_of_le Nat.left_le_or, rfl⟩
  · exact And.right

/-- The permissions under which the type comes back. -/
theorem nodeTypeGet_iff (type : NodeType) (perm : UInt32) :
    nodeTypeGet (nodeTypeSet perm type) = type.num ↔ PermOk type perm := by
  rw [← UInt32.toNat_inj, toNat_nodeTypeGet_set]
  cases type with
  | file => exact (or_eq_iff (l := [1]) (by decide)).trans List.mem_singleton
  | dir => exact (or_eq_iff (l := [2]) (by decide)).trans List.mem_singleton
  | sock => exact (or_eq_iff (l := [3]) (by decide)).trans List.mem_singleton
  | link => exact (or_eq_iff (l := []) (by decide)).trans (iff_false_intro List.not_mem_nil)
  | blk => exact (or_eq_iff (l := []) (by decide)).trans (iff_false_intro List.not_mem_nil)
  | chr => exact or_eq_iff (by decide)

/-! ## The functions -/

namespace CtlNodes

variable {σ N α : Type*} {W : CtlNodes σ N} {node : N} {w : σ}
  {io : N → σ → Option (σ → Except ErrorCode Nat × α × σ)} {empty : α}

/-- Without a `read` or without its own operation a node gives `-ENOSYS`. -/
theorem fsNodeIo_unset (h : (W.opts node w).read = none ∨ io node w = none) (depth : Nat) :
    W.fsNodeIo io empty (depth + 1) node w = some (.error (errno ENOSYS), empty, w) := by
  rw [Nodes.fsNodeIo]
  cases hread : (W.opts node w).read with
  | none => rfl
  | some read =>
      rw [hread] at h
      rw [h.resolve_left nofun]

/-- With them, a node that is neither a link nor a directory calls the
operation. -/
theorem fsNodeIo_own {op : σ → Except ErrorCode Nat × α × σ}
    (hread : (W.opts node w).read.isSome) (hio : io node w = some op)
    (hlink : nodeTypeGet (W.mode node w) ≠ FS_NODE_LINK)
    (hdir : nodeTypeGet (W.mode node w) ≠ FS_NODE_DIR) (depth : Nat) :
    W.fsNodeIo io empty (depth + 1) node w = some (op w) := by
  obtain ⟨read, hread⟩ := Option.isSome_iff_exists.mp hread
  simp only [Nodes.fsNodeIo, hread, hio, hlink, hdir, ↓reduceIte]

/-- With them, a directory gives `-EISDIR`. -/
theorem fsNodeIo_dir (hread : (W.opts node w).read.isSome) (hio : (io node w).isSome)
    (hdir : nodeTypeGet (W.mode node w) = FS_NODE_DIR) (depth : Nat) :
    W.fsNodeIo io empty (depth + 1) node w = some (.error (errno EISDIR), empty, w) := by
  obtain ⟨read, hread⟩ := Option.isSome_iff_exists.mp hread
  obtain ⟨op, hio⟩ := Option.isSome_iff_exists.mp hio
  have hlink : FS_NODE_DIR ≠ FS_NODE_LINK := by decide
  simp only [Nodes.fsNodeIo, hread, hio, hdir, hlink, ↓reduceIte]

/-- What the functions have in common answers as it should, when the node has
the operations for it. -/
theorem answers_fsNodeIo {type : NodeType} {perm : UInt32} (hperm : PermOk type perm)
    (htype : nodeTypeGet (W.mode node w) = type.num)
    (hdir : type = .dir → (io node w).isSome)
    (hread : type = .dir ∨ (io node w).isSome → (W.opts node w).read.isSome) :
    W.Answers node w type (fun depth node w => W.fsNodeIo io empty depth node w) (io node w)
      empty := by
  have hown : type.num ≠ FS_NODE_LINK → type.num ≠ FS_NODE_DIR → ∀ op, io node w = some op →
      ∀ depth, W.fsNodeIo io empty (depth + 1) node w = some (op w) := by
    intro hlink hdir op hop depth
    rw [← htype] at hlink hdir
    exact fsNodeIo_own (hread (Or.inr (by rw [hop]; rfl))) hop hlink hdir depth
  cases type with
  | dir => exact fsNodeIo_dir (hread (Or.inl rfl)) (hdir rfl) htype
  | link => exact hperm.elim
  | file => exact hown (by decide) (by decide)
  | sock => exact hown (by decide) (by decide)
  | blk => exact hperm.elim
  | chr => exact hown (by decide) (by decide)

/-- With the operations that the type asks for, all three functions answer as
they should. -/
theorem dispatches_of_optsOk {type : NodeType} {perm : UInt32} {has : HasOpts}
    (hhas : W.Has node w has) (hperm : PermOk type perm)
    (htype : nodeTypeGet (W.mode node w) = type.num) (hopts : OptsOk type has) :
    W.Dispatches node w type := by
  have hdir : type = .dir → has.read ∧ has.write ∧ has.ioctl := by
    rintro rfl
    exact hopts
  have hread : type = .dir ∨ has.write ∨ has.ioctl → has.read := by
    rintro (hd | hown)
    · exact (hdir hd).1
    · cases type with
      | dir => exact hopts.1
      | file | sock | link | blk | chr => exact hopts hown
  refine ⟨fun offset size => ?_, fun offset buff size => ?_, fun req ap => ?_⟩
  · refine answers_fsNodeIo hperm htype ?_ ?_
    · rw [Option.isSome_map, hhas.read]
      exact fun hd => (hdir hd).1
    · rw [Option.isSome_map, hhas.read]
      exact fun h => h.elim (fun hd => (hdir hd).1) id
  · refine answers_fsNodeIo hperm htype ?_ ?_
    · rw [Option.isSome_map, hhas.write]
      exact fun hd => (hdir hd).2.1
    · rw [Option.isSome_map, hhas.write, hhas.read]
      exact fun h => hread (h.imp_right Or.inl)
  · refine answers_fsNodeIo hperm htype ?_ ?_
    · rw [Option.isSome_map, hhas.ioctl]
      exact fun hd => (hdir hd).2.2
    · rw [Option.isSome_map, hhas.ioctl, hhas.read]
      exact fun h => hread (h.imp_right Or.inr)

/-! ## A node of any kind -/

/-- One node of the mode, whose operations return 0. -/
def probe (mode : UInt32) (has : HasOpts) : CtlNodes PUnit.{u + 1} PUnit.{v + 1} where
  mode _ _ := mode
  size _ _ := 0
  opts _ _ :=
    { openFd := none
      closeFd := none
      read := if has.read then some fun _ _ _ w => (.ok 0, [], w) else none
      write := if has.write then some fun _ _ _ _ w => (.ok 0, w) else none }
  fsResolve _ w := (.error (errno ENOENT ENOENT_range), w)
  ioctl _ _ := if has.ioctl then some fun _ _ _ w => (.ok 0, w) else none

theorem probe_has (mode : UInt32) (has : HasOpts) : (probe mode has).Has ⟨⟩ ⟨⟩ has := by
  constructor
  · simp only [probe]; split <;> simp_all
  · simp only [probe]; split <;> simp_all
  · simp only [probe]; split <;> simp_all

/-- A directory that gives `-EISDIR` has the operations. -/
theorem set_of_answers_dir (h : W.Answers node w .dir
    (fun depth node w => W.fsNodeIo io empty depth node w) (io node w) empty) :
    (W.opts node w).read.isSome ∧ (io node w).isSome := by
  have hset : ¬ ((W.opts node w).read = none ∨ io node w = none) := by
    intro hnone
    have heq := (h 0).symm.trans (fsNodeIo_unset hnone 0)
    simp [errno, EISDIR, ENOSYS] at heq
  rw [not_or] at hset
  exact ⟨Option.isSome_iff_ne_none.mpr hset.1, Option.isSome_iff_ne_none.mpr hset.2⟩

/-- A node whose own operation is called, and succeeds, has a `read`. -/
theorem set_of_answers_own {type : NodeType} (hlink : type ≠ .link) (hdir : type ≠ .dir)
    (h : W.Answers node w type (fun depth node w => W.fsNodeIo io empty depth node w) (io node w)
      empty) (op : σ → Except ErrorCode Nat × α × σ) (hop : io node w = some op) {n : Nat}
    (hok : (op w).1 = .ok n) : (W.opts node w).read.isSome := by
  have hcalled : W.fsNodeIo io empty 1 node w = some (op w) := by
    cases type with
    | dir => exact absurd rfl hdir
    | link => exact absurd rfl hlink
    | file | sock | blk | chr => exact h op hop 0
  rw [Option.isSome_iff_ne_none]
  intro hnone
  have heq := hcalled.symm.trans (fsNodeIo_unset (Or.inl hnone) 0)
  rw [Option.some.inj heq] at hok
  cases hok

/-- The probe shows which operations the type asks for. -/
theorem optsOk_of_dispatches {mode : UInt32} {type : NodeType} {has : HasOpts}
    (hlink : type ≠ .link) (h : (probe.{u, v} mode has).Dispatches ⟨⟩ ⟨⟩ type) :
    OptsOk type has := by
  have hhas := probe_has.{u, v} mode has
  by_cases hdir : type = .dir
  · subst hdir
    obtain ⟨hread, -⟩ := set_of_answers_dir (h.read 0 0)
    obtain ⟨-, hwrite⟩ := set_of_answers_dir (h.write 0 [] 0)
    obtain ⟨-, hioctl⟩ := set_of_answers_dir (h.ioctl 0 [])
    rw [Option.isSome_map] at hwrite hioctl
    exact ⟨hhas.read ▸ hread, hhas.write ▸ hwrite, hhas.ioctl ▸ hioctl⟩
  · have hread : has.write ∨ has.ioctl → has.read := by
      rintro (hwrite | hioctl)
      · exact hhas.read ▸ set_of_answers_own hlink hdir (h.write 0 [] 0)
          (fun w => (.ok 0, (), w)) (by simp [probe, hwrite]) rfl
      · exact hhas.read ▸ set_of_answers_own hlink hdir (h.ioctl 0 [])
          (fun w => (.ok 0, (), w)) (by simp [probe, hioctl]) rfl
    cases type with
    | dir => exact absurd rfl hdir
    | file | sock | link | blk | chr => exact hread

end CtlNodes

/-- The macros and the functions agree on a type, permissions and operations
exactly under the two conditions. -/
theorem typeAgrees_iff (type : NodeType) (perm : UInt32) (has : HasOpts) :
    TypeAgrees.{u, v} type perm has ↔ PermOk type perm ∧ OptsOk type has := by
  constructor
  · intro h
    obtain ⟨hget, hdisp⟩ := h _ _ (CtlNodes.probe _ has) ⟨⟩ ⟨⟩ rfl (CtlNodes.probe_has _ has)
    have hperm : PermOk type perm := (nodeTypeGet_iff type perm).mp hget
    refine ⟨hperm, CtlNodes.optsOk_of_dispatches ?_ hdisp⟩
    rintro rfl
    exact hperm
  · rintro ⟨hperm, hopts⟩ σ N W node w hmode hhas
    have htype : nodeTypeGet (W.mode node w) = type.num := by
      rw [hmode]
      exact (nodeTypeGet_iff type perm).mpr hperm
    exact ⟨htype, CtlNodes.dispatches_of_optsOk hhas hperm htype hopts⟩

/-- The directories of the initial ramdisk have the mode `6 << FS_NODE_DIR`.  No
type comes back from it, and a read of such a directory calls its operation. -/
theorem typeAgrees_wrong :
    ¬ TypeAgrees.{0, 0} .dir 0 ⟨true, true, true⟩ ∧ nodeTypeGet (nodeTypeSet 0 .dir) = 0 ∧
      (CtlNodes.probe.{0, 0} (nodeTypeSet 0 .dir) ⟨true, true, true⟩).fsNodeRead 1 ⟨⟩ 0 0 ⟨⟩ =
        some (.ok 0, [], ⟨⟩) := by
  refine ⟨?_, by decide, ?_⟩
  · intro h
    obtain ⟨hget, -⟩ := h _ _ (CtlNodes.probe _ _) ⟨⟩ ⟨⟩ rfl (CtlNodes.probe_has _ _)
    exact absurd hget (by decide)
  · rfl

end StardustOS.Fs
