import Mathlib.Data.Nat.Digits.Lemmas
import StardustOS.Fs.Initrd
import StardustOS.Fs.NodeType
import StardustOS.Libc.Vsnprintf
import StardustOS.Process.Steps

/-!
# The process file system

`procfs.c`: the root lists a directory for each process.  The nodes are kept in a
list, which is read by the index of the process, and which `procfs_cleanup` goes
through when its length is not the number of processes.

The names are made with `%lu`, for which `vsnprintf` stores the number and a `u`
(`snprintf_lu`).  So no name is a decimal number, and `get_child` does what it should
for no index that has a process (`children_right_iff`).
-/

namespace StardustOS.Fs

open Lib Libc Process

/-! ## Names -/

/-- `snprintf` into an array of the given size on the stack, as a string. -/
def snprintf (stack : Nat → UInt8) (size : Nat) (format : List UInt8) (ap : List Arg) :
    Option (List UInt8) :=
  (vsnprintf stack size format ap).map fun out => cstr ((List.range size).map out.mem) 0

/-- `snprintf(name, NAME_MAX, "%lu", n)`. -/
def luName (stack : Nat → UInt8) (n : UInt32) : Option (List UInt8) :=
  snprintf stack NAME_MAX (asciiText ['%', 'l', 'u']) [.word n]

/-! ## The source -/

/-- A node of a process, with the address of the node. -/
structure ProcfsNode where
  addr : Nat
  name : List UInt8
  mode : UInt32
  ino : Nat
  impl : Option Nat
deriving DecidableEq, Repr

/-- `procs`, with the processes and `next_inode`. -/
structure Procfs (κ : Type*) where
  procs : Procs κ
  nodes : List ProcfsNode
  nextInode : UInt32

namespace Procfs

variable {κ : Type*} (s : Procfs κ)

/-- The loop of `procfs_cleanup` from index `i` on.  The list gets no longer, so it
makes at most as many turns as the list has nodes at the start. -/
def cleanupLoop (stack : Nat → UInt8) : Nat → Nat → List ProcfsNode → Option (List ProcfsNode)
  | 0, _, nodes => some nodes
  | turns + 1, i, nodes =>
      match nodes[i]? with
      | none => some nodes
      | some node => do
          let (_, proc) ← s.procs.processGet i
          let name ← luName stack proc.id
          if node.impl = none ∨ strcmp name node.name ≠ 0 then
            cleanupLoop stack turns (i + 1) (nodes.eraseP fun n => n.addr = node.addr)
          else cleanupLoop stack turns (i + 1) nodes

/-- `procfs_cleanup`. -/
def procfsCleanup (stack : Nat → UInt8) : Option (Procfs κ) :=
  if s.nodes.length ≠ s.procs.processCount then
    (s.cleanupLoop stack s.nodes.length 0 s.nodes).map fun nodes => { s with nodes }
  else some s

/-- `procfs_get_child` without `procfs_cleanup`, on the node at `node`.  `block` is what
`kmalloc` returns for a new node, and `listMem` says whether there is memory for its
place in the list. -/
def findChild (stack : Nat → UInt8) (node : Nat) (index : UInt32) (block : Option Nat)
    (listMem : Bool) : Option (Except ErrorCode ProcfsNode × Procfs κ) :=
  if (s.nodes.any fun n => n.addr = node) = true then
    some (.error (errno ENOENT ENOENT_range), s)
  else if index.toNat ≥ s.procs.processCount then some (.error (errno ENOENT ENOENT_range), s)
  else
    match s.nodes[index.toNat]? with
    | some child => some (.ok child, s)
    | none =>
        (luName stack index).bind fun name =>
        let (r, nextInode) := fsNodeCreate block.isSome name s.nextInode
        let s := { s with nextInode }
        match asInt r with
        | .error e => some (.error e, s)
        | .ok ino =>
            let child : ProcfsNode :=
              { addr := block.getD 0
                name := name
                mode := 6 <<< FS_NODE_DIR
                ino := ino
                impl := (s.procs.processGet index.toNat).map Prod.fst }
            if (s.nodes.any fun n => n.addr = child.addr) = true then
              some (.error (errno EEXIST EEXIST_range), s)
            else if !listMem then some (.error (errno ENOMEM ENOMEM_range), s)
            else some (.ok child, { s with nodes := child :: s.nodes })

/-- `procfs_get_child`. -/
def procfsGetChild (stack : Nat → UInt8) (node : Nat) (index : UInt32) (block : Option Nat)
    (listMem : Bool) : Option (Except ErrorCode ProcfsNode × Procfs κ) :=
  (s.procfsCleanup stack).bind fun s => s.findChild stack node index block listMem

end Procfs

/-- A call of `proc.c`, or of `get_child` on the root. -/
inductive ProcfsCall
  | proc (c : ProcCall)
  | getChild (stack : Nat → UInt8) (root : Nat) (index : UInt32) (block : Option Nat)
      (listMem : Bool)

namespace Procfs

variable {κ : Type*} (K : Kernel κ)

/-- One call. -/
def step (s : Procfs κ) : ProcfsCall → Option (Procfs κ)
  | .proc c => (s.procs.step K c).map fun procs => { s with procs }
  | .getChild stack root index block listMem =>
      (s.procfsGetChild stack root index block listMem).map Prod.snd

/-- The node stands for the process at the index: a directory named by its pid, with the
process, held in the list. -/
structure Shows (s : Procfs κ) (node : ProcfsNode) (index : Nat) : Prop where
  process : ∃ a P, s.procs.processGet index = some (a, P) ∧ node.impl = some a ∧
    node.name = unsignedText 10 P.id.toNat
  directory : node.mode = 6 <<< FS_NODE_DIR
  held : node ∈ s.nodes

/-- A lookup fails with `ENOENT` beyond the processes, and gives a node of the process
below. -/
def Right (s : Procfs κ) : ProcfsCall → Prop
  | .proc _ => True
  | .getChild stack root index block listMem =>
      ∃ r s', s.procfsGetChild stack root index block listMem = some (r, s') ∧
        if s.procs.processCount ≤ index.toNat then r = .error (errno ENOENT ENOENT_range)
        else ∃ node, r = .ok node ∧ s'.Shows node index.toNat

/-- There is no process at the index. -/
def Beyond (s : Procfs κ) : ProcfsCall → Prop
  | .proc _ => True
  | .getChild _ _ index _ _ => s.procs.processCount ≤ index.toNat

end Procfs

/-! ## The names -/

/-- A text that fits with its NUL is read back from the array. -/
theorem cstr_store {size : Nat} {text : List UInt8} (htext : 0 ∉ text) (hfit : text.length < size)
    (mem : Nat → UInt8) :
    cstr ((List.range size).map (store mem 0 (text ++ [0]))) 0 = text := by
  obtain ⟨k, rfl⟩ := Nat.exists_eq_add_of_lt hfit
  have hbyte : ∀ j, store mem 0 (text ++ [0]) j = (text ++ [0]).getD j (mem j) := by
    intro j
    rw [store_apply, if_pos (Nat.zero_le j), Nat.sub_zero]
  have hprefix : (List.range text.length).map (store mem 0 (text ++ [0])) = text := by
    refine List.ext_getElem (by simp) fun j h1 h2 => ?_
    simp [hbyte, List.getD_eq_getElem?_getD, List.getElem?_append_left h2,
      List.getElem?_eq_getElem h2]
  rw [Nat.add_assoc, List.range_add, List.map_append, hprefix, List.range_succ_eq_map,
    List.map_cons, List.map_cons]
  have hnul : store mem 0 (text ++ [0]) (text.length + 0) = 0 := by
    simp [hbyte, List.getD_eq_getElem?_getD]
  rw [hnul]
  exact cstr_append [] htext

/-- The digits of a decimal number. -/
theorem digit_of_mem {n : Nat} {c : UInt8} (h : c ∈ unsignedText 10 n) :
    48 ≤ c.toNat ∧ c.toNat < 58 := by
  have hdigit : ∀ d < 10, 48 ≤ (digit d).toNat ∧ (digit d).toNat < 58 := by decide
  obtain ⟨d, hd, rfl⟩ := List.mem_map.mp h
  refine hdigit d ?_
  rw [numeral] at hd
  split at hd
  · rw [List.mem_singleton.mp hd]
    omega
  · exact Nat.digits_lt_base (by omega) (List.mem_reverse.mp hd)

theorem length_unsignedText_le {n k : Nat} (hk : 0 < k) (hn : n < 10 ^ k) :
    (unsignedText 10 n).length ≤ k := by
  rw [unsignedText, List.length_map, numeral]
  split
  · exact hk
  · rw [List.length_reverse]
    exact (Nat.digits_length_le_iff (by omega) n).mpr hn

/-- `%lu` stores the number and a `u`. -/
theorem snprintf_lu (stack : Nat → UInt8) (n : UInt32) :
    luName stack n = some (unsignedText 10 n.toNat ++ [ascii 'u']) := by
  have hrender : render Conv.stored [.conv .lu] [.word n] =
      some (unsignedText 10 n.toNat ++ [ascii 'u']) := by
    simp [render, Conv.stored]
  have hnul : 0 ∉ unsignedText 10 n.toNat ++ [ascii 'u'] := by
    intro h0
    rcases List.mem_append.mp h0 with hdigit | hu
    · exact absurd (digit_of_mem hdigit).1 (by decide)
    · exact absurd (List.mem_singleton.mp hu) (by decide)
  have hfit : (unsignedText 10 n.toNat ++ [ascii 'u']).length < NAME_MAX := by
    have hlen := length_unsignedText_le (k := 10) (n := n.toNat) (by omega)
      (n.toNat_lt.trans (by norm_num))
    rw [List.length_append, List.length_singleton, NAME_MAX]
    omega
  rw [luName, snprintf, show asciiText ['%', 'l', 'u'] = formatBytes [.conv .lu] from rfl,
    vsnprintf_pieces hrender stack hfit]
  exact congrArg some (cstr_store hnul hfit stack)

/-- The name that is made for a process is no decimal number. -/
theorem lu_ne_decimal (n m : Nat) : unsignedText 10 n ++ [ascii 'u'] ≠ unsignedText 10 m := by
  intro h
  have hu : ascii 'u' ∈ unsignedText 10 m := by
    rw [← h]
    exact List.mem_append_right _ (List.mem_singleton.mpr rfl)
  have hlt := (digit_of_mem hu).2
  revert hlt
  decide

/-! ## Lookups -/

namespace Procfs

variable {κ : Type*} {s : Procfs κ}

/-- While the list is empty there is nothing to clean up. -/
theorem procfsCleanup_nil (h : s.nodes = []) (stack : Nat → UInt8) :
    s.procfsCleanup stack = some s := by
  rw [procfsCleanup, h]
  split
  · rw [List.length_nil, cleanupLoop, ← h]
    rfl
  · rfl

theorem findChild_beyond (h : s.nodes = []) {index : UInt32}
    (hindex : s.procs.processCount ≤ index.toNat) (stack : Nat → UInt8) (root : Nat)
    (block : Option Nat) (listMem : Bool) :
    s.findChild stack root index block listMem = some (.error (errno ENOENT ENOENT_range), s) := by
  rw [findChild, h, List.any_nil, if_neg Bool.false_ne_true, if_pos hindex]

/-- A node that is made has a name with a `u`. -/
theorem findChild_name (h : s.nodes = []) {stack : Nat → UInt8} {root : Nat} {index : UInt32}
    {block : Option Nat} {listMem : Bool} {node : ProcfsNode} {s' : Procfs κ}
    (hcall : s.findChild stack root index block listMem = some (.ok node, s')) :
    node.name = unsignedText 10 index.toNat ++ [ascii 'u'] := by
  rw [findChild, h, List.any_nil, if_neg Bool.false_ne_true, List.getElem?_nil, snprintf_lu,
    Option.bind_some] at hcall
  dsimp only at hcall
  split at hcall
  · cases hcall
  · split at hcall
    · cases hcall
    · split at hcall
      · cases hcall
      · split at hcall
        · cases hcall
        · cases hcall
          rfl

/-- While the list is empty a lookup is right only beyond the processes. -/
theorem right_iff (h : s.nodes = []) (c : ProcfsCall) : s.Right c ↔ s.Beyond c := by
  cases c with
  | proc c => exact Iff.rfl
  | getChild stack root index block listMem =>
      rw [Right, Beyond, procfsGetChild, procfsCleanup_nil h, Option.bind_some]
      constructor
      · rintro ⟨r, s', hcall, hright⟩
        by_contra hindex
        rw [if_neg hindex] at hright
        obtain ⟨node, rfl, ⟨a, P, -, -, hname⟩, -⟩ := hright
        rw [findChild_name h hcall] at hname
        exact lu_ne_decimal _ _ hname
      · intro hindex
        exact ⟨_, s, findChild_beyond h hindex stack root block listMem, by rw [if_pos hindex]⟩

/-- The list stays empty. -/
theorem step_nodes_nil {K : Kernel κ} {s' : Procfs κ} (h : s.nodes = []) {c : ProcfsCall}
    (hright : s.Right c) (hstep : s.step K c = some s') : s'.nodes = [] := by
  cases c with
  | proc c =>
      obtain ⟨procs, -, rfl⟩ := Option.map_eq_some_iff.mp hstep
      exact h
  | getChild stack root index block listMem =>
      have hindex := (right_iff h _).mp hright
      rw [step, procfsGetChild, procfsCleanup_nil h, Option.bind_some,
        findChild_beyond h hindex] at hstep
      cases hstep
      exact h

/-- The lookups of a run from boot are right exactly when all of them are made beyond the
processes. -/
theorem children_right_iff (K : Kernel κ) (procs : Procs κ) (nextInode : UInt32)
    (calls : List ProcfsCall) :
    Meets (step K) Right ⟨procs, [], nextInode⟩ calls ↔
      Meets (step K) Beyond ⟨procs, [], nextInode⟩ calls :=
  meets_congr (I := fun s => s.nodes = []) (Q := fun _ => True)
    (fun _ c hs _ => right_iff hs c) (fun _ _ _ hs _ hright hstep => step_nodes_nil hs hright hstep)
    calls rfl fun _ _ => trivial

/-- The first process is looked up, and its node is called "0u". -/
theorem not_children_right :
    ¬ Meets (step Procs.small) Right ⟨Procs.smallBoot, [], 0⟩
        [.proc (.procCreate none [97] 0), .getChild (fun _ => 0) 1 0 (some 2) true] := by
  rintro ⟨-, h⟩
  have hcount : (step Procs.small ⟨Procs.smallBoot, [], 0⟩ (.proc (.procCreate none [97] 0))).map
      (fun s => (s.nodes, s.procs.processCount)) = some ([], 1) := rfl
  obtain ⟨s, hs, heq⟩ := Option.map_eq_some_iff.mp hcount
  obtain ⟨hnodes, hone⟩ := Prod.mk.inj heq
  have hbeyond : s.procs.processCount ≤ 0 := (right_iff hnodes _).mp (h s hs).1
  omega

end Procfs

end StardustOS.Fs
