import StardustOS.Fs.Initrd
import StardustOS.Lib.HeapTrace
import Mathlib.Logic.Relation

/-!
# What a failed mount of the initial ramdisk leaves

`initrd_mount` again, now with what it does to the heap: the blocks it is given,
uses and gives back, the pointers it stores in them, and `*targetptr`.  The list
`nodes` ends with NULL here.

Once the root has its node, a failure frees that node and leaves `*targetptr`
pointing to it (`mountRunFrom_error`), whatever else it frees; and a failure of
`mz_zip_reader_init` asks for the last error of an archive that has just been
freed.  So a mount fails cleanly only before it has anything to undo
(`failsCleanly_iff`).
-/

namespace StardustOS.Fs

open Libc Lib

/-! ## Blocks and pointers -/

/-- The blocks a mount asks for: the `struct initrd`, what the zip reader keeps for
itself, the root's node, and for each entry the `struct initrd_node`, the node and
its cell of the list. -/
inductive MountBlock where
  | initrd
  | reader (k : Nat)
  | root
  | initrdNode (i : Nat)
  | node (i : Nat)
  | listNode (i : Nat)
deriving DecidableEq

/-- What the calls find: beside memory, whether `mz_zip_reader_file_stat` succeeds
for an entry, and how many blocks the zip reader keeps once it is set up. -/
structure MountEnv extends MountMem where
  stat : Nat → Bool
  readerBlocks : Nat

/-- What a mount did so far: the trace of the heap, the pointers that were stored
in blocks, from block to block, and `*targetptr`, as far as it points to one. -/
structure MountHeap where
  events : List (HeapEvent MountBlock)
  links : List (MountBlock × MountBlock)
  target : Option MountBlock

namespace MountHeap

variable (h : MountHeap)

def log (es : List (HeapEvent MountBlock)) : MountHeap := { h with events := h.events ++ es }

def link (ls : List (MountBlock × MountBlock)) : MountHeap := { h with links := h.links ++ ls }

def setTarget (t : Option MountBlock) : MountHeap := { h with target := t }

@[simp] theorem target_log (es : List (HeapEvent MountBlock)) : (h.log es).target = h.target :=
  rfl

@[simp] theorem target_link (ls : List (MountBlock × MountBlock)) :
    (h.link ls).target = h.target := rfl

@[simp] theorem events_log (es : List (HeapEvent MountBlock)) :
    (h.log es).events = h.events ++ es := rfl

/-- A block that is reached from `*targetptr`. -/
def Reaches (b : MountBlock) : Prop :=
  ∃ a, h.target = some a ∧ Relation.ReflTransGen (fun x y => (x, y) ∈ h.links) a b

/-- Every block was given back once and not used after that, and none of them is
reached any more. -/
structure LeavesNothing : Prop where
  freed : run heapStep [] h.events = some []
  unreached : ∀ b, h.Reaches b → .free b ∉ h.events

end MountHeap

/-! ## `initrd_mount` -/

variable (env : MountEnv)

/-- A call that is given the archive and reads what the reader keeps of it. -/
def readerUses : List (HeapEvent MountBlock) :=
  .use .initrd :: (List.range env.readerBlocks).map fun k => .use (.reader k)

/-- What `fs_node_create` does to the heap, by its result. -/
def nodeEvents (b : MountBlock) : Except ErrorCode Nat → List (HeapEvent MountBlock)
  | .error _ => []
  | .ok _ => [.alloc b, .use b]

/-- What it leaves in the pointer it is given, for a name that fits. -/
def nodePtr (b : MountBlock) : Except ErrorCode Nat → Option MountBlock
  | .error _ => none
  | .ok _ => some b

/-- `liblist_add` of the node of entry `i`.  `liblist_indexof` goes through the
whole list and does not find it. -/
def addNode (i : Nat) (nodes : List Nat) (h : MountHeap) : MountHeap :=
  let h := h.log (.use .initrd :: nodes.map fun k => .use (.listNode k))
  if env.listNode i then
    (h.log [.alloc (.listNode i), .use (.listNode i), .use .initrd]).link
      ((.listNode i, .node i) :: (.initrd, .listNode i) ::
        nodes.head?.toList.map fun k => (.listNode i, .listNode k))
  else h

/-- The loop of `initrd_mount`. -/
def mountRunFrom : Nat → List ZipEntry → UInt32 → Initrd → MountHeap →
    (Except ErrorCode Initrd × UInt32) × MountHeap
  | _, [], ino, s, h => ((.ok s, ino), h.log [.use .initrd])
  | i, stat :: rest, ino, s, h =>
      let h := h.log [.use .initrd]
      if !env.initrdNode i then
        ((.error (errno ENOMEM ENOMEM_range), ino), h.log [.free .initrd, .free .root])
      else
        let h := h.log (.alloc (.initrdNode i) :: readerUses env)
        if !env.stat i then
          -- the last error is read from the archive in the freed block
          ((.error (errno EINVAL EINVAL_range), ino),
            h.log [.free .initrd, .free .root, .free (.initrdNode i), .use .initrd])
        else
          let h := h.log [.use (.initrdNode i)]
          let (r, ino) := fsNodeCreate (env.node i) stat.nodeName ino
          let h := h.log (nodeEvents (.node i) r)
          match asInt r with
          | .error e =>
              ((.error e, ino), h.log [.free .initrd, .free .root, .free (.initrdNode i)])
          | .ok _ =>
              let h := (h.log [.use (.initrdNode i), .use (.node i)]).link
                [(.initrdNode i, .initrd), (.node i, .initrdNode i)]
              mountRunFrom (i + 1) rest ino
                { s with
                  made := s.made ++ [stat.node i]
                  nodes := if env.listNode i then i :: s.nodes else s.nodes }
                (addNode env i s.nodes h)

/-- `initrd_mount`. -/
def initrdMountRun (zip : Zip) (ino : UInt32) : (Except ErrorCode Initrd × UInt32) × MountHeap :=
  let h : MountHeap := ⟨[], [], none⟩
  if !env.initrd then ((.error (errno ENOMEM ENOMEM_range), ino), h)
  else
    let h := h.log [.alloc .initrd, .use .initrd]
    if !env.reader then
      -- the last error is read from the archive in the freed block
      ((.error (errno EINVAL EINVAL_range), ino), h.log [.free .initrd, .use .initrd])
    else
      let h := h.log ((List.range env.readerBlocks).map fun k => .alloc (.reader k))
      let (r, ino) := fsNodeCreate env.root [slash] ino
      let h := (h.log (nodeEvents .root r)).setTarget (nodePtr .root r)
      match asInt r with
      | .error e => ((.error e, ino), h.log [.free .initrd])
      | .ok _ =>
          mountRunFrom env 0 zip.entries ino ⟨zip, [], [], 0⟩
            ((h.log [.use .root]).link [(.root, .initrd)])

/-! ## The results are those of `initrdMount` -/

variable {env}

theorem mountRunFrom_result (hstat : ∀ i, env.stat i = true) (rest : List ZipEntry) (i : Nat)
    (ino : UInt32) {s : Initrd} (hend : s.nodesEnd = 0) (h : MountHeap) :
    mountFrom env.toMountMem i rest ino s = some (mountRunFrom env i rest ino s h).1 := by
  induction rest generalizing i ino s h with
  | nil => rfl
  | cons stat rest ih =>
      rw [mountRunFrom, mountFrom]
      simp only [hstat i, Bool.not_true, Bool.false_eq_true, if_false, hend, ne_eq, not_true]
      split
      · rfl
      · cases hr : asInt (fsNodeCreate (env.node i) stat.nodeName ino).1 with
        | error e => rfl
        | ok n => exact ih _ _ (by rfl) _

/-- Where every entry can be looked at, the result is that of `initrdMount` with NULL in the
head of the list. -/
theorem initrdMountRun_result (hstat : ∀ i, env.stat i = true) (zip : Zip) (ino : UInt32) :
    initrdMount 0 zip env.toMountMem ino = some (initrdMountRun env zip ino).1 := by
  rw [initrdMountRun, initrdMount]
  split
  · rfl
  · split
    · rfl
    · cases hr : asInt (fsNodeCreate env.root [slash] ino).1 with
      | error e => simp only [hr]
      | ok n =>
          simp only [hr]
          exact mountRunFrom_result hstat _ _ _ rfl _

/-! ## The loop -/

variable (env)

/-- The turn of the loop for entry `i` makes its node. -/
structure EntryMade (i : Nat) (e : ZipEntry) (ino : UInt32) : Prop where
  initrdNode : env.initrdNode i = true
  stat : env.stat i = true
  fits : e.nodeName.length ≤ NAME_MAX
  node : env.node i = true
  ino : ino.toNat < 2 ^ 31

variable {env}

/-- A mount that fails when the root has its node, which is freed and still in
`*targetptr`. -/
structure Dangles (r : (Except ErrorCode Initrd × UInt32) × MountHeap) : Prop where
  error : ∃ e, r.1.1 = .error e
  target : r.2.target = some .root
  freed : .free .root ∈ r.2.events

theorem Dangles.not_leavesNothing {r : (Except ErrorCode Initrd × UInt32) × MountHeap}
    (hr : Dangles r) : ¬ r.2.LeavesNothing :=
  fun h => h.unreached .root ⟨.root, hr.target, .refl⟩ hr.freed

@[simp] theorem target_addNode (i : Nat) (nodes : List Nat) (h : MountHeap) :
    (addNode env i nodes h).target = h.target := by
  rw [addNode]
  split
  · rfl
  · rfl

/-- One turn of the loop makes the node and goes on, or ends the mount. -/
theorem mountRunFrom_step (i : Nat) (e : ZipEntry) (rest : List ZipEntry) (ino : UInt32)
    (s : Initrd) {h : MountHeap} (ht : h.target = some .root) :
    (EntryMade env i e ino ∧ ∃ s' h', h'.target = some .root ∧
      mountRunFrom env i (e :: rest) ino s h = mountRunFrom env (i + 1) rest (ino + 1) s' h') ∨
    (¬ EntryMade env i e ino ∧ Dangles (mountRunFrom env i (e :: rest) ino s h)) := by
  have hcreate := asInt_fsNodeCreate_iff e.nodeName (env.node i) ino
  rw [mountRunFrom]
  cases hnode : env.initrdNode i with
  | false =>
      have hnot : ¬ EntryMade env i e ino := fun hm => by simp [hm.initrdNode] at hnode
      exact Or.inr ⟨hnot, ⟨_, rfl⟩, ht, by simp⟩
  | true =>
      cases hstat : env.stat i with
      | false =>
          have hnot : ¬ EntryMade env i e ino := fun hm => by simp [hm.stat] at hstat
          exact Or.inr ⟨hnot, ⟨_, rfl⟩, ht, by simp⟩
      | true =>
          simp only [Bool.not_true, Bool.false_eq_true, if_false]
          cases hr : asInt (fsNodeCreate (env.node i) e.nodeName ino).1 with
          | error r =>
              have hnot : ¬ EntryMade env i e ino := by
                intro hm
                obtain ⟨n, hn⟩ := hcreate.mpr ⟨hm.fits, hm.node, hm.ino⟩
                simp [hr] at hn
              exact Or.inr ⟨hnot, ⟨_, rfl⟩, ht, by simp⟩
          | ok n =>
              obtain ⟨hfits, hmem, hino⟩ := hcreate.mp ⟨n, hr⟩
              rw [fsNodeCreate_next hfits hmem]
              exact Or.inl ⟨⟨hnode, hstat, hfits, hmem, hino⟩, _, _, by simpa using ht, rfl⟩

/-- The loop ends well when every turn makes its node, and else in a mount that
dangles. -/
theorem mountRunFrom_ends (rest : List ZipEntry) (i : Nat) (ino : UInt32) (s : Initrd)
    {h : MountHeap} (ht : h.target = some .root) :
    ((∀ k e, rest[k]? = some e → EntryMade env (i + k) e (ino + UInt32.ofNat k)) ∧
      ∃ s', (mountRunFrom env i rest ino s h).1.1 = .ok s') ∨
    ((¬ ∀ k e, rest[k]? = some e → EntryMade env (i + k) e (ino + UInt32.ofNat k)) ∧
      Dangles (mountRunFrom env i rest ino s h)) := by
  induction rest generalizing i ino s h with
  | nil => exact Or.inl ⟨by simp, s, rfl⟩
  | cons e rest ih =>
      have hshift : ∀ k, ino + 1 + UInt32.ofNat k = ino + UInt32.ofNat (k + 1) := by
        intro k
        rw [UInt32.ofNat_add, UInt32.add_assoc, UInt32.add_comm 1]
        rfl
      obtain ⟨hmade, s', h', ht', hstep⟩ | ⟨hnot, hd⟩ := mountRunFrom_step i e rest ino s ht
      · rw [hstep]
        obtain ⟨hall, hok⟩ | ⟨hsome, hd⟩ := ih (i + 1) (ino + 1) s' ht'
        · refine Or.inl ⟨?_, hok⟩
          intro k e' hk
          cases k with
          | zero =>
              cases hk
              simpa using hmade
          | succ k =>
              rw [← hshift k, ← Nat.succ_add_eq_add_succ]
              exact hall k e' hk
        · refine Or.inr ⟨?_, hd⟩
          intro hall
          refine hsome ?_
          intro k e' hk
          rw [hshift k, Nat.add_right_comm]
          exact hall (k + 1) e' hk
      · refine Or.inr ⟨?_, hd⟩
        intro hall
        exact hnot (by simpa using hall 0 e rfl)

/-! ## The whole mount -/

variable (env)

/-- Nothing a mount needs is missing. -/
structure AllMade (zip : Zip) (ino : UInt32) : Prop where
  initrd : env.initrd = true
  reader : env.reader = true
  root : env.root = true
  rootIno : ino.toNat < 2 ^ 31
  entries : ∀ k e, zip.stat k = some e → EntryMade env k e (ino + 1 + UInt32.ofNat k)

/-- Either there is no memory for the `struct initrd`, or the reader is set up
without a block of its own and there is no memory for the root, or nothing fails. -/
def FailsCleanly (zip : Zip) (ino : UInt32) : Prop :=
  env.initrd = false ∨
    (env.reader = true ∧ env.root = false ∧ env.readerBlocks = 0) ∨ AllMade env zip ino

/-- When the mount fails, it leaves nothing behind. -/
def FailureLeavesNothing (zip : Zip) (ino : UInt32) : Prop :=
  ∀ e, (initrdMountRun env zip ino).1.1 = .error e → (initrdMountRun env zip ino).2.LeavesNothing

variable {env} {zip : Zip} {ino : UInt32}

theorem failureLeavesNothing_of_error (hfails : ∃ e, (initrdMountRun env zip ino).1.1 = .error e) :
    FailureLeavesNothing env zip ino ↔ (initrdMountRun env zip ino).2.LeavesNothing := by
  obtain ⟨e, he⟩ := hfails
  exact ⟨fun h => h e he, fun h _ _ => h⟩

/-- A block that was handed out was given back. -/
theorem MountHeap.LeavesNothing.free_mem {h : MountHeap} (hh : h.LeavesNothing) {b : MountBlock}
    (hb : .alloc b ∈ h.events) : .free b ∈ h.events := free_mem_of_run hh.freed hb

theorem fsNodeCreate_root (mem : Bool) (ino : UInt32) : fsNodeCreate mem [slash] ino =
    if mem then (.ok ino.toNat, ino + 1) else (.error (errno ENOMEM), ino) := by
  rw [fsNodeCreate, if_neg (by decide)]
  cases mem with
  | false => rfl
  | true => rfl

/-- Without memory for the `struct initrd` nothing was done. -/
theorem failureLeavesNothing_of_no_initrd (hinitrd : env.initrd = false) :
    FailureLeavesNothing env zip ino := by
  intro e _
  simp only [initrdMountRun, hinitrd]
  refine ⟨rfl, ?_⟩
  rintro b ⟨a, ha, -⟩
  cases ha

/-- The archive is looked at after it was freed when the reader is not set up. -/
theorem not_failureLeavesNothing_of_no_reader (hinitrd : env.initrd = true)
    (hreader : env.reader = false) : ¬ FailureLeavesNothing env zip ino := by
  rw [failureLeavesNothing_of_error (by simp [initrdMountRun, hinitrd, hreader])]
  intro h
  have hrun := h.freed
  simp [initrdMountRun, hinitrd, hreader, run, heapStep] at hrun

/-- A mount that fails for want of memory for the root gives back all it has when
the reader has nothing. -/
theorem failureLeavesNothing_of_no_root (hinitrd : env.initrd = true) (hreader : env.reader = true)
    (hroot : env.root = false) : FailureLeavesNothing env zip ino ↔ env.readerBlocks = 0 := by
  have hrun : initrdMountRun env zip ino = ((.error (errno ENOMEM), ino),
      ⟨[.alloc .initrd, .use .initrd] ++
        (List.range env.readerBlocks).map (fun k => .alloc (.reader k)) ++ [] ++ [.free .initrd],
        [], none⟩) := by
    rw [initrdMountRun]
    simp only [hinitrd, hreader, hroot, fsNodeCreate_root]
    rfl
  rw [failureLeavesNothing_of_error (by simp [hrun]), hrun]
  constructor
  · intro h
    refine Nat.eq_zero_of_not_pos ?_
    intro hpos
    simpa using h.free_mem (b := .reader 0) (by simpa using hpos)
  · intro h
    refine ⟨by simp [h, run, heapStep], ?_⟩
    rintro b ⟨a, ha, -⟩
    cases ha

/-- A root whose inode number is taken for an error code is left behind. -/
theorem not_failureLeavesNothing_of_ino (hinitrd : env.initrd = true) (hreader : env.reader = true)
    (hroot : env.root = true) (hino : ¬ ino.toNat < 2 ^ 31) :
    ¬ FailureLeavesNothing env zip ino := by
  cases hr : asInt (.ok ino.toNat) with
  | ok n =>
      have hok : asInt (fsNodeCreate true [slash] ino).1 = .ok n := by
        rw [fsNodeCreate_root]
        exact hr
      exact absurd ((asInt_fsNodeCreate_iff [slash] true ino).mp ⟨n, hok⟩).2.2 hino
  | error e =>
      have hrun : initrdMountRun env zip ino = ((.error e, ino + 1),
          ⟨[.alloc .initrd, .use .initrd] ++
            (List.range env.readerBlocks).map (fun k => .alloc (.reader k)) ++
              [.alloc .root, .use .root] ++ [.free .initrd], [], some .root⟩) := by
        rw [initrdMountRun]
        simp only [hinitrd, hreader, hroot, fsNodeCreate_root, if_true, hr]
        rfl
      rw [failureLeavesNothing_of_error (by simp [hrun]), hrun]
      intro h
      simpa using h.free_mem (b := .root) (by simp)

/-- The mount after the root got its node is the loop. -/
theorem initrdMountRun_root (hinitrd : env.initrd = true) (hreader : env.reader = true)
    (hroot : env.root = true) (hino : ino.toNat < 2 ^ 31) (zip : Zip) :
    ∃ h : MountHeap, h.target = some .root ∧
      initrdMountRun env zip ino = mountRunFrom env 0 zip.entries (ino + 1) ⟨zip, [], [], 0⟩ h := by
  obtain ⟨n, hn⟩ := (asInt_fsNodeCreate_iff [slash] true ino).mpr ⟨by decide, rfl, hino⟩
  rw [fsNodeCreate_root] at hn
  rw [initrdMountRun]
  simp only [hinitrd, hreader, hroot, fsNodeCreate_root, if_true] at hn ⊢
  simp only [hn, Bool.not_true, Bool.false_eq_true, if_false]
  exact ⟨_, rfl, rfl⟩

/-- With the root made, a failure of the loop leaves the root dangling. -/
theorem failureLeavesNothing_of_root (hinitrd : env.initrd = true) (hreader : env.reader = true)
    (hroot : env.root = true) (hino : ino.toNat < 2 ^ 31) :
    FailureLeavesNothing env zip ino ↔
      ∀ k e, zip.stat k = some e → EntryMade env k e (ino + 1 + UInt32.ofNat k) := by
  obtain ⟨h, ht, hrun⟩ := initrdMountRun_root hinitrd hreader hroot hino zip
  have hends := @mountRunFrom_ends env zip.entries 0 (ino + 1) ⟨zip, [], [], 0⟩ h ht
  simp only [Nat.zero_add, ← hrun] at hends
  obtain ⟨hall, s', hok⟩ | ⟨hsome, hd⟩ := hends
  · refine iff_of_true ?_ hall
    intro e he
    rw [hok] at he
    cases he
  · refine iff_of_false ?_ hsome
    rw [failureLeavesNothing_of_error hd.error]
    exact hd.not_leavesNothing

/-- A failed mount leaves nothing behind exactly when it fails cleanly. -/
theorem failureLeavesNothing_iff (env : MountEnv) (zip : Zip) (ino : UInt32) :
    FailureLeavesNothing env zip ino ↔ FailsCleanly env zip ino := by
  cases hinitrd : env.initrd with
  | false => exact iff_of_true (failureLeavesNothing_of_no_initrd hinitrd) (Or.inl hinitrd)
  | true =>
      have hcond : FailsCleanly env zip ino ↔
          (env.reader = true ∧ env.root = false ∧ env.readerBlocks = 0) ∨ AllMade env zip ino := by
        simp [FailsCleanly, hinitrd]
      rw [hcond]
      cases hreader : env.reader with
      | false =>
          refine iff_of_false (not_failureLeavesNothing_of_no_reader hinitrd hreader) ?_
          rintro (⟨h, -⟩ | h)
          · cases h
          · simpa [hreader] using h.reader
      | true =>
          cases hroot : env.root with
          | false =>
              rw [failureLeavesNothing_of_no_root hinitrd hreader hroot]
              have hnot : ¬ AllMade env zip ino := fun h => by simpa [hroot] using h.root
              simp [hnot]
          | true =>
              by_cases hino : ino.toNat < 2 ^ 31
              · rw [failureLeavesNothing_of_root hinitrd hreader hroot hino]
                constructor
                · exact fun h => Or.inr ⟨hinitrd, hreader, hroot, hino, h⟩
                · rintro (⟨-, h, -⟩ | h)
                  · cases h
                  · exact h.entries
              · refine iff_of_false
                  (not_failureLeavesNothing_of_ino hinitrd hreader hroot hino) ?_
                rintro (⟨-, h, -⟩ | h)
                · cases h
                · exact hino h.rootIno

/-- The archive of one file `a`. -/
def oneFile : Zip where
  entries := [{
    filename := ⟨[97], by decide⟩
    isDirectory := false
    dir_iff := by decide
    fits := by decide }]
  word := 0

/-- There is memory for all but the `struct initrd_node` of that file. -/
def noInitrdNode : MountEnv where
  initrd := true
  reader := true
  root := true
  initrdNode _ := false
  node _ := true
  listNode _ := true
  stat _ := true
  readerBlocks := 1

/-- The root's node is freed and stays in `*targetptr`, and the block of the reader
is never freed. -/
theorem failureLeavesNothing_wrong :
    (initrdMountRun noInitrdNode oneFile 0).1.1 = .error (errno ENOMEM) ∧
      (initrdMountRun noInitrdNode oneFile 0).2.target = some .root ∧
      .free .root ∈ (initrdMountRun noInitrdNode oneFile 0).2.events ∧
      .alloc (.reader 0) ∈ (initrdMountRun noInitrdNode oneFile 0).2.events ∧
      .free (.reader 0) ∉ (initrdMountRun noInitrdNode oneFile 0).2.events ∧
      ¬ FailureLeavesNothing noInitrdNode oneFile 0 := by
  have hfreed : .free .root ∈ (initrdMountRun noInitrdNode oneFile 0).2.events := by decide
  refine ⟨rfl, rfl, hfreed, by decide, by decide, ?_⟩
  intro h
  exact (h (errno ENOMEM) rfl).unreached .root ⟨.root, rfl, .refl⟩ hfreed

end StardustOS.Fs
