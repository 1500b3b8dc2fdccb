import StardustOS.Boot.RootNames
import StardustOS.Fs.InitrdRead
import StardustOS.Process.EntryPoint

/-!
# The first process

`bootstrap_main` ends with `proc_exec("/init")`.  There is no process yet, and so no
current one, and `proc_exec` follows the pointer to the current process for each segment
from `0x100000` on.  So the first process is started exactly when its file has none, and
then nothing of the file is loaded (`starts_init`).
-/

namespace StardustOS.Boot

open Lib Libc Dev Fs Libfile Process Outcome

variable {κ : Type}

/-! ## The source -/

/-- `/init`. -/
def initPath : List UInt8 := asciiText ['/', 'i', 'n', 'i', 't'] ++ [0]

/-- The result of `fs_resolve` and the node, by its inode number.  On a name in the root
there is no fault. -/
def resolveResult : Resolved → Int × Nat
  | .found node => (0, inode node)
  | .error r => (r, 0)
  | .fault => (-EINVAL, 0)

/-- A result as an `int`. -/
def intOf : Except ErrorCode Nat → Int
  | .ok n => n
  | .error e => e.1

/-- The nodes of the mounted archive, by their inode numbers.  A directory has no operations
for files. -/
def archiveNodes (Z : Extractor κ Nat) (zip : Zip) : Nodes κ Nat :=
  let files := Z.nodes fun _ w => (.error (errno ENOENT ENOENT_range), w)
  { files with
    opts := fun ino w =>
      if ino < 2 ∨ (zip.stat (ino - 2)).any ZipEntry.isDirectory then ⟨none, none, none, none⟩
      else files.opts ino w }

/-- What `proc_exec` calls once the archive is mounted.  No node is a link, so that one call
of `fs_node_read` is enough. -/
def archiveLoader (Ld : Loader κ) (Z : Extractor κ Nat) (zip : Zip) (mps : List Mountpoint) :
    Loader κ :=
  { Ld with
    fsResolve := fun path k => (resolveResult (fsResolve mps (some path)).1, k)
    fsNodeRead := fun ino offset size k =>
      match (archiveNodes Z zip).fsNodeRead 1 ino offset (UInt32.ofNat size) k with
      | some (r, bytes, k) => ((intOf (asInt r), bytes), k)
      | none => ((-ENOSYS, []), k) }

/-- What `proc_exec` returns. -/
def execValue : ExecResult → Int
  | .error r => r
  | .created _ id => id.toInt32.toInt

variable (K : Process.Kernel κ) (Ld : Loader κ) (Z : Extractor κ Nat)

/-- `bootstrap_main`, from the boot modules to its endless loop. -/
def bootstrapToInit (env : Env) (s : Procs κ) : Outcome (Kernel × Procs κ) := do
  let k ← bootstrapMain env
  let zip := env.archive.getD ⟨[], 0⟩
  let (r, s) ← ofOption
    (s.procExec K (archiveLoader Ld Z zip k.mounts.mountpoints) initPath none)
  panicIf (execValue r < 0) "Failed to execute init program"
  pure (k, s)

/-! ## What is wanted -/

/-- The header of a file. -/
def headerOf (content : List UInt8) : ElfHeader := .ofBytes (content.take headerSize)

/-- Where a program header is. -/
def programAt (content : List UInt8) (j : Nat) : UInt32 :=
  (headerOf content).phoff + UInt32.ofNat ((headerOf content).phentsize.toNat * j)

/-- The program header. -/
def programOf (content : List UInt8) (j : Nat) : ElfProgram :=
  .ofBytes ((content.drop (programAt content j).toNat).take programSize)

/-- The content is an ELF file for the machine, with its headers in it. -/
structure Executable (content : List UInt8) : Prop where
  small : content.length < 2 ^ 31
  header : headerSize ≤ content.length
  valid : elfIsvalid (headerOf content) = true
  machine : (headerOf content).machine = 3
  inFile : ∀ j < (headerOf content).phnum.toNat,
    (programAt content j).toNat + programSize ≤ content.length

/-- Every segment is below `0x100000`. -/
def LowSegments (content : List UInt8) : Prop :=
  ∀ j < (headerOf content).phnum.toNat, (programOf content j).vaddr < 0x100000

instance (content : List UInt8) : Decidable (LowSegments content) :=
  inferInstanceAs (Decidable (∀ j < _, _ < _))

/-! ## Without a current process -/

section First

open Procs

variable {K} {L : Loader κ} {s : Procs κ} {a node : Nat} {hdr : ElfHeader} {prog : Nat → ElfProgram}

/-- The headers can be read. -/
def ReadsHeaders (L : Loader κ) (node : Nat) (hdr : ElfHeader) (prog : Nat → ElfProgram) (j : Nat) :
    Prop :=
  ∀ k, ∃ r bytes k', L.fsNodeRead node (hdr.phoff + UInt32.ofNat (hdr.phentsize.toNat * j))
    programSize k = ((r, bytes), k') ∧ 0 ≤ r ∧ ElfProgram.ofBytes bytes = prog j

/-- Segments that are not loaded are skipped. -/
theorem loadSegments_low {is : List Nat} (hread : ∀ j ∈ is, ReadsHeaders L node hdr prog j)
    (hlow : ∀ j ∈ is, (prog j).vaddr < 0x100000) (s : Procs κ) :
    ∃ k, loadSegments K L none a node hdr is s = some (0, { s with kernel := k }) := by
  induction is generalizing s with
  | nil => exact ⟨s.kernel, rfl⟩
  | cons j is ih =>
      obtain ⟨r, bytes, k, hbytes, hr, hprog⟩ := hread j List.mem_cons_self s.kernel
      obtain ⟨k', hrest⟩ := ih (fun i hi => hread i (List.mem_cons_of_mem _ hi))
        (fun i hi => hlow i (List.mem_cons_of_mem _ hi)) { s with kernel := k }
      refine ⟨k', ?_⟩
      rw [loadSegments, hbytes]
      dsimp only
      rw [if_neg (Int.not_lt.mpr hr), hprog, if_pos (hlow j List.mem_cons_self)]
      exact hrest

/-- The first other one follows the pointer to the current process. -/
theorem loadSegments_high {is : List Nat} (hread : ∀ j ∈ is, ReadsHeaders L node hdr prog j)
    (hhigh : ∃ j ∈ is, ¬ (prog j).vaddr < 0x100000) (s : Procs κ) :
    loadSegments K L none a node hdr is s = none := by
  induction is generalizing s with
  | nil =>
      obtain ⟨j, hj, -⟩ := hhigh
      cases hj
  | cons j is ih =>
      obtain ⟨r, bytes, k, hbytes, hr, hprog⟩ := hread j List.mem_cons_self s.kernel
      rw [loadSegments, hbytes]
      dsimp only
      rw [if_neg (Int.not_lt.mpr hr), hprog]
      split
      · rename_i hlow
        obtain ⟨i, hi, hihigh⟩ := hhigh
        obtain rfl | hi := List.mem_cons.mp hi
        · exact absurd hlow hihigh
        · exact ih (fun i hi => hread i (List.mem_cons_of_mem _ hi)) ⟨i, hi, hihigh⟩ _
      · rfl

/-- The push of `argc` on the stack of a process there is. -/
theorem pushAll_none {P : Proc} (h : s.processes.get? a = some P) :
    ∃ u, pushAll K a (pushes none) s = some u := by
  refine ⟨s.procPushstack K a P (argcBytes 0), ?_⟩
  simp [pushes, pushAll, h]

/-- `proc_exec` without a process comes to its loop. -/
theorem ran_first {path : List UInt8} {kernel k : κ} (hcurr : s.processCurr = none)
    (hempty : s.processes.addrs = [])
    (hheader : execHeader L path s.kernel = (.ok (node, hdr), kernel))
    (hmem : K.kmalloc kernel = (some a, k)) :
    ∃ u, s.procExec K L path none =
      match loadSegments K L none a node hdr (List.range hdr.phnum.toNat) u with
      | none => none
      | some (r, v) =>
          if r < 0 then (v.procDestroy K a).map fun w => (.error r, w)
          else some (.created a s.nextPid, v) := by
  have hfresh : a ∉ s.processes.addrs := by
    rw [hempty]
    exact List.not_mem_nil
  let t := enroll K { s with kernel := k } none a path 1 hfresh
  have hcreate : ({ s with kernel := kernel } : Procs κ).procCreate K none path 1 =
      some (some a, t) := by
    simp only [procCreate, hmem]
    rw [dif_neg hfresh]
  have hget := SList.get?_insertHead (x := newProc K { s with kernel := k } none a path true
    (newPgdir K { s with kernel := k } true).1) hfresh
  obtain ⟨u, hu⟩ := pushAll_none (K := K) (s := { t with
    processes := t.processes.update a (Proc.withEip hdr.entry) }) (SList.get?_update_self hget)
  have hpushed : ¬ PROC_STACKSIZE < pushed none := by decide
  have hcurr' : ({ s with kernel := kernel } : Procs κ).processCurr = none := hcurr
  have hid : (t.processes.get? a).elim 0 Proc.id = s.nextPid :=
    congrArg (fun P => P.elim 0 Proc.id) hget
  refine ⟨u, ?_⟩
  simp only [procExec, hheader, hcurr', Option.map_none, hcreate, if_neg hpushed, hu, hid]
  cases loadSegments K L none a node hdr (List.range hdr.phnum.toNat) u with
  | none => rfl
  | some out => rfl

/-- The first process is started when its file has no segment to load, and `proc_exec` is
undefined when it has one. -/
theorem procExec_first {path : List UInt8} {kernel k : κ} (hcurr : s.processCurr = none)
    (hempty : s.processes.addrs = [])
    (hheader : execHeader L path s.kernel = (.ok (node, hdr), kernel))
    (hmem : K.kmalloc kernel = (some a, k))
    (hread : ∀ j < hdr.phnum.toNat, ReadsHeaders L node hdr prog j) :
    ((∀ j < hdr.phnum.toNat, (prog j).vaddr < 0x100000) → ∃ s',
      s.procExec K L path none = some (.created a s.nextPid, s')) ∧
    ((¬ ∀ j < hdr.phnum.toNat, (prog j).vaddr < 0x100000) →
      s.procExec K L path none = none) := by
  obtain ⟨u, hexec⟩ := ran_first hcurr hempty hheader hmem
  have hread' : ∀ j ∈ List.range hdr.phnum.toNat, ReadsHeaders L node hdr prog j := fun j hj =>
    hread j (List.mem_range.mp hj)
  rw [hexec]
  constructor
  · intro hlow
    obtain ⟨k', hload⟩ := loadSegments_low (K := K) (a := a) hread'
      (fun j hj => hlow j (List.mem_range.mp hj)) u
    rw [hload]
    exact ⟨_, rfl⟩
  · intro hhigh
    obtain ⟨j, hj, hjhigh⟩ := not_forall₂.mp hhigh
    rw [loadSegments_high hread' ⟨j, List.mem_range.mpr hj, hjhigh⟩]

end First

/-! ## The file -/

section File

variable {Z} {Ld} {zip : Zip} {mps : List Mountpoint} {i : Nat} {e : ZipEntry}

/-- A copy from within the content gives its bytes. -/
theorem copied_within {content : List UInt8} {offset : UInt32} {size : Nat}
    (hin : offset.toNat + size ≤ content.length) (hsmall : content.length < 2 ^ 31)
    (around : UInt32 → UInt8) :
    (copied offset (UInt32.ofNat size)).map (bufferByte content around) =
      (content.drop offset.toNat).take size := by
  have hsize : (UInt32.ofNat size).toNat = size :=
    UInt32.toNat_ofNat_of_lt' (show size < 2 ^ 32 by omega)
  refine List.ext_getElem (by rw [List.length_map, length_copied, hsize]; simp; omega) ?_
  intro j hj hj'
  rw [List.length_map, length_copied, hsize] at hj
  have hoff : (offset + UInt32.ofNat j).toNat = offset.toNat + j := by
    rw [UInt32.toNat_add, UInt32.toNat_ofNat_of_lt' (show j < 2 ^ 32 by omega),
      Nat.mod_eq_of_lt (by omega)]
  have hlt : offset.toNat + j < content.length := by omega
  simp [copied, bufferByte, hoff, hlt]

/-- A read within the file gives its bytes, whatever it returns. -/
theorem fsNodeRead_within (he : zip.stat i = some e) (hfile : e.isDirectory = false)
    (hsmall : (Z.content (2 + i)).length < 2 ^ 31)
    (hextract : ∀ k, (Z.extract (2 + i) k).1.isSome) {offset : UInt32} {size : Nat}
    (hin : offset.toNat + size ≤ (Z.content (2 + i)).length) (k : κ) :
    (archiveLoader Ld Z zip mps).fsNodeRead (2 + i) offset size k =
      ((((Z.content (2 + i)).length : Int),
        ((Z.content (2 + i)).drop offset.toNat).take size), (Z.extract (2 + i) k).2) := by
  obtain ⟨around, haround⟩ := Option.isSome_iff_exists.mp (hextract k)
  have hopts : ¬ (2 + i < 2 ∨ (zip.stat (2 + i - 2)).any ZipEntry.isDirectory = true) := by
    rw [Nat.add_sub_cancel_left, he, Option.any_some, hfile]
    rintro (hlt | hdir)
    · omega
    · exact nomatch hdir
  have hlink : nodeTypeGet initrdFileMode ≠ FS_NODE_LINK := by decide
  have hdir : nodeTypeGet initrdFileMode ≠ FS_NODE_DIR := by decide
  have hmod : (Z.content (2 + i)).length % 2 ^ 32 < 2 ^ 31 := by
    rw [Nat.mod_eq_of_lt (by omega)]
    exact hsmall
  simp only [archiveLoader, archiveNodes, Nodes.fsNodeRead, Nodes.fsNodeIo, Extractor.nodes, hopts,
    if_false, Option.map_some, hlink, hdir, haround, initrdRead, asInt, dif_pos hmod, intOf,
    copied_within hin hsmall]

/-- The header is read, and is accepted. -/
theorem execHeader_archive (he : zip.stat i = some e) (hfile : e.isDirectory = false)
    (hexe : Executable (Z.content (2 + i))) (hextract : ∀ k, (Z.extract (2 + i) k).1.isSome)
    {path : List UInt8} {node : FsNode} (hnode : (fsResolve mps (some path)).1 = .found node)
    (hino : inode node = 2 + i) (k : κ) : ∃ k',
    execHeader (archiveLoader Ld Z zip mps) path k =
      (.ok (2 + i, headerOf (Z.content (2 + i))), k') := by
  have hresolve : (archiveLoader Ld Z zip mps).fsResolve path k = ((0, 2 + i), k) := by
    simp only [archiveLoader, hnode, resolveResult, hino]
  have hread : (archiveLoader Ld Z zip mps).fsNodeRead (2 + i) 0 headerSize k = _ :=
    fsNodeRead_within he hfile hexe.small hextract
      (show (0 : UInt32).toNat + headerSize ≤ _ by simpa using hexe.header) k
  refine ⟨(Z.extract (2 + i) k).2, ?_⟩
  have hvalid : elfIsvalid (headerOf (Z.content (2 + i))) = true ∧
      (headerOf (Z.content (2 + i))).machine = 3 := ⟨hexe.valid, hexe.machine⟩
  simp only [execHeader, hresolve, hread, UInt32.toNat_zero, List.drop_zero]
  rw [if_neg (Int.lt_irrefl 0), if_neg (Int.not_lt.mpr (Int.natCast_nonneg _))]
  exact if_pos hvalid

theorem readsHeaders_archive (he : zip.stat i = some e) (hfile : e.isDirectory = false)
    (hexe : Executable (Z.content (2 + i))) (hextract : ∀ k, (Z.extract (2 + i) k).1.isSome)
    {j : Nat} (hj : j < (headerOf (Z.content (2 + i))).phnum.toNat) :
    ReadsHeaders (archiveLoader Ld Z zip mps) (2 + i) (headerOf (Z.content (2 + i)))
      (programOf (Z.content (2 + i))) j := by
  intro k
  exact ⟨_, _, _, fsNodeRead_within he hfile hexe.small hextract (hexe.inFile j hj) k,
    Int.natCast_nonneg _, rfl⟩

end File

/-! ## The end of boot -/

/-- Where boot comes to the mounted archive and `/init` is an ELF file, boot comes to its loop
when the file has no segment from `0x100000` on, and is undefined when it has one. -/
theorem starts_init {env : Env} {k : Kernel} (hcalls : ∀ c ∈ env.moduleCalls, c.Registers)
    (hfew : env.moduleCalls.length < 2 ^ 31) (hboot : bootstrapMain env = .done k)
    (hword : ∀ read size zip, env.zip read size = some zip → zip.word = 0) {zip : Zip}
    (harchive : env.archive = some zip) {i : Nat} {e : ZipEntry}
    (hlast : env.LastNamed zip initName i e) (hfile : e.isDirectory = false)
    (hexe : Executable (Z.content (2 + i))) (hextract : ∀ k, (Z.extract (2 + i) k).1.isSome)
    (hmem : ∀ k, (K.kmalloc k).1.isSome) (cpu : ProcRegs) (fpu : List UInt8) (kernel : κ) :
    (LowSegments (Z.content (2 + i)) →
      ∃ s, bootstrapToInit K Ld Z env (Procs.boot cpu fpu kernel) = .done (k, s)) ∧
    (¬ LowSegments (Z.content (2 + i)) →
      bootstrapToInit K Ld Z env (Procs.boot cpu fpu kernel) = .undefined) := by
  obtain ⟨node, hshows, hnode⟩ :=
    fsResolve_lastNamed hcalls hfew hboot hword harchive (c := initName) (by decide) [] hlast
  obtain ⟨kernel₁, hheader⟩ : ∃ k', execHeader (archiveLoader Ld Z zip k.mounts.mountpoints)
      initPath kernel = (_, k') :=
    execHeader_archive hlast.entry hfile hexe hextract hnode hshows.inode kernel
  obtain ⟨a, ha⟩ := Option.isSome_iff_exists.mp (hmem kernel₁)
  obtain ⟨hlow, hhigh⟩ := procExec_first (K := K) (s := Procs.boot cpu fpu kernel) rfl rfl hheader
    (Prod.ext ha rfl) fun j hj => readsHeaders_archive hlast.entry hfile hexe hextract hj
  have hzip : env.archive.getD ⟨[], 0⟩ = zip := by rw [harchive, Option.getD_some]
  constructor
  · intro h
    obtain ⟨s, hs⟩ := hlow h
    refine ⟨s, bind_eq_done.mpr ⟨k, hboot, bind_eq_done.mpr ⟨(.created a 1, s), ?_, ?_⟩⟩⟩
    · rw [ofOption_eq_done, hzip]
      exact hs
    · rfl
  · intro h
    have hnone : (Procs.boot cpu fpu kernel).procExec K (archiveLoader Ld Z
        (env.archive.getD ⟨[], 0⟩) k.mounts.mountpoints) initPath none = none := by
      rw [hzip]
      exact hhigh h
    simp only [bootstrapToInit, hboot, done_bind, hnone, ofOption, undefined_bind]

/-- What miniz extracts from the archive. -/
def initFiles : Extractor (Nat × Mem.Memory) Nat where
  content ino := if ino = 4 then initProgram else asciiText ['i', 'n', 'i', 't']
  fits _ := by
    split
    · decide
    · decide
  extract _ k := (some fun _ => 0, k)

theorem initProgram_executable : Executable initProgram where
  small := by decide
  header := by decide
  valid := by decide
  machine := by decide
  inFile := by decide

/-- A program that is linked as usual is not started. -/
theorem starts_init_high : bootstrapToInit Procs.small (Procs.oneFile []) initFiles initEnv
    Procs.smallBoot = .undefined := by
  obtain ⟨k, hboot⟩ := boots_of_bootable initEnv_calls (by decide) initEnv_mapped initEnv_bootable
  exact (starts_init Procs.small (Procs.oneFile []) initFiles initEnv_calls (by decide) hboot
    initEnv_word initEnv_archive initEnv_lastNamed rfl initProgram_executable (fun _ => rfl)
    (fun _ => rfl) {} [] (0x100000, Mem.booted)).2 (by decide)

end StardustOS.Boot
