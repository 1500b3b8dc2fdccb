import StardustOS.Dev.BootModules
import StardustOS.Fs.Devfs
import StardustOS.Fs.Filesystems
import StardustOS.Fs.InitrdList
import StardustOS.Fs.Mount
import StardustOS.Fs.NodeType
import StardustOS.Mem.BootProtects

/-!
# From the boot modules to `/init`

`bootstrap_main` from the boot modules on: it registers their devices and two file systems,
initialises the kernel modules, and mounts the archive that the device `mbmod00` holds.
What goes wrong on the way ends in a panic.

`mem_init` has turned paging on before, and has mapped as much as the walk through the
records of the boot modules ends at.  What boot reads of the boot loader's memory outside
these pages (`Env.mapped`) is undefined.

The kernel modules are the calls that they make.  miniz, which is not part of the kernel, is
the archive that it finds when it reads a source through `mz_initrd_read`.

`boots_iff` says when boot comes to the mounted archive.
-/

namespace StardustOS.Boot

open Lib Libc Dev Fs

/-! ## How boot ends -/

/-- A part of boot returns, or panics, or is undefined. -/
inductive Outcome (α : Type*) where
  | done (a : α)
  | panic (message : String)
  | undefined
deriving DecidableEq

namespace Outcome

variable {α β : Type*}

instance : Monad Outcome where
  pure := done
  bind x f :=
    match x with
    | done a => f a
    | panic message => panic message
    | undefined => undefined

def ofOption : Option α → Outcome α
  | some a => done a
  | none => undefined

/-- `if (cond) panic(message)`. -/
def panicIf (cond : Bool) (message : String) : Outcome Unit :=
  if cond then panic message else done ()

/-- `if (ptr == NULL) panic(message)`. -/
def orPanic (message : String) : Option α → Outcome α
  | some a => done a
  | none => panic message

@[simp] theorem done_bind {α β : Type} (a : α) (f : α → Outcome β) : done a >>= f = f a := rfl

@[simp] theorem undefined_bind {α β : Type} (f : α → Outcome β) : undefined >>= f = undefined :=
  rfl

theorem bind_eq_done {α β : Type} {x : Outcome α} {f : α → Outcome β} {b : β} :
    x >>= f = done b ↔ ∃ a, x = done a ∧ f a = done b := by
  cases x with
  | done a => exact ⟨fun h => ⟨a, rfl, h⟩, fun ⟨_, ha, h⟩ => by cases ha; exact h⟩
  | panic m => exact ⟨nofun, fun ⟨_, h, _⟩ => nomatch h⟩
  | undefined => exact ⟨nofun, fun ⟨_, h, _⟩ => nomatch h⟩

@[simp] theorem ofOption_eq_done {o : Option α} {a : α} : ofOption o = done a ↔ o = some a := by
  cases o with
  | none => exact ⟨nofun, nofun⟩
  | some b => simp [ofOption]

@[simp] theorem panicIf_eq_done {cond : Bool} {message : String} {u : Unit} :
    panicIf cond message = done u ↔ cond = false := by
  cases cond with
  | false => exact ⟨fun _ => rfl, fun _ => rfl⟩
  | true => exact ⟨nofun, nofun⟩

@[simp] theorem orPanic_eq_done {message : String} {o : Option α} {a : α} :
    orPanic message o = done a ↔ o = some a := by
  cases o with
  | none => exact ⟨nofun, nofun⟩
  | some b => simp [orPanic]

end Outcome

open Outcome

/-! ## The source -/

def MULTIBOOT_BOOTLOADER_MAGIC : UInt32 := 0x2BADB002

def FS_PSEUDO : Nat := 0

def FS_VIRT : Nat := 1

/-- Whose operations a file system has. -/
inductive FsOps where
  /-- `initrd_opts`. -/
  | initrd
  | other (tag : Nat)
deriving DecidableEq

/-- `procfs_opts`. -/
def procfsOpts : FsOps := .other 0

/-- The static data that boot works on. -/
structure Kernel where
  devfs : Devfs
  fss : FsTable FsOps
  mounts : Mounts

/-- A call that the initialisation of a kernel module makes. -/
inductive ModuleCall where
  | device (c : DevfsCall)
  | fs (c : FsTableCall FsOps)

def Kernel.step (k : Kernel) : ModuleCall → Option Kernel
  | .device c => (k.devfs.step c).map fun devfs => { k with devfs }
  | .fs c => (k.fss.step c).map fun fss => { k with fss }

/-- What boot finds. -/
structure Env where
  /-- What the boot loader hands over, with the memory and where the kernel image ends. -/
  magic : UInt32
  mbaddr : UInt32
  mbi : MultibootInfo
  mmap : List Mem.MmapEntry
  mem : UInt32 → UInt8
  kernelEnd : Nat
  /-- Whether `kmalloc` finds memory, and with what in it. -/
  stack : Nat → Nat → UInt8
  found : Nat → Bool
  procfsMem : Bool
  initrdMem : Bool
  nodeMem : Bool
  listMem : Bool
  mountpoint : Option Mountpoint
  mountMem : MountMem
  /-- What `kmalloc` left in the head of the list of `struct initrd`. -/
  nodesHead : Nat
  /-- The kernel modules, and the result of `modules_init`. -/
  moduleCalls : List ModuleCall
  modulesInit : Int
  blks : Blkdevs
  /-- The operations that are not those of the boot modules and of the initial ramdisk. -/
  read : DevOpts → UInt32 → UInt32 → UInt32 × List UInt8
  mount : Nat → Int × Option FsNode
  /-- `mz_zip_reader_init`, for a source and its size. -/
  zip : (UInt32 → UInt32 → Option (UInt32 × List UInt8)) → UInt32 → Option Zip
  /-- What `initrd_get_child` lists on the node of a directory. -/
  listed : Initrd → Nat → List FsNode

namespace Env

variable (env : Env)

/-- What `mem_init` reads. -/
def memInfo : Mem.BootInfo where
  mmap := env.mmap
  modsCount := env.mbi.modsCount.toNat
  modsAddr := env.mbi.modsAddr.toNat
  modEnd mod := (moduleAt env.mem (UInt32.ofNat mod)).modEnd.toNat
  kernelEnd := env.kernelEnd

/-- The bytes at an address are in the pages that `mem_init` maps to themselves, all of
them in the kernel half. -/
def mapped (a : UInt32) (n : Nat) : Bool :=
  env.memInfo.identPages ≤ 2 ^ 18 ∧
    ∀ j < n, (a + UInt32.ofNat j).toNat / Mem.PAGE_SIZE < env.memInfo.identPages

/-- `mods_count` and `mods_addr` are mapped. -/
def infoMapped : Bool := env.mapped (env.mbaddr + 20) 8

/-- A record of the walk is mapped. -/
def recordMapped (i : Nat) : Bool := env.mapped (walked env.mem env.mbi.modsAddr i) 8

/-- The loop of `mbi_modules_init` comes to the turn. -/
def comesTo (i : Nat) : Bool :=
  (modulesInitFrom env.mem env.stack env.found i 0 env.mbi.modsAddr ⟨[], 0⟩).any
    fun (r, _) => 0 ≤ r

/-- `mbi_modules_init`, which reads the record in each turn. -/
def mbiModulesInit : Option (Int × Devices) :=
  if env.infoMapped ∧ ∀ i < env.mbi.modsCount.toNat, env.comesTo i → env.recordMapped i then
    Dev.mbiModulesInit env.mem env.mbi env.stack env.found
  else none

/-- If `mb_read` reads the node, all that it can copy is mapped. -/
def sourceMapped (source : DevfsNode) : Bool :=
  let mod := selected env.mem env.mbi source.name
  source.opts ≠ mbimodOpts ∨ env.mapped mod.modStart mod.len.toNat

/-- The device nodes, for `fs_node_read`. -/
def devNodes : Nodes Unit DevfsNode where
  mode node _ := node.mode
  size node _ := UInt32.ofNat node.size
  opts _ _ := {
    openFd := none
    closeFd := none
    read := some fun node offset size w =>
      let (n, buff) := if node.opts = mbimodOpts then mbRead env.mem env.mbi node.name offset size
        else env.read node.opts offset size
      (.ok n.toNat, buff, w)
    write := none }
  fsResolve _ w := (.error (errno ENOENT ENOENT_range), w)

/-- `mz_initrd_read`: the result and the bytes in the buffer. -/
def mzInitrdRead (node : DevfsNode) (off size : UInt32) : Option (UInt32 × List UInt8) :=
  (env.devNodes.fsNodeRead 1 node off size ()).map fun (r, buff, _) => (sizeT r, buff)

/-- The node of an entry.  Their inode numbers follow that of the root. -/
def entryNode (s : Initrd) (ino k : Nat) : Option FsNode :=
  s.made[k]?.map fun node =>
    if node.isDir then .dir node.name (ino + 1 + k) (env.listed s k)
    else .file node.name (ino + 1 + k)

/-- The root of the mounted archive, with the children that `initrd_get_child` gives. -/
def rootNode (s : Initrd) (ino : Nat) : FsNode :=
  .dir [slash] ino <| (List.range s.nodes.length).filterMap fun i =>
    match initrdGetChild s none i with
    | some (.ok k, _) => env.entryNode s ino k
    | _ => none

/-- `initrd_mount` on a device node, with `next_inode`. -/
def initrdMount (source : DevfsNode) (nextInode : UInt32) :
    Option ((Int × Option FsNode) × UInt32) :=
  let zip := env.zip (env.mzInitrdRead source) (UInt32.ofNat source.size)
  let mem := { env.mountMem with reader := zip.isSome }
  (Fs.initrdMount env.nodesHead (zip.getD ⟨[], 0⟩) mem nextInode).map fun
    | (.ok s, ino) => ((0, some (env.rootNode s nextInode.toNat)), ino)
    | (.error e, ino) => ((e.1, none), ino)

/-- The `mount` operation of a file system.  Before miniz reads the source, `initrd_mount`
finds memory for the archive. -/
def mountOp (ops : FsOps) (source : DevfsNode) (nextInode : UInt32) :
    Option ((Int × Option FsNode) × UInt32) :=
  match ops with
  | .initrd =>
      if env.mountMem.initrd ∧ ¬ env.sourceMapped source then none
      else env.initrdMount source nextInode
  | .other tag => some (env.mount tag, nextInode)

end Env

/-- `device_indexof`, by the name of the device. -/
def deviceIndexof (reg : Devices) (device : Device) : Nat :=
  match reg.devices.findIdx? fun d => d.name = device.name with
  | some i => i
  | none => asU32 (-1)

/-- `devfs_init`. -/
def devfsInit : Int := 0

/-- `mbmod00`. -/
def initrdDevice : List UInt8 := nameOf (digit 0) (ascii '0')

/-- `procfs`. -/
def procfsName : CStr := ⟨asciiText ['p', 'r', 'o', 'c', 'f', 's'], by decide⟩

/-- `initrd`. -/
def initrdName : CStr := ⟨asciiText ['i', 'n', 'i', 't', 'r', 'd'], by decide⟩

/-- `bootstrap_main` from the boot modules to `devfs_init`. -/
def bootDevices (env : Env) : Outcome Kernel := do
  panicIf (env.magic ≠ MULTIBOOT_BOOTLOADER_MAGIC) "Multiboot magic check failed!"
  let (r, reg) ← ofOption env.mbiModulesInit
  panicIf (r < 0) "Failed to create devices for multiboot modules"
  let (r, fss) ← ofOption (FsTable.boot.registerFs procfsName FS_PSEUDO procfsOpts env.procfsMem)
  panicIf (r < 0) "Failed to initialize procfs"
  let (r, fss) ← ofOption (fss.registerFs initrdName FS_VIRT .initrd env.initrdMem)
  panicIf (r < 0) "Failed to initialize initrd"
  let k ← ofOption (run Kernel.step ⟨⟨reg, [], 0⟩, fss, Mounts.boot⟩ env.moduleCalls)
  panicIf (env.modulesInit < 0) "Failed to load kernel modules"
  panicIf (devfsInit < 0) "Failed to load kernel modules"
  pure k

/-- `bootstrap_main` from `device_fromname` to the mounted archive. -/
def bootMount (env : Env) (k : Kernel) : Outcome Kernel := do
  let device ← orPanic "No initrd device was attached" (k.devfs.reg.deviceFromname initrdDevice)
  let devi := deviceIndexof k.devfs.reg device
  panicIf (devi = asU32 (-1)) "Failed to find the index of the initrd device"
  let (initrd, devfs) := k.devfs.devfsGet devi env.blks env.nodeMem env.listMem
  let initrd ← orPanic "Failed to get devfs initrd device node" initrd
  let fs ← orPanic "Failed to find fs: initrd" (k.fss.fsFromname initrdName)
  let ((r, root), nextInode) ← ofOption (env.mountOp fs.opts initrd devfs.nextInode)
  let (r, mounts) := k.mounts.mountpointCreateFromnode env.mountpoint
    (some ⟨fs.name, fun _ _ _ _ => (r, root)⟩) (some (.file initrd.name initrd.ino)) [slash, 0] 0 0
    none
  panicIf (r < 0) "Failed to mount initrd"
  pure { k with devfs := { devfs with nextInode }, mounts }

/-- `bootstrap_main`, from the boot modules to the mounted archive. -/
def bootstrapMain (env : Env) : Outcome Kernel := do
  let k ← bootDevices env
  bootMount env k

/-! ## What is wanted -/

/-- The call registers a file system, or a device that is not called as the first boot
module, and the name fits. -/
def ModuleCall.Registers : ModuleCall → Prop
  | .device (.registerDevice _ name _ _ _) => name.length < NAME_MAX ∧ name ≠ initrdDevice
  | .fs (.register name _ _ _) => name.1.length < NAME_MAX
  | _ => False

namespace Env

variable (env : Env)

/-- The archive in the first boot module. -/
def archive : Option Zip :=
  env.zip (fun off size => some (mbRead env.mem env.mbi initrdDevice off size))
    (moduleAt env.mem env.mbi.modsAddr).len

/-- The archive in the first boot module is mounted. -/
def Mounts (zip : Zip) (s : Initrd) (ino : UInt32) : Prop :=
  env.archive = some zip ∧
    Fs.initrdMount env.nodesHead zip { env.mountMem with reader := true } 1 = some (.ok s, ino)

/-- What boot reads of the boot loader's memory is mapped. -/
structure Mapped : Prop where
  info : env.infoMapped
  records : ∀ i < env.mbi.modsCount.toNat, env.recordMapped i
  first : env.mapped (moduleAt env.mem env.mbi.modsAddr).modStart
    (moduleAt env.mem env.mbi.modsAddr).len.toNat

/-- There are between one and ten boot modules, there is memory, the kernel modules are
initialised, and the first boot module is an archive that can be mounted. -/
structure Bootable : Prop where
  magic : env.magic = MULTIBOOT_BOOTLOADER_MAGIC
  modules : 0 < env.mbi.modsCount.toNat ∧ env.mbi.modsCount.toNat ≤ 10
  found : ∀ j < env.mbi.modsCount.toNat, env.found j = true
  procfsMem : env.procfsMem = true
  initrdMem : env.initrdMem = true
  loaded : 0 ≤ env.modulesInit
  nodeMem : env.nodeMem = true
  mountpoint : env.mountpoint.isSome
  archive : ∃ zip s ino, env.Mounts zip s ino

end Env

variable {env : Env}

/-! ## The devices and file systems of boot -/

/-- No loop of registrations ends above zero. -/
theorem modulesInitFrom_nonpos {mem : UInt32 → UInt8} {stack : Nat → Nat → UInt8}
    {found : Nat → Bool} (turns : Nat) {i : Nat} {mod : UInt32} {reg reg' : Devices} {r : Int}
    (h : modulesInitFrom mem stack found turns i mod reg = some (r, reg')) : r ≤ 0 := by
  induction turns generalizing i mod reg with
  | zero =>
      cases h
      exact Int.le_refl 0
  | succ turns ih =>
      rw [modulesInitFrom] at h
      obtain ⟨name, -, h⟩ := Option.bind_eq_some_iff.mp h
      obtain ⟨⟨r₁, reg₁⟩, -, h⟩ := Option.bind_eq_some_iff.mp h
      dsimp only at h
      split at h
      · cases h
        exact Int.le_of_lt ‹_›
      · exact ih h

/-- What is mapped is read where it is, through the pages that `mem_init` leaves. -/
theorem leadsHome_of_mapped {L : Mem.Layout} {s t : Mem.Memory} (hs : Mem.Static L s)
    (hinit : s.memInit L env.memInfo = some t) {a : UInt32} {n : Nat} (h : env.mapped a n = true)
    {j : Nat} (hj : j < n) :
    t.LeadsHome L.krnlPgdir (Mem.frameOf (a + UInt32.ofNat j).toNat) := by
  obtain ⟨himage, hpages⟩ := of_decide_eq_true h
  have hval : (Mem.frameOf (a + UInt32.ofNat j).toNat).val =
      (a + UInt32.ofNat j).toNat / Mem.PAGE_SIZE :=
    congrArg (· / Mem.PAGE_SIZE) (Nat.mod_eq_of_lt (a + UInt32.ofNat j).toNat_lt)
  have hpage := hpages j hj
  rw [← hval] at hpage
  refine (Mem.leadsHome_image hs himage hinit ?_).mpr hpage
  show (Mem.frameOf (a + UInt32.ofNat j).toNat).val / 1024 < 256
  omega

/-- The first turns of the loop come to the next one, as long as there are not too many. -/
theorem comesTo_of_found (hcount : env.mbi.modsCount.toNat ≤ 10)
    (hfound : ∀ j < env.mbi.modsCount.toNat, env.found j = true) {i : Nat}
    (hi : i < env.mbi.modsCount.toNat) : env.comesTo i = true := by
  have hturns := (modulesInitFrom_iff env.mem env.mbi.modsAddr env.stack env.found i
    (registered env.mem env.mbi.modsAddr (0 + i)) (Nat.zero_le 10)).mpr
    ⟨by omega, fun j _ hj => hfound j (by omega), rfl⟩
  have hturns : modulesInitFrom env.mem env.stack env.found i 0 env.mbi.modsAddr ⟨[], 0⟩ = _ :=
    hturns
  rw [Env.comesTo, hturns]
  rfl

/-- The devices of the boot modules are made exactly when there are not too many, and their
records are mapped. -/
theorem mbiModulesInit_done (reg : Devices) :
    (∃ r, env.mbiModulesInit = some (r, reg) ∧ ¬ r < 0) ↔
      (env.infoMapped = true ∧ ∀ i < env.mbi.modsCount.toNat, env.recordMapped i = true) ∧
      env.mbi.modsCount.toNat ≤ 10 ∧ (∀ j < env.mbi.modsCount.toNat, env.found j = true) ∧
        reg = registered env.mem env.mbi.modsAddr env.mbi.modsCount.toNat := by
  rw [← mbiModulesInit_iff env.mem env.mbi env.stack env.found reg, Env.mbiModulesInit]
  constructor
  · rintro ⟨r, h, hr⟩
    obtain ⟨⟨hinfo, hrecords⟩, h⟩ := Option.ite_none_right_eq_some.mp h
    have hle := modulesInitFrom_nonpos _ h
    obtain rfl : r = 0 := by omega
    obtain ⟨hcount, hfound, -⟩ := (mbiModulesInit_iff _ _ _ _ _).mp h
    exact ⟨⟨hinfo, fun i hi => hrecords i hi (comesTo_of_found hcount hfound hi)⟩, h⟩
  · rintro ⟨⟨hinfo, hrecords⟩, h⟩
    exact ⟨0, (if_pos ⟨hinfo, fun i hi _ => hrecords i hi⟩).trans h, Int.lt_irrefl 0⟩

/-- The device of the first boot module. -/
theorem deviceFromname_registered (mem : UInt32 → UInt8) (mods : UInt32) {n : Nat} (hn : n ≤ 10) :
    (registered mem mods n).deviceFromname initrdDevice =
      if 0 < n then some (moduleDevice mem mods 0) else none := by
  have hlen : ¬ initrdDevice.length > NAME_MAX := by decide
  have hnodup : ((registered mem mods n).devices.map Device.name).Nodup := by
    rw [registered, List.map_reverse, List.nodup_reverse]
    exact names_nodup mem hn mods
  rw [Devices.deviceFromname, if_neg hlen]
  split
  · rename_i hpos
    exact (find?_key hnodup).mpr ⟨(mem_registered mem mods).mpr ⟨0, hpos, rfl⟩, rfl⟩
  · rename_i hzero
    obtain rfl : n = 0 := by omega
    rfl

/-- The table with the two file systems of boot. -/
def bootFss : FsTable FsOps :=
  ⟨[⟨initrdName, FS_VIRT, .initrd⟩, ⟨procfsName, FS_PSEUDO, procfsOpts⟩], 2⟩

theorem registerFs_done (s : FsTable FsOps) (name : CStr) (type : Nat) (opts : FsOps) (mem : Bool)
    (hname : name ∉ s.filesystems.map FsRecord.name) (hlen : name.1.length < NAME_MAX)
    (s' : FsTable FsOps) :
    (∃ r, s.registerFs name type opts mem = some (r, s') ∧ ¬ r < 0) ↔
      mem = true ∧ s' = ⟨⟨name, type, opts⟩ :: s.filesystems, s.filesystemCount + 1⟩ := by
  constructor
  · rintro ⟨r, h, hr⟩
    obtain ⟨hneg, -⟩ | ⟨-, -, hmem, -, hs⟩ := FsTable.registerFs_cases h
    · exact absurd hneg hr
    · exact ⟨hmem, hs⟩
  · rintro ⟨rfl, rfl⟩
    obtain ⟨t, ht⟩ : ∃ t, s.registerFs name type opts true = some (0, t) :=
      FsTable.registerFs_zero_iff.mpr ⟨hname, rfl, hlen⟩
    obtain ⟨hneg, -⟩ | ⟨-, -, -, -, rfl⟩ := FsTable.registerFs_cases ht
    · exact absurd hneg (Int.lt_irrefl 0)
    · exact ⟨0, ht, Int.lt_irrefl 0⟩

/-! ## The kernel modules -/

/-- What the kernel modules leave of what boot prepared. -/
structure Prepared (first : Option Device) (k : Kernel) : Prop where
  device : k.devfs.reg.deviceFromname initrdDevice = first
  nodes : k.devfs.nodes = []
  nextInode : k.devfs.nextInode = 0
  fs : k.fss.fsFromname initrdName = some ⟨initrdName, FS_VIRT, .initrd⟩
  mounts : k.mounts = Mounts.boot

variable {first : Option Device} {k : Kernel}

theorem registerDevice_defined (reg : Devices) (dev size : Nat) {name : List UInt8}
    (opts : DevOpts) (mem : Bool) (hlen : name.length < NAME_MAX) :
    ∃ out, reg.registerDevice dev name opts size mem = some out := by
  rw [Devices.registerDevice, if_neg (by omega), if_neg hlen.ne]
  split_ifs
  · exact ⟨_, rfl⟩
  · exact ⟨_, rfl⟩
  · exact ⟨_, rfl⟩

theorem Prepared.device_step (h : Prepared first k) (dev size : Nat) {name : List UInt8}
    (opts : DevOpts) (mem : Bool) (hlen : name.length < NAME_MAX) (hname : name ≠ initrdDevice) :
    ∃ k', k.step (.device (.registerDevice dev name opts size mem)) = some k' ∧
      Prepared first k' := by
  obtain ⟨⟨r, reg⟩, hreg⟩ := registerDevice_defined k.devfs.reg dev size opts mem hlen
  refine ⟨{ k with devfs := { k.devfs with reg } }, ?_, ?_, h.nodes, h.nextInode, h.fs, h.mounts⟩
  · simp only [Kernel.step, Devfs.step, DevfsCall.table, hreg, Option.map_some]
  · obtain ⟨-, rfl⟩ | ⟨-, -, -, -, rfl⟩ := Devices.registerDevice_cases hreg
    · exact h.device
    · have hfits : ¬ initrdDevice.length > NAME_MAX := by decide
      have hfirst := h.device
      rw [Devices.deviceFromname, if_neg hfits] at hfirst ⊢
      rwa [List.find?_cons_of_neg (by simpa using hname)]

theorem registerFs_defined (s : FsTable FsOps) {name : CStr} (type : Nat) (opts : FsOps)
    (mem : Bool) (hlen : name.1.length < NAME_MAX) :
    ∃ out, s.registerFs name type opts mem = some out := by
  rw [FsTable.registerFs, if_neg hlen.ne]
  split_ifs
  · exact ⟨_, rfl⟩
  · exact ⟨_, rfl⟩
  · exact ⟨_, rfl⟩
  · exact ⟨_, rfl⟩

theorem Prepared.fs_step (h : Prepared first k) {name : CStr} (type : Nat) (opts : FsOps)
    (mem : Bool) (hlen : name.1.length < NAME_MAX) :
    ∃ k', k.step (.fs (.register name type opts mem)) = some k' ∧ Prepared first k' := by
  obtain ⟨⟨r, fss⟩, hreg⟩ := registerFs_defined k.fss type opts mem hlen
  refine ⟨{ k with fss }, ?_, h.device, h.nodes, h.nextInode, ?_, h.mounts⟩
  · simp only [Kernel.step, FsTable.step, hreg, Option.map_some]
  · obtain ⟨-, rfl, -⟩ | ⟨-, hname, -, -, rfl⟩ := FsTable.registerFs_cases hreg
    · exact h.fs
    · have hthere : initrdName ∈ k.fss.filesystems.map FsRecord.name :=
        FsTable.fsFromname_isSome.mp (by rw [h.fs]; rfl)
      have hne : name ≠ initrdName := fun heq => hname (heq ▸ hthere)
      exact (FsTable.fsFromname_cons hne).trans h.fs

theorem Prepared.step (h : Prepared first k) {c : ModuleCall} (hc : c.Registers) :
    ∃ k', k.step c = some k' ∧ Prepared first k' := by
  cases c with
  | device c =>
      cases c with
      | registerDevice dev name opts size mem => exact h.device_step dev size opts mem hc.1 hc.2
      | unregisterDevice dev => exact hc.elim
      | devfsGet i blks mem listMem => exact hc.elim
  | fs c =>
      cases c with
      | register name type opts mem => exact h.fs_step type opts mem hc
      | unregister name => exact hc.elim

theorem Prepared.run (h : Prepared first k) {cs : List ModuleCall} (hcs : ∀ c ∈ cs, c.Registers) :
    ∃ k', Lib.run Kernel.step k cs = some k' ∧ Prepared first k' :=
  run_defined (C := fun _ => ModuleCall.Registers) (fun _ _ hs hc => hs.step hc) cs h
    (meets_of_mem cs hcs)

/-! ## The device of the archive -/

/-- A device that is found by its name is in the place that `device_indexof` gives. -/
theorem deviceGet_indexof {reg : Devices} {name : List UInt8} {device : Device}
    (h : reg.deviceFromname name = some device) :
    reg.deviceGet (deviceIndexof reg device) = some device ∧
      deviceIndexof reg device < reg.devices.length := by
  rw [Devices.deviceFromname] at h
  split at h
  · cases h
  · obtain rfl : device.name = name := by simpa using List.find?_some h
    cases hi : reg.devices.findIdx? fun d => d.name = device.name with
    | none =>
        have hnone := List.findIdx?_eq_none_iff.mp hi device (List.mem_of_find?_eq_some h)
        simp at hnone
    | some i =>
        rw [List.find?_eq_bind_findIdx?_getElem?, hi, Option.bind_some] at h
        simp only [deviceIndexof, hi]
        exact ⟨h, (List.getElem?_eq_some_iff.mp h).1⟩

/-! ## Up to `devfs_init` -/

/-- What boot prepares for the kernel modules. -/
def booted (env : Env) : Kernel :=
  ⟨⟨registered env.mem env.mbi.modsAddr env.mbi.modsCount.toNat, [], 0⟩, bootFss, Mounts.boot⟩

theorem bootDevices_done (env : Env) (k : Kernel) :
    bootDevices env = .done k ↔
      env.magic = MULTIBOOT_BOOTLOADER_MAGIC ∧
      (env.infoMapped = true ∧ ∀ i < env.mbi.modsCount.toNat, env.recordMapped i = true) ∧
      (env.mbi.modsCount.toNat ≤ 10 ∧ ∀ j < env.mbi.modsCount.toNat, env.found j = true) ∧
      env.procfsMem = true ∧ env.initrdMem = true ∧
      run Kernel.step (booted env) env.moduleCalls = some k ∧ 0 ≤ env.modulesInit := by
  simp only [bootDevices, bind_eq_done, Prod.exists, ofOption_eq_done, panicIf_eq_done,
    exists_const, decide_eq_false_iff_not, Decidable.not_not]
  have hprocfs := registerFs_done FsTable.boot procfsName FS_PSEUDO procfsOpts env.procfsMem
    (by simp [FsTable.boot]) (by decide)
  have hinitrd := registerFs_done ⟨[⟨procfsName, FS_PSEUDO, procfsOpts⟩], 1⟩ initrdName FS_VIRT
    .initrd env.initrdMem (by simp; decide) (by decide)
  constructor
  · rintro ⟨hmagic, r, reg, hreg, hr, r₁, fss, hfss, hr₁, r₂, fss₂, hfss₂, hr₂, k', hrun, hloaded,
      -, hk⟩
    obtain ⟨hread, hcount, hfound, rfl⟩ := (mbiModulesInit_done reg).mp ⟨r, hreg, hr⟩
    obtain ⟨hmem, rfl⟩ := (hprocfs fss).mp ⟨r₁, hfss, hr₁⟩
    obtain ⟨hmem₂, rfl⟩ := (hinitrd fss₂).mp ⟨r₂, hfss₂, hr₂⟩
    cases hk
    exact ⟨hmagic, hread, ⟨hcount, hfound⟩, hmem, hmem₂, hrun, Int.not_lt.mp hloaded⟩
  · rintro ⟨hmagic, hread, ⟨hcount, hfound⟩, hmem, hmem₂, hrun, hloaded⟩
    obtain ⟨r, hreg, hr⟩ := (mbiModulesInit_done _).mpr ⟨hread, hcount, hfound, rfl⟩
    obtain ⟨r₁, hfss, hr₁⟩ := (hprocfs _).mpr ⟨hmem, rfl⟩
    obtain ⟨r₂, hfss₂, hr₂⟩ := (hinitrd _).mpr ⟨hmem₂, rfl⟩
    exact ⟨hmagic, r, _, hreg, hr, r₁, _, hfss, hr₁, r₂, _, hfss₂, hr₂, k, hrun,
      Int.not_lt.mpr hloaded, by decide, rfl⟩

theorem prepared_booted {env : Env} (hcount : env.mbi.modsCount.toNat ≤ 10) :
    Prepared (if 0 < env.mbi.modsCount.toNat then some (moduleDevice env.mem env.mbi.modsAddr 0)
      else none) (booted env) where
  device := deviceFromname_registered env.mem env.mbi.modsAddr hcount
  nodes := rfl
  nextInode := rfl
  fs := rfl
  mounts := rfl

theorem ModuleCall.Registers.devices_le {c : ModuleCall} (hc : c.Registers) {k' : Kernel}
    (h : k.step c = some k') :
    k'.devfs.reg.devices.length ≤ k.devfs.reg.devices.length + 1 := by
  cases c with
  | device c =>
      cases c with
      | registerDevice dev name opts size mem =>
          obtain ⟨devfs, hdevfs, rfl⟩ := Option.map_eq_some_iff.mp h
          obtain ⟨reg, htable, rfl⟩ := Option.map_eq_some_iff.mp hdevfs
          obtain ⟨⟨r, reg⟩, hreg, rfl⟩ := Option.map_eq_some_iff.mp htable
          obtain ⟨-, rfl⟩ | ⟨-, -, -, -, rfl⟩ := Devices.registerDevice_cases hreg
          · exact Nat.le_succ _
          · exact Nat.le_refl _
      | unregisterDevice dev => exact hc.elim
      | devfsGet i blks mem listMem => exact hc.elim
  | fs c =>
      obtain ⟨fss, -, rfl⟩ := Option.map_eq_some_iff.mp h
      exact Nat.le_succ _

theorem devices_run {cs : List ModuleCall} (hcs : ∀ c ∈ cs, c.Registers) {k k' : Kernel}
    (h : run Kernel.step k cs = some k') :
    k'.devfs.reg.devices.length ≤ k.devfs.reg.devices.length + cs.length := by
  induction cs generalizing k with
  | nil =>
      cases h
      exact Nat.le_refl _
  | cons c cs ih =>
      obtain ⟨k₁, hstep, hrun⟩ := Option.bind_eq_some_iff.mp h
      have hone := (hcs c List.mem_cons_self).devices_le hstep
      have hrest := ih (fun c hc => hcs c (List.mem_cons_of_mem _ hc)) hrun
      rw [List.length_cons]
      omega

/-! ## From `device_fromname` on -/

/-- The node of the first boot module. -/
def firstNode (env : Env) : DevfsNode :=
  deviceNode (moduleDevice env.mem env.mbi.modsAddr 0) (env.blks.blkdevFromname initrdDevice) 0

theorem devfsGet_first {env : Env} {s : Devfs} (hnodes : s.nodes = []) (hino : s.nextInode = 0)
    {i : Nat} (hdevice : s.reg.deviceGet i = some (moduleDevice env.mem env.mbi.modsAddr 0)) :
    s.devfsGet i env.blks env.nodeMem env.listMem =
      if env.nodeMem then (some (firstNode env), { s with
        nodes := if env.listMem then [firstNode env] else []
        nextInode := 1 })
      else (none, s) := by
  have hlong : ¬ NAME_MAX < (moduleDevice env.mem env.mbi.modsAddr 0).name.length :=
    Nat.lt_asymm (nameOf_short _ _)
  rw [Devfs.devfsGet, hnodes, List.getElem?_nil]
  simp only [hdevice, hino, fsNodeCreate, hlong, ↓reduceIte]
  cases env.nodeMem with
  | false =>
      obtain ⟨reg, nodes, nextInode⟩ := s
      cases hnodes
      cases hino
      rfl
  | true => rfl

/-- The node of a device is neither a link nor a directory. -/
theorem nodeTypeGet_deviceNode (device : Device) (blkdev : Option Blkdev) (ino : Nat) :
    nodeTypeGet (deviceNode device blkdev ino).mode ≠ FS_NODE_LINK ∧
      nodeTypeGet (deviceNode device blkdev ino).mode ≠ FS_NODE_DIR := by
  have htype : ∀ b : Bool,
      nodeTypeGet (6 <<< (if b then NodeType.blk.num else NodeType.chr.num)) ≠ FS_NODE_LINK ∧
        nodeTypeGet (6 <<< (if b then NodeType.blk.num else NodeType.chr.num)) ≠ FS_NODE_DIR := by
    decide
  exact htype blkdev.isSome

/-- Where miniz reads its archive. -/
theorem mzInitrdRead_first (env : Env) (off size : UInt32) :
    env.mzInitrdRead (firstNode env) off size =
      some (mbRead env.mem env.mbi initrdDevice off size) := by
  obtain ⟨hlink, hdir⟩ : nodeTypeGet (firstNode env).mode ≠ FS_NODE_LINK ∧
      nodeTypeGet (firstNode env).mode ≠ FS_NODE_DIR := nodeTypeGet_deviceNode _ _ _
  have hopts : (firstNode env).opts = mbimodOpts := rfl
  have hname : (firstNode env).name = initrdDevice := rfl
  rw [Env.mzInitrdRead, Nodes.fsNodeRead, Nodes.fsNodeIo]
  simp only [Env.devNodes, hopts, hname, if_pos, Option.map_some, hlink, hdir, if_false, sizeT,
    UInt32.ofNat_toNat]

theorem zip_first (env : Env) :
    env.zip (env.mzInitrdRead (firstNode env)) (UInt32.ofNat (firstNode env).size) =
      env.archive := by
  have hread : env.mzInitrdRead (firstNode env) = fun off size =>
      some (mbRead env.mem env.mbi initrdDevice off size) := by
    funext off size
    exact mzInitrdRead_first env off size
  have hsize : UInt32.ofNat (firstNode env).size = (moduleAt env.mem env.mbi.modsAddr).len :=
    UInt32.ofNat_toNat
  rw [hread, hsize, Env.archive]

theorem Env.Mounts.unique {env : Env} {zip zip' : Zip} {s s' : Initrd} {ino ino' : UInt32}
    (h : env.Mounts zip s ino) (h' : env.Mounts zip' s' ino') :
    zip = zip' ∧ s = s' ∧ ino = ino' := by
  obtain ⟨hzip, hmount⟩ := h
  obtain ⟨hzip', hmount'⟩ := h'
  cases hzip.symm.trans hzip'
  cases hmount.symm.trans hmount'
  exact ⟨rfl, rfl, rfl⟩

theorem reader_of_initrdMount {head : Nat} {zip : Zip} {mem : MountMem} {ino ino' : UInt32}
    {s : Initrd} (h : Fs.initrdMount head zip mem ino = some (.ok s, ino')) :
    mem.reader = true := by
  obtain ⟨-, e, ino₁, herror⟩ | ⟨hroot, -⟩ := initrdMount_root zip mem ino
  · rw [herror] at h
    cases h
  · exact hroot.reader

theorem sourceMapped_first (env : Env) : env.sourceMapped (firstNode env) =
    env.mapped (moduleAt env.mem env.mbi.modsAddr).modStart
      (moduleAt env.mem env.mbi.modsAddr).len.toNat := by
  have hopts : (firstNode env).opts = mbimodOpts := rfl
  have hnumber : moduleNumber (firstNode env).name = 0 := number_nameOf (i := 0) (by decide)
  have hselected : selected env.mem env.mbi (firstNode env).name =
      moduleAt env.mem env.mbi.modsAddr := by
    rw [selected, hnumber]
    rfl
  simp [Env.sourceMapped, hopts, hselected]

/-- The mount operation mounts the archive in the first boot module, or it fails or is not
defined. -/
theorem initrdMount_first (env : Env) :
    (∃ zip s ino, env.Mounts zip s ino ∧
      env.initrdMount (firstNode env) 1 = some ((0, some (env.rootNode s 1)), ino)) ∨
    ((¬ ∃ zip s ino, env.Mounts zip s ino) ∧
      ∀ out ∈ env.initrdMount (firstNode env) 1, out.1.1 < 0) := by
  rw [Env.initrdMount, zip_first]
  cases hmount : Fs.initrdMount env.nodesHead (env.archive.getD ⟨[], 0⟩)
    { env.mountMem with reader := env.archive.isSome } 1 with
  | none =>
      refine Or.inr ⟨?_, nofun⟩
      rintro ⟨zip, s, ino', hzip, hmount'⟩
      rw [hzip] at hmount
      cases hmount.symm.trans hmount'
  | some out =>
      obtain ⟨r, ino⟩ := out
      cases r with
      | ok s =>
          obtain ⟨zip, hzip⟩ := Option.isSome_iff_exists.mp (reader_of_initrdMount hmount)
          rw [hzip] at hmount
          exact Or.inl ⟨zip, s, ino, ⟨hzip, hmount⟩, rfl⟩
      | error e =>
          refine Or.inr ⟨?_, ?_⟩
          · rintro ⟨zip, s, ino', hzip, hmount'⟩
            rw [hzip] at hmount
            cases hmount.symm.trans hmount'
          · intro out hout
            obtain rfl := Option.some.inj hout
            exact e.2.2

theorem zero_notMem_nil : (0 : UInt8) ∉ [] := List.not_mem_nil

/-- The target of the first mountpoint. -/
def rootTarget : CStr := ⟨[], zero_notMem_nil⟩

/-- The mountpoint of the root. -/
def rootMountpoint (env : Env) (mp : Mountpoint) (s : Initrd) : Mountpoint :=
  { mp with
    fsname := initrdName
    target := rootTarget
    flags := 0
    rootnode := some (env.rootNode s 1) }

theorem createFromnode_root (mp : Mountpoint) (name : CStr) {out : Int × Option FsNode}
    (hout : 0 ≤ out.1) (source : Option FsNode) :
    Mounts.boot.mountpointCreateFromnode (some mp) (some ⟨name, fun _ _ _ _ => out⟩) source
        [slash, 0] 0 0 none =
      (0, ⟨[{ mp with fsname := name, target := rootTarget, flags := 0, rootnode := out.2 }], 1,
        [.mount name]⟩) :=
  if_neg (Int.not_lt.mpr hout)

theorem createFromnode_root_neg {mem : Option Mountpoint} {out : Int × Option FsNode}
    (h : mem = none ∨ out.1 < 0) (name : CStr) (source : Option FsNode) :
    (Mounts.boot.mountpointCreateFromnode mem (some ⟨name, fun _ _ _ _ => out⟩) source
        [slash, 0] 0 0 none).1 < 0 := by
  cases mem with
  | none =>
      show -ENOMEM < 0
      decide
  | some mp =>
      obtain hnone | hneg := h
      · cases hnone
      · exact lt_of_eq_of_lt (congrArg Prod.fst (if_pos hneg)) hneg

theorem not_bootMount_of_none (h : Prepared none k) (env : Env) (k' : Kernel) :
    bootMount env k ≠ .done k' := by
  rw [bootMount, h.device]
  exact nofun

theorem bootMount_done {env : Env}
    (h : Prepared (some (moduleDevice env.mem env.mbi.modsAddr 0)) k)
    (hfew : k.devfs.reg.devices.length < 2 ^ 32) (k' : Kernel) :
    bootMount env k = .done k' ↔
      env.nodeMem = true ∧ (env.mountMem.initrd = true → env.sourceMapped (firstNode env) = true) ∧
        ∃ mp zip s ino, env.mountpoint = some mp ∧ env.Mounts zip s ino ∧
          k' = { k with
            devfs := ⟨k.devfs.reg, if env.listMem then [firstNode env] else [], ino⟩
            mounts := ⟨[rootMountpoint env mp s], 1, [.mount initrdName]⟩ } := by
  obtain ⟨hget, hindex⟩ := deviceGet_indexof h.device
  have hfound : deviceIndexof k.devfs.reg (moduleDevice env.mem env.mbi.modsAddr 0) ≠
      asU32 (-1) := (show _ < asU32 (-1) from by simp [asU32]; omega).ne
  simp only [bootMount, bind_eq_done, h.device, orPanic_eq_done, panicIf_eq_done, exists_const,
    devfsGet_first h.nodes h.nextInode hget, h.fs, Option.some.injEq, exists_eq_left',
    hfound, not_false_eq_true, true_and, h.mounts, decide_eq_false_iff_not, ofOption_eq_done]
  cases env.nodeMem with
  | false => simp
  | true =>
      simp only [↓reduceIte, Option.some.injEq, exists_eq_left', true_and, Env.mountOp,
        Option.ite_none_left_eq_some, not_and, Decidable.not_not, and_assoc, exists_and_left]
      refine and_congr_right fun _ => ?_
      obtain ⟨zip, s, ino, hmounts, hmount⟩ | ⟨hnot, hneg⟩ := initrdMount_first env
      · simp only [hmount, Option.some.injEq, exists_eq_left']
        cases env.mountpoint with
        | none =>
            constructor
            · rintro ⟨hr, -⟩
              exact absurd (createFromnode_root_neg (Or.inl rfl) _ _) hr
            · rintro ⟨mp, hmp, -⟩
              cases hmp
        | some mp =>
            rw [createFromnode_root mp initrdName (Int.le_refl 0)]
            constructor
            · rintro ⟨-, hk⟩
              exact ⟨mp, rfl, zip, s, ino, hmounts, (Outcome.done.inj hk).symm⟩
            · rintro ⟨mp', hmp, zip', s', ino', hmounts', rfl⟩
              obtain rfl := Option.some.inj hmp
              obtain ⟨rfl, rfl, rfl⟩ := hmounts.unique hmounts'
              exact ⟨Int.lt_irrefl 0, rfl⟩
      · constructor
        · rintro ⟨out, hout, hr, -⟩
          exact absurd (createFromnode_root_neg (Or.inr (hneg out hout)) _ _) hr
        · rintro ⟨mp, -, zip, s, ino, hmounts, -⟩
          exact absurd ⟨zip, s, ino, hmounts⟩ hnot

/-! ## The boot as a whole -/

variable {env : Env}

/-- The kernel modules leave the device of the first boot module, if there is one. -/
theorem prepared_of_run (hcount : env.mbi.modsCount.toNat ≤ 10)
    (hcalls : ∀ c ∈ env.moduleCalls, c.Registers)
    (hrun : run Kernel.step (booted env) env.moduleCalls = some k) :
    Prepared (if 0 < env.mbi.modsCount.toNat then some (moduleDevice env.mem env.mbi.modsAddr 0)
      else none) k := by
  obtain ⟨k₁, hrun₁, hprep⟩ := (prepared_booted hcount).run hcalls
  rw [hrun] at hrun₁
  cases hrun₁
  exact hprep

theorem devices_few (hcount : env.mbi.modsCount.toNat ≤ 10)
    (hcalls : ∀ c ∈ env.moduleCalls, c.Registers) (hfew : env.moduleCalls.length < 2 ^ 31)
    (hrun : run Kernel.step (booted env) env.moduleCalls = some k) :
    k.devfs.reg.devices.length < 2 ^ 32 := by
  have hle := devices_run hcalls hrun
  have hbooted : (booted env).devfs.reg.devices.length = env.mbi.modsCount.toNat := by
    simp [booted, registered]
  omega

/-- What boot comes to. -/
theorem bootstrapMain_done (hcalls : ∀ c ∈ env.moduleCalls, c.Registers)
    (hfew : env.moduleCalls.length < 2 ^ 31) {k' : Kernel} (h : bootstrapMain env = .done k') :
    env.Bootable ∧ ∃ mp zip s ino, env.Mounts zip s ino ∧
      k'.mounts = ⟨[rootMountpoint env mp s], 1, [.mount initrdName]⟩ := by
  obtain ⟨k, hdevices, hmount⟩ := bind_eq_done.mp h
  obtain ⟨hmagic, -, ⟨hcount, hfound⟩, hprocfs, hinitrd, hrun, hloaded⟩ :=
    (bootDevices_done env k).mp hdevices
  have hprep := prepared_of_run hcount hcalls hrun
  split at hprep
  · rename_i hpos
    obtain ⟨hnode, -, mp, zip, s, ino, hmp, hmounts, rfl⟩ :=
      (bootMount_done hprep (devices_few hcount hcalls hfew hrun) k').mp hmount
    exact ⟨⟨hmagic, ⟨hpos, hcount⟩, hfound, hprocfs, hinitrd, hloaded, hnode,
      Option.isSome_iff_exists.mpr ⟨mp, hmp⟩, zip, s, ino, hmounts⟩, mp, zip, s, ino, hmounts, rfl⟩
  · exact absurd hmount (not_bootMount_of_none hprep env k')

theorem boots_of_bootable (hcalls : ∀ c ∈ env.moduleCalls, c.Registers)
    (hfew : env.moduleCalls.length < 2 ^ 31) (hmapped : env.Mapped) (h : env.Bootable) :
    ∃ k, bootstrapMain env = .done k := by
  obtain ⟨hpos, hcount⟩ := h.modules
  obtain ⟨k, hrun, hprep⟩ := (prepared_booted hcount).run hcalls
  rw [if_pos hpos] at hprep
  obtain ⟨mp, hmp⟩ := Option.isSome_iff_exists.mp h.mountpoint
  obtain ⟨zip, s, ino, hmounts⟩ := h.archive
  have hdevices := (bootDevices_done env k).mpr
    ⟨h.magic, ⟨hmapped.info, hmapped.records⟩, ⟨hcount, h.found⟩, h.procfsMem, h.initrdMem, hrun,
      h.loaded⟩
  have hmount := (bootMount_done hprep (devices_few hcount hcalls hfew hrun) _).mpr
    ⟨h.nodeMem, fun _ => (sourceMapped_first env).trans hmapped.first, mp, zip, s, ino, hmp,
      hmounts, rfl⟩
  exact ⟨_, bind_eq_done.mpr ⟨k, hdevices, hmount⟩⟩

/-- Boot comes to the mounted archive exactly in these cases, if what it reads is mapped. -/
theorem boots_iff (env : Env) (hcalls : ∀ c ∈ env.moduleCalls, c.Registers)
    (hfew : env.moduleCalls.length < 2 ^ 31) (hmapped : env.Mapped) :
    (∃ k, bootstrapMain env = .done k) ↔ env.Bootable :=
  ⟨fun ⟨_, h⟩ => (bootstrapMain_done hcalls hfew h).1, boots_of_bootable hcalls hfew hmapped⟩

/-! ### An archive with a program -/

/-- A program with one segment, of four bytes at 40000000h. -/
def initProgram : List UInt8 :=
  [127, 69, 76, 70, 1, 1, 0, 0, 0, 0, 0, 0, 0, 0, 0, 0, 2, 0, 3, 0, 1, 0, 0, 0, 0, 0, 0, 64, 52, 0,
    0, 0, 0, 0, 0, 0, 0, 0, 0, 0, 52, 0, 32, 0, 1, 0, 0, 0, 0, 0, 0, 0] ++
  [1, 0, 0, 0, 84, 0, 0, 0, 0, 0, 0, 64, 0, 0, 0, 0, 4, 0, 0, 0, 4, 0, 0, 0, 7, 0, 0, 0, 0, 0, 0,
    0] ++ [144, 144, 235, 254]

/-- A zip archive with a text called `init`, and the program, which has that name in a
directory.  Nothing is compressed. -/
def initArchive : List UInt8 :=
  [80, 75, 3, 4, 20, 0, 0, 0, 0, 0, 0, 0, 33, 0, 116, 228, 116, 198, 4, 0, 0, 0, 4, 0, 0, 0, 4,
    0, 0, 0, 105, 110, 105, 116, 105, 110, 105, 116] ++
  [80, 75, 3, 4, 20, 0, 0, 0, 0, 0, 0, 0, 33, 0, 0, 0, 0, 0, 0, 0, 0, 0, 0, 0, 0, 0, 5, 0, 0, 0,
    115, 98, 105, 110, 47] ++
  [80, 75, 3, 4, 20, 0, 0, 0, 0, 0, 0, 0, 33, 0, 17, 65, 251, 47, 88, 0, 0, 0, 88, 0, 0, 0, 9, 0, 0,
    0, 115, 98, 105, 110, 47, 105, 110, 105, 116] ++ initProgram ++
  [80, 75, 1, 2, 20, 0, 20, 0, 0, 0, 0, 0, 0, 0, 33, 0, 116, 228, 116, 198, 4, 0, 0, 0, 4, 0, 0, 0,
    4, 0, 0, 0, 0, 0, 0, 0, 0, 0, 0, 0, 128, 1, 0, 0, 0, 0, 105, 110, 105, 116] ++
  [80, 75, 1, 2, 20, 0, 20, 0, 0, 0, 0, 0, 0, 0, 33, 0, 0, 0, 0, 0, 0, 0, 0, 0, 0, 0, 0, 0, 5, 0, 0,
    0, 0, 0, 0, 0, 0, 0, 0, 0, 128, 1, 38, 0, 0, 0, 115, 98, 105, 110, 47] ++
  [80, 75, 1, 2, 20, 0, 20, 0, 0, 0, 0, 0, 0, 0, 33, 0, 17, 65, 251, 47, 88, 0, 0, 0, 88, 0, 0, 0,
    9, 0, 0, 0, 0, 0, 0, 0, 0, 0, 0, 0, 128, 1, 73, 0, 0, 0, 115, 98, 105, 110, 47, 105, 110, 105,
    116] ++
  [80, 75, 5, 6, 0, 0, 0, 0, 3, 0, 3, 0, 156, 0, 0, 0, 200, 0, 0, 0, 0, 0]

/-- The archive is at 2000h, and its record at 1000h. -/
def initMem (a : UInt32) : UInt8 :=
  if a < 0x2000 then [0, 0x20, 0, 0, 0x7A, 0x21].getD (a - 0x1000).toNat 0
  else initArchive.getD (a - 0x2000).toNat 0

/-- The base name of the program that is started. -/
def initName : CStr := ⟨asciiText ['i', 'n', 'i', 't'], by decide⟩

def initText : ZipEntry where
  filename := initName
  isDirectory := false
  dir_iff := by decide
  fits := by decide

def sbinEntry : ZipEntry where
  filename := ⟨asciiText ['s', 'b', 'i', 'n', '/'], by decide⟩
  isDirectory := true
  dir_iff := by decide
  fits := by decide

def initEntry : ZipEntry where
  filename := ⟨asciiText ['s', 'b', 'i', 'n', '/', 'i', 'n', 'i', 't'], by decide⟩
  isDirectory := false
  dir_iff := by decide
  fits := by decide

/-- What miniz finds in the archive. -/
def initZip : Zip := ⟨[initText, sbinEntry, initEntry], 0⟩

/-- Boot with one module, with memory, and with a kernel module that registers a terminal. -/
def initEnv : Env where
  magic := MULTIBOOT_BOOTLOADER_MAGIC
  mbaddr := 0x500
  mbi := ⟨1, 0x1000⟩
  mmap := [⟨0, 0x8000000, Mem.MULTIBOOT_MEMORY_AVAILABLE⟩]
  mem := initMem
  kernelEnd := 0x108000
  stack _ _ := 0
  found _ := true
  procfsMem := true
  initrdMem := true
  nodeMem := true
  listMem := true
  mountpoint := some ⟨none, rootTarget, rootTarget, rootTarget, 0⟩
  mountMem := ⟨true, true, true, fun _ => true, fun _ => true, fun _ => true⟩
  nodesHead := 0
  moduleCalls := [.device (.registerDevice (mkdev DEVMAJ_TTY 0) (asciiText ['t', 't', 'y', '0'])
    .tty 0 true)]
  modulesInit := 0
  blks := ⟨[], 0⟩
  read _ _ _ := (0, [])
  mount _ := (-ENOSYS, none)
  zip read size := if read 0 size = some (size, initArchive) then some initZip else none
  listed _ _ := []

theorem initEnv_archive : initEnv.archive = some initZip := by
  have hlen : (moduleAt initMem 0x1000).len = 378 := by decide +kernel
  have hread : mbRead initMem ⟨1, 0x1000⟩ initrdDevice 0 378 = (378, initArchive) := by
    decide +kernel
  rw [Env.archive]
  simp only [initEnv, hlen, hread, if_pos]

theorem initEnv_calls : ∀ c ∈ initEnv.moduleCalls, c.Registers := by
  intro c hc
  obtain rfl := List.mem_singleton.mp hc
  exact ⟨by decide, by decide⟩

theorem initEnv_bootable : initEnv.Bootable where
  magic := rfl
  modules := by decide
  found := fun _ _ => rfl
  procfsMem := rfl
  initrdMem := rfl
  loaded := Int.le_refl 0
  nodeMem := rfl
  mountpoint := rfl
  archive := ⟨initZip, _, _, initEnv_archive, rfl⟩

theorem initEnv_mapped : initEnv.Mapped where
  info := by decide +kernel
  records := by decide +kernel
  first := by decide +kernel

theorem boots_iff_init : ∃ k, bootstrapMain initEnv = .done k :=
  (boots_iff initEnv initEnv_calls (by decide) initEnv_mapped).mpr initEnv_bootable

end StardustOS.Boot
