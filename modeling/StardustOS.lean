import StardustOS.Lib.Loop
import StardustOS.Fs.PathWalk
import StardustOS.Dev.BlockRuns
import StardustOS.Mem.PhysRuns
import StardustOS.Mem.Mapping
import StardustOS.Mem.KernelHeap
import StardustOS.Mem.AddressSpace
import StardustOS.Mem.RealRam
import StardustOS.Process.Progress
import StardustOS.Process.Zombie
import StardustOS.Process.Family
import StardustOS.Process.Machine
import StardustOS.Process.Context
import StardustOS.Process.Exec
import StardustOS.Process.EntryPoint
import StardustOS.Dev.InStep
import StardustOS.Dev.Registries
import StardustOS.Kmod.Init
import StardustOS.Kmod.DepsFirst
import StardustOS.Kmod.Once
import StardustOS.Fs.Mount
import StardustOS.Fs.MountOrder
import StardustOS.Fs.MountTable
import StardustOS.Fs.NodeIo
import StardustOS.Sys.Files
import StardustOS.Sys.Offsets
import StardustOS.Sys.Descriptors
import StardustOS.Mem.Split
import StardustOS.Mem.UserHalf
import StardustOS.Mem.SharedKernel
import StardustOS.Dev.DevTable
import StardustOS.Process.Parents
import StardustOS.Process.RoundRobin
import StardustOS.Process.Running
import StardustOS.Process.Usage
import StardustOS.Process.Segments
import StardustOS.Fs.NodeType
import StardustOS.Fs.InitrdList
import StardustOS.Time.Clock
import StardustOS.Libc.Vsnprintf
import StardustOS.Mem.OutOfMemory
import StardustOS.Kmod.Ends
import StardustOS.Dev.BusDrivers
import StardustOS.Fs.Devfs
import StardustOS.Fs.Procfs
import StardustOS.Dev.BootModules
import StardustOS.Nvk.Rootfs
import StardustOS.Heap.Contents
import StardustOS.Dev.BlockAddress
import StardustOS.Dev.FreshNumbers
import StardustOS.Dev.Serial
import StardustOS.Fs.InitrdRead
import StardustOS.Mem.ReservedMap
import StardustOS.Sys.Names
import StardustOS.Process.CreateAtomic
import StardustOS.Mem.FreeMapped
import StardustOS.Mem.BootProtects
import StardustOS.Mem.HeapPages
import StardustOS.Mem.BareDir
import StardustOS.Process.ChildSlot
import StardustOS.Process.ExecLoop
import StardustOS.Process.ExecTrace
import StardustOS.Fs.InitrdMount
import StardustOS.Fs.PathKept
import StardustOS.Fs.Links
import StardustOS.Sys.ClosedFds
import StardustOS.Process.Signals
import StardustOS.Process.Arguments
import StardustOS.Process.Interrupts
import StardustOS.Process.Cleanup
import StardustOS.Lib.DayCount
import StardustOS.Lib.LittleEndian
import StardustOS.Lib.DepthFirst
import StardustOS.Lib.Words
import StardustOS.Lib.X86
import StardustOS.Lib.Segments
import StardustOS.Idt.Gdt
import StardustOS.Time.Seconds
import StardustOS.Pci.Config
import StardustOS.Pci.Bars
import StardustOS.Pci.Names
import StardustOS.Pci.Found
import StardustOS.Pci.Scan
import StardustOS.Libc.Rendering
import StardustOS.Libc.Vfprintf
import StardustOS.Log.Klog
import StardustOS.Log.Lengths
import StardustOS.Process.Regswitch
import StardustOS.Idt.Exceptions
import StardustOS.Idt.Irq
import StardustOS.Idt.Controllers
import StardustOS.Idt.Requests
import StardustOS.Mem.FirstFit
import StardustOS.Mem.NestedMaps
import StardustOS.Lib.OrderedSet
import StardustOS.Libc.Compare
import StardustOS.Libc.SplitPath
import StardustOS.Libc.NumberText
import StardustOS.Liblist.Blocks
import StardustOS.Liblist.List
import StardustOS.Nvk.ReadProgram
import StardustOS.Nvk.Emulator
import StardustOS.Fs.Filesystems
import StardustOS.Boot.Bootstrap
import StardustOS.Boot.RootNames
import StardustOS.Boot.FirstProcess
