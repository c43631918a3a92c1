import MatteOS.Lib.ByteMemory
import MatteOS.Lib.RadixTree
import MatteOS.Lib.Align
import MatteOS.Lib.Loop
import MatteOS.Lib.Transition
import MatteOS.Lib.BlockTable
import MatteOS.Lib.Tiling
import MatteOS.Lib.Ring
import MatteOS.Lib.Riscv
import MatteOS.Memory.PageTableEntry
import MatteOS.Memory.PageTable
import MatteOS.Memory.Mapping
import MatteOS.Memory.PageAllocator
import MatteOS.Memory.KernelMemoryAllocator
import MatteOS.Memory.Verify.Translation
import MatteOS.Memory.Verify.PageAllocator
import MatteOS.Memory.Verify.FirstFit
import MatteOS.Memory.Verify.HeapExtent
import MatteOS.Memory.Verify.KernelHeapRuns
import MatteOS.Memory.Verify.Coalescing
import MatteOS.Memory.Verify.Exhaustion
import MatteOS.Memory.Verify.Kzmalloc
import MatteOS.Devices.VirtIODevice
import MatteOS.Devices.BlockIODriver
import MatteOS.Devices.Verify.UsedRing
import MatteOS.Devices.BlockOperation
import MatteOS.Devices.Verify.Descriptors
import MatteOS.Devices.Verify.Submissions
import MatteOS.Devices.BlockRequests
import MatteOS.Devices.Verify.BlockRequests
import MatteOS.Devices.BlockDevice
import MatteOS.Devices.Verify.BlockDevice
import MatteOS.Devices.ConsoleDevice
import MatteOS.Lib.Chain
import MatteOS.Lib.RoundRobin
import MatteOS.Lib.Ledger
import MatteOS.Lib.Observation
import MatteOS.Utils.Assertions
import MatteOS.Utils.Memory
import MatteOS.Utils.LinkedQueue
import MatteOS.Utils.Verify.LinkedQueue
import MatteOS.Utils.HashMap
import MatteOS.Utils.Verify.HashMap
import MatteOS.Utils.Strings
import MatteOS.Utils.Verify.Strings
import MatteOS.Lib.Pieces
import MatteOS.Utils.Verify.Segments
import MatteOS.Utils.Verify.LongSeparators
import MatteOS.Utils.ArrayList
import MatteOS.Utils.Verify.ArrayList
import MatteOS.Utils.Verify.ListBounds
import MatteOS.Utils.Verify.ListPrograms
import MatteOS.Utils.Verify.QueuePrograms
import MatteOS.Utils.LinkedList
import MatteOS.Utils.StringValue
import MatteOS.Utils.Verify.StringEquality
import MatteOS.Utils.Basic
import MatteOS.Utils.Verify.Numbers
import MatteOS.Utils.Formatter
import MatteOS.Utils.Verify.Formatter
import MatteOS.Utils.CircularStringBuffer
import MatteOS.Utils.Verify.CircularStringBuffer
import MatteOS.Utils.Verify.LinkedList
import MatteOS.Traps.TrapFrame
import MatteOS.Processes.ProcessManager
import MatteOS.Processes.Scheduler
import MatteOS.Processes.Verify.Scheduler
import MatteOS.FileSystem.FileDescriptorTable
import MatteOS.FileSystem.Verify.FileDescriptorTable
import MatteOS.Processes.Syscalls
import MatteOS.Processes.Verify.Syscalls
import MatteOS.Traps.Interrupts
import MatteOS.Traps.TrapVector
import MatteOS.Traps.Boot
import MatteOS.Traps.UserMode
import MatteOS.Traps.Machine
import MatteOS.Traps.Verify.TrapFrames
import MatteOS.Traps.Verify.TrapVector
import MatteOS.Traps.Verify.Threads
import MatteOS.Traps.Verify.Interrupts
import MatteOS.Traps.Verify.SystemCalls
import MatteOS.Traps.Verify.Scheduling
import MatteOS.Traps.Verify.ReturnProtocol
import MatteOS.Traps.Verify.ConsoleReads
import MatteOS.Traps.Verify.ConsoleInput
import MatteOS.Traps.Verify.Exit
import MatteOS.Traps.Verify.Contexts
import MatteOS.Traps.Verify.Machine
import MatteOS.Traps.Verify.Refinement
import MatteOS.Traps.Verify.ContextSwitch
import MatteOS.Traps.Verify.KernelTraps
import MatteOS.Traps.Plic
import MatteOS.Traps.Verify.Plic
import MatteOS.FileSystem.BlockBackedFileSystem
import MatteOS.FileSystem.FATFileSystem
import MatteOS.FileSystem.Verify.BlockCache
import MatteOS.FileSystem.Verify.CacheBound
import MatteOS.FileSystem.FATInode
import MatteOS.FileSystem.Verify.FATRead
import MatteOS.FileSystem.Verify.EndOfFile
import MatteOS.FileSystem.Verify.ClusterAddresses
import MatteOS.FileSystem.BootSector
import MatteOS.FileSystem.Verify.BootSector
import MatteOS.FileSystem.Directory
import MatteOS.FileSystem.Verify.Listing
import MatteOS.FileSystem.Verify.DirectorySlots
import MatteOS.FileSystem.Verify.ShortEntries
import MatteOS.FileSystem.Verify.LongNames
import MatteOS.FileSystem.OpenFileDescriptor
import MatteOS.FileSystem.FileSystem
import MatteOS.FileSystem.Verify.OpenFiles
import MatteOS.FileSystem.Verify.OpenFileBooks
import MatteOS.FileSystem.Verify.FailedOpens
import MatteOS.FileSystem.VirtualFileSystem
import MatteOS.FileSystem.Verify.Mounts
import MatteOS.Lib.Search
import MatteOS.FileSystem.Verify.MountResolution
import MatteOS.FileSystem.RamFileSystem
import MatteOS.FileSystem.Verify.RamFileSystem
import MatteOS.Firmware.FDTParser
import MatteOS.Firmware.DeviceTree
import MatteOS.Firmware.Verify.ReserveEntries
import MatteOS.Firmware.Verify.FDTParser
import MatteOS.Firmware.Verify.Termination
import MatteOS.Firmware.Verify.LoadAddress
import MatteOS.Firmware.FindNode
import MatteOS.Firmware.Verify.FindNode
import MatteOS.Memory.AddressSpaces
import MatteOS.Processes.AddressSpace
import MatteOS.Memory.Verify.Permissions
import MatteOS.Memory.Verify.LeafPermissions
import MatteOS.Memory.Verify.LargePages
import MatteOS.Memory.Verify.OutOfPages
import MatteOS.Processes.Loader
import MatteOS.Processes.Verify.ElfHeaders
import MatteOS.Processes.Verify.Modinfo
import MatteOS.Processes.Verify.AddressSpace
import MatteOS.Processes.Verify.UserMemory
import MatteOS.Processes.Verify.FileDescriptors
import MatteOS.Memory.InitMemory
import MatteOS.Memory.Verify.InitMemory
import MatteOS.Utils.NumberBuffer
import MatteOS.Utils.Verify.NumberBuffer
import MatteOS.Memory.Verify.NumberBuffers
import MatteOS.Memory.KernelMemory
import MatteOS.Memory.Verify.KernelMemory
import MatteOS.Memory.Verify.Fragmentation
import MatteOS.Memory.Verify.FreedMemory
import MatteOS.Utils.StringBuilder
import MatteOS.Utils.Verify.StringBuilder
import MatteOS.Utils.StringView
import MatteOS.Utils.Verify.StringView
import MatteOS.Utils.MovedLists
import MatteOS.Utils.Verify.MovedLists
import MatteOS.Lib.Ownership
import MatteOS.Utils.RefPtr
import MatteOS.Utils.Verify.RefPtr
import MatteOS.Utils.ErrorOr
import MatteOS.Utils.Verify.ErrorOr
import MatteOS.Lib.Simulation
import MatteOS.Lib.ObjectStore
import MatteOS.Devices.BlockTransfers
import MatteOS.Devices.Verify.BlockTransfers
import MatteOS.Devices.PolledCalls
import MatteOS.Devices.Verify.PolledCalls
import MatteOS.FileSystem.Verify.FailingReads
import MatteOS.FileSystem.OpenReads
import MatteOS.FileSystem.Verify.OpenReads
import MatteOS.Memory.HeapMapping
import MatteOS.Memory.Verify.HeapMapping
import MatteOS.Processes.ProcessSpaces
import MatteOS.Processes.Verify.ProcessSpaces
import MatteOS.Processes.ProcessObjects
import MatteOS.Processes.Verify.ProcessObjects
import MatteOS.Memory.TableRuns
import MatteOS.Memory.Verify.TableRuns
import MatteOS.Firmware.Properties
import MatteOS.Devices.DeviceManager
import MatteOS.Devices.VirtIOInit
import MatteOS.Devices.Discovery
import MatteOS.Devices.Verify.VirtIOInit
import MatteOS.Devices.Verify.Discovery
import MatteOS.Devices.Verify.SetUp
import MatteOS.Lib.Gateway
import MatteOS.Traps.DeviceInterrupts
import MatteOS.Traps.Verify.DeviceInterrupts
