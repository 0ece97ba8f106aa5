import Pi0Os.Library.TransitionSystem
import Pi0Os.Library.LinkedChain
import Pi0Os.Library.Tiling
import Pi0Os.Memory.PageAllocatorRuns
import Pi0Os.Memory.Coalescing
import Pi0Os.Memory.AddressSpaceFork
import Pi0Os.Memory.SpaceRelease
import Pi0Os.Memory.DeviceMappings
import Pi0Os.Memory.HeapBreak
import Pi0Os.Memory.EarlyMappings
import Pi0Os.Boot.KernelMapping
import Pi0Os.Task.ProcessLifetimes
import Pi0Os.Drivers.SectorReads
import Pi0Os.Drivers.TtyLines
import Pi0Os.Drivers.CanonicalLines
import Pi0Os.Drivers.UsedRing
import Pi0Os.Drivers.BlockRequests
import Pi0Os.Drivers.GpuCommands
import Pi0Os.Vfs.Fat32Read
import Pi0Os.Vfs.PathNormalizer
import Pi0Os.Vfs.MountResolution
import Pi0Os.Task.ThreadTable
import Pi0Os.Vfs.InodeBalance
import Pi0Os.Task.DescriptorRuns
import Pi0Os.Task.WaitExit
import Pi0Os.Task.LoadedAddressSpace
import Pi0Os.Task.ElfLoads
import Pi0Os.Vfs.PtyOutput
import Pi0Os.Vfs.PipeRuns
import Pi0Os.Vfs.SequentialReads
import Pi0Os.Vfs.PtySlots
import Pi0Os.Vfs.TempfsFiles
import Pi0Os.Vfs.TempfsDirectories
import Pi0Os.Vfs.CanonicalPaths
import Pi0Os.Task.WorkingDirectory
import Pi0Os.Vfs.MountOrder
import Pi0Os.Vfs.Walks
import Pi0Os.Vfs.TraversalContract
import Pi0Os.Vfs.OpenCaches
import Pi0Os.Vfs.CreatedFiles
import Pi0Os.Vfs.PathStat
import Pi0Os.Task.PipeCreation
import Pi0Os.Task.PollTimeouts
import Pi0Os.Vfs.DirectoryListing
import Pi0Os.Vfs.ListingLookup
import Pi0Os.Vfs.DirectoryScan
import Pi0Os.Vfs.FatCache
import Pi0Os.Vfs.ClusterReads
import Pi0Os.Vfs.ShortChains
import Pi0Os.Vfs.AcceptedVolumes
import Pi0Os.Drivers.SectorWrites
import Pi0Os.Drivers.DescriptorList
import Pi0Os.Drivers.VirtqLayout
import Pi0Os.Task.ForkCleanup
import Pi0Os.Userland.Shell
import Pi0Os.Drivers.LineCompletion
import Pi0Os.Vfs.PathTrace
import Pi0Os.Library.Stores
import Pi0Os.Task.ProcessArgs
import Pi0Os.Library.BlockLedger
import Pi0Os.Task.ExecveCleanup
import Pi0Os.Vfs.PathForms
import Pi0Os.Task.ExecvePaths
import Pi0Os.Kernel.Timers
import Pi0Os.Kernel.TimerFates
import Pi0Os.Task.Millisleep
import Pi0Os.Library.PagedImage
import Pi0Os.Memory.UserBytes
import Pi0Os.Task.ElfImage
import Pi0Os.Task.ElfContents
import Pi0Os.Kernel.RingBufferRuns
import Pi0Os.Kernel.IntrusiveListRuns
import Pi0Os.Task.ProcessNames
import Pi0Os.Boot.MemoryFunctions
import Pi0Os.Boot.EarlyFormat
import Pi0Os.Library.DigitalLine
import Pi0Os.Userland.Display
import Pi0Os.Userland.Lines
import Pi0Os.Library.Noted
import Pi0Os.Task.UserMappings
import Pi0Os.Library.GridCount
import Pi0Os.Memory.FrameCounts
import Pi0Os.Memory.OwnedSpaces
import Pi0Os.Memory.OwnershipSteps
import Pi0Os.Memory.OwnedMappings
import Pi0Os.Memory.OwnedCreation
import Pi0Os.Memory.OwnedFork
import Pi0Os.Memory.OwnedFree
import Pi0Os.Memory.OwnedBoot
import Pi0Os.Memory.OwnedRuns
import Pi0Os.Memory.SpaceIsolation
import Pi0Os.Library.Gregorian
import Pi0Os.Kernel.MoreTime
import Pi0Os.Boot.BootStart
import Pi0Os.Boot.FirstTable
import Pi0Os.Boot.KernelSpace
