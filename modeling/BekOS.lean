import BekOS.Process.Preemption
import BekOS.Process.FamilyRuns
import BekOS.Peripherals.SplitVqService
import BekOS.Mm.CheckRegion
import BekOS.Mm.MemoryRegions
import BekOS.Process.InterlinkFifo
import BekOS.Process.InterlinkOwners
import BekOS.Process.InterlinkAccept
import BekOS.Libipc.Message
import BekOS.Interrupts.DeferredCalls
import BekOS.Mm.KernelAllocatorRuns
import BekOS.Mm.PhysicalRegions
import BekOS.Mm.SlabNull
import BekOS.Libcore.BufferedFileRefinement
import BekOS.Libcore.HeapRuns
import BekOS.Library.IntrusiveListRuns
import BekOS.Process.Pipe
import BekOS.Usb.ProducerRingRuns
import BekOS.Peripherals.Timing
import BekOS.Peripherals.ReadDtb
import BekOS.Library.VectorRuns
import BekOS.Libwindow.WindowServer
import BekOS.Filesystem.LongNames
import BekOS.Filesystem.EntryStamps
import BekOS.Filesystem.ClusterAllocation
import BekOS.Filesystem.FoundEntries
import BekOS.Filesystem.ShortNames
import BekOS.Mm.FreshSpaces
import BekOS.Mm.RegionSource
import BekOS.Mm.MapRefusal
import BekOS.Library.LruOrder
import BekOS.Library.Timestamps
import BekOS.Filesystem.Partition
import BekOS.Process.FileSyscalls
import BekOS.Arch.CrudeMap
import BekOS.Process.ElfSegments
import BekOS.Process.DeviceListing
import BekOS.Process.InitialStack
import BekOS.Peripherals.DmaRanges
import BekOS.Mm.DmaPool
import BekOS.Usb.DeviceContexts
import BekOS.Peripherals.Mouse
import BekOS.Peripherals.PcieBars
import BekOS.Peripherals.Probing
import BekOS.Libipc.Ipcgen
import BekOS.Library.BitsetFit
import BekOS.Libwindow.Border
import BekOS.Filesystem.EntryCodes
import BekOS.Filesystem.PathScanner
import BekOS.Library.FormatStrings
import BekOS.Library.StringRuns
import BekOS.Library.FunctionRuns
import BekOS.Libwindow.Rects
import BekOS.Process.SharedAllocations
