import MeOS.Lib.Bytes
import MeOS.Lib.Extents
import MeOS.Lib.Runs
import MeOS.Lib.EndMarked
import MeOS.Lib.Links
import MeOS.Lib.Queue
import MeOS.Types
import MeOS.Utility
import MeOS.Heap
import MeOS.HeapChain
import MeOS.HeapOps
import MeOS.HeapSpec
import MeOS.HeapRun
import MeOS.Lib.MaximalRuns
import MeOS.HeapFit
import MeOS.HeapMove
import MeOS.HeapStale
import MeOS.HeapDefrag
import MeOS.OrderedVector
import MeOS.VmArea
import MeOS.VmContract
import MeOS.VmLookup
import MeOS.PageCache
import MeOS.PageCacheInv
import MeOS.File
import MeOS.CachedWrite
import MeOS.CachedRead
import MeOS.CachedReadLaw
import MeOS.WriteLength
import MeOS.Fat
import MeOS.FatScratch
import MeOS.FatLinks
import MeOS.FatNames
import MeOS.FatNode
import MeOS.FatData
import MeOS.FatReserve
import MeOS.FatSlots
import MeOS.FatListing
import MeOS.FatDelete
import MeOS.FatMove
import MeOS.FatEntry
import MeOS.FatCreate
import MeOS.FatCreateLaw
import MeOS.FatRuns
import MeOS.FatFree
import MeOS.FatLoad
import MeOS.FatBuffers
import MeOS.FatMount
import MeOS.FatEnds
import MeOS.Lib.Catalogue
import MeOS.FatChildren
import MeOS.FatEmpty
import MeOS.FatTree
import MeOS.DlList
import MeOS.Scheduler
import MeOS.SchedBoard
import MeOS.SchedRefine
import MeOS.SchedRuns
import MeOS.SchedNotify
import MeOS.Lib.HandOff
import MeOS.SemaphoreRuns
import MeOS.Lib.Bitmap
import MeOS.MmngrPhys
import MeOS.PhysBlocks
import MeOS.PhysRegions
import MeOS.Lib.WordFields
import MeOS.MmngrVirtual
import MeOS.PageTables
import MeOS.Lib.Ownership
import MeOS.PageFrames
import MeOS.SlList
import MeOS.CacheLists
import MeOS.CacheLedger
import MeOS.CacheRuns
import MeOS.CacheTable
import MeOS.FileTable
import MeOS.FileTableRuns
import MeOS.SyncFile
import MeOS.Lib.WordLoops
import MeOS.SyncEnds
import MeOS.CritLock
import MeOS.Lib.Ring
import MeOS.QueueSpsc
import MeOS.SpscRuns
import MeOS.Pipe
import MeOS.PipeRuns
import MeOS.PipeLaws
import MeOS.Spinlock
import MeOS.VmGuards
import MeOS.Mmap
import MeOS.FatCodec
import MeOS.FatNameLaw
import MeOS.FatNodeWrite
import MeOS.FileAccess
import MeOS.FatOpen
import MeOS.PageFault
import MeOS.Confinement
import MeOS.LengthCas
import MeOS.RxRing
import MeOS.Keyboard
import MeOS.KeyboardRuns
import MeOS.Ahci
import MeOS.AhciRuns
import MeOS.Lib.Traced
import MeOS.PeLoader
import MeOS.PeImports
import MeOS.SockBuf
import MeOS.Ethernet
import MeOS.UdpIp
import MeOS.PhysRelease
import MeOS.PhysFirstFree
import MeOS.PageMapping
import MeOS.PageRights
import MeOS.AllocLeak
import MeOS.DirectoryClear
import MeOS.PageEntries
import MeOS.FaultRights
import MeOS.ThreadFind
import MeOS.SleepTick
import MeOS.SleepAstray
import MeOS.RoundRobin
import MeOS.Lib.WordStack
import MeOS.ThreadStart
import MeOS.ProcessCreate
import MeOS.CacheGuards
import MeOS.FileOpen
import MeOS.GftNames
import MeOS.AhciTransfer
import MeOS.AhciScatter
import MeOS.Lib.Register
import MeOS.AhciCallback
import MeOS.AhciPort
import MeOS.VfsLookup
import MeOS.ArpReply
import MeOS.Lib.OnesComplement
import MeOS.Ipv4Checksum
import MeOS.PeValidate
import MeOS.PeExports
import MeOS.PeSections
import MeOS.KeyModifiers
import MeOS.Millis
import MeOS.ScreenGfx
import MeOS.SimpleFs
import MeOS.LoadKernel
import MeOS.Lib.Numerals
import MeOS.Lib.Reversal
import MeOS.NumberText
import MeOS.Printf
import MeOS.DlListRefine
import MeOS.SlListRefine
import MeOS.Lib.SortedLists
import MeOS.VectorLaws
import MeOS.BlockCopy
import MeOS.Lib.FirstDifference
import MeOS.StringOrder
import MeOS.Lib.Critical
import MeOS.QueueMpmc
import MeOS.ThreadExceptions
import MeOS.Lib.Blocks
import MeOS.Lib.Simulation
import MeOS.FatFiles
import MeOS.CachedFiles
import MeOS.Lib.Pool
import MeOS.BootMemory
import MeOS.AddressSpaces
import MeOS.SpaceRuns
import MeOS.KernelSpace
import MeOS.SpaceFrames
import MeOS.LoaderSpace
