import Neetan.Number
import Neetan.NumberArith
import Neetan.LittleEndian
import Neetan.OrderedMap
import Neetan.SaveState
import Neetan.SaveStateRoundTrip
import Neetan.BestFit
import Neetan.BestFitInvariant
import Neetan.BestFitRun
import Neetan.ByteMemory
import Neetan.Mcb
import Neetan.McbAllocate
import Neetan.McbContract
import Neetan.McbOps
import Neetan.McbRewrite
import Neetan.McbCalls
import Neetan.McbRun
import Neetan.McbSafety
import Neetan.EmulatedMemory
import Neetan.MemoryManager
import Neetan.XmsManager
import Neetan.EmsCalls
import Neetan.EmsRun
import Neetan.Bytecode
import Neetan.BytecodeVerify
import Neetan.Dispatch
import Neetan.RegisterUse
import Neetan.VmControl
import Neetan.VmFetch
import Neetan.VmWinds
import Neetan.Heap
import Neetan.HeapCollect
import Neetan.HeapAllocate
import Neetan.Natives
import Neetan.NumericArms
import Neetan.FusedRun
import Neetan.FusedLoop
import Neetan.HeapSweep
import Neetan.HeapCompact
import Neetan.HeapValid
import Neetan.HeapSpans
import Neetan.HeapRequests
import Neetan.PrimitiveCalls
import Neetan.PrimitiveLibrary
import Neetan.PrimitiveDelivery
import Neetan.PicRuns
import Neetan.PagingRuns
import Neetan.CdReads
import Neetan.Fp80Theorems
import Neetan.HeapLimits
import Neetan.FatAllocate
import Neetan.FatCursor
import Neetan.FatListing
import Neetan.FreeQueries
import Neetan.XmsContents
import Neetan.EmsTransferRuns
import Neetan.MediaManifest
import Neetan.NumberOrder
import Neetan.NumericTower
import Neetan.VmSelection
import Neetan.Lexer
import Neetan.ReaderNesting
import Neetan.PromiseRuns
import Neetan.StringRuns
import Neetan.DataPositions
import Neetan.ParameterExtents
import Neetan.Blake3Runs
import Neetan.Fp80Differences
import Neetan.Fp80Integers
import Neetan.Fp80Widening
import Neetan.SectorEquations
import Neetan.Fp80Scaling
import Neetan.Fp80RemainderRuns
import Neetan.ByteReader
import Neetan.D88
import Neetan.Nfd
import Neetan.NfdR0Parsed
import Neetan.NfdR1Parsed
import Neetan.Fdi
import Neetan.Dim
import Neetan.FloppyParsers
import Neetan.Dma
import Neetan.DmaCalls
import Neetan.Terminated
import Neetan.Environment
import Neetan.EnvironmentLaws
import Neetan.HardDisk
import Neetan.HardDiskReload
import Neetan.Pit
import Neetan.PitAdvance
import Neetan.PrefixCode
import Neetan.NumberText
import Neetan.NumberParse
import Neetan.LiteralKeys
import Neetan.Alu
import Neetan.AluArithmetic
import Neetan.AluShift
import Neetan.AluRotate
import Neetan.Prefixes
import Neetan.PrefixRuns
import Neetan.Iso9660
import Neetan.Iso9660Files
import Neetan.AntitoneRuns
import Neetan.DiskFormat
import Neetan.DiskFormatLayout
import Neetan.DiskFormatSectors
import Neetan.DiskFormatMount
import Neetan.DiskFormatVolume
import Neetan.FloatSums
import Neetan.NumberNatives
