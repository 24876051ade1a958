import Palloc.PagePartition
import Palloc.HeapHandover
import Palloc.SpanRun
import Palloc.VecArenaCommit
import Palloc.PomaiRun
import Palloc.ArenaRun
import Palloc.ArenaSchedule
import Palloc.BitmapProtocolRun
import Palloc.SegmentPurgeRun
import Palloc.BatchFreeRun
import Palloc.EncodedBatchFree
import Palloc.VectorPoolRun
import Palloc.PageQueueRun
import Palloc.SubprocDelete
import Palloc.PaddingRun
import Palloc.RezallocChain
import Palloc.ZeroInitRun
import Palloc.SpanSearch
import Palloc.AlignedReallocation
import Palloc.DoubleFreeCheck
import Palloc.ProcessInit
import Palloc.GuardedObjectsRun
import Palloc.FindFreePage
import Palloc.ThreadFreeCollect
import Palloc.HeapWalk
import Palloc.CommitMaskForeach
import Palloc.BitmapFirstFit
import Palloc.BitmapRange
import Palloc.VecArenaBatch
import Palloc.VectorBatch
import Palloc.PomaiSingle
import Palloc.HugePages
import Palloc.HeapCap
import Palloc.HeapAccounting
import Palloc.RandomSeed
import Palloc.SegmentMap
import Palloc.StaticArena
import Palloc.OsAlignedAlloc
import Palloc.OptionParse
import Palloc.OptionSize
import Palloc.OutputBuffer
import Palloc.Printf
import Palloc.PrintfNumber
import Palloc.FormatText
import Palloc.JsonText
import Palloc.HeapBuffer
import Palloc.StatsJson
import Palloc.StatsDocument
import Palloc.InPlaceExtension
import Palloc.NaturalAlignment
import Palloc.InteriorPointer
import Palloc.CommittedPages
import Palloc.SegmentReclaimRun
import Palloc.OrphanRun
