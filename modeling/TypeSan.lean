import TypeSan.Library.Rounding
import TypeSan.Library.PageMap
import TypeSan.Library.Runs
import TypeSan.Library.SortedMap
import TypeSan.Library.SpecificData
import TypeSan.Library.TextLines
import TypeSan.Library.WordMemory
import TypeSan.Library.Gather
import TypeSan.Library.Checked
import TypeSan.Library.Claiming
import TypeSan.Library.NamedSemaphore
import TypeSan.Library.LastWrite
import TypeSan.Library.Memo
import TypeSan.Library.TreeSearch
import TypeSan.Library.ReflectedCrc
import TypeSan.Library.SharedStore
import TypeSan.Types
import TypeSan.Layout
import TypeSan.Subobject
import TypeSan.LayoutEntries
import TypeSan.LayoutCover
import TypeSan.Names
import TypeSan.HashCollisions
import TypeSan.TypeInfo
import TypeSan.TypeInfoRequests
import TypeSan.TableSizes
import TypeSan.NodeCaches
import TypeSan.MayCast
import TypeSan.StackOptimization
import TypeSan.MetaPageTable
import TypeSan.FlatMap
import TypeSan.MmapHooks
import TypeSan.SbrkHook
import TypeSan.FailedMappings
import TypeSan.UpdateMetalloc
import TypeSan.UpdateLimits
import TypeSan.GlobalMetadata
import TypeSan.GlobalRegistration
import TypeSan.LoadHistories
import TypeSan.AllocationCalls
import TypeSan.HeapInstrumentation
import TypeSan.CheckCast
import TypeSan.TableWalk
import TypeSan.TypeInfoTables
import TypeSan.Landing
import TypeSan.ModuleTables
import TypeSan.MissedConfusion
import TypeSan.SubobjectWalk
import TypeSan.CheckReads
import TypeSan.Blacklist
import TypeSan.WalkEnds
import TypeSan.TruthfulLayout
import TypeSan.ClassChain
import TypeSan.ClassInfo
import TypeSan.ClassForest
import TypeSan.ClassRecords
import TypeSan.ClassSets
import TypeSan.UpdateCinfo
import TypeSan.ModuleLoad
import TypeSan.CinfoRoundTrip
import TypeSan.FalsePositives
import TypeSan.SeparateCompilation
import TypeSan.ObjectChecks
import TypeSan.DownCast
import TypeSan.GlobalTypes
import TypeSan.SegmentRegistration
import TypeSan.ClassCoverage
import TypeSan.StackThreads
import TypeSan.StackSafety
import TypeSan.StackRelease
import TypeSan.StackCreation
import TypeSan.ThreadExit
import TypeSan.MetaStack
import TypeSan.StackBalance
import TypeSan.FrameLayout
import TypeSan.RestorePoints
import TypeSan.TwoStacks
import TypeSan.ScopeExit
import TypeSan.Longjmp
import TypeSan.StackSeparation
import TypeSan.AllocaUpdate
import TypeSan.StackInstrumentation
import TypeSan.TrackedFrames
import TypeSan.RunningThreads
import TypeSan.StackTypes
import TypeSan.Tcmalloc
import TypeSan.AllocSize
import TypeSan.HeapSpans
import TypeSan.HeapInvariant
import TypeSan.ObjectSlots
import TypeSan.HeapServe
import TypeSan.FreshHeap
import TypeSan.HeapFrames
import TypeSan.HeapTypes
import TypeSan.ProcessMemory
import TypeSan.HeapPart
import TypeSan.ThreadsPart
import TypeSan.GlobalsPart
import TypeSan.Process
import TypeSan.CallocContents
import TypeSan.SpanPaths
import TypeSan.SpanPairs
import TypeSan.SpanOwnership
import TypeSan.Exhaustion
import TypeSan.LoggerSemaphore
import TypeSan.LogFile
import TypeSan.LogRuns
