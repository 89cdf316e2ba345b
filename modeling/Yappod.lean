import Yappod.Lib.Codec
import Yappod.Lib.SortedRuns
import Yappod.Lib.Prog
import Yappod.Lib.Alone
import Yappod.Lib.EventLog
import Yappod.Lib.OpenAddressing
import Yappod.Common.Types
import Yappod.Common.Unicode
import Yappod.Components.Lexical
import Yappod.Components.LexicalReader
import Yappod.Components.LexicalWriter
import Yappod.Components.LexicalBounds
import Yappod.Components.LexicalAccept
import Yappod.Components.LexicalRoundTrip
import Yappod.Components.LexicalCorpus
import Yappod.Components.LexicalLookup
import Yappod.Components.LexicalPrepared
import Yappod.Components.LexicalBlocks
import Yappod.Components.Metadata
import Yappod.Storage.Segment
import Yappod.Storage.Manifest
import Yappod.Indexing.Planner
import Yappod.Storage.Disk
import Yappod.Indexing.Update
import Yappod.Indexing.Compact
import Yappod.Storage.Snapshot
import Yappod.Storage.Contents
import Yappod.Indexing.CompactUnits
import Yappod.Indexing.PlannerPartition
import Yappod.Indexing.PlannerSizes
import Yappod.Indexing.UpdateUnits
import Yappod.Indexing.Refusals
import Yappod.Indexing.UpdateSteps
import Yappod.System.Invariant
import Yappod.System.Rules
import Yappod.System.Building
import Yappod.System.Publish
import Yappod.Storage.ManifestValid
import Yappod.System.UpdateSpec
import Yappod.System.CompactSpec
import Yappod.System.Runs
import Yappod.System.Rejected
import Yappod.System.SliceChecks
import Yappod.System.Replayable
import Yappod.System.Lineage
import Yappod.Storage.ManifestCodec
import Yappod.System.Publishers
import Yappod.Server.Runtime
import Yappod.Server.Reactor
import Yappod.Server.Admission
import Yappod.Server.Framing
import Yappod.Server.Reload
import Yappod.Server.Visibility
import Yappod.Query.AnnCache
import Yappod.Storage.SliceWriter
import Yappod.Indexing.PlannerExact
import Yappod.Lib.TopK
import Yappod.Query.LexicalSearch
import Yappod.Query.LexicalCursors
import Yappod.Query.BlockBounds
import Yappod.Query.LexicalOr
import Yappod.Query.LexicalAnd
import Yappod.Query.LexicalRanking
import Yappod.Lib.Lines
import Yappod.Lib.Boundaries
import Yappod.Common.Chunking
import Yappod.Query.Snippet
import Yappod.Query.Retrieve
import Yappod.Lib.PositionHeap
import Yappod.Lib.MarkedTable
import Yappod.Lib.BestByName
import Yappod.Lib.RankFusion
import Yappod.Query.Hybrid
import Yappod.Query.Candidates
import Yappod.Query.VectorCollect
import Yappod.Query.AnnCorpus
import Yappod.Query.LexicalText
import Yappod.Query.Execute
import Yappod.Config.Fingerprint
import Yappod.Config.Sha256
import Yappod.Config.RuntimeLimiter
import Yappod.Lib.JsonValue
import Yappod.Lib.Metered
import Yappod.Indexing.UpdateWal
import Yappod.Indexing.Ingest
import Yappod.Indexing.UpdateBatch
import Yappod.Server.IngestBatch
import Yappod.Storage.SegmentCodec
import Yappod.Storage.VectorCodec
import Yappod.Storage.MetadataCodec
import Yappod.Query.Filter
import Yappod.Indexing.TombstoneSlices
import Yappod.Lib.Ring
import Yappod.Server.CoreHttp
import Yappod.Server.Cursor
import Yappod.Server.Executor
import Yappod.Lib.Crc
import Yappod.Storage.Crc32c
import Yappod.Lib.Sha2
import Yappod.Storage.Sha256Stream
import Yappod.Common.PassageIdentity
import Yappod.Storage.ManifestSlots
import Yappod.Server.FrontHead
import Yappod.Query.ExecuteExact
import Yappod.Server.LifetimesSafe
import Yappod.Indexing.CompactSelect
