import FastClone.Lib.BucketSort
import FastClone.Lib.Greedy
import FastClone.Lib.ReadAhead
import FastClone.Lib.Spans
import FastClone.Lib.Table
import FastClone.Lib.Runs
import FastClone.Spec.Delta
import FastClone.Spec.DeltaStream
import FastClone.Spec.Batch
import FastClone.Spec.Transfer
import FastClone.Spec.Lanes
import FastClone.Spec.Ranges
import FastClone.Spec.HashPhase
import FastClone.Spec.Client
import FastClone.Spec.ClientStep
import FastClone.Spec.FileLife
import FastClone.Proof.DeltaCsr
import FastClone.Proof.DeltaScan
import FastClone.Proof.DeltaSize
import FastClone.Proof.DeltaTiling
import FastClone.Proof.DeltaWeak
import FastClone.Proof.DeltaGreedy
import FastClone.Proof.DeltaPlan
import FastClone.Proof.DeltaStreaming
import FastClone.Proof.ClientPlaces
import FastClone.Proof.ClientStreams
import FastClone.Proof.ClientLife
import FastClone.Proof.ClientMoves
import FastClone.Proof.ClientAccounting
import FastClone.Proof.ClientFrame
import FastClone.Proof.ClientManifest
import FastClone.Proof.RangeBarrier
import FastClone.Proof.ClientRanges
import FastClone.Proof.ClientHash
import FastClone.Proof.ClientSweep
import FastClone.Proof.ClientApart
import FastClone.Proof.ClientSignatures
import FastClone.Proof.ClientCompare
import FastClone.Lib.Incremental
import FastClone.Spec.DeltaSigner
import FastClone.Proof.DeltaSigner
import FastClone.Lib.Codec
import FastClone.Spec.Wire
import FastClone.Proof.Wire
import FastClone.Spec.BatchStream
import FastClone.Proof.BatchStream
import FastClone.Lib.Intrusive
import FastClone.Spec.DiskIo
import FastClone.Proof.DiskCompletions
import FastClone.Proof.DiskIo
import FastClone.Spec.ServerHash
import FastClone.Proof.ServerCache
import FastClone.Proof.ServerAnswers
import FastClone.Proof.ServerProgress
import FastClone.Lib.Cursor
import FastClone.Spec.WireCursor
import FastClone.Proof.WireCursor
import FastClone.Spec.Frames
import FastClone.Proof.Frames
import FastClone.Spec.AuthClaim
import FastClone.Proof.AuthClaim
import FastClone.Lib.Lexical
import FastClone.Lib.Kuhn
import FastClone.Lib.LexGreedy
import FastClone.Lib.Worklist
import FastClone.Spec.Paths
import FastClone.Proof.Paths
import FastClone.Spec.Sessions
import FastClone.Proof.SessionSteps
import FastClone.Proof.SessionRegistry
import FastClone.Proof.SessionFlags
import FastClone.Proof.OnceVerdict
import FastClone.Proof.MultiVerdict
import FastClone.Proof.IdleGrace
import FastClone.Proof.CheckSessions
import FastClone.Spec.Teardown
import FastClone.Proof.Teardown
import FastClone.Spec.Ingest
import FastClone.Proof.Ingest
import FastClone.Spec.Scan
import FastClone.Proof.Scan
import FastClone.Spec.WriteHandles
import FastClone.Proof.WriteHandles
import FastClone.Spec.Compare
import FastClone.Proof.Compare
import FastClone.Spec.Endpoint
import FastClone.Proof.Endpoint
import FastClone.Spec.DiskCounters
import FastClone.Proof.DiskCounters
import FastClone.Spec.DirWalk
import FastClone.Proof.DirWalk
import FastClone.Spec.ExtraScan
import FastClone.Proof.ExtraScan
import FastClone.Spec.ComparePipeline
import FastClone.Proof.ComparePipeline
import FastClone.Spec.CheckEngine
import FastClone.Proof.CheckEngine
import FastClone.Proof.CheckRuns
import FastClone.Spec.Links
import FastClone.Proof.Links
import FastClone.Proof.LinkOrder
import FastClone.Proof.LaneSlots
import FastClone.Proof.DeltaEarlyStop
import FastClone.Proof.DeltaDecoded
import FastClone.Proof.DeltaIdentical
import FastClone.Proof.DeltaLoads
import FastClone.Proof.DeltaStarved
import FastClone.Proof.EmptyDirs
import FastClone.Proof.SequentialReader
import FastClone.Proof.WholeFile
import FastClone.Proof.StreamDownload
import FastClone.Spec.Retries
import FastClone.Proof.ClientRetries
import FastClone.Proof.Mtime
import FastClone.Proof.Durations
import FastClone.Proof.DiskFairness
import FastClone.Proof.ReaderProgress
import FastClone.Proof.ReaderOrder
import FastClone.Proof.DriverHash
import FastClone.Proof.Rebalance
import FastClone.Spec.MirrorDelete
import FastClone.Proof.MirrorDelete
import FastClone.Spec.SendLoop
import FastClone.Proof.SendStream
import FastClone.Proof.SendLoop
import FastClone.Proof.WriteCap
import FastClone.Proof.CompareDrain
import FastClone.Proof.DeltaWindow
import FastClone.Proof.Quantities
import FastClone.Proof.Cli
import FastClone.Proof.Subnet
import FastClone.Proof.Report
import FastClone.Proof.DirCache
