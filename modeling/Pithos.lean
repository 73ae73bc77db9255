import Pithos.Library.Fallible
import Pithos.Library.Bytes
import Pithos.Library.Machine
import Pithos.Library.Hex
import Pithos.Library.JsonTree
import Pithos.Library.Crc32c
import Pithos.Library.Blake3
import Pithos.Library.MapValues
import Pithos.Library.Simulation
import Pithos.Library.Lists
import Pithos.Library.RollingHash
import Pithos.Library.EventLog
import Pithos.Library.Checkpoint
import Pithos.Library.TokenBucket
import Pithos.Library.Dependencies
import Pithos.Library.PathText
import Pithos.Library.HostPath
import Pithos.Library.HostFiles
import Pithos.Library.Intervals
import Pithos.Library.Runs
import Pithos.Library.ByteStream
import Pithos.Library.Action
import Pithos.Library.FileTree
import Pithos.Library.PathLookup
import Pithos.Library.Disk
import Pithos.Library.DiskNames
import Pithos.Library.DiskFaults
import Pithos.Library.Reach
import Pithos.Library.DiskGrowth
import Pithos.Library.DiskContents
import Pithos.Library.MergeSort
import Pithos.Library.Layout
import Pithos.Library.FrontCoding
import Pithos.Library.Reader
import Pithos.Core
import Pithos.Codecs
import Pithos.Planner
import Pithos.Format.Records
import Pithos.Format.Path
import Pithos.Format.Tables
import Pithos.Format.RoundTrip
import Pithos.Format.Text
import Pithos.Engine.Catalog.Defs
import Pithos.Engine.Catalog.Spec
import Pithos.Engine.Catalog.Container
import Pithos.Engine.Catalog.Soundness
import Pithos.Engine.Verify
import Pithos.Engine.Corruption
import Pithos.Engine.Canonical
import Pithos.Engine.Identity
import Pithos.Engine.Read
import Pithos.Engine.Decoding
import Pithos.Engine.Unpack.Defs
import Pithos.Engine.Unpack.Staged
import Pithos.Engine.Unpack.Steps
import Pithos.Engine.Unpack.Run
import Pithos.Engine.Unpack.Transaction
import Pithos.Engine.Unpack.Containment
import Pithos.Engine.Unpack.Contents
import Pithos.Engine.Extract
import Pithos.Engine.Confinement
import Pithos.Engine.Agreement
import Pithos.Engine.Pack.Assemble
import Pithos.Engine.Pack.Readback
import Pithos.Engine.Scheduler.Defs
import Pithos.Engine.Scheduler.Dag
import Pithos.Engine.Scheduler.Steps
import Pithos.Engine.Scheduler.Safety
import Pithos.Engine.Crates
import Pithos.Engine.Limits
import Pithos.Engine.Release.Defs
import Pithos.Engine.Release.Safety
import Pithos.Engine.Pack.Groups
import Pithos.Engine.Pack.Layout
import Pithos.Engine.Pack.Collect
import Pithos.Engine.Pack.Built
import Pithos.Engine.Pack.Raw
import Pithos.Engine.Pack.Compressed
import Pithos.Engine.Pack.Encoded
import Pithos.Library.Attempt
import Pithos.Engine.Scan.Defs
import Pithos.Engine.Scan.Budget
import Pithos.Engine.Scan.Entries
import Pithos.Engine.Scan.Listing
import Pithos.Engine.Pack.Outcome
import Pithos.Engine.Pack.Packing
import Pithos.Engine.Pack.RoundTrip
import Pithos.Engine.Pack.Determinism
import Pithos.Engine.Guarantees
import Pithos.Daemon.Api
import Pithos.Daemon.Store.Defs
import Pithos.Daemon.Store.Operations
import Pithos.Daemon.Store.Spec
import Pithos.Daemon.Store.Steps
import Pithos.Daemon.Store.Follows
import Pithos.Daemon.Store.Run
import Pithos.Daemon.Store.Journal
import Pithos.Daemon.Store.Lifecycle
import Pithos.Daemon.Store.Idempotency
import Pithos.Daemon.Store.Validity
import Pithos.Daemon.Store.Health
import Pithos.Daemon.Store.Memory
import Pithos.Daemon.Store.Isolation
import Pithos.Daemon.Store.Guarantees
import Pithos.Daemon.Store.Recovery
import Pithos.Daemon.Subscription
import Pithos.Daemon.Scheduler
import Pithos.Daemon.Fairness
import Pithos.Daemon.Sessions
import Pithos.Daemon.Resume
import Pithos.Daemon.Paths
import Pithos.Daemon.Scope
import Pithos.Daemon.OpenSession
import Pithos.Daemon.RateLimiter
import Pithos.Daemon.Protocol
import Pithos.Daemon.Delivery
import Pithos.Daemon.Connection
import Pithos.Cli.Continuity
import Pithos.Cli.Stream
import Pithos.Analysis.Sorting
import Pithos.Analysis.Chunking
import Pithos.Analysis.Coverage
import Pithos.Analysis.Regions
import Pithos.Analysis.ChunkIds
import Pithos.Analysis.Readers
import Pithos.Analysis.Streaming
import Pithos.Analysis.Fingerprint
import Pithos.Analysis.Interruptions
import Pithos.Analysis.Superfeatures
import Pithos.Analysis.FingerprintLimits
import Pithos.Analysis.Batch
import Pithos.Analysis.MicroFile.Defs
import Pithos.Analysis.MicroFile.Columns
import Pithos.Analysis.MicroFile.Validity
import Pithos.Analysis.MicroFile.Chunks
import Pithos.Analysis.MicroFile.Planner
import Pithos.Analysis.MicroFile.Order
import Pithos.Analysis.MicroFile.Packs
import Pithos.Analysis.MicroFile.Plans
