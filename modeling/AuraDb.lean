import AuraDb.Storage.Faults
import AuraDb.Storage.Timestamps
import AuraDb.Storage.TornTail
import AuraDb.Storage.CrashAtomic
import AuraDb.Storage.Values
import AuraDb.Query.Integers
import AuraDb.Query.Analyzed
import AuraDb.Engine.CommitSafety
import AuraDb.Engine.FreshIds
import AuraDb.Engine.IndexLoad
import AuraDb.Engine.Equivalence
import AuraDb.Engine.Statistics
import AuraDb.Engine.SearchScope
import AuraDb.Engine.Snapshot
import AuraDb.Raft.Refinement
import AuraDb.Raft.FailedOps
import AuraDb.Replication.Compaction
import AuraDb.Replication.Inbound
import AuraDb.Replication.CommitBase
import AuraDb.Replication.Validation
import AuraDb.Replication.Node
import AuraDb.Replication.SnapshotRestore
import AuraDb.Cli.Dump
import AuraDb.Server.Sessions
