import KrabkaStreams.Proofs.Barriers
import KrabkaStreams.Proofs.BufferValue
import KrabkaStreams.Proofs.Changelog
import KrabkaStreams.Proofs.Cut
import KrabkaStreams.Proofs.Delivery
import KrabkaStreams.Proofs.FailedCycles
import KrabkaStreams.Proofs.FilterCache
import KrabkaStreams.Proofs.Flushing
import KrabkaStreams.Proofs.ForeignKeyGroupBy
import KrabkaStreams.Proofs.HeldBack
import KrabkaStreams.Proofs.LruCache
import KrabkaStreams.Proofs.Membership
import KrabkaStreams.Proofs.OffsetCommits
import KrabkaStreams.Proofs.Optimizer
import KrabkaStreams.Proofs.OuterJoinRuns
import KrabkaStreams.Proofs.ProcessingLogs
import KrabkaStreams.Proofs.Repartition
import KrabkaStreams.Proofs.RestoreCalls
import KrabkaStreams.Proofs.Roles
import KrabkaStreams.Proofs.Schedules
import KrabkaStreams.Proofs.SessionClose
import KrabkaStreams.Proofs.SlidingRuns
import KrabkaStreams.Proofs.Snapshot
import KrabkaStreams.Proofs.SourceTable
import KrabkaStreams.Proofs.Storage
import KrabkaStreams.Proofs.SuppressTimes
import KrabkaStreams.Proofs.TableJoin
import KrabkaStreams.Proofs.VersionHistory
import KrabkaStreams.Proofs.VersionedTable
import KrabkaStreams.Proofs.WindowClose
