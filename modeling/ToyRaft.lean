import ToyRaft.Framework.Replication
import ToyRaft.Runtime.Cluster
import ToyRaft.Core.Section
import ToyRaft.Core.Effects
import ToyRaft.Core.Receiver
import ToyRaft.Properties.ElectionSafety
import ToyRaft.Properties.LogShape
import ToyRaft.Properties.VoteDurability
import ToyRaft.Properties.AckDurability
import ToyRaft.Properties.Applied
import ToyRaft.Properties.CommitSafety
import ToyRaft.Properties.LeaderCompleteness
import ToyRaft.Properties.ProposalIsolation
import ToyRaft.Properties.ProposeResult
import ToyRaft.Properties.StateMachineSafety
import ToyRaft.Framework.Network
import ToyRaft.Properties.ReadyBatch
import ToyRaft.Properties.ApplyOrder
import ToyRaft.Properties.StateRebuild
import ToyRaft.Properties.StatusReport
import ToyRaft.Properties.StoreRefinement
import ToyRaft.Properties.ReopenIdentity
import ToyRaft.Properties.CrashConsistency
import ToyRaft.Properties.LeaderHint
import ToyRaft.Properties.LogTerms
import ToyRaft.Properties.CommitRule
import ToyRaft.Properties.Redelivery
import ToyRaft.Properties.Probing
import ToyRaft.Properties.ReadyAssertions
import ToyRaft.Properties.MatchGrowth
import ToyRaft.Properties.WireRoundTrip
import ToyRaft.Properties.MessageSize
import ToyRaft.FileStore.StateFiles
import ToyRaft.FileStore.Reopened
import ToyRaft.Properties.Timings
import ToyRaft.Properties.DiskCodecs
import ToyRaft.Properties.TornTail
import ToyRaft.Properties.StateAtomicity
import ToyRaft.Properties.Oversize
import ToyRaft.Properties.TruncateFaults
import ToyRaft.Properties.AppendFaults
import ToyRaft.Daemon.Kvsm
import ToyRaft.Daemon.KvHandler
import ToyRaft.Transport.Hub
import ToyRaft.Properties.SnapshotReplay
import ToyRaft.Properties.KvKeys
import ToyRaft.Properties.RedirectKey
import ToyRaft.Properties.ChaosStreams
import ToyRaft.Properties.HubDelivery
import ToyRaft.Properties.LogIsolation
import ToyRaft.Core.Rng
import ToyRaft.Properties.SegmentOrder
import ToyRaft.Properties.FakeTime
import ToyRaft.Runtime.LocalRuns
import ToyRaft.Properties.CommandOrder
import ToyRaft.Properties.Electable
import ToyRaft.Properties.Progress
import ToyRaft.Framework.Linearizability
import ToyRaft.Testing.KvModel
import ToyRaft.Properties.KvOracle
import ToyRaft.Properties.FleetRefinement
import ToyRaft.Properties.HarnessOracles
import ToyRaft.Properties.KvConsistency
