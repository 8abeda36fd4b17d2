import Subgov.Redemption
import Subgov.StaleHold
import Subgov.SharedTotal
import Subgov.GateRun
import Subgov.CycleGate
import Subgov.StatusReport
import Subgov.PeerPull
import Subgov.StepLimits
import Subgov.LocalTarget
import Subgov.Workspaces
import Subgov.PeerTable
import Subgov.Backpressure
import Subgov.SampleStore
import Subgov.BurnLearning
import Subgov.ShrinkSearch
import Subgov.Lib.Directory
import Subgov.SaturationRun
import Subgov.PolicyRest
import Subgov.Settlement
import Subgov.Cooldown
import Subgov.RedemptionCap
import Subgov.WindowOrder
import Subgov.Lib.Numbered
import Subgov.Validation
import Subgov.WorkerIdentity
import Subgov.NeedleSessions
import Subgov.HostAdmission
import Subgov.Collector
import Subgov.ProviderPayload
import Subgov.CredentialsLock
import Subgov.FleetBounds
import Subgov.HostSplit
import Subgov.SampleOrder
import Subgov.UsageOrder
import Subgov.CreditPace
import Subgov.PayloadOrder
import Subgov.BurnSplit
import Subgov.FrozenHosts
import Subgov.BurnSpacing
import Subgov.Origins
import Subgov.OverlapReport
import Subgov.PeerCounts
import Subgov.SeedSelectors
import Subgov.DemandExclusion
import Subgov.SplitExact
import Subgov.CodexFrames
import Subgov.NeedlePolicy
import Subgov.ReadyDemand
import Subgov.CodexSession
import Subgov.PolicyOutline
import Subgov.PolicySound
import Subgov.WorkerFreezeSafe
import Subgov.FleetReconcileSafe
import Subgov.PoolReconcileSafe
import Subgov.RecordSequence
import Subgov.CredentialsRotation
import Subgov.Rollback
import Subgov.Lanes
import Subgov.CodexSupervisor
