import TicketBooking.Dict
import TicketBooking.Decimal
import TicketBooking.Expiry
import TicketBooking.Runs
import TicketBooking.FreshNames
import TicketBooking.Window
import TicketBooking.Versioned
import TicketBooking.Clockwise
import TicketBooking.Credit
import TicketBooking.Rotation
import TicketBooking.Streak
import TicketBooking.Parties
import TicketBooking.Lease
import TicketBooking.LeaseTrace
import TicketBooking.LeaseIndexes
import TicketBooking.Breaker
import TicketBooking.BreakerAutomaton
import TicketBooking.CircuitCalls
import TicketBooking.StateChanges
import TicketBooking.WindowCount
import TicketBooking.Replicas
import TicketBooking.StoreVersions
import TicketBooking.MultiWriter
import TicketBooking.RemoteFold
import TicketBooking.StoreExport
import TicketBooking.PendingCount
import TicketBooking.Tables
import TicketBooking.Balancer
import TicketBooking.Remapping
import TicketBooking.RingLookup
import TicketBooking.WeightedRotation
import TicketBooking.DrainedServer
import TicketBooking.Overtaking
import TicketBooking.StrategyContract
import TicketBooking.Heartbeat
import TicketBooking.HeartbeatStory
import TicketBooking.FailureDetector
import TicketBooking.DetectorStory
import TicketBooking.DetectorThreads
import TicketBooking.RealRecovery
import TicketBooking.Failover
import TicketBooking.SnapshotFailover
import TicketBooking.Hysteresis
import TicketBooking.HealthChecker
import TicketBooking.HealthOrder
import TicketBooking.HealthFreshness
import TicketBooking.CheckerThreads
import TicketBooking.Cluster
import TicketBooking.Retry
import TicketBooking.RetryLoop
import TicketBooking.RetryObservers
import TicketBooking.Backoff
import TicketBooking.DelayCap
import TicketBooking.AttemptBudget
import TicketBooking.App
import TicketBooking.Moves
import TicketBooking.Ownership
import TicketBooking.LeaseTable
import TicketBooking.LeaseRuns
import TicketBooking.SilentExpiry
import TicketBooking.ResetIsolation
import TicketBooking.Convergence
import TicketBooking.PrimaryMirror
import TicketBooking.Admission
import TicketBooking.Attempts
import TicketBooking.FailedBooking
import TicketBooking.BookingCount
import TicketBooking.OrphanLocks
import TicketBooking.Circuits
import TicketBooking.Quarantine
import TicketBooking.Deadlines
import TicketBooking.ReplicaReads
import TicketBooking.Servers
import TicketBooking.Recovery
import TicketBooking.Panel
import TicketBooking.Choice
import TicketBooking.Routing
import TicketBooking.Telemetry
import TicketBooking.BookCalls
import TicketBooking.VersionLag
