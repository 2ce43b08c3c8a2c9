import NirnProxy.Transition
import NirnProxy.Counting
import NirnProxy.Clock
import NirnProxy.Gate.Core
import NirnProxy.Gate.Fifo
import NirnProxy.Limits.InvalidRequests
import NirnProxy.Limits.Pacer
import NirnProxy.Limits.Pacing
import NirnProxy.Client.Budget
import NirnProxy.Client.Table
import NirnProxy.Client.Slots
import NirnProxy.Client.Bucket
import NirnProxy.Client.State
import NirnProxy.Client.Admission
import NirnProxy.Client.Caps
import NirnProxy.Client.Eviction
import NirnProxy.Retry.Capture
import NirnProxy.Retry.Replay
import NirnProxy.Routes.Hash
import NirnProxy.Scheduler.Machine
import NirnProxy.Scheduler.Phases
import NirnProxy.Scheduler.Gates
import NirnProxy.Scheduler.Ownership
import NirnProxy.Scheduler.Cooldown
import NirnProxy.Scheduler.Dispatch
import NirnProxy.Retry.Accounting
import NirnProxy.Gate.Roles
import NirnProxy.Scheduler.Credential
import NirnProxy.Scheduler.Validity
import NirnProxy.Scheduler.Waiting
import NirnProxy.Ledger
import NirnProxy.Scheduler.Holdings
import NirnProxy.Retry.Closing
import NirnProxy.Scheduler.Exits
import NirnProxy.Gate.Order
import NirnProxy.Scheduler.Arrival
import NirnProxy.Sha256
import NirnProxy.Cluster.Agreement
import NirnProxy.Cluster.Machine
import NirnProxy.Cluster.Custody
import NirnProxy.Cluster.Steps
import NirnProxy.Cluster.Clearing
import NirnProxy.Cluster.Capacity
import NirnProxy.Cluster.Rendezvous
import NirnProxy.Limits.Pruning
import NirnProxy.Base64
import NirnProxy.Routes.Path
import NirnProxy.Routes.Prefix
import NirnProxy.Routes.Resource
import NirnProxy.Scheduler.Observe
import NirnProxy.Client.Cooling
import NirnProxy.Limits.Wakeups
import NirnProxy.Scheduler.Interaction
import NirnProxy.Scheduler.Loop
import NirnProxy.Scheduler.Remembered
import NirnProxy.Scheduler.Retrying
import NirnProxy.Routes.Tokens
import NirnProxy.Client.Identify
import NirnProxy.Limits.Overrides
import NirnProxy.Client.Progress
import NirnProxy.Contexts
import NirnProxy.Observability.Labels
import NirnProxy.Serve.Answers
import NirnProxy.Serve.InFlight
import NirnProxy.Serve.Shutdown
import NirnProxy.Atomic
import NirnProxy.Client.Reservation
import NirnProxy.Cluster.Membership
import NirnProxy.Scheduler.Draining
import NirnProxy.Cluster.Fleet
import NirnProxy.Scheduler.Bounds
import NirnProxy.Startup.Checks
import NirnProxy.Startup.Run
import NirnProxy.Serve.Drain
