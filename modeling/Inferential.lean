import Inferential.Scheduler.SortedLists
import Inferential.Scheduler.Strategies
import Inferential.Scheduler.QueueAge
import Inferential.Dispatch.Admission
import Inferential.Dispatch.Isolation
import Inferential.Server.Flow
import Inferential.Server.Overdue
import Inferential.Server.Roster
import Inferential.Server.Attempts
import Inferential.Server.Calls
import Inferential.Server.Ownership
import Inferential.Server.Permits
import Inferential.Server.Losses
import Inferential.Scheduler.FirstModel
import Inferential.Machine.Unwinding
import Inferential.PyStd.HeapqMap
import Inferential.Scheduler.ModelIsolation
import Inferential.Machine.Guarded
import Inferential.Server.Work
import Inferential.Server.Notifications
import Inferential.Server.Consumers
import Inferential.Server.Swap
import Inferential.Server.Fates
import Inferential.Machine.Router
import Inferential.Client.Connection
import Inferential.Client.Routing
import Inferential.Client.Native
import Inferential.Client.Codec
import Inferential.Client.Packing
import Inferential.Client.Transport
import Inferential.Client.Tensors
import Inferential.Client.Answers
import Inferential.Client.Arguments
import Inferential.Server.Sends
import Inferential.Dispatch.Gather
import Inferential.Client.Builders
import Inferential.Layout.Tiling
import Inferential.Client.Bounds
import Inferential.Observation.Rejection
import Inferential.Scheduler.Atomicity
import Inferential.Server.Budgets
import Inferential.Machine.Departures
import Inferential.Scheduler.HeapOrder
import Inferential.Scheduler.HeapEviction
import Inferential.Scheduler.DequeEviction
import Inferential.Scheduler.TierEviction
import Inferential.Scheduler.Backlog
import Inferential.Machine.Queueing
import Inferential.Scheduler.Queues
import Inferential.Scheduler.QueueOrder
import Inferential.Scheduler.Sweeps
import Inferential.Scheduler.FifoOrder
import Inferential.Scheduler.TierOrder
import Inferential.Machine.Rotation
import Inferential.Scheduler.Fairness
import Inferential.Machine.TimedQueue
import Inferential.Scheduler.BatchTimers
import Inferential.PyStd.Floats
import Inferential.Scheduler.ScoreOrder
import Inferential.Server.Collecting
import Inferential.Client.Deadlines
import Inferential.Scheduler.Pressure
import Inferential.Machine.MovingAverage
import Inferential.Tracking.Convergence
import Inferential.PyStd.Samples
import Inferential.Metrics.Store
import Inferential.Dispatch.Health
import Inferential.Server.Trackers
import Inferential.Machine.Matching
import Inferential.Server.Holdings
import Inferential.Transport.Sockets
import Inferential.System.State
import Inferential.System.EndToEnd
import Inferential.Server.Wakeups
import Inferential.Machine.Ranking
import Inferential.Server.Drain
import Inferential.Machine.Simulation
import Inferential.Server.Paths
import Inferential.Client.Views
import Inferential.Client.Observations
import Inferential.Machine.Observers
import Inferential.Config.Watcher
import Inferential.Metrics.Callbacks
import Inferential.Scheduler.Readiness
import Inferential.Server.Settling
import Inferential.Server.Hints
import Inferential.Dispatch.Sharing
import Inferential.Scheduler.Coincidence
