import Pubsuber.Library.Unordered
import Pubsuber.Library.StateMachine
import Pubsuber.Library.Lap
import Pubsuber.Library.Greedy
import Pubsuber.Library.Retry
import Pubsuber.Library.WireSize
import Pubsuber.Retry.Status
import Pubsuber.Retry.ExpoBackoff
import Pubsuber.Retry.MakeCall
import Pubsuber.Retry.Trace
import Pubsuber.Retry.Failure
import Pubsuber.Retry.RpcDeadline
import Pubsuber.Ack.Algorithms
import Pubsuber.Ack.Split
import Pubsuber.Ack.Distribution
import Pubsuber.Ack.ModAckIterator
import Pubsuber.Ack.Round
import Pubsuber.Ack.Draining
import Pubsuber.Ack.Deadlines
import Pubsuber.Ack.RequestSize
import Pubsuber.Ack.Atomicity
import Pubsuber.Ack.History
import Pubsuber.Ack.RoundSpec
import Pubsuber.Ack.Tracking
import Pubsuber.Executor.ThreadDataBlock
import Pubsuber.Executor.Registration
import Pubsuber.Executor.Isolation
import Pubsuber.Ack.Resolution
import Pubsuber.Executor.AckThread
import Pubsuber.Executor.WakeUp
import Pubsuber.Executor.PullThread
import Pubsuber.Executor.Merging
import Pubsuber.Executor.Transitions
import Pubsuber.Executor.Extension
import Pubsuber.Client.Subscription
import Pubsuber.Client.Management
import Pubsuber.Ack.Accounting
import Pubsuber.Pull.Delivery
import Pubsuber.Pull.ResolvedOnce
import Pubsuber.Library.Earliest
import Pubsuber.Executor.Sleep
import Pubsuber.Library.Bisect
import Pubsuber.Library.Rank
import Pubsuber.Library.Staging
import Pubsuber.Library.Amortized
import Pubsuber.Ack.Percentile
import Pubsuber.Ack.HandlingTimes
import Pubsuber.Ack.Watching
import Pubsuber.Retry.Delays
import Pubsuber.Executor.Stopping
import Pubsuber.Executor.StopThreads
import Pubsuber.Pull.Session
import Pubsuber.Pull.NothingLost
import Pubsuber.Client.Attributes
import Pubsuber.Client.Publish
import Pubsuber.Executor.Waiting
import Pubsuber.Executor.Removal
import Pubsuber.Executor.Polling
import Pubsuber.Retry.Duration
import Pubsuber.Library.NextFit
import Pubsuber.Ack.RequestCount
import Pubsuber.Ack.Awaiting
import Pubsuber.Executor.Steady
import Pubsuber.Executor.Alert
import Pubsuber.Executor.PickUp
import Pubsuber.Ack.OnRequest
import Pubsuber.Executor.Justified
import Pubsuber.Executor.Turns
import Pubsuber.Executor.Activation
