import Boson.ActiveProxy.HealthCheck
import Boson.ActiveProxy.Reconnect
import Boson.ActiveProxy.Release
import Boson.ActiveProxy.Totality
import Boson.Id.Metric
import Boson.Id.Text
import Boson.KBucket.Backoff
import Boson.KClosestNodes.Distinct
import Boson.Message.RoundTrip
import Boson.Message.Size
import Boson.Node.Bogons
import Boson.Node.Errors
import Boson.Node.Lookups
import Boson.Node.Newest
import Boson.Node.Persistent
import Boson.Node.Reannounce
import Boson.Node.Removals
import Boson.Node.Responses
import Boson.Node.Silent
import Boson.PeerStorage.Transactions
import Boson.Prefix.Algebra
import Boson.RoutingTable.Effective
import Boson.RoutingTable.RandomEntries
import Boson.Rpc.Counters
import Boson.Rpc.Delivery
import Boson.Rpc.Lifecycle
import Boson.Rpc.Receive
import Boson.Rpc.SendQueue
import Boson.Rpc.Throughput
import Boson.Scheduler.Cancel
import Boson.Scheduler.Run
import Boson.SocketAddress.Order
import Boson.Task.Announce
import Boson.Task.Bootstrap
import Boson.Task.Bounds
import Boson.Task.Completion
import Boson.Task.Convergence
import Boson.Task.Dedup
import Boson.Task.Listeners
import Boson.Task.PingRefresh
import Boson.Task.Requests
import Boson.Task.Status
import Boson.TokenManager.Window
import Boson.Value.Binding
import Boson.Value.Owner
import Boson.ValueStorage.Persistent
