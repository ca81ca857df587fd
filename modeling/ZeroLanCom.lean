import ZeroLanCom.Library.Outcome
import ZeroLanCom.Library.Runs
import ZeroLanCom.Library.ZeroMq
import ZeroLanCom.Library.Locks
import ZeroLanCom.Library.Loops
import ZeroLanCom.Library.Blocks
import ZeroLanCom.Library.Pipes
import ZeroLanCom.Library.Tally
import ZeroLanCom.Utils.Text
import ZeroLanCom.Utils.Event
import ZeroLanCom.Utils.Message
import ZeroLanCom.Utils.UuidFormat
import ZeroLanCom.Utils.BoundPort
import ZeroLanCom.Utils.ThreadPool
import ZeroLanCom.Utils.PoolTasks
import ZeroLanCom.Utils.PoolShutdown
import ZeroLanCom.Utils.PoolWait
import ZeroLanCom.Utils.PoolProgress
import ZeroLanCom.Utils.PeriodicTask
import ZeroLanCom.Utils.StartStop
import ZeroLanCom.Serialization.Codec
import ZeroLanCom.Serialization.ByteBuffer
import ZeroLanCom.Nodes.NodeInfo
import ZeroLanCom.Nodes.NodeInfoManager
import ZeroLanCom.Nodes.FailingSweep
import ZeroLanCom.Nodes.Multicast
import ZeroLanCom.Nodes.LiveNodes
import ZeroLanCom.Nodes.HeartbeatFormat
import ZeroLanCom.Nodes.GroupIsolation
import ZeroLanCom.Nodes.Identity
import ZeroLanCom.Sockets.SubscriberManager
import ZeroLanCom.Sockets.Connections
import ZeroLanCom.Sockets.Adverts
import ZeroLanCom.Sockets.Events
import ZeroLanCom.Sockets.BadAdverts
import ZeroLanCom.Sockets.Delivery
import ZeroLanCom.Sockets.DeliveryProgress
import ZeroLanCom.Sockets.PollRound
import ZeroLanCom.Sockets.ServiceManager
import ZeroLanCom.Sockets.ErrorClasses
import ZeroLanCom.Sockets.Services
import ZeroLanCom.Sockets.Client
import ZeroLanCom.Sockets.Fetch
import ZeroLanCom.Sockets.Routing
import ZeroLanCom.System.LockOrder
import ZeroLanCom.System.ReceiveTask
import ZeroLanCom.System.TableConsistency
import ZeroLanCom.System.EventTrace
import ZeroLanCom.System.Agreement
import ZeroLanCom.System.Discovery
import ZeroLanCom.System.Coverage
import ZeroLanCom.System.Staleness
import ZeroLanCom.System.Provenance
import ZeroLanCom.System.Expiry
import ZeroLanCom.System.LocalOrder
import ZeroLanCom.System.Refinement
import ZeroLanCom.System.AdvertisedPorts
import ZeroLanCom.System.Lan
import ZeroLanCom.System.Connectivity
import ZeroLanCom.System.Domains
import ZeroLanCom.System.Rpc
import ZeroLanCom.System.RpcProgress
import ZeroLanCom.System.RemoteCall
import ZeroLanCom.System.ServiceLookup
import ZeroLanCom.System.Membership
import ZeroLanCom.System.KeepAlive
import ZeroLanCom.System.Receptions
import ZeroLanCom.System.ServiceLan
import ZeroLanCom.System.ServiceCalls
import ZeroLanCom.System.Initialisation
import ZeroLanCom.System.Lifecycle
import ZeroLanCom.System.Threads
import ZeroLanCom.System.Shutdown
import ZeroLanCom.System.WaitForService
import ZeroLanCom.System.Request
