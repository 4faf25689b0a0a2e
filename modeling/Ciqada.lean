import Ciqada.Foundation.Run
import Ciqada.Foundation.Bytes
import Ciqada.Foundation.Table
import Ciqada.Mqtt.Levels
import Ciqada.Broker.Types
import Ciqada.Broker.Topic
import Ciqada.Broker.Acl
import Ciqada.Broker.Subscription
import Ciqada.Api.AuthInfo
import Ciqada.Api.Crypto
import Ciqada.Api.UserStore
import Ciqada.Foundation.TtlCache
import Ciqada.Api.Node
import Ciqada.Api.Consistency
import Ciqada.Api.Soundness
import Ciqada.Api.PlainRefinement
import Ciqada.Cluster.Agreement
import Ciqada.Cluster.CatchUp
import Ciqada.Api.Interleaving
import Ciqada.Api.Revocation
import Ciqada.Api.SubscribeExact
import Ciqada.Session.Confinement
import Ciqada.Broker.Router
import Ciqada.Session.Shared
import Ciqada.Session.Isolation
import Ciqada.Foundation.Index
import Ciqada.Foundation.Rows
import Ciqada.Store.Memory
import Ciqada.Store.Disk
import Ciqada.Store.Follows
import Ciqada.Store.Reopen
import Ciqada.Store.DiskFollowsMemory
import Ciqada.Store.FailedFlush
import Ciqada.Store.Coherence
import Ciqada.Store.Replay
import Ciqada.Store.StaleIndex
import Ciqada.Broker.Trie
import Ciqada.Store.Matching
import Ciqada.Store.OverlappingFlush
import Ciqada.Store.Lives
import Ciqada.Store.AtMostOnce
import Ciqada.Store.Redelivery
import Ciqada.Store.ClusterLoad
import Ciqada.Store.Visibility
import Ciqada.Store.ReplayOrder
import Ciqada.Foundation.Packing
import Ciqada.Store.MessageIds
import Ciqada.Foundation.Trim
import Ciqada.Store.Eviction
import Ciqada.Store.Expiry
import Ciqada.Store.DeadBehindLive
import Ciqada.Store.DeadRows
import Ciqada.Store.Bookkeeping
import Ciqada.Foundation.Collect
import Ciqada.Broker.RuleText
import Ciqada.Api.AutoSubscription
import Ciqada.Broker.TreeUpdate
import Ciqada.Broker.Relations
import Ciqada.Broker.Dispatch
import Ciqada.Cluster.RaftRouter
import Ciqada.Cluster.RaftSnapshot
import Ciqada.Cluster.RaftStatus
import Ciqada.Session.Delivery
import Ciqada.Session.DeliveryBounds
import Ciqada.Session.Accounted
import Ciqada.Foundation.Turns
import Ciqada.Session.TopicAlias
import Ciqada.Foundation.PathTree
import Ciqada.Session.Inbound
import Ciqada.Broker.RetainTree
import Ciqada.Broker.RetainStorage
