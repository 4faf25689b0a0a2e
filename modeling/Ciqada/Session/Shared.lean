import Mathlib.Data.Finmap
import Ciqada.Broker.Router
import Ciqada.Broker.Subscription
import Ciqada.Session.State
import Ciqada.Store.TopicMatch

/-!
# The table of sessions

Sessions are found by client id.  A connect with a client id that is in use
takes the old session over: the old one is stopped and removed, and what it
leaves behind is handed to the new one through its message channel.

A connect is one step, taken when the old session handles its stop request; by
then every message queued before the request has been handled.  Messages that
come later do not reach the old session.
-/

namespace Ciqada
namespace Session

open Broker Api Store

inductive MomentStatus where
  | unAck
  | unReceived
  | unComplete
  deriving DecidableEq

structure OutInflightMessage where
  publish : Publish
  sender : From
  status : MomentStatus
  deriving DecidableEq

abbrev Subscriptions : Type :=
  List (String × SubscriptionOptions)

/-- What a stopped session leaves behind. -/
structure OfflineInfo where
  id : Id
  subscriptions : Subscriptions
  offlineMessages : List (From × Publish)
  inflightMessages : List OutInflightMessage
  deriving DecidableEq

/-- A subscription request with the options of version 5. -/
structure Request where
  subscribe : Subscribe
  v5 : Option V5Options
  deriving DecidableEq

/-- The messages of a session's channel. -/
inductive Message where
  | forward (sender : From) (p : Publish)
  | sendRerelease (m : OutInflightMessage)
  | subscribes (reqs : List Request)
  | sessionStateTransfer (info : OfflineInfo) (clearSubscriptions : Bool)
  deriving DecidableEq

/-- A session in the table; `delivered` collects the messages sent to the client. -/
structure Peer where
  user : UserRecord
  connectInfo : ConnectInfo
  subscriptions : Subscriptions
  deliverQueue : List (From × Publish)
  outInflight : List OutInflightMessage
  inbox : List Message
  online : Bool
  delivered : List Publish
  deriving DecidableEq

namespace Peer

def id (p : Peer) : Id :=
  p.connectInfo.id

def authInfo (acl : AclConfig) (p : Peer) : Acl.AuthInfo :=
  buildAuthInfo p.user acl p.connectInfo

def new (user : UserRecord) (ci : ConnectInfo) (inbox : List Message) : Peer :=
  { user := user, connectInfo := ci, subscriptions := [], deliverQueue := [],
    outInflight := [], inbox := inbox, online := true, delivered := [] }

/-- Put a message into the session's own channel. -/
def forward (p : Peer) (sender : From) (m : Publish) : Peer :=
  { p with inbox := p.inbox ++ [Message.forward sender m] }

def subscriptionsAdd (p : Peer) (topicFilter : String) (opts : SubscriptionOptions) : Peer :=
  { p with
    subscriptions :=
      p.subscriptions.filter (fun s => s.1 != topicFilter) ++ [(topicFilter, opts)] }

def subscriptionsRemove (p : Peer) (topicFilter : String) : Peer :=
  { p with subscriptions := p.subscriptions.filter (fun s => s.1 != topicFilter) }

def subscriptionsExtend (p : Peer) (other : Subscriptions) : Peer :=
  other.foldl (fun p s => p.subscriptionsAdd s.1 s.2) p

def toOfflineInfo (p : Peer) : OfflineInfo :=
  { id := p.id, subscriptions := p.subscriptions, offlineMessages := p.deliverQueue,
    inflightMessages := p.outInflight }

/-- A full queue drops the new message, or the earliest one for a higher service level. -/
def enqueue (cfg : ListenerConfig) (p : Peer) (sender : From) (m : Publish) : Peer :=
  if p.deliverQueue.length < cfg.maxMqueueLen then
    { p with deliverQueue := p.deliverQueue ++ [(sender, m)] }
  else if m.qos = QoS.atMostOnce ∨ cfg.maxMqueueLen = 0 then p
  else { p with deliverQueue := p.deliverQueue.drop 1 ++ [(sender, m)] }

def removeInflight (p : Peer) (pid : Nat) : Peer :=
  { p with outInflight := p.outInflight.filter (fun m => m.publish.packetId != some pid) }

/-- A message in flight replaces an earlier one with its packet id. -/
def pushInflight (p : Peer) (m : OutInflightMessage) : Peer :=
  match m.publish.packetId with
  | none => p
  | some pid => { p.removeInflight pid with outInflight := (p.removeInflight pid).outInflight ++ [m] }

def updateStatus (p : Peer) (pid : Nat) (status : MomentStatus) : Peer :=
  { p with
    outInflight := p.outInflight.map
      (fun m => if m.publish.packetId = some pid then { m with status := status } else m) }

/-- Send an unacknowledged message again. -/
def reforward (p : Peer) (m : OutInflightMessage) : Peer :=
  match m.status with
  | MomentStatus.unAck => p.forward m.sender { m.publish with dup := true }
  | MomentStatus.unReceived => p.forward m.sender { m.publish with dup := true }
  | MomentStatus.unComplete => { p with inbox := p.inbox ++ [Message.sendRerelease m] }

/-- The moment a delivered message waits for. -/
def momentStatus : QoS -> Option MomentStatus
  | QoS.atLeastOnce => some MomentStatus.unAck
  | QoS.exactlyOnce => some MomentStatus.unReceived
  | QoS.atMostOnce => none

def numbered (m : Publish) (nextId : Nat) : Publish :=
  if m.qos ≠ QoS.atMostOnce ∧ (m.dup = false ∨ m.packetId = none) then
    { m with packetId := some nextId }
  else m

/-- Hand the next queued message to the client, unless it has expired. -/
def deliver (p : Peer) (expired : Bool) (nextId : Nat) : Peer :=
  match p.deliverQueue with
  | [] => p
  | (sender, m) :: rest =>
      let p := { p with deliverQueue := rest }
      if expired then p
      else
        let m := numbered m nextId
        let p := { p with delivered := p.delivered ++ [m] }
        match momentStatus m.qos with
        | none => p
        | some status => p.pushInflight { publish := m, sender := sender, status := status }

def retransmit (p : Peer) : Peer :=
  match p.outInflight with
  | [] => p
  | m :: rest => { p with outInflight := rest }.reforward m

end Peer

/-!
## The shared table
-/

structure Shared where
  peers : Finmap (fun _ : String => Peer)
  router : Router

/-- The settings of the node that sessions consult. -/
structure Env where
  acl : AclConfig
  listenCfg : ListenerConfig

namespace Shared

def empty : Shared :=
  { peers := ∅, router := Router.empty }

def update (s : Shared) (clientId : String) (f : Peer -> Peer) : Shared :=
  match s.peers.lookup clientId with
  | some p => { s with peers := s.peers.insert clientId (f p) }
  | none => s

def unsubscribeAll (r : Router) (p : Peer) : Router :=
  p.subscriptions.foldl (fun r s => r.remove s.1 p.id) r

/-- Take a session out of the table, with its subscriptions if that is asked for. -/
def remove (s : Shared) (clientId : String) (clearSubscriptions : Bool) : Shared :=
  match s.peers.lookup clientId with
  | some p =>
      { peers := s.peers.erase clientId
        router := if clearSubscriptions then unsubscribeAll s.router p else s.router }
  | none => s

/-!
## Subscribing
-/

/-- The answer of the subscribe check; a superuser is not checked. -/
def subscribeCheck (acl : AclConfig) (p : Peer) (sub : Subscribe) : Option QoS :=
  if p.user.superuser then some sub.qos
  else (clientSubscribeCheckAcl acl (some (p.authInfo acl)) sub).success

def tooManyLevels (cfg : ListenerConfig) (topicFilter : String) : Bool :=
  decide (0 < cfg.maxTopicLevels) &&
    match Topic.fromStr topicFilter with
    | Except.error _ => true
    | Except.ok t => decide (cfg.maxTopicLevels < t.levels.length)

/-- Stored messages that match a filter go into the session's channel. -/
def sendStoragedMessages (stored : List (From × Publish)) (s : Shared) (clientId : String)
    (topicFilter : String) (qos : QoS) : Shared :=
  (stored.filter (fun m => topicMatches m.2.topic topicFilter)).foldl
    (fun s m => s.update clientId (fun p =>
      p.forward m.1
        { m.2 with dup := false, retain := false, qos := m.2.qos.lessValue qos,
                   packetId := none }))
    s

/-- Enter a subscription that has passed the check. -/
def subscribeEntry (s : Shared) (clientId : String) (p : Peer) (topicFilter : String)
    (opts : SubscriptionOptions) : Option Shared :=
  match s.router.add topicFilter p.id opts with
  | Except.error _ => none
  | Except.ok router =>
      some { peers := s.peers.insert clientId (p.subscriptionsAdd topicFilter opts)
             router := router }

def subscribe (env : Env) (stored : List (From × Publish)) (clientId : String) (s : Shared)
    (req : Request) : Shared :=
  match s.peers.lookup clientId with
  | none => s
  | some p =>
      if 0 < env.listenCfg.maxSubscriptions ∧
          env.listenCfg.maxSubscriptions ≤ p.subscriptions.length then s
      else if tooManyLevels env.listenCfg req.subscribe.topicFilter then s
      else
        let sub := { req.subscribe with
          qos := req.subscribe.qos.lessValue env.listenCfg.maxQosAllowed }
        match subscribeCheck env.acl p sub with
        | none => s
        | some qos =>
            let opts : SubscriptionOptions :=
              { qos := sub.qos.lessValue qos, sharedGroup := sub.sharedGroup, v5 := req.v5 }
            match subscribeEntry s clientId p sub.topicFilter opts with
            | none => s
            | some t => sendStoragedMessages stored t clientId sub.topicFilter opts.qos

def unsubscribe (s : Shared) (clientId topicFilter : String) : Shared :=
  match s.peers.lookup clientId with
  | none => s
  | some p =>
      { peers := s.peers.insert clientId (p.subscriptionsRemove topicFilter)
        router := s.router.remove topicFilter p.id }

/-!
## Taking a session over
-/

/-- One stored subscription is entered again, without asking the check. -/
def transferSubscription (stored : List (From × Publish)) (clientId : String) (s : Shared)
    (sub : String × SubscriptionOptions) : Shared :=
  match s.peers.lookup clientId with
  | none => s
  | some p =>
      let router := match s.router.add sub.1 p.id sub.2 with
        | Except.ok router => router
        | Except.error _ => s.router
      sendStoragedMessages stored { s with router := router } clientId sub.1 sub.2.qos

/-- The unacknowledged messages are taken from the back. -/
def reforwardInflight (p : Peer) (msgs : List OutInflightMessage) : Peer :=
  msgs.reverse.foldl
    (fun p m => if m.status = MomentStatus.unComplete then p else p.reforward m) p

def forwardOffline (p : Peer) (msgs : List (From × Publish)) : Peer :=
  msgs.foldl (fun p m => p.forward m.1 m.2) p

def transferSessionState (stored : List (From × Publish)) (clientId : String) (s : Shared)
    (info : OfflineInfo) (clearSubscriptions : Bool) : Shared :=
  let s := if clearSubscriptions then s
    else info.subscriptions.foldl (transferSubscription stored clientId) s
  s.update clientId fun p =>
    let p := if clearSubscriptions then p else p.subscriptionsExtend info.subscriptions
    forwardOffline (reforwardInflight p info.inflightMessages) info.offlineMessages

/--
A new connection of a user.  The old session under the client id is removed;
without a clean start its subscriptions stay in the router and what it holds is
sent to the new session.  A connect can still fail after that.
-/
def connect (s : Shared) (user : UserRecord) (ci : ConnectInfo) (autoSubs : List Request)
    (aborted : Bool) : Shared :=
  let t := s.remove ci.clientId ci.cleanStart
  let transfer := match s.peers.lookup ci.clientId with
    | some old =>
        if ci.cleanStart then []
        else [Message.sessionStateTransfer old.toOfflineInfo ci.cleanStart]
    | none => []
  if aborted then t
  else
    { t with
      peers := t.peers.insert ci.clientId
        (Peer.new user ci (transfer ++ [Message.subscribes autoSubs])) }

/-!
## Messages
-/

/-- The copy of a message that a relation receives. -/
def copyFor (p : Publish) (x : Relation) : Publish :=
  { p with dup := false, retain := x.opts.retainAsPublished && p.retain,
           qos := p.qos.lessValue x.opts.qos, packetId := none }

/-- Send a message along the matching relations; a closed channel loses it. -/
def forwards (s : Shared) (choice : Router.Choice) (isOpen : String -> Bool) (sender : From)
    (p : Publish) : Shared :=
  (s.router.matchesTopic choice sender.id p.topic).foldl
    (fun s x =>
      if isOpen x.clientId then
        s.update x.clientId (fun peer => peer.forward sender (copyFor p x))
      else s)
    s

/-- An online session handles every message, an offline one only the forwarded ones. -/
def handle (env : Env) (stored : List (From × Publish)) (s : Shared) (clientId : String)
    (online : Bool) : Message -> Shared
  | Message.forward sender m => s.update clientId (fun p => p.enqueue env.listenCfg sender m)
  | Message.sendRerelease m =>
      if online then s.update clientId (fun p => p.pushInflight m) else s
  | Message.subscribes reqs =>
      if online then reqs.foldl (subscribe env stored clientId) s else s
  | Message.sessionStateTransfer info clearSubscriptions =>
      if online then transferSessionState stored clientId s info clearSubscriptions else s

/-- Take the first message of a session's channel. -/
def receive (env : Env) (stored : List (From × Publish)) (s : Shared) (clientId : String) :
    Option Shared :=
  match s.peers.lookup clientId with
  | none => none
  | some p =>
      match p.inbox with
      | [] => none
      | m :: rest =>
          some (handle env stored (s.update clientId (fun p => { p with inbox := rest }))
            clientId p.online m)

end Shared

/-!
## Steps
-/

/--
`stored` lists the messages of the message store that are still due to the
client.
-/
inductive SharedEvent where
  | connect (user : UserRecord) (ci : ConnectInfo) (autoSubs : List Request) (aborted : Bool)
  | receive (clientId : String) (stored : List (From × Publish))
  | subscribe (clientId : String) (req : Request) (stored : List (From × Publish))
  | unsubscribe (clientId topicFilter : String)
  | deliver (clientId : String) (expired : Bool) (nextId : Nat)
  | publishAck (clientId : String) (pid : Nat)
  | publishReceived (clientId : String) (pid : Nat)
  | retransmit (clientId : String)
  | forwards (choice : Router.Choice) (isOpen : String -> Bool) (sender : From) (p : Publish)
  | disconnect (clientId : String) (d : Option Disconnect)
  | expire (clientId : String)

namespace Shared

/-- An event of a session that is online. -/
def whenOnline (s : Shared) (clientId : String) (t : Shared) : Option Shared :=
  match s.peers.lookup clientId with
  | some p => if p.online then some t else none
  | none => none

/-- The old session, if there is one, has handled its channel. -/
def handledInbox (s : Shared) (clientId : String) : Bool :=
  match s.peers.lookup clientId with
  | some p => p.inbox.isEmpty
  | none => true

def step (env : Env) (s : Shared) : SharedEvent -> Option Shared
  | SharedEvent.connect user ci autoSubs aborted =>
      if s.handledInbox ci.clientId then some (s.connect user ci autoSubs aborted) else none
  | SharedEvent.receive clientId stored => s.receive env stored clientId
  | SharedEvent.subscribe clientId req stored =>
      s.whenOnline clientId (s.subscribe env stored clientId req)
  | SharedEvent.unsubscribe clientId topicFilter =>
      s.whenOnline clientId (s.unsubscribe clientId topicFilter)
  | SharedEvent.deliver clientId expired nextId =>
      s.whenOnline clientId (s.update clientId (fun p => p.deliver expired nextId))
  | SharedEvent.publishAck clientId pid =>
      s.whenOnline clientId (s.update clientId (fun p => p.removeInflight pid))
  | SharedEvent.publishReceived clientId pid =>
      s.whenOnline clientId
        (s.update clientId (fun p => p.updateStatus pid MomentStatus.unComplete))
  | SharedEvent.retransmit clientId =>
      s.whenOnline clientId (s.update clientId Peer.retransmit)
  | SharedEvent.forwards choice isOpen sender p => some (s.forwards choice isOpen sender p)
  | SharedEvent.disconnect clientId d =>
      match s.peers.lookup clientId with
      | none => none
      | some p =>
          if p.online then
            if Fitter.cleanSession env.listenCfg p.connectInfo d then
              some (s.remove clientId true)
            else some (s.update clientId (fun p => { p with online := false }))
          else none
  | SharedEvent.expire clientId =>
      match s.peers.lookup clientId with
      | none => none
      | some p => if p.online then none else some (s.remove clientId true)

end Shared

end Session
end Ciqada
