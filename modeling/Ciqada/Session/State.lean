import Mathlib.Data.Finmap
import Mathlib.Data.Finset.Card
import Ciqada.Api.AuthInfo

/-!
# A session from connect to its end

A session runs an online loop over packets and messages.  When the loop ends,
the last will is sent or kept for later, and the session either stops or goes on
offline until it expires or is taken over.  Messages for routing leave through
`forwards`, from the publish path and from the last will.

Durations and times are counted in milliseconds.
-/

namespace Ciqada
namespace Session

open Broker Api

/-!
## Limits of the listener
-/

structure ListenerConfig where
  sessionExpiryInterval : Nat
  maxSessionExpiryInterval : Nat
  maxTopicAliases : Nat
  maxInflight : Nat
  maxMqueueLen : Nat
  maxSubscriptions : Nat
  maxTopicLevels : Nat
  maxQosAllowed : QoS
  deriving DecidableEq

inductive Disconnect where
  | v3
  | v5 (sessionExpiryIntervalSecs : Option Nat)
  deriving DecidableEq

def fromSecs (secs : Nat) : Nat :=
  secs * 1000

namespace Fitter

/-- What the connect packet asks for, or the listener's own value. -/
def connectExpiryInterval (cfg : ListenerConfig) : ConnectInfo -> Nat
  | ConnectInfo.v5 _ c => fromSecs c.sessionExpiryIntervalSecs
  | ConnectInfo.v3 _ _ => cfg.sessionExpiryInterval

/-- A disconnect packet of version 5 may replace the interval. -/
def requestedExpiryInterval (cfg : ListenerConfig) (ci : ConnectInfo) :
    Option Disconnect -> Nat
  | some (Disconnect.v5 (some secs)) => fromSecs secs
  | _ => connectExpiryInterval cfg ci

def sessionExpiryInterval (cfg : ListenerConfig) (ci : ConnectInfo)
    (d : Option Disconnect) : Nat :=
  if cfg.maxSessionExpiryInterval = 0 then requestedExpiryInterval cfg ci d
  else min (requestedExpiryInterval cfg ci d) cfg.maxSessionExpiryInterval

/-- The session is not kept after the connection ends. -/
def cleanSession (cfg : ListenerConfig) (ci : ConnectInfo) (d : Option Disconnect) : Bool :=
  match ci with
  | ConnectInfo.v3 _ c => c.cleanSession
  | ConnectInfo.v5 _ _ => sessionExpiryInterval cfg ci d == 0

def maxClientTopicAliases (cfg : ListenerConfig) : ConnectInfo -> Nat
  | ConnectInfo.v5 _ _ => cfg.maxTopicAliases
  | ConnectInfo.v3 _ _ => 0

end Fitter

/-!
## Why a loop ends
-/

inductive PublishAckReason where
  | implementationSpecificError
  | notAuthorized
  deriving DecidableEq

/-- `connection` stands for timeouts, lost connections and failed writes. -/
inductive Reason where
  | protocolError (message : String)
  | inflightWindowFull
  | packetIdInUse (packetId : Nat)
  | publishAckReason (code : PublishAckReason) (text : String)
  | subscribeFailed
  | unsubscribeFailed
  | unimplemented
  | connectKicked (isAdmin : Bool)
  | connection
  deriving DecidableEq

/-!
## Topic aliases and the incoming window
-/

structure ClientTopicAliases where
  maxTopicAliases : Nat
  aliases : Finmap (fun _ : Nat => String)

namespace ClientTopicAliases

def new (maxTopicAliases : Nat) : ClientTopicAliases :=
  { maxTopicAliases := maxTopicAliases, aliases := ∅ }

/-- The topic a message is for, with the alias recorded when both are given. -/
def setAndGet (a : ClientTopicAliases) (topicAlias : Option Nat) (topic : String) :
    Except Reason (ClientTopicAliases × String) :=
  match topicAlias with
  | some key =>
      if topic.isEmpty then
        match a.aliases.lookup key with
        | some known => Except.ok (a, known)
        | none =>
            Except.error (Reason.publishAckReason
              PublishAckReason.implementationSpecificError
              "implementation specific error, the ‘topic‘ associated with the ‘alias‘ was not found")
      else if key ∉ a.aliases ∧ a.maxTopicAliases ≤ a.aliases.keys.card then
        Except.error (Reason.publishAckReason
          PublishAckReason.implementationSpecificError
          ("implementation specific error, the number of topic aliases exceeds the limit (" ++
            toString a.maxTopicAliases ++ ")"))
      else Except.ok ({ a with aliases := a.aliases.insert key topic }, topic)
  | none =>
      if topic.isEmpty then
        Except.error (Reason.publishAckReason
          PublishAckReason.implementationSpecificError
          "implementation specific error, ‘alias’ and ‘topic’ are both empty")
      else Except.ok (a, topic)

end ClientTopicAliases

structure InInflight where
  cached : Finset Nat
  maxInflight : Nat

namespace InInflight

/-- Enter a packet id; the answer says whether it was new. -/
def add (w : InInflight) (pid : Nat) (qos : QoS) : Except Reason (InInflight × Bool) :=
  if w.maxInflight ≤ w.cached.card then Except.error Reason.inflightWindowFull
  else if pid ∉ w.cached then Except.ok ({ w with cached := insert pid w.cached }, true)
  else if qos = QoS.exactlyOnce then Except.error (Reason.packetIdInUse pid)
  else Except.ok (w, false)

def remove (w : InInflight) (pid : Nat) : InInflight :=
  { w with cached := w.cached.erase pid }

end InInflight

/-!
## The session
-/

/-- The part of a session that is fixed when the connection is accepted. -/
structure Inner where
  connectInfo : ConnectInfo
  superuser : Bool
  authInfo : Option Acl.AuthInfo
  listenCfg : ListenerConfig

structure StateFlags where
  kicked : Bool
  byAdminKick : Bool
  disconnectReceived : Bool
  cleanStart : Bool
  deriving DecidableEq

namespace StateFlags

def empty : StateFlags :=
  { kicked := false, byAdminKick := false, disconnectReceived := false, cleanStart := false }

end StateFlags

/--
Where a session stands.  The offline loop keeps the delay of a will that is
still to be sent and the interval after which the session expires.
-/
inductive Phase where
  | online
  | offline (since : Nat) (willDelayInterval : Option Nat) (sessionExpiryInterval : Nat)
  | terminated
  deriving DecidableEq

/-- `forwarded` collects the messages handed to routing. -/
structure SessionState where
  inner : Inner
  clientTopicAliases : Option ClientTopicAliases
  inInflight : InInflight
  mqttDisconnect : Option Disconnect
  flags : StateFlags
  phase : Phase
  forwarded : List (From × Publish)

namespace SessionState

def new (inner : Inner) : SessionState :=
  let limit := Fitter.maxClientTopicAliases inner.listenCfg inner.connectInfo
  { inner := inner
    clientTopicAliases := if 0 < limit then some (ClientTopicAliases.new limit) else none
    inInflight := { cached := ∅, maxInflight := inner.listenCfg.maxInflight }
    mqttDisconnect := none
    flags := StateFlags.empty
    phase := Phase.online
    forwarded := [] }

def id (s : SessionState) : Id :=
  s.inner.connectInfo.id

def forwards (s : SessionState) (sender : From) (p : Publish) : SessionState :=
  { s with forwarded := s.forwarded ++ [(sender, p)] }

/-!
## Publishing
-/

/-- The publish check as the broker asks for it: a superuser is not checked. -/
def messagePublishCheck (acl : AclConfig) (inner : Inner) (p : Publish) :
    PublishAclResult :=
  if inner.superuser then PublishAclResult.allow
  else messagePublishCheckAcl acl inner.authInfo p

/-- The message with its topic resolved, and the aliases after that. -/
def resolveTopic (s : SessionState) (p : Publish) : Except Reason (SessionState × Publish) :=
  match s.clientTopicAliases with
  | none => Except.ok (s, p)
  | some a =>
      match a.setAndGet p.topicAlias p.topic with
      | Except.error e => Except.error e
      | Except.ok (a, topic) =>
          Except.ok ({ s with clientTopicAliases := some a }, { p with topic := topic })

/-- The answer is true when the message was accepted. -/
def publish (acl : AclConfig) (s : SessionState) (p : Publish) :
    SessionState × Except Reason Bool :=
  match resolveTopic s p with
  | Except.error e => (s, Except.error e)
  | Except.ok (s, p) =>
      match messagePublishCheck acl s.inner p with
      | PublishAclResult.allow =>
          (s.forwards { typ := FromType.custom, id := s.id } p, Except.ok true)
      | PublishAclResult.rejected true =>
          (s, Except.error (Reason.publishAckReason PublishAckReason.notAuthorized
            "PublishRefused"))
      | PublishAclResult.rejected false => (s, Except.ok false)

def removeInflight (s : SessionState) (pid : Nat) : SessionState :=
  { s with inInflight := s.inInflight.remove pid }

/-- Report a write to the connection. -/
def written (sent : Bool) (s : SessionState) : SessionState × Except Reason Unit :=
  (s, if sent then Except.ok () else Except.error Reason.connection)

/-- The window entry made for a message is taken back when it was new. -/
def takeBack (fresh : Bool) (s : SessionState) (pid : Nat) : SessionState :=
  if fresh then s.removeInflight pid else s

def publishAtLeastOnce (acl : AclConfig) (s : SessionState) (p : Publish) (pid : Nat)
    (sent : Bool) : SessionState × Except Reason Unit :=
  match s.inInflight.add pid QoS.atLeastOnce with
  | Except.error e => (s, Except.error e)
  | Except.ok (w, fresh) =>
      match publish acl { s with inInflight := w } p with
      | (s, Except.error e) => (takeBack fresh s pid, Except.error e)
      | (s, Except.ok _) => written sent (takeBack fresh s pid)

/-- The window is entered after the message has been handed on. -/
def publishExactlyOnce (acl : AclConfig) (s : SessionState) (p : Publish) (pid : Nat)
    (sent : Bool) : SessionState × Except Reason Unit :=
  match publish acl s p with
  | (s, Except.error e) => (s, Except.error e)
  | (s, Except.ok false) => written sent s
  | (s, Except.ok true) =>
      match s.inInflight.add pid QoS.exactlyOnce with
      | Except.error e => (s, Except.error e)
      | Except.ok (w, fresh) =>
          let s := { s with inInflight := w }
          written sent (takeBack (fresh && !sent) s pid)

def publishAtMostOnce (acl : AclConfig) (s : SessionState) (p : Publish) :
    SessionState × Except Reason Unit :=
  match publish acl s p with
  | (s, Except.error e) => (s, Except.error e)
  | (s, Except.ok _) => (s, Except.ok ())

def processPublish (acl : AclConfig) (s : SessionState) (p : Publish) (sent : Bool) :
    SessionState × Except Reason Unit :=
  match p.qos, p.packetId with
  | QoS.atLeastOnce, some pid => publishAtLeastOnce acl s p pid sent
  | QoS.exactlyOnce, some pid => publishExactlyOnce acl s p pid sent
  | QoS.atMostOnce, _ => publishAtMostOnce acl s p
  | _, none => (s, Except.error (Reason.protocolError "packet_id is None"))

end SessionState

/-!
## Packets
-/

/--
The packets of both protocol versions.  Acknowledgements touch only the outgoing
window; a subscription or its removal is represented by its outcome.
-/
inductive Packet where
  | publish (p : Publish)
  | publishRelease (packetId : Nat)
  | publishAck
  | publishReceived
  | publishComplete
  | subscribe (accepted : Bool)
  | unsubscribe (accepted : Bool)
  | pingRequest
  | disconnect (d : Disconnect)
  | auth
  | unimplemented

namespace SessionState

/-- A packet at a time; `sent` says whether an answer could be written. -/
def processMqttMessage (acl : AclConfig) (s : SessionState) (now : Nat) (sent : Bool) :
    Packet -> SessionState × Except Reason Unit
  | Packet.publish p => processPublish acl s { p with createTime := some (now : Int) } sent
  | Packet.publishRelease pid => written sent (s.removeInflight pid)
  | Packet.publishAck => (s, Except.ok ())
  | Packet.publishReceived => written sent s
  | Packet.publishComplete => (s, Except.ok ())
  | Packet.subscribe accepted =>
      if accepted then written sent s else (s, Except.error Reason.subscribeFailed)
  | Packet.unsubscribe accepted =>
      if accepted then written sent s else (s, Except.error Reason.unsubscribeFailed)
  | Packet.pingRequest => written sent s
  | Packet.disconnect d =>
      -- The loop goes on until the connection is closed.
      ({ s with flags := { s.flags with disconnectReceived := true }, mqttDisconnect := some d },
        Except.ok ())
  | Packet.auth => written sent s
  | Packet.unimplemented => (s, Except.error Reason.unimplemented)

/-!
## The end of the online loop
-/

def cleanSession (s : SessionState) : Bool :=
  Fitter.cleanSession s.inner.listenCfg s.inner.connectInfo s.mqttDisconnect

def lastWillEnable (flags : StateFlags) (cleanSession : Bool) : Bool :=
  let sessionPresent := flags.kicked && !flags.cleanStart && !cleanSession
  !(flags.disconnectReceived || sessionPresent)

def willDelayInterval (s : SessionState) : Option Nat :=
  (s.inner.connectInfo.lastWill.bind LastWill.willDelayInterval).map fromSecs

def processLastWill (s : SessionState) (now : Nat) : SessionState :=
  match s.inner.connectInfo.lastWill with
  | some lw => s.forwards { typ := FromType.lastWill, id := s.id } (Publish.ofLastWill now lw)
  | none => s

/-- The will is sent at once, kept for later, or dropped. -/
def settleLastWill (s : SessionState) (now : Nat) : SessionState × Option Nat :=
  if lastWillEnable s.flags s.cleanSession then
    if s.cleanSession || s.willDelayInterval.isNone then (s.processLastWill now, none)
    else (s, s.willDelayInterval)
  else (s, none)

/-- What follows the online loop. -/
def finish (s : SessionState) (now : Nat) : SessionState :=
  let (t, willDelay) := s.settleLastWill now
  if s.flags.kicked || s.cleanSession then { t with phase := Phase.terminated }
  else
    { t with
      phase := Phase.offline now willDelay
        (Fitter.sessionExpiryInterval s.inner.listenCfg s.inner.connectInfo s.mqttDisconnect) }

def kick (s : SessionState) (cleanStart isAdmin : Bool) : SessionState :=
  { s with
    flags :=
      { s.flags with
        kicked := true
        byAdminKick := s.flags.byAdminKick || isAdmin
        cleanStart := s.flags.cleanStart || cleanStart } }

/-- Go on with the loop, or leave it after an error. -/
def proceed (now : Nat) : SessionState × Except Reason Unit -> SessionState
  | (s, Except.ok _) => s
  | (s, Except.error _) => s.finish now

end SessionState

/-!
## Steps
-/

/--
What a session reacts to.  A kick whose sender has given up is ignored;
`closed` is any other end of a loop: a closed or failed connection, a timeout,
or a closed channel.
-/
inductive Event where
  | packet (pkt : Packet) (sent : Bool)
  | kick (senderClosed cleanStart isAdmin : Bool)
  | closed
  | willDelayElapsed
  | sessionExpired

/-- An event at a time. -/
structure Timed where
  now : Nat
  event : Event

namespace SessionState

def onlineStep (acl : AclConfig) (s : SessionState) (now : Nat) :
    Event -> Option SessionState
  | Event.packet pkt sent => some (proceed now (processMqttMessage acl s now sent pkt))
  | Event.kick senderClosed cleanStart isAdmin =>
      if senderClosed then some s else some ((s.kick cleanStart isAdmin).finish now)
  | Event.closed => some (s.finish now)
  | Event.willDelayElapsed => none
  | Event.sessionExpired => none

def offlineStep (s : SessionState) (now since : Nat) (willDelay : Option Nat)
    (expiry : Nat) : Event -> Option SessionState
  | Event.packet _ _ => none
  | Event.kick senderClosed cleanStart isAdmin =>
      if senderClosed then some s
      else some { s.kick cleanStart isAdmin with phase := Phase.terminated }
  | Event.closed => some { s with phase := Phase.terminated }
  | Event.willDelayElapsed =>
      match willDelay with
      | some delay =>
          if since + delay ≤ now then
            some { s.processLastWill now with phase := Phase.offline since none expiry }
          else none
      | none => none
  | Event.sessionExpired =>
      if since + expiry ≤ now then
        let t := if willDelay.isSome then s.processLastWill now else s
        some { t with phase := Phase.terminated }
      else none

def step (acl : AclConfig) (s : SessionState) (e : Timed) : Option SessionState :=
  match s.phase with
  | Phase.online => s.onlineStep acl e.now e.event
  | Phase.offline since willDelay expiry => s.offlineStep e.now since willDelay expiry e.event
  | Phase.terminated => none

end SessionState

namespace Sample

/-- The limits of the sample listener. -/
def cfg : ListenerConfig :=
  { sessionExpiryInterval := 7200000, maxSessionExpiryInterval := 0, maxTopicAliases := 32,
    maxInflight := 16, maxMqueueLen := 1000, maxSubscriptions := 0, maxTopicLevels := 0,
    maxQosAllowed := QoS.exactlyOnce }

end Sample

end Session
end Ciqada
