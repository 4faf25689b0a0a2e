import Mathlib.Data.List.Basic
import Mathlib.Tactic.Common

/-!
# Connection and packet types of the broker

The part of the vendored broker's type module that authentication, access
control and session handling read.  Addresses, listener numbers and the packet
properties that no modelled function looks at are left out.
-/

namespace Ciqada
namespace Broker

inductive QoS where
  | atMostOnce
  | atLeastOnce
  | exactlyOnce
  deriving DecidableEq, Repr

namespace QoS

def value : QoS -> Nat
  | atMostOnce => 0
  | atLeastOnce => 1
  | exactlyOnce => 2

/-- The smaller of two service levels. -/
def lessValue (a b : QoS) : QoS :=
  if a.value ≤ b.value then a else b

end QoS

/-- The identity of one connection. -/
structure Id where
  nodeId : Nat
  clientId : String
  username : Option String
  createTime : Nat
  deriving DecidableEq

structure LastWillV3 where
  topic : String
  retain : Bool
  qos : QoS
  message : List UInt8
  deriving DecidableEq

structure LastWillV5 where
  topic : String
  retain : Bool
  qos : QoS
  message : List UInt8
  willDelayIntervalSec : Option Nat
  messageExpiryInterval : Option Nat
  deriving DecidableEq

inductive LastWill where
  | v3 (lw : LastWillV3)
  | v5 (lw : LastWillV5)
  deriving DecidableEq

namespace LastWill

def topic : LastWill -> String
  | v3 lw => lw.topic
  | v5 lw => lw.topic

/-- Only a version 5 will can be delayed. -/
def willDelayInterval : LastWill -> Option Nat
  | v3 _ => none
  | v5 lw => lw.willDelayIntervalSec

end LastWill

structure ConnectV3 where
  cleanSession : Bool
  username : Option String
  password : Option (List UInt8)
  lastWill : Option LastWillV3
  deriving DecidableEq

structure ConnectV5 where
  cleanStart : Bool
  sessionExpiryIntervalSecs : Nat
  username : Option String
  password : Option (List UInt8)
  lastWill : Option LastWillV5
  deriving DecidableEq

inductive ConnectInfo where
  | v3 (id : Id) (c : ConnectV3)
  | v5 (id : Id) (c : ConnectV5)
  deriving DecidableEq

namespace ConnectInfo

def id : ConnectInfo -> Id
  | v3 id _ => id
  | v5 id _ => id

def clientId (ci : ConnectInfo) : String :=
  ci.id.clientId

def username : ConnectInfo -> Option String
  | v3 _ c => c.username
  | v5 _ c => c.username

def password : ConnectInfo -> Option (List UInt8)
  | v3 _ c => c.password
  | v5 _ c => c.password

def cleanStart : ConnectInfo -> Bool
  | v3 _ c => c.cleanSession
  | v5 _ c => c.cleanStart

def lastWill : ConnectInfo -> Option LastWill
  | v3 _ c => c.lastWill.map LastWill.v3
  | v5 _ c => c.lastWill.map LastWill.v5

end ConnectInfo

/-- A publish message; `payload` is the application message. -/
structure Publish where
  dup : Bool
  retain : Bool
  qos : QoS
  topic : String
  packetId : Option Nat
  payload : List UInt8
  topicAlias : Option Nat
  messageExpiryInterval : Option Nat
  createTime : Option Int
  deriving DecidableEq

namespace Publish

/-- The message that a last will becomes when it is sent at a given time. -/
def ofLastWill (now : Int) : LastWill -> Publish
  | LastWill.v3 lw =>
      { dup := false, retain := lw.retain, qos := lw.qos, topic := lw.topic,
        packetId := none, payload := lw.message, topicAlias := none,
        messageExpiryInterval := none, createTime := some now }
  | LastWill.v5 lw =>
      { dup := false, retain := lw.retain, qos := lw.qos, topic := lw.topic,
        packetId := none, payload := lw.message, topicAlias := none,
        messageExpiryInterval := lw.messageExpiryInterval, createTime := some now }

@[simp] theorem ofLastWill_topic (now : Int) (lw : LastWill) :
    (ofLastWill now lw).topic = lw.topic := by
  cases lw <;> rfl

end Publish

/-- What produced a message. -/
inductive FromType where
  | custom
  | admin
  | system
  | lastWill
  | bridge
  deriving DecidableEq

structure From where
  typ : FromType
  id : Id
  deriving DecidableEq

/-- A subscription request after its filter has been parsed. -/
structure Subscribe where
  topicFilter : String
  qos : QoS
  sharedGroup : Option String
  limitSubs : Option Nat
  deriving DecidableEq

/-- The acknowledgement reasons the subscribe path produces. -/
inductive SubscribeAckReason where
  | grantedQos0
  | grantedQos1
  | grantedQos2
  | notAuthorized
  deriving DecidableEq

namespace SubscribeAckReason

def newSuccess : QoS -> SubscribeAckReason
  | QoS.atMostOnce => grantedQos0
  | QoS.atLeastOnce => grantedQos1
  | QoS.exactlyOnce => grantedQos2

def success : SubscribeAckReason -> Option QoS
  | grantedQos0 => some QoS.atMostOnce
  | grantedQos1 => some QoS.atLeastOnce
  | grantedQos2 => some QoS.exactlyOnce
  | notAuthorized => none

@[simp] theorem success_newSuccess (qos : QoS) : (newSuccess qos).success = some qos := by
  cases qos <;> rfl

end SubscribeAckReason

/-- The answer of the publish check: allowed, or refused with a connection flag. -/
inductive PublishAclResult where
  | allow
  | rejected (disconnect : Bool)
  deriving DecidableEq

namespace PublishAclResult

def isAllow : PublishAclResult -> Bool
  | allow => true
  | rejected _ => false

end PublishAclResult

end Broker
end Ciqada
