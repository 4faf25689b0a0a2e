import Ciqada.Foundation.Framing
import Ciqada.Broker.Dispatch

/-!
# The replicated router

The nodes of a cluster agree on one log of messages, and every node applies the
log to a router of its own.  A node that lags behind may be given a snapshot of
another node's router instead of the messages it has missed.  A handshake lock is
held for a while only, and whether it is still held is decided by the clock of
the node that applies the message.
-/

namespace Ciqada
namespace Cluster

open Foundation Broker

structure ClientStatus where
  id : Id
  online : Bool
  handshaking : Bool
  handshakDuration : Int
  deriving DecidableEq

namespace ClientStatus

def new (now : Int) (id : Id) (online handshaking : Bool) : ClientStatus :=
  { id := id, online := online, handshaking := handshaking, handshakDuration := now }

/-- The lock is held and has not run out. -/
def isHandshaking (s : ClientStatus) (tryLockTimeout : Nat) (now : Int) : Bool :=
  s.handshaking && decide (now < s.handshakDuration + tryLockTimeout)

end ClientStatus

structure ClusterRouter where
  inner : DefaultRouter
  clientStates : Table String ClientStatus
  tryLockTimeout : Nat

inductive Message where
  | handshakeTryLock (id : Id)
  | connected (id : Id)
  | disconnected (id : Id)
  | sessionTerminated (id : Id)
  | add (topicFilter : String) (id : Id) (opts : RelationOptions)
  | remove (topicFilter : String) (id : Id)
  | getClientNodeId (clientId : String)
  | ping

inductive MessageReply where
  | error (text : String)
  | handshakeTryLock (prev : Option Id)
  | ping
  deriving DecidableEq

/-- What applying a message gives back: nothing, a reply, a node, or an error. -/
inductive Applied where
  | empty
  | reply (r : MessageReply)
  | nodeId (node : Option Nat)
  | failed (e : TopicError)
  deriving DecidableEq

namespace ClusterRouter

def new (tryLockTimeout : Nat) : ClusterRouter :=
  { inner := DefaultRouter.new, clientStates := ∅, tryLockTimeout := tryLockTimeout }

def status (r : ClusterRouter) (clientId : String) : Option ClientStatus :=
  r.clientStates.lookup clientId

def clientNodeId (r : ClusterRouter) (clientId : String) : Option Nat :=
  (r.status clientId).map (fun s => s.id.nodeId)

def isOnline (r : ClusterRouter) (clientId : String) : Bool :=
  (r.status clientId).elim false ClientStatus.online

def setStatus (r : ClusterRouter) (s : ClientStatus) (clientId : String) : ClusterRouter :=
  { r with clientStates := r.clientStates.insert clientId s }

def handshakeTryLock (r : ClusterRouter) (now : Int) (id : Id) : ClusterRouter × Applied :=
  match r.status id.clientId with
  | some s =>
      if s.isHandshaking r.tryLockTimeout now then
        (r, Applied.reply (MessageReply.error "Handshake try lock failed"))
      else
        (r.setStatus (ClientStatus.new now id false true) id.clientId,
          Applied.reply (MessageReply.handshakeTryLock (some s.id)))
  | none =>
      (r.setStatus (ClientStatus.new now id false true) id.clientId,
        Applied.reply (MessageReply.handshakeTryLock none))

/-- An older connection does not take a client from a newer one. -/
def connected (r : ClusterRouter) (now : Int) (id : Id) : ClusterRouter × Applied :=
  match r.status id.clientId with
  | some s =>
      if s.id ≠ id ∧ id.createTime < s.id.createTime then
        (r, Applied.reply (MessageReply.error "id not the same"))
      else
        (r.setStatus { s with id := id, online := true, handshaking := false } id.clientId,
          Applied.empty)
  | none => (r.setStatus (ClientStatus.new now id true false) id.clientId, Applied.empty)

def disconnected (r : ClusterRouter) (id : Id) : ClusterRouter :=
  match r.status id.clientId with
  | some s => if s.id ≠ id then r else r.setStatus { s with online := false } id.clientId
  | none => r

def sessionTerminated (r : ClusterRouter) (id : Id) : ClusterRouter :=
  match r.status id.clientId with
  | some s =>
      if s.id ≠ id then r
      else { r with clientStates := r.clientStates.erase id.clientId }
  | none => r

/-- One message of the log, at the clock of the node. -/
def apply (r : ClusterRouter) (now : Int) : Message -> ClusterRouter × Applied
  | Message.handshakeTryLock id => r.handshakeTryLock now id
  | Message.connected id => r.connected now id
  | Message.disconnected id => (r.disconnected id, Applied.empty)
  | Message.sessionTerminated id => (r.sessionTerminated id, Applied.empty)
  | Message.add topicFilter id opts =>
      match r.inner.add topicFilter id opts with
      | Except.ok inner => ({ r with inner := inner }, Applied.empty)
      | Except.error e => (r, Applied.failed e)
  | Message.remove topicFilter id =>
      match r.inner.remove topicFilter id with
      | (inner, Except.ok _) => ({ r with inner := inner }, Applied.empty)
      | (inner, Except.error e) => ({ r with inner := inner }, Applied.failed e)
  | Message.getClientNodeId clientId => (r, Applied.nodeId (r.clientNodeId clientId))
  | Message.ping => (r, Applied.reply MessageReply.ping)

/-- A log applied message by message, each at the clock given with it. -/
def applyAll (r : ClusterRouter) (ms : List (Int × Message)) : ClusterRouter :=
  ms.foldl (fun acc m => (acc.apply m.1 m.2).1) r

end ClusterRouter

/-- The request that a message makes to the tables, if any. -/
def Message.request : Message -> Option DefaultRouter.Request
  | Message.add topicFilter id opts => some (DefaultRouter.Request.add topicFilter id opts)
  | Message.remove topicFilter id => some (DefaultRouter.Request.remove topicFilter id)
  | _ => none

/-- The client whose status a message is about, if any. -/
def Message.client : Message -> Option String
  | Message.handshakeTryLock id => some id.clientId
  | Message.connected id => some id.clientId
  | Message.disconnected id => some id.clientId
  | Message.sessionTerminated id => some id.clientId
  | _ => none

namespace ClusterRouter

variable {r : ClusterRouter} {now : Int} {id : Id}

@[simp] theorem setStatus_inner (r : ClusterRouter) (s : ClientStatus) (clientId : String) :
    (r.setStatus s clientId).inner = r.inner := rfl

@[simp] theorem setStatus_tryLockTimeout (r : ClusterRouter) (s : ClientStatus)
    (clientId : String) : (r.setStatus s clientId).tryLockTimeout = r.tryLockTimeout := rfl

theorem status_setStatus (r : ClusterRouter) (s : ClientStatus) (clientId c : String) :
    (r.setStatus s clientId).status c = if c = clientId then some s else r.status c :=
  Table.lookup_insert_if _ _ _ _

theorem status_ite (p : Prop) [Decidable p] (r r' : ClusterRouter) (c : String) :
    (if p then r else r').status c = if p then r.status c else r'.status c :=
  apply_ite (fun r => r.status c) p r r'

def dropStatus (r : ClusterRouter) (clientId : String) : ClusterRouter :=
  { r with clientStates := r.clientStates.erase clientId }

theorem status_dropStatus (r : ClusterRouter) (clientId c : String) :
    (r.dropStatus clientId).status c = if c = clientId then none else r.status c :=
  Table.lookup_erase_if _ _ _

/-!
## One client at a time
-/

def held (tryLockTimeout : Nat) (now : Int) (s : Option ClientStatus) : Bool :=
  s.any (fun s => s.isHandshaking tryLockTimeout now)

/-- The client is with a connection that is newer than the one given. -/
def newer (id : Id) (s : Option ClientStatus) : Bool :=
  s.any (fun s => decide (s.id ≠ id ∧ id.createTime < s.id.createTime))

def named (id : Id) (s : Option ClientStatus) : Bool :=
  s.any (fun s => decide (s.id = id))

theorem handshakeTryLock_fst (r : ClusterRouter) (now : Int) (id : Id) :
    (r.handshakeTryLock now id).1 =
      if held r.tryLockTimeout now (r.status id.clientId) then r
      else r.setStatus (ClientStatus.new now id false true) id.clientId := by
  unfold handshakeTryLock
  cases r.status id.clientId with
  | none => rfl
  | some s => exact apply_ite Prod.fst _ _ _

theorem connected_fst (r : ClusterRouter) (now : Int) (id : Id) :
    (r.connected now id).1 =
      if newer id (r.status id.clientId) then r
      else r.setStatus { (r.status id.clientId).getD (ClientStatus.new now id true false) with
        id := id, online := true, handshaking := false } id.clientId := by
  unfold connected newer
  cases r.status id.clientId with
  | none => rfl
  | some s => simp [apply_ite Prod.fst]

theorem disconnected_eq (r : ClusterRouter) (id : Id) :
    r.disconnected id =
      (r.status id.clientId).elim r (fun s =>
        if s.id = id then r.setStatus { s with online := false } id.clientId else r) := by
  unfold disconnected
  cases r.status id.clientId with
  | none => rfl
  | some s => exact ite_not _ _ _

theorem sessionTerminated_eq (r : ClusterRouter) (id : Id) :
    r.sessionTerminated id =
      if named id (r.status id.clientId) then r.dropStatus id.clientId else r := by
  unfold sessionTerminated named
  cases r.status id.clientId with
  | none => rfl
  | some s => simp [dropStatus]

/-- What a message to a client means to its status. -/
def statusAfter (tryLockTimeout : Nat) (now : Int) (s : Option ClientStatus) :
    Message -> Option ClientStatus
  | Message.handshakeTryLock id =>
      if held tryLockTimeout now s then s else some (ClientStatus.new now id false true)
  | Message.connected id =>
      if newer id s then s
      else some { s.getD (ClientStatus.new now id true false) with
        id := id, online := true, handshaking := false }
  | Message.disconnected id =>
      s.map (fun s => if s.id = id then { s with online := false } else s)
  | Message.sessionTerminated id => if named id s then none else s
  | _ => s

/-- A message reaches the tables as the request it makes and in no other way. -/
theorem apply_inner (r : ClusterRouter) (now : Int) (m : Message) :
    (r.apply now m).1.inner = m.request.elim r.inner r.inner.serve := by
  cases m with
  | handshakeTryLock id =>
      show (r.handshakeTryLock now id).1.inner = r.inner
      rw [handshakeTryLock_fst, apply_ite inner, setStatus_inner, ite_self]
  | connected id =>
      show (r.connected now id).1.inner = r.inner
      rw [connected_fst, apply_ite inner, setStatus_inner, ite_self]
  | disconnected id =>
      show (r.disconnected id).inner = r.inner
      rw [disconnected_eq]
      cases r.status id.clientId with
      | none => rfl
      | some s => exact (apply_ite inner _ _ _).trans (ite_self _)
  | sessionTerminated id =>
      show (r.sessionTerminated id).inner = r.inner
      rw [sessionTerminated_eq, apply_ite inner]
      exact ite_self _
  | add topicFilter id opts =>
      show _ = r.inner.serve (DefaultRouter.Request.add topicFilter id opts)
      unfold apply DefaultRouter.serve
      dsimp only
      cases r.inner.add topicFilter id opts with
      | ok inner => rfl
      | error e => rfl
  | remove topicFilter id =>
      show _ = (r.inner.remove topicFilter id).1
      unfold apply
      dsimp only
      rcases r.inner.remove topicFilter id with ⟨inner, answer⟩
      cases answer with
      | ok removed => rfl
      | error e => rfl
  | getClientNodeId clientId => rfl
  | ping => rfl

theorem apply_tryLockTimeout (r : ClusterRouter) (now : Int) (m : Message) :
    (r.apply now m).1.tryLockTimeout = r.tryLockTimeout := by
  cases m with
  | handshakeTryLock id =>
      show (r.handshakeTryLock now id).1.tryLockTimeout = _
      rw [handshakeTryLock_fst, apply_ite tryLockTimeout, setStatus_tryLockTimeout, ite_self]
  | connected id =>
      show (r.connected now id).1.tryLockTimeout = _
      rw [connected_fst, apply_ite tryLockTimeout, setStatus_tryLockTimeout, ite_self]
  | disconnected id =>
      show (r.disconnected id).tryLockTimeout = _
      rw [disconnected_eq]
      cases r.status id.clientId with
      | none => rfl
      | some s => exact (apply_ite tryLockTimeout _ _ _).trans (ite_self _)
  | sessionTerminated id =>
      show (r.sessionTerminated id).tryLockTimeout = _
      rw [sessionTerminated_eq, apply_ite tryLockTimeout]
      exact ite_self _
  | add topicFilter id opts =>
      unfold apply
      dsimp only
      cases r.inner.add topicFilter id opts with
      | ok inner => rfl
      | error e => rfl
  | remove topicFilter id =>
      unfold apply
      dsimp only
      rcases r.inner.remove topicFilter id with ⟨inner, answer⟩
      cases answer with
      | ok removed => rfl
      | error e => rfl
  | getClientNodeId clientId => rfl
  | ping => rfl

/-- Every client is a machine of its own. -/
theorem status_apply (r : ClusterRouter) (now : Int) (m : Message) (c : String) :
    (r.apply now m).1.status c =
      if m.client = some c then statusAfter r.tryLockTimeout now (r.status c) m
      else r.status c := by
  cases m with
  | handshakeTryLock id =>
      show (r.handshakeTryLock now id).1.status c = _
      rw [handshakeTryLock_fst, status_ite, status_setStatus]
      unfold Message.client statusAfter
      by_cases hc : c = id.clientId
      · rw [if_pos hc, if_pos (congrArg some hc.symm), hc]
      · rw [if_neg hc, if_neg (fun h => hc (Option.some.inj h).symm), ite_self]
  | connected id =>
      show (r.connected now id).1.status c = _
      rw [connected_fst, status_ite, status_setStatus]
      unfold Message.client statusAfter
      by_cases hc : c = id.clientId
      · rw [if_pos hc, if_pos (congrArg some hc.symm), hc]
      · rw [if_neg hc, if_neg (fun h => hc (Option.some.inj h).symm), ite_self]
  | disconnected id =>
      show (r.disconnected id).status c = _
      rw [disconnected_eq]
      unfold Message.client statusAfter
      by_cases hc : c = id.clientId
      · rw [if_pos (congrArg some hc.symm), hc]
        cases hs : r.status id.clientId with
        | none => exact hs
        | some s =>
            show (ite _ _ r).status id.clientId = some (ite _ _ s)
            rw [status_ite, status_setStatus, if_pos rfl, hs,
              apply_ite some]
      · rw [if_neg (fun h => hc (Option.some.inj h).symm)]
        cases r.status id.clientId with
        | none => rfl
        | some s =>
            show (ite _ _ r).status c = _
            rw [status_ite, status_setStatus, if_neg hc, ite_self]
  | sessionTerminated id =>
      show (r.sessionTerminated id).status c = _
      rw [sessionTerminated_eq, status_ite, status_dropStatus]
      unfold Message.client statusAfter
      by_cases hc : c = id.clientId
      · rw [if_pos hc, if_pos (congrArg some hc.symm), hc]
      · rw [if_neg hc, if_neg (fun h => hc (Option.some.inj h).symm), ite_self]
  | add topicFilter id opts =>
      rw [if_neg (show (Message.add topicFilter id opts).client ≠ some c from nofun)]
      unfold apply
      dsimp only
      cases r.inner.add topicFilter id opts with
      | ok inner => rfl
      | error e => rfl
  | remove topicFilter id =>
      rw [if_neg (show (Message.remove topicFilter id).client ≠ some c from nofun)]
      unfold apply
      dsimp only
      rcases r.inner.remove topicFilter id with ⟨inner, answer⟩
      cases answer with
      | ok removed => rfl
      | error e => rfl
  | getClientNodeId clientId =>
      rw [if_neg (show (Message.getClientNodeId clientId).client ≠ some c from nofun)]
      rfl
  | ping =>
      rw [if_neg (show Message.ping.client ≠ some c from nofun)]
      rfl

end ClusterRouter

end Cluster
end Ciqada
