import Ciqada.Broker.Types
import Ciqada.Foundation.Index
import Ciqada.Foundation.Rows
import Ciqada.Store.TopicMatch

/-!
# The message store in memory

Messages live in memory under their ids, in arrival order for eviction and by
topic for replay.  Two sets say what the disk has not seen yet: `dirty` holds
the ids whose row must be written, `removed` those whose row must go.
-/

namespace Ciqada
namespace Store

open Foundation Broker

abbrev MsgId := Nat

structure StoredMsg where
  sender : From
  publish : Publish
  expiryAt : Int
  deliveredTo : Finset String
  deriving DecidableEq

def usizeMax : Nat :=
  UInt64.size - 1

def i64Max : Int :=
  Int.ofNat (UInt64.size / 2) - 1

def i64Min : Int :=
  - Int.ofNat (UInt64.size / 2)

def saturatingAdd (a b : Nat) : Nat :=
  min (a + b) usizeMax

namespace StoredMsg

def approxSize (m : StoredMsg) : Nat :=
  m.publish.payload.length + m.publish.topic.utf8ByteSize + 384

/-- A message as `store` hands it to the worker.  The interval is cast to 64 bits. -/
def new (now : Int) (sender : From) (p : Publish) (expiryInterval : Nat) : StoredMsg :=
  { sender := sender
    publish := p
    expiryAt :=
      max i64Min (min i64Max (now + Int.bmod (Int.ofNat expiryInterval) UInt64.size))
    deliveredTo := ∅ }

end StoredMsg

/-- The caps, where 0 means unbounded, and the number of this node. -/
structure Config where
  nodeId : Nat
  maxMsgs : Nat
  maxBytes : Nat
  deriving DecidableEq

structure MemState where
  msgs : Table MsgId StoredMsg
  order : List MsgId
  byTopic : Index String MsgId
  bytes : Nat
  dirty : Finset MsgId
  removed : Finset MsgId

namespace MemState

/-!
## Eviction
-/

def overCap (cfg : Config) (m : MemState) : Bool :=
  (0 < cfg.maxMsgs && cfg.maxMsgs < m.msgs.keys.card) ||
    (0 < cfg.maxBytes && cfg.maxBytes < m.bytes)

/-- An id that is no longer in memory counts as expired. -/
def expired (now : Int) (m : MemState) (id : MsgId) : Bool :=
  match m.msgs.lookup id with
  | some msg => msg.expiryAt ≤ now
  | none => true

/-- The body of the eviction loop, after the id left the front of the order. -/
def evictOne (m : MemState) (id : MsgId) : MemState :=
  match m.msgs.lookup id with
  | some msg =>
      { m with
        msgs := m.msgs.erase id
        bytes := m.bytes - msg.approxSize
        dirty := m.dirty.erase id
        removed := insert id m.removed
        byTopic := Index.drop m.byTopic msg.publish.topic id }
  | none => m

/-- The eviction loop over what is left of the order. -/
def evictFrom (cfg : Config) (now : Int) : List MsgId -> MemState -> MemState
  | [], m => { m with order := [] }
  | id :: rest, m =>
      if !m.overCap cfg && !m.expired now id then { m with order := id :: rest }
      else evictFrom cfg now rest (m.evictOne id)

def evict (cfg : Config) (now : Int) (m : MemState) : MemState :=
  evictFrom cfg now m.order m

/-!
## The worker
-/

/-- Memory and byte count after a message is put under a key. -/
def place (key : MsgId) (msg : StoredMsg) (m : MemState) : MemState :=
  match m.msgs.lookup key with
  | some old =>
      { m with
        msgs := m.msgs.insert key msg
        bytes := saturatingAdd (m.bytes - old.approxSize) msg.approxSize }
  | none =>
      { m with
        msgs := m.msgs.insert key msg
        order := m.order ++ [key]
        bytes := saturatingAdd m.bytes msg.approxSize }

/-- What the worker does with a message before it evicts. -/
def put (key : MsgId) (msg : StoredMsg) (m : MemState) : MemState :=
  let placed := { m with removed := m.removed.erase key }.place key msg
  { placed with
    byTopic := Index.add placed.byTopic msg.publish.topic key
    dirty := insert key placed.dirty }

def insertMsg (cfg : Config) (now : Int) (key : MsgId) (msg : StoredMsg) (m : MemState) :
    MemState :=
  (m.put key msg).evict cfg now

/-!
## Replay
-/

/--
The ids that a filter selects.  The index is scanned for a filter with
wildcards, and the same id may then come from two topics.
-/
def candidates (m : MemState) (topicFilter : String) : Multiset MsgId :=
  if hasWildcard topicFilter then
    (m.byTopic.keys.filter (fun t => topicMatches t topicFilter)).val.bind
      (fun t => (Index.entriesOf m.byTopic t).val)
  else (Index.entriesOf m.byTopic topicFilter).val

/-- What one candidate contributes to the answer. -/
def hit (now : Int) (clientId : String) (m : MemState) (id : MsgId) :
    Option (MsgId × From × Publish) :=
  match m.msgs.lookup id with
  | some msg =>
      if msg.expiryAt ≤ now ∨ clientId ∈ msg.deliveredTo then none
      else some (id, msg.sender, msg.publish)
  | none => none

def mark (clientId : String) (m : MemState) (id : MsgId) : MemState :=
  match m.msgs.lookup id with
  | some msg =>
      { m with
        msgs := m.msgs.insert id { msg with deliveredTo := insert clientId msg.deliveredTo }
        dirty := insert id m.dirty }
  | none => { m with dirty := insert id m.dirty }

/-- The candidates in the order in which the hash tables yield them. -/
def IterOrder (m : MemState) (topicFilter : String) (iter : List MsgId) : Prop :=
  (iter : Multiset MsgId) = m.candidates topicFilter

instance (m : MemState) (topicFilter : String) (iter : List MsgId) :
    Decidable (m.IterOrder topicFilter iter) :=
  inferInstanceAs (Decidable ((iter : Multiset MsgId) = m.candidates topicFilter))

/-- The loop over the candidates and the marks on what it touched. -/
def deliver (now : Int) (clientId : String) (iter : List MsgId) (m : MemState) :
    MemState × List (MsgId × From × Publish) :=
  let out := iter.filterMap (m.hit now clientId)
  ((out.map Prod.fst).foldl (mark clientId) m, out)

/-- Replay after eviction; the iteration order is the one the candidates came in. -/
def get (cfg : Config) (now : Int) (clientId : String) (iter : List MsgId) (m : MemState) :
    MemState × List (MsgId × From × Publish) :=
  (m.evict cfg now).deliver now clientId iter

end MemState

end Store
end Ciqada
