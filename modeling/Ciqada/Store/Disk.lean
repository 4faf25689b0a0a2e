import Mathlib.Data.List.Sort
import Ciqada.Foundation.Run
import Ciqada.Store.Representation

/-!
# The message store and its table on disk

A flush takes what is owed to the disk under the lock and writes it later in
one transaction, while the worker and replay go on.  The store reads the table
only when it is opened.  Rows are byte strings that the store never looks into,
so their type is left open.
-/

namespace Ciqada
namespace Store

open Foundation Broker

/-- The serializer of stored messages, either half of which may fail. -/
structure Codec (Row : Type) where
  enc : StoredMsg -> Option Row
  dec : Row -> Option StoredMsg

namespace Codec

/-- Every message is encoded, and decoded to what it was. -/
def RoundTrips {Row : Type} (codec : Codec Row) : Prop :=
  forall msg, exists row, codec.enc msg = some row ∧ codec.dec row = some msg

end Codec

/-!
## Transactions
-/

/-- The rows of the dirty messages that are in memory. -/
def batchOf {Row : Type} (codec : Codec Row) (m : MemState) : List (MsgId × Row) :=
  (ascending m.dirty).filterMap (fun id =>
    (m.msgs.lookup id).bind (fun msg => (codec.enc msg).map (fun row => (id, row))))

section Batch

variable {Row : Type} {codec : Codec Row} {m : MemState}

theorem mem_batchOf {id : MsgId} {row : Row} :
    (id, row) ∈ batchOf codec m <->
      id ∈ m.dirty ∧ exists msg, m.msgs.lookup id = some msg ∧ codec.enc msg = some row := by
  unfold batchOf
  rw [List.mem_filterMap]
  constructor
  · rintro ⟨id', hdirty, hrow⟩
    rcases Option.bind_eq_some_iff.mp hrow with ⟨msg, hlookup, henc⟩
    rcases Option.map_eq_some_iff.mp henc with ⟨row', henc', heq⟩
    rw [← (Prod.mk.inj heq).left, ← (Prod.mk.inj heq).right]
    exact ⟨mem_ascending.mp hdirty, msg, hlookup, henc'⟩
  · rintro ⟨hdirty, msg, hlookup, henc⟩
    refine ⟨id, mem_ascending.mpr hdirty, ?_⟩
    rw [hlookup, Option.bind_some, henc, Option.map_some]

theorem nodup_batchOf (codec : Codec Row) (m : MemState) :
    ((batchOf codec m).map Prod.fst).Nodup := by
  unfold batchOf
  rw [List.map_filterMap]
  refine List.Nodup.filterMap ?_ (nodup_ascending m.dirty)
  intro id id' key hkey hkey'
  simp only [Option.mem_def, Option.map_eq_some_iff, Option.bind_eq_some_iff] at hkey hkey'
  rcases hkey with ⟨_, ⟨_, _, _, _, rfl⟩, rfl⟩
  rcases hkey' with ⟨_, ⟨_, _, _, _, rfl⟩, heq⟩
  exact heq.symm

end Batch

/--
What one flush took from memory.  `commits` says whether its transaction will
succeed; a transaction that fails changes nothing.
-/
structure Flush (Row : Type) where
  batch : List (MsgId × Row)
  removed : List MsgId
  commits : Bool
  nodup : (batch.map Prod.fst).Nodup

namespace Flush

variable {Row : Type}

def take (codec : Codec Row) (m : MemState) (commits : Bool) : Flush Row :=
  { batch := batchOf codec m
    removed := ascending m.removed
    commits := commits
    nodup := nodup_batchOf codec m }

def isEmpty (f : Flush Row) : Bool :=
  f.batch.isEmpty && f.removed.isEmpty

/-- The transaction on the table: removals first, then the batch. -/
def apply (f : Flush Row) (disk : Table MsgId Row) : Table MsgId Row :=
  if f.commits then Table.writeRows (Table.eraseKeys disk f.removed) f.batch else disk

end Flush

/-!
## The store
-/

/--
The store with its channel, its table and the flushes in progress.  `evicted` is
history and nothing reads it: the ids that were evicted and not stored again.
-/
structure System (Row : Type) where
  mem : MemState
  counter : Nat
  channel : List (MsgId × StoredMsg)
  disk : Table MsgId Row
  flight : List (Flush Row)
  evicted : Finset MsgId

namespace System

variable {Row : Type}

/-- The next memory state.  What it owes as removed has just been evicted. -/
def withMem (s : System Row) (m : MemState) : System Row :=
  { s with mem := m, evicted := (s.evicted \ m.msgs.keys) ∪ m.removed }

/-- The locked part of a flush.  Without anything to write there is no transaction. -/
def snapshot (cfg : Config) (codec : Codec Row) (now : Int) (commits : Bool)
    (s : System Row) : System Row :=
  let evictedMem := s.mem.evict cfg now
  let f := Flush.take codec evictedMem commits
  let drained := { s.withMem evictedMem with
    mem := { evictedMem with dirty := ∅, removed := ∅ } }
  if f.isEmpty then drained else { drained with flight := drained.flight ++ [f] }

/-- The transaction of a flush in progress. -/
def settle (s : System Row) (i : Nat) (f : Flush Row) : System Row :=
  { s with disk := f.apply s.disk, flight := s.flight.eraseIdx i }

/-!
### Message ids
-/

def counterMask : Nat :=
  0xFFFFFFFFFFFF

def nextMsgId (cfg : Config) (s : System Row) : MsgId × System Row :=
  (((cfg.nodeId <<< 48) % UInt64.size) ||| (s.counter &&& counterMask),
    { s with counter := (s.counter + 1) % UInt64.size })

/-- The counter continues after the ids of this node in the table. -/
def recoverCounter (cfg : Config) (start : Nat) (id : MsgId) : Nat :=
  if id >>> 48 = cfg.nodeId then max start ((id &&& counterMask) + 1) else start

/-!
### Opening
-/

/-- A row that opening loads: it can be decoded and has not expired. -/
def loadRow (codec : Codec Row) (now : Int) (entry : MsgId × Row) :
    Option (MsgId × StoredMsg) :=
  match codec.dec entry.2 with
  | some msg => if now < msg.expiryAt then some (entry.1, msg) else none
  | none => none

def load (codec : Codec Row) (now : Int) (disk : Table MsgId Row) : Table MsgId StoredMsg :=
  Table.writeRows ∅ ((Table.rows disk).filterMap (loadRow codec now))

/-- Loaded messages are ordered by expiry, then by id. -/
def expiryOrder (msgs : Table MsgId StoredMsg) : List MsgId :=
  (((Table.rows msgs).map (fun entry => (entry.2.expiryAt, entry.1))).insertionSort
    (fun a b => a.1 < b.1 ∨ (a.1 = b.1 ∧ a.2 ≤ b.2))).map Prod.snd

def topicIndex (msgs : Table MsgId StoredMsg) : Index String MsgId :=
  (Table.rows msgs).foldl (fun index entry => Index.add index entry.2.publish.topic entry.1) ∅

/-- The sizes of all messages can be counted. -/
def Fits (msgs : Table MsgId StoredMsg) : Prop :=
  Table.total StoredMsg.approxSize msgs ≤ usizeMax

instance (msgs : Table MsgId StoredMsg) : Decidable (Fits msgs) :=
  inferInstanceAs (Decidable (_ ≤ _))

/--
Open the store on a table.  There is no result when the messages exceed the
address space.
-/
def openStore (cfg : Config) (codec : Codec Row) (disk : Table MsgId Row) (now : Int) :
    Option (System Row) :=
  let msgs := load codec now disk
  if Fits msgs then
    some
      { mem :=
          { msgs := msgs
            order := expiryOrder msgs
            byTopic := topicIndex msgs
            bytes := Table.total StoredMsg.approxSize msgs
            dirty := ∅
            removed := ∅ }
        counter := ((Table.rows disk).map Prod.fst).foldl (recoverCounter cfg) 0
        channel := []
        disk := disk
        flight := []
        evicted := ∅ }
  else none

end System

/-!
## Steps
-/

inductive Event where
  | nextMsgId
  | store (now : Int) (msgId : MsgId) (sender : From) (p : Publish) (expiryInterval : Nat)
  | work (now : Int)
  | get (now : Int) (clientId topicFilter : String) (iter : List MsgId)
  | flush (now : Int) (commits : Bool)
  | settle (i : Nat)

namespace System

variable {Row : Type}

/--
One step.  The worker waits for a message, and a message that exceeds the
address space cannot be allocated.  Replay sees the candidates in some
iteration order.
-/
def step (cfg : Config) (codec : Codec Row) (s : System Row) : Event -> Option (System Row)
  | Event.nextMsgId => some (s.nextMsgId cfg).2
  | Event.store now msgId sender p expiryInterval =>
      some { s with channel := s.channel ++ [(msgId, StoredMsg.new now sender p expiryInterval)] }
  | Event.work now =>
      match s.channel with
      | [] => none
      | (key, msg) :: rest =>
          if Fits (s.mem.msgs.insert key msg) then
            some ({ s with channel := rest }.withMem (s.mem.insertMsg cfg now key msg))
          else none
  | Event.get now clientId topicFilter iter =>
      if (s.mem.evict cfg now).IterOrder topicFilter iter then
        some (s.withMem (s.mem.get cfg now clientId iter).1)
      else none
  | Event.flush now commits => some (s.snapshot cfg codec now commits)
  | Event.settle i =>
      match s.flight[i]? with
      | some f => some (s.settle i f)
      | none => none

section Inversion

variable {cfg : Config} {codec : Codec Row} {s s' : System Row}

theorem of_step_work {now : Int} (hstep : step cfg codec s (Event.work now) = some s') :
    exists key msg rest, s.channel = (key, msg) :: rest ∧ Fits (s.mem.msgs.insert key msg) ∧
      s' = { s with channel := rest }.withMem (s.mem.insertMsg cfg now key msg) := by
  simp only [step] at hstep
  split at hstep
  · cases hstep
  · rename_i key msg rest hchannel
    split at hstep
    · rename_i hfits
      exact ⟨key, msg, rest, hchannel, hfits, (Option.some.inj hstep).symm⟩
    · cases hstep

theorem of_step_get {now : Int} {clientId topicFilter : String} {iter : List MsgId}
    (hstep : step cfg codec s (Event.get now clientId topicFilter iter) = some s') :
    s' = s.withMem (s.mem.get cfg now clientId iter).1 := by
  simp only [step] at hstep
  split at hstep
  · exact (Option.some.inj hstep).symm
  · cases hstep

theorem iterOrder_of_step {now : Int} {clientId topicFilter : String} {iter : List MsgId}
    (hstep : step cfg codec s (Event.get now clientId topicFilter iter) = some s') :
    (s.mem.evict cfg now).IterOrder topicFilter iter := by
  simp only [step] at hstep
  split at hstep
  · assumption
  · cases hstep

theorem of_step_settle {i : Nat} (hstep : step cfg codec s (Event.settle i) = some s') :
    exists f, s.flight[i]? = some f ∧ s' = s.settle i f := by
  simp only [step] at hstep
  split at hstep
  · rename_i f hf
    exact ⟨f, hf, (Option.some.inj hstep).symm⟩
  · cases hstep

end Inversion

/-- What a step does, as far as the disk is concerned. -/
inductive Effect (cfg : Config) (codec : Codec Row) (s : System Row) :
    Event -> System Row -> Prop where
  | idle (e : Event) (channel : List (MsgId × StoredMsg)) (counter : Nat) :
      Effect cfg codec s e { s with channel := channel, counter := counter }
  | memory (e : Event) (channel : List (MsgId × StoredMsg)) {m : MemState} :
      s.mem.Moves m -> Effect cfg codec s e ({ s with channel := channel }.withMem m)
  | snapshot (now : Int) (commits : Bool) :
      Effect cfg codec s (Event.flush now commits) (s.snapshot cfg codec now commits)
  | settled (i : Nat) {f : Flush Row} :
      s.flight[i]? = some f -> Effect cfg codec s (Event.settle i) (s.settle i f)

theorem effect_of_step {cfg : Config} {codec : Codec Row} {s s' : System Row} {e : Event}
    (hstep : step cfg codec s e = some s') : Effect cfg codec s e s' := by
  cases e with
  | nextMsgId =>
      rw [← Option.some.inj hstep]
      exact Effect.idle Event.nextMsgId s.channel _
  | store now msgId sender p expiryInterval =>
      rw [← Option.some.inj hstep]
      exact Effect.idle _ _ s.counter
  | work now =>
      rcases of_step_work hstep with ⟨key, msg, rest, _hchannel, _hfits, rfl⟩
      exact Effect.memory _ rest (MemState.moves_insertMsg cfg now key msg s.mem)
  | get now clientId topicFilter iter =>
      rw [of_step_get hstep]
      exact Effect.memory _ s.channel (MemState.moves_get cfg now clientId iter s.mem)
  | flush now commits =>
      rw [← Option.some.inj hstep]
      exact Effect.snapshot now commits
  | settle i =>
      rcases of_step_settle hstep with ⟨f, hf, rfl⟩
      exact Effect.settled i hf

end System

/-!
## A sample configuration
-/

namespace Sample

def cfg : Config :=
  { nodeId := 1, maxMsgs := 0, maxBytes := 268435456 }

/-- Rows hold a message, or bytes that cannot be decoded. -/
def codec : Codec (Option StoredMsg) :=
  { enc := fun msg => some (some msg), dec := id }

theorem codec_roundTrips : codec.RoundTrips := by
  intro msg
  exact ⟨some msg, rfl, rfl⟩

def sender : From :=
  { typ := FromType.custom
    id := { nodeId := 1, clientId := "sensor", username := none, createTime := 0 } }

def publish (topic : String) : Publish :=
  { dup := false, retain := false, qos := QoS.atLeastOnce, topic := topic, packetId := none,
    payload := [1, 2], topicAlias := none, messageExpiryInterval := none, createTime := none }

/-- The store on a table without rows. -/
def blank : System (Option StoredMsg) :=
  (System.openStore cfg codec ∅ 9).get (by decide +kernel)

theorem blank_eq : System.openStore cfg codec ∅ 9 = some blank :=
  (Option.some_get _).symm

end Sample

end Store
end Ciqada
