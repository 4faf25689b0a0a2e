import Mathlib.Algebra.Order.Group.Multiset
import Mathlib.Tactic.Abel
import Ciqada.Session.Inflight

/-!
# The way of a message through a session

A message for a client comes through the channel of its session into the deliver
queue, from there to the client and, unless it is sent at most once, into the
window until it is acknowledged.  A message that waits too long goes back to the
channel.  Every step says what became of the messages that it lets go.
-/

namespace Ciqada
namespace Session

open Broker Api Store

/-- The reasons that are reported for a dropped message. -/
inductive DropReason where
  | messageQueueFull
  | messageExpiration
  | sessionEnded
  deriving DecidableEq

/-- The ways to lose a message without a report. -/
inductive Loss where
  | noPacketId
  | notSent
  | displaced
  | overtaken
  | unaddressed
  | unfinished
  | ignored
  deriving DecidableEq

inductive Outcome where
  | sent
  | acked
  | dropped (reason : DropReason)
  | handedOver
  | lost (loss : Loss)
  deriving DecidableEq

abbrev Item : Type :=
  From × Publish

/-- What stays the same of a message that is sent, sent again and handed over. -/
def body (m : Item) : Item :=
  (m.1, { m.2 with dup := false, packetId := none })

def OutInflightMessage.item (m : OutInflightMessage) : Item :=
  (m.sender, m.publish)

namespace Message

/-- The messages for the client that a message of the channel carries. -/
def items : Message -> List Item
  | Message.forward sender p => [(sender, p)]
  | Message.sendRerelease m => [m.item]
  | Message.subscribes _ => []
  | Message.sessionStateTransfer info _ =>
      info.inflightMessages.reverse.map OutInflightMessage.item ++ info.offlineMessages

end Message

structure Outbound where
  online : Bool
  tx : List Message
  queueCap : Nat
  deliverQueue : List Item
  outInflight : OutInflight

abbrev Outcomes : Type :=
  List (Outcome × Item)

namespace Outbound

inductive Event where
  | post (m : Message)
  | receive (now : Int) (sinkOk : Bool)
  | deliver (now : Int) (expired sinkOk : Bool)
  | retry (now : Int) (expired : OutInflightMessage -> Bool)
  | publishAck (packetId : Nat)
  | publishReceived (packetId : Nat) (now : Int) (sinkOk : Bool)
  | publishComplete (packetId : Nat)
  | disconnect
  | clean
  | handOver

def new (queueCap cap : Nat) (retryInterval expiryInterval : Int) : Outbound :=
  { online := true, tx := [], queueCap := queueCap, deliverQueue := [],
    outInflight := OutInflight.new cap retryInterval expiryInterval }

def put (s : Outbound) (m : Message) : Outbound :=
  { s with tx := s.tx ++ [m] }

def push (s : Outbound) (m : Item) : Option Outbound :=
  if s.deliverQueue.length < s.queueCap then
    some { s with deliverQueue := s.deliverQueue ++ [m] }
  else none

/-- A full queue drops the new message, or the earliest one for a higher service level. -/
def send (s : Outbound) (m : Item) : Outbound × Outcomes :=
  match s.push m with
  | some s => (s, [])
  | none =>
      if m.2.qos = QoS.atMostOnce then
        (s, [(Outcome.dropped DropReason.messageQueueFull, m)])
      else
        let popped := { s with deliverQueue := s.deliverQueue.tail }
        match popped.push m with
        | none =>
            (popped, (Outcome.dropped DropReason.messageQueueFull, m) ::
              s.deliverQueue.head?.toList.map (fun e => (Outcome.lost Loss.overtaken, e)))
        | some s' =>
            (s', s.deliverQueue.head?.toList.map
              (fun e => (Outcome.dropped DropReason.messageQueueFull, e)))

/-- A message enters the window; one it takes the place of is gone. -/
def enter (s : Outbound) (m : InflightEntry) : Outbound × Outcomes :=
  let pushed := s.outInflight.pushBack m
  ({ s with outInflight := pushed.1 },
    pushed.2.toList.map (fun e => (Outcome.lost Loss.displaced, e.message.item)))

def sendRerelease (s : Outbound) (now : Int) (sinkOk : Bool) (m : OutInflightMessage) :
    Outbound × Outcomes :=
  match m.publish.packetId with
  | none => ({ s with online := false }, [(Outcome.lost Loss.unaddressed, m.item)])
  | some _ =>
      let entered := s.enter
        { message := { m with status := MomentStatus.unComplete }, updateTime := now }
      ({ entered.1 with online := sinkOk }, entered.2)

/-- An unfinished exchange is not carried over from another session. -/
def reforwardTransferred (s : Outbound) (m : OutInflightMessage) : Outbound × Outcomes :=
  match m.status with
  | MomentStatus.unComplete => (s, [(Outcome.lost Loss.unfinished, m.item)])
  | _ => (s.put (Message.forward m.sender { m.publish with dup := true }), [])

def transferInflight (s : Outbound) : List OutInflightMessage -> Outbound × Outcomes
  | [] => (s, [])
  | m :: rest =>
      let first := s.reforwardTransferred m
      let later := first.1.transferInflight rest
      (later.1, first.2 ++ later.2)

/-- Unacknowledged messages come from the back, then those that waited in the queue. -/
def transferSessionState (s : Outbound) (info : OfflineInfo) : Outbound × Outcomes :=
  let transferred := s.transferInflight info.inflightMessages.reverse
  (info.offlineMessages.foldl (fun s m => s.put (Message.forward m.1 m.2)) transferred.1,
    transferred.2)

/-- An online session handles every message of its channel, an offline one forwards only. -/
def process (s : Outbound) (now : Int) (sinkOk : Bool) (m : Message) : Outbound × Outcomes :=
  if s.online then
    match m with
    | Message.forward sender p => s.send (sender, p)
    | Message.sendRerelease m => s.sendRerelease now sinkOk m
    | Message.subscribes _ => (s, [])
    | Message.sessionStateTransfer info _ => s.transferSessionState info
  else
    match m with
    | Message.forward sender p => s.send (sender, p)
    | _ => (s, m.items.map (fun e => (Outcome.lost Loss.ignored, e)))

def receive (s : Outbound) (now : Int) (sinkOk : Bool) : Outbound × Outcomes :=
  match s.tx with
  | [] => (s, [])
  | m :: rest => { s with tx := rest }.process now sinkOk m

/-- Hand a message to the client under its packet id. -/
def publish (s : Outbound) (now : Int) (sinkOk : Bool) (sender : From) (p : Publish) :
    Outbound × Outcomes :=
  if sinkOk then
    match Peer.momentStatus p.qos with
    | none => (s, [(Outcome.sent, (sender, p))])
    | some status =>
        s.enter
          { message := { publish := p, sender := sender, status := status }, updateTime := now }
  else ({ s with online := false }, [(Outcome.lost Loss.notSent, (sender, p))])

/-- A message that is sent for the first time needs a packet id. -/
def needsId (p : Publish) : Bool :=
  decide (p.qos ≠ QoS.atMostOnce) && (!p.dup || p.packetId.isNone)

def deliverItem (s : Outbound) (now : Int) (expired sinkOk : Bool) (m : Item) :
    Outbound × Outcomes :=
  if expired then (s, [(Outcome.dropped DropReason.messageExpiration, m)])
  else if needsId m.2 then
    let drawn := s.outInflight.nextId
    let s := { s with outInflight := drawn.1 }
    match drawn.2 with
    | none => ({ s with online := false }, [(Outcome.lost Loss.noPacketId, m)])
    | some packetId => s.publish now sinkOk m.1 { m.2 with packetId := some packetId }
  else s.publish now sinkOk m.1 m.2

/-- The next message of the queue, if there is room in the window. -/
def deliver (s : Outbound) (now : Int) (expired sinkOk : Bool) : Outbound × Outcomes :=
  if s.online && s.outInflight.hasCredit then
    match s.deliverQueue with
    | [] => (s, [])
    | m :: rest => { s with deliverQueue := rest }.deliverItem now expired sinkOk m
  else (s, [])

/-- A message that has waited too long is sent again, or its release is. -/
def reforward (s : Outbound) (expired : OutInflightMessage -> Bool) (m : OutInflightMessage) :
    Outbound × Outcomes :=
  match m.status with
  | MomentStatus.unComplete =>
      if expired m then (s, [(Outcome.lost Loss.unfinished, m.item)])
      else (s.put (Message.sendRerelease m), [])
  | _ => (s.put (Message.forward m.sender { m.publish with dup := true }), [])

/-- As many messages as the window holds are looked at, the first one each time. -/
def retryFront (s : Outbound) (now : Int) (expired : OutInflightMessage -> Bool) :
    Nat -> Outbound × Outcomes
  | 0 => (s, [])
  | rounds + 1 =>
      let popped := s.outInflight.popFrontTimeout now
      match popped.2 with
      | none => (s, [])
      | some m =>
          let first := { s with outInflight := popped.1 }.reforward expired m.message
          let later := first.1.retryFront now expired rounds
          (later.1, first.2 ++ later.2)

def retry (s : Outbound) (now : Int) (expired : OutInflightMessage -> Bool) :
    Outbound × Outcomes :=
  if s.online then s.retryFront now expired s.outInflight.queues.length else (s, [])

def acknowledge (s : Outbound) (packetId : Nat) : Outbound × Outcomes :=
  if s.online then
    let removed := s.outInflight.remove packetId
    ({ s with outInflight := removed.1 },
      removed.2.toList.map (fun e => (Outcome.acked, e.message.item)))
  else (s, [])

def publishReceived (s : Outbound) (packetId : Nat) (now : Int) (sinkOk : Bool) : Outbound :=
  if s.online then
    { s with
      outInflight := s.outInflight.updateStatus packetId now MomentStatus.unComplete
      online := sinkOk }
  else s

/-- What the session holds when it ends; its channel goes with it. -/
def finish (s : Outbound) (outcome : Outcome) : Outbound × Outcomes :=
  ({ s with
     online := false, tx := [], deliverQueue := []
     outInflight := s.outInflight.toInflightMessages.1 },
    s.deliverQueue.map (fun e => (outcome, e)) ++
      (s.outInflight.toInflightMessages.2.map (fun m => (outcome, m.item)) ++
        (s.tx.flatMap Message.items).map (fun e => (Outcome.lost Loss.ignored, e))))

def step (s : Outbound) : Event -> Outbound × Outcomes
  | Event.post m => (s.put m, [])
  | Event.receive now sinkOk => s.receive now sinkOk
  | Event.deliver now expired sinkOk => s.deliver now expired sinkOk
  | Event.retry now expired => s.retry now expired
  | Event.publishAck packetId => s.acknowledge packetId
  | Event.publishReceived packetId now sinkOk => (s.publishReceived packetId now sinkOk, [])
  | Event.publishComplete packetId => s.acknowledge packetId
  | Event.disconnect => ({ s with online := false }, [])
  | Event.clean => s.finish (Outcome.dropped DropReason.sessionEnded)
  | Event.handOver => s.finish Outcome.handedOver

def run (s : Outbound) : List Event -> Outbound × Outcomes
  | [] => (s, [])
  | e :: es =>
      let first := s.step e
      let later := first.1.run es
      (later.1, first.2 ++ later.2)

end Outbound

/-!
## Nothing goes without a trace
-/

namespace OutInflight

variable {w : OutInflight}

/-- No packet id is in the window twice. -/
def Distinct (w : OutInflight) : Prop :=
  (w.queues.map Prod.fst).Nodup

def bodies (w : OutInflight) : Multiset Item :=
  w.queues.map (fun e => body e.2.message.item)

def found (e : Option InflightEntry) : Multiset Item :=
  e.toList.map (fun e => body e.message.item)

theorem keys_without (w : OutInflight) (packetId : Nat) :
    (w.without packetId).queues.map Prod.fst =
      (w.queues.map Prod.fst).filter (fun k => k != packetId) := by
  unfold without
  rw [List.filter_map]
  rfl

theorem Distinct.without (h : w.Distinct) (packetId : Nat) : (w.without packetId).Distinct := by
  unfold Distinct
  rw [keys_without]
  exact h.filter _

theorem not_mem_without (w : OutInflight) (packetId : Nat) :
    packetId ∉ (w.without packetId).queues.map Prod.fst := by
  rw [keys_without]
  intro hmem
  exact absurd (List.mem_filter.mp hmem).right (by simp)

theorem without_of_not_mem {packetId : Nat} (h : packetId ∉ w.queues.map Prod.fst) :
    w.without packetId = w := by
  have hall : w.queues.filter (fun e => e.1 != packetId) = w.queues := by
    rw [List.filter_eq_self]
    intro e he
    rw [bne_iff_ne]
    rintro rfl
    exact h (List.mem_map_of_mem he)
  show { w with queues := w.queues.filter (fun e => e.1 != packetId) } = w
  rw [hall]

theorem get_of_not_mem {packetId : Nat} (h : packetId ∉ w.queues.map Prod.fst) :
    w.get packetId = none := by
  unfold get
  rw [List.lookup_eq_none_iff]
  intro e he
  rw [bne_iff_ne]
  rintro rfl
  exact h (List.mem_map_of_mem he)

theorem bodies_cons (cap : Nat) (interval : Int) (next : Nat) (e : Nat × InflightEntry)
    (queues : List (Nat × InflightEntry)) :
    bodies ⟨cap, interval, next, e :: queues⟩ =
      bodies ⟨cap, interval, next, queues⟩ + {body e.2.message.item} := by
  rw [Multiset.add_comm, Multiset.singleton_add]
  rfl

/-- The window is one message and the rest, if it has the message. -/
theorem Distinct.bodies_eq (h : w.Distinct) (packetId : Nat) :
    w.bodies = (w.without packetId).bodies + found (w.get packetId) := by
  rcases w with ⟨cap, interval, next, queues⟩
  unfold Distinct at h
  induction queues with
  | nil => rfl
  | cons e queues ih =>
      rcases e with ⟨key, entry⟩
      rw [List.map_cons, List.nodup_cons] at h
      have hrest := ih h.right
      by_cases hkey : key = packetId
      · have hnot : packetId ∉ queues.map Prod.fst := hkey ▸ h.left
        have hsame := without_of_not_mem (w := ⟨cap, interval, next, queues⟩) hnot
        have hget : (⟨cap, interval, next, (key, entry) :: queues⟩ : OutInflight).get packetId =
            some entry := by
          show List.lookup packetId ((key, entry) :: queues) = some entry
          rw [hkey, List.lookup_cons_self]
        have hwithout : (⟨cap, interval, next, (key, entry) :: queues⟩ : OutInflight).without
            packetId = (⟨cap, interval, next, queues⟩ : OutInflight).without packetId := by
          unfold OutInflight.without
          rw [List.filter_cons_of_neg (by simp [hkey])]
        rw [hget, hwithout, hsame, bodies_cons]
        rfl
      · have hget : (⟨cap, interval, next, (key, entry) :: queues⟩ : OutInflight).get packetId =
            (⟨cap, interval, next, queues⟩ : OutInflight).get packetId := by
          show List.lookup packetId ((key, entry) :: queues) = List.lookup packetId queues
          rw [List.lookup_cons, beq_eq_false_iff_ne.mpr (Ne.symm hkey)]
        have hwithout : ((⟨cap, interval, next, (key, entry) :: queues⟩ : OutInflight).without
            packetId).bodies =
              ((⟨cap, interval, next, queues⟩ : OutInflight).without packetId).bodies +
                {body entry.message.item} := by
          unfold OutInflight.without
          rw [List.filter_cons_of_pos (by simp [hkey]), bodies_cons]
        rw [hget, hwithout, bodies_cons, hrest]
        abel

theorem Distinct.pushBack (h : w.Distinct) (m : InflightEntry) : (w.pushBack m).1.Distinct := by
  unfold OutInflight.pushBack
  cases m.message.publish.packetId with
  | none => exact h
  | some packetId =>
      show (((w.without packetId).queues ++ [(packetId, m)]).map Prod.fst).Nodup
      rw [List.map_append, List.nodup_append']
      refine ⟨h.without packetId, List.nodup_singleton _, ?_⟩
      intro k hk hlast
      rw [List.mem_singleton.mp hlast] at hk
      exact w.not_mem_without packetId hk

theorem Distinct.bodies_pushBack (h : w.Distinct) {m : InflightEntry} {packetId : Nat}
    (hm : m.message.publish.packetId = some packetId) :
    (w.pushBack m).1.bodies + found (w.pushBack m).2 =
      w.bodies + {body m.message.item} := by
  unfold OutInflight.pushBack
  rw [hm]
  dsimp only
  rw [h.bodies_eq packetId]
  have hlast : ({ w with queues := (w.without packetId).queues ++ [(packetId, m)] } :
      OutInflight).bodies = (w.without packetId).bodies + {body m.message.item} := by
    unfold bodies
    dsimp only
    rw [List.map_append, ← Multiset.coe_add]
    rfl
  rw [hlast]
  abel

theorem Distinct.popFrontTimeout (h : w.Distinct) (now : Int) :
    (w.popFrontTimeout now).1.Distinct ∧
      (w.popFrontTimeout now).1.bodies + found (w.popFrontTimeout now).2 = w.bodies := by
  unfold OutInflight.popFrontTimeout
  split
  · rcases w with ⟨cap, interval, next, queues⟩
    cases queues with
    | nil => exact ⟨List.nodup_nil, rfl⟩
    | cons e rest =>
        unfold Distinct at h
        rw [List.map_cons, List.nodup_cons] at h
        exact ⟨h.right, (bodies_cons cap interval next e rest).symm⟩
  · exact ⟨h, add_zero _⟩

theorem Distinct.updateStatus (h : w.Distinct) (packetId : Nat) (now : Int)
    (status : MomentStatus) :
    (w.updateStatus packetId now status).Distinct ∧
      (w.updateStatus packetId now status).bodies = w.bodies := by
  unfold OutInflight.updateStatus Distinct bodies
  dsimp only
  rw [List.map_map, List.map_map]
  constructor
  · refine Eq.mpr (congrArg List.Nodup (List.map_congr_left ?_)) h
    intro e _
    exact (apply_ite Prod.fst _ _ _).trans (ite_self _)
  · refine congrArg _ (List.map_congr_left ?_)
    intro e _
    show body (OutInflightMessage.item (InflightEntry.message (Prod.snd (ite _ _ e)))) = _
    split
    · rfl
    · rfl

end OutInflight

namespace Outbound

def channel (tx : List Message) : Multiset Item :=
  (tx.flatMap Message.items).map body

def settled (o : Outcomes) : Multiset Item :=
  o.map (fun x => body x.2)

/-- The messages for the client that the session holds, wherever they are. -/
def held (s : Outbound) : Multiset Item :=
  channel s.tx + (s.deliverQueue.map body : Multiset Item) + s.outInflight.bodies

theorem settled_append (o o' : Outcomes) : settled (o ++ o') = settled o + settled o' := by
  unfold settled
  rw [List.map_append, ← Multiset.coe_add]

theorem channel_append (tx tx' : List Message) : channel (tx ++ tx') = channel tx + channel tx' := by
  unfold channel
  rw [List.flatMap_append, List.map_append, ← Multiset.coe_add]

theorem channel_singleton (m : Message) : channel [m] = (m.items.map body : Multiset Item) := by
  unfold channel
  rw [List.flatMap_singleton]

theorem channel_cons (m : Message) (tx : List Message) :
    channel (m :: tx) = (m.items.map body : Multiset Item) + channel tx := by
  rw [← channel_singleton, ← channel_append]
  rfl

theorem settled_map (outcome : Outcome) (items : List Item) :
    settled (items.map (fun e => (outcome, e))) = (items.map body : Multiset Item) := by
  unfold settled
  rw [List.map_map]
  rfl

theorem settled_found (outcome : Outcome) (e : Option InflightEntry) :
    settled (e.toList.map (fun e => (outcome, e.message.item))) = OutInflight.found e := by
  cases e with
  | none => rfl
  | some e => rfl

/-- What was held and came in is held or settled, and the window is in order. -/
structure Conserves (s : Outbound) (extra : Multiset Item) (r : Outbound × Outcomes) : Prop where
  distinct : r.1.outInflight.Distinct
  total : held r.1 + settled r.2 = held s + extra

section Steps

variable {s : Outbound} {extra extra' : Multiset Item} {r r' : Outbound × Outcomes}

theorem Conserves.andThen (h : Conserves s extra r) (h' : Conserves r.1 extra' r') :
    Conserves s (extra + extra') (r'.1, r.2 ++ r'.2) := by
  constructor
  case distinct => exact h'.distinct
  case total =>
    show held r'.1 + settled (r.2 ++ r'.2) = _
    rw [settled_append]
    calc held r'.1 + (settled r.2 + settled r'.2)
        = held r'.1 + settled r'.2 + settled r.2 := by abel
      _ = held r.1 + extra' + settled r.2 := by rw [h'.total]
      _ = held r.1 + settled r.2 + extra' := by abel
      _ = held s + extra + extra' := by rw [h.total]
      _ = held s + (extra + extra') := by abel

theorem held_put (s : Outbound) (m : Message) :
    held (s.put m) = held s + (m.items.map body : Multiset Item) := by
  unfold held put
  dsimp only
  rw [channel_append, channel_singleton]
  abel

theorem conserves_put (hs : s.outInflight.Distinct) (m : Message) :
    Conserves s (m.items.map body : Multiset Item) (s.put m, []) := by
  constructor
  case distinct => exact hs
  case total =>
    show held (s.put m) + settled [] = _
    rw [held_put]
    exact add_zero _

theorem conserves_refl (hs : s.outInflight.Distinct) : Conserves s 0 (s, []) := by
  constructor
  case distinct => exact hs
  case total => rfl

/-- A message that is let go at once. -/
theorem conserves_settled (hs : s.outInflight.Distinct) (outcome : Outcome) (items : List Item) :
    Conserves s (items.map body : Multiset Item) (s, items.map (fun e => (outcome, e))) := by
  constructor
  case distinct => exact hs
  case total =>
    show held s + settled _ = _
    rw [settled_map]

/-- The same from a state that holds what is held and what came in. -/
theorem Conserves.rebase {s' : Outbound} (h : Conserves s' extra' r)
    (heq : held s' + extra' = held s + extra) : Conserves s extra r := by
  constructor
  case distinct => exact h.distinct
  case total => exact h.total.trans heq

theorem Conserves.offline (h : Conserves s extra r) (online : Bool) :
    Conserves s extra ({ r.1 with online := online }, r.2) := by
  constructor
  case distinct => exact h.distinct
  case total => exact h.total

theorem held_push {s' : Outbound} {m : Item} (h : s.push m = some s') :
    s'.outInflight = s.outInflight ∧ held s' = held s + {body m} := by
  unfold push at h
  split at h
  · rw [← Option.some.inj h]
    refine ⟨rfl, ?_⟩
    unfold held
    dsimp only
    rw [List.map_append, ← Multiset.coe_add]
    show _ + (_ + ({body m} : Multiset Item)) + _ = _
    abel
  · cases h

theorem held_tail (s : Outbound) :
    held { s with deliverQueue := s.deliverQueue.tail } +
        (s.deliverQueue.head?.toList.map body : Multiset Item) = held s := by
  unfold held
  dsimp only
  cases s.deliverQueue with
  | nil => exact add_zero _
  | cons m rest =>
      show _ + (rest.map body : Multiset Item) + _ + ({body m} : Multiset Item) =
        _ + ((body m :: rest.map body : List Item) : Multiset Item) + _
      rw [← Multiset.cons_coe, ← Multiset.singleton_add]
      abel

theorem conserves_send (hs : s.outInflight.Distinct) (m : Item) :
    Conserves s {body m} (s.send m) := by
  unfold send
  cases hpush : s.push m with
  | some s' =>
      rcases held_push hpush with ⟨hwindow, hheld⟩
      constructor
      case distinct =>
        show s'.outInflight.Distinct
        rw [hwindow]
        exact hs
      case total =>
        show held s' + settled [] = _
        rw [hheld]
        exact add_zero _
  | none =>
      dsimp only
      by_cases hqos : m.2.qos = QoS.atMostOnce
      · rw [if_pos hqos]
        exact conserves_settled hs _ [m]
      · rw [if_neg hqos]
        have htail := held_tail s
        cases hagain : ({ s with deliverQueue := s.deliverQueue.tail } : Outbound).push m with
        | none =>
            constructor
            case distinct => exact hs
            case total =>
              show held _ + settled ([(_, m)] ++ _) = _
              rw [settled_append, settled_map, ← htail]
              show held _ + ({body m} + _) = _
              abel
        | some s' =>
            rcases held_push hagain with ⟨hwindow, hheld⟩
            constructor
            case distinct =>
              show s'.outInflight.Distinct
              rw [hwindow]
              exact hs
            case total =>
              show held s' + settled _ = _
              rw [settled_map, hheld, ← htail]
              abel

theorem conserves_enter (hs : s.outInflight.Distinct) {m : InflightEntry} {packetId : Nat}
    (hm : m.message.publish.packetId = some packetId) :
    Conserves s {body m.message.item} (s.enter m) := by
  constructor
  case distinct => exact hs.pushBack m
  case total =>
    have hbodies := hs.bodies_pushBack hm
    unfold enter held
    dsimp only
    rw [settled_found, add_assoc, add_assoc, hbodies]
    abel

theorem conserves_sendRerelease (hs : s.outInflight.Distinct) (now : Int) (sinkOk : Bool)
    (m : OutInflightMessage) :
    Conserves s {body m.item} (s.sendRerelease now sinkOk m) := by
  unfold sendRerelease
  cases hm : m.publish.packetId with
  | none =>
      exact (conserves_settled hs (Outcome.lost Loss.unaddressed) [m.item]).offline false
  | some packetId =>
      let entry : InflightEntry :=
        { message := { m with status := MomentStatus.unComplete }, updateTime := now }
      have hentry : entry.message.publish.packetId = some packetId := hm
      exact (conserves_enter hs hentry).offline sinkOk

theorem conserves_reforwardTransferred (hs : s.outInflight.Distinct) (m : OutInflightMessage) :
    Conserves s {body m.item} (s.reforwardTransferred m) := by
  unfold reforwardTransferred
  cases m.status with
  | unAck => exact conserves_put hs (Message.forward m.sender { m.publish with dup := true })
  | unReceived => exact conserves_put hs (Message.forward m.sender { m.publish with dup := true })
  | unComplete => exact conserves_settled hs (Outcome.lost Loss.unfinished) [m.item]

theorem conserves_transferInflight (hs : s.outInflight.Distinct) (ms : List OutInflightMessage) :
    Conserves s ((ms.map OutInflightMessage.item).map body : Multiset Item)
      (s.transferInflight ms) := by
  induction ms generalizing s with
  | nil => exact conserves_refl hs
  | cons m ms ih =>
      have hfirst := conserves_reforwardTransferred hs m
      exact hfirst.andThen (ih hfirst.distinct)

theorem conserves_forwards (hs : s.outInflight.Distinct) (ms : List Item) :
    Conserves s (ms.map body : Multiset Item)
      (ms.foldl (fun s m => s.put (Message.forward m.1 m.2)) s, []) := by
  induction ms generalizing s with
  | nil => exact conserves_refl hs
  | cons m ms ih =>
      have hput : Conserves s {body m} (s.put (Message.forward m.1 m.2), []) :=
        conserves_put hs (Message.forward m.1 m.2)
      exact hput.andThen (ih hput.distinct)

theorem conserves_process (hs : s.outInflight.Distinct) (now : Int) (sinkOk : Bool)
    (m : Message) :
    Conserves s (m.items.map body : Multiset Item) (s.process now sinkOk m) := by
  unfold process
  split
  · cases m with
    | forward sender p => exact conserves_send hs (sender, p)
    | sendRerelease m => exact conserves_sendRerelease hs now sinkOk m
    | subscribes reqs => exact conserves_refl hs
    | sessionStateTransfer info clearSubscriptions =>
        have hfirst := conserves_transferInflight hs info.inflightMessages.reverse
        have hboth := hfirst.andThen (conserves_forwards hfirst.distinct info.offlineMessages)
        rw [List.append_nil, Multiset.coe_add, ← List.map_append] at hboth
        exact hboth
  · cases m with
    | forward sender p => exact conserves_send hs (sender, p)
    | sendRerelease m => exact conserves_settled hs (Outcome.lost Loss.ignored) [m.item]
    | subscribes reqs => exact conserves_refl hs
    | sessionStateTransfer info clearSubscriptions => exact conserves_settled hs _ _

theorem conserves_receive (hs : s.outInflight.Distinct) (now : Int) (sinkOk : Bool) :
    Conserves s 0 (s.receive now sinkOk) := by
  unfold receive
  cases htx : s.tx with
  | nil => exact conserves_refl hs
  | cons m rest =>
      apply (conserves_process (s := { s with tx := rest }) hs now sinkOk m).rebase
      unfold held
      dsimp only
      rw [htx, channel_cons]
      abel

theorem conserves_publish (hs : s.outInflight.Distinct) (now : Int) (sinkOk : Bool)
    (sender : From) (p : Publish)
    (hp : p.qos ≠ QoS.atMostOnce -> exists packetId, p.packetId = some packetId) :
    Conserves s {body (sender, p)} (s.publish now sinkOk sender p) := by
  unfold publish
  split
  · cases hstatus : Peer.momentStatus p.qos with
    | none => exact conserves_settled hs Outcome.sent [(sender, p)]
    | some status =>
        have hqos : p.qos ≠ QoS.atMostOnce := by
          intro hqos
          rw [hqos] at hstatus
          cases hstatus
        rcases hp hqos with ⟨packetId, hpid⟩
        let entry : InflightEntry :=
          { message := { publish := p, sender := sender, status := status }, updateTime := now }
        have hentry : entry.message.publish.packetId = some packetId := hpid
        exact conserves_enter hs hentry
  · exact (conserves_settled hs (Outcome.lost Loss.notSent) [(sender, p)]).offline false

theorem packetId_of_not_needsId {p : Publish} (h : needsId p = false)
    (hqos : p.qos ≠ QoS.atMostOnce) : p.dup = true ∧ exists packetId, p.packetId = some packetId := by
  unfold needsId at h
  rw [decide_eq_true hqos, Bool.true_and, Bool.or_eq_false_iff] at h
  constructor
  · simpa using h.left
  · exact Option.isSome_iff_exists.mp (by simpa using h.right)

theorem conserves_deliverItem (hs : s.outInflight.Distinct) (now : Int) (expired sinkOk : Bool)
    (m : Item) : Conserves s {body m} (s.deliverItem now expired sinkOk m) := by
  unfold deliverItem
  split
  · exact conserves_settled hs (Outcome.dropped DropReason.messageExpiration) [m]
  · cases hneeds : needsId m.2 with
    | true =>
        rw [if_pos rfl]
        dsimp only
        cases s.outInflight.nextId.2 with
        | none =>
            have hlost := conserves_settled (s := { s with outInflight := s.outInflight.nextId.1 })
              hs (Outcome.lost Loss.noPacketId) [m]
            exact (hlost.offline false).rebase rfl
        | some packetId =>
            have hsent := conserves_publish (s := { s with outInflight := s.outInflight.nextId.1 })
              hs now sinkOk m.1 { m.2 with packetId := some packetId } (fun _ => ⟨packetId, rfl⟩)
            exact hsent.rebase rfl
    | false =>
        rw [if_neg Bool.false_ne_true]
        exact conserves_publish hs now sinkOk m.1 m.2
          (fun hqos => (packetId_of_not_needsId hneeds hqos).right)

theorem conserves_deliver (hs : s.outInflight.Distinct) (now : Int) (expired sinkOk : Bool) :
    Conserves s 0 (s.deliver now expired sinkOk) := by
  unfold deliver
  split
  · cases hqueue : s.deliverQueue with
    | nil => exact conserves_refl hs
    | cons m rest =>
        apply (conserves_deliverItem (s := { s with deliverQueue := rest }) hs now expired
          sinkOk m).rebase
        have htail := held_tail s
        rw [hqueue] at htail
        exact htail.trans (add_zero _).symm
  · exact conserves_refl hs

theorem conserves_reforward (hs : s.outInflight.Distinct)
    (expired : OutInflightMessage -> Bool) (m : OutInflightMessage) :
    Conserves s {body m.item} (s.reforward expired m) := by
  unfold reforward
  cases m.status with
  | unAck => exact conserves_put hs (Message.forward m.sender { m.publish with dup := true })
  | unReceived => exact conserves_put hs (Message.forward m.sender { m.publish with dup := true })
  | unComplete =>
      dsimp only
      split
      · exact conserves_settled hs (Outcome.lost Loss.unfinished) [m.item]
      · exact conserves_put hs (Message.sendRerelease m)

theorem conserves_retryFront (hs : s.outInflight.Distinct) (now : Int)
    (expired : OutInflightMessage -> Bool) (rounds : Nat) :
    Conserves s 0 (s.retryFront now expired rounds) := by
  induction rounds generalizing s with
  | zero => exact conserves_refl hs
  | succ rounds ih =>
      unfold retryFront
      have hpopped := hs.popFrontTimeout now
      dsimp only
      cases hfront : (s.outInflight.popFrontTimeout now).2 with
      | none => exact conserves_refl hs
      | some m =>
          rw [hfront] at hpopped
          have hfirst := conserves_reforward
            (s := { s with outInflight := (s.outInflight.popFrontTimeout now).1 }) hpopped.left
            expired m.message
          apply (hfirst.andThen (ih hfirst.distinct)).rebase
          unfold held
          dsimp only
          rw [← hpopped.right]
          show _ + _ + _ + ({body m.message.item} + 0) = _ + _ + (_ + {body m.message.item}) + 0
          abel

theorem conserves_acknowledge (hs : s.outInflight.Distinct) (packetId : Nat) :
    Conserves s 0 (s.acknowledge packetId) := by
  unfold acknowledge
  split
  · constructor
    case distinct => exact hs.without packetId
    case total =>
      have hbodies := hs.bodies_eq packetId
      unfold OutInflight.remove held
      dsimp only
      rw [settled_found, hbodies]
      abel
  · exact conserves_refl hs

theorem conserves_publishReceived (hs : s.outInflight.Distinct) (packetId : Nat) (now : Int)
    (sinkOk : Bool) : Conserves s 0 (s.publishReceived packetId now sinkOk, []) := by
  unfold publishReceived
  split
  · have hupdate := hs.updateStatus packetId now MomentStatus.unComplete
    constructor
    case distinct => exact hupdate.left
    case total =>
      show held _ + settled [] = _
      unfold held
      dsimp only
      rw [hupdate.right]
      rfl
  · exact conserves_refl hs

theorem conserves_finish (outcome : Outcome) : Conserves s 0 (s.finish outcome) := by
  constructor
  case distinct => exact List.nodup_nil
  case total =>
    unfold finish held
    dsimp only
    rw [settled_append, settled_append, settled_map, settled_map]
    have hwindow : settled (s.outInflight.toInflightMessages.2.map (fun m => (outcome, m.item))) =
        s.outInflight.bodies := by
      unfold settled OutInflight.toInflightMessages OutInflight.bodies
      dsimp only
      rw [List.map_map, List.map_map]
      rfl
    rw [hwindow]
    show (0 + 0 + 0 : Multiset Item) + (_ + (_ + channel s.tx)) = _
    abel

end Steps

/-- The messages for the client that an event brings in. -/
def entered : Event -> Multiset Item
  | Event.post m => (m.items.map body : Multiset Item)
  | _ => 0

theorem conserves_step {s : Outbound} (hs : s.outInflight.Distinct) (e : Event) :
    Conserves s (entered e) (s.step e) := by
  cases e with
  | post m => exact conserves_put hs m
  | receive now sinkOk => exact conserves_receive hs now sinkOk
  | deliver now expired sinkOk => exact conserves_deliver hs now expired sinkOk
  | retry now expired =>
      show Conserves s 0 (s.retry now expired)
      unfold retry
      split
      · exact conserves_retryFront hs now expired _
      · exact conserves_refl hs
  | publishAck packetId => exact conserves_acknowledge hs packetId
  | publishReceived packetId now sinkOk => exact conserves_publishReceived hs packetId now sinkOk
  | publishComplete packetId => exact conserves_acknowledge hs packetId
  | disconnect => exact (conserves_refl hs).offline false
  | clean => exact conserves_finish _
  | handOver => exact conserves_finish _

theorem conserves_run {s : Outbound} (hs : s.outInflight.Distinct) (es : List Event) :
    Conserves s ((es.map entered).sum) (s.run es) := by
  induction es generalizing s with
  | nil => exact conserves_refl hs
  | cons e es ih =>
      have hfirst := conserves_step hs e
      exact hfirst.andThen (ih hfirst.distinct)

end Outbound

end Session
end Ciqada
