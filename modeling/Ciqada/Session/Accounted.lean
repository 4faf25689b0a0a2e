import Ciqada.Session.DeliveryBounds

/-!
# No message is lost unreported

While the counter for packet ids has not come around, no two messages of a session
carry the same id, in the channel, in the queue or in the window.  So no message is
displaced from the window, and an id can always be drawn.
-/

namespace Ciqada
namespace Session

open Broker Api Store

namespace Message

def ids : Message -> List Nat
  | Message.forward _ p => p.packetId.toList
  | Message.sendRerelease m => m.publish.packetId.toList
  | _ => []

/-- A message that is new, or one that is sent again and says so. -/
def Plain : Message -> Prop
  | Message.forward _ p => p.packetId.isSome = true -> p.dup = true
  | Message.sendRerelease m => m.publish.packetId.isSome = true
  | Message.subscribes _ => True
  | Message.sessionStateTransfer _ _ => False

end Message

namespace OutInflight

def keys (w : OutInflight) : Multiset Nat :=
  w.queues.map Prod.fst

def Keyed (w : OutInflight) : Prop :=
  forall e, e ∈ w.queues -> e.2.message.publish.packetId = some e.1

variable {w : OutInflight} {m : InflightEntry} {packetId : Nat}

theorem mem_keys : packetId ∈ w.keys <-> packetId ∈ w.queues.map Prod.fst :=
  Multiset.mem_coe

/-- A message with a new packet id joins the window at its end and displaces none. -/
theorem pushBack_new (hm : m.message.publish.packetId = some packetId) (hnew : packetId ∉ w.keys) :
    w.pushBack m = ({ w with queues := w.queues ++ [(packetId, m)] }, none) := by
  rw [mem_keys] at hnew
  unfold pushBack
  rw [hm]
  dsimp only
  rw [without_of_not_mem hnew, get_of_not_mem hnew]

theorem keys_append (e : Nat × InflightEntry) :
    ({ w with queues := w.queues ++ [e] } : OutInflight).keys = w.keys + {e.1} := by
  unfold keys
  dsimp only
  rw [List.map_append, ← Multiset.coe_add]
  rfl

theorem Keyed.append (h : w.Keyed) (hm : m.message.publish.packetId = some packetId) :
    ({ w with queues := w.queues ++ [(packetId, m)] } : OutInflight).Keyed := by
  intro e he
  rcases List.mem_append.mp he with hold | hlast
  · exact h e hold
  · rw [List.mem_singleton.mp hlast]
    exact hm

theorem Keyed.without (h : w.Keyed) (packetId : Nat) : (w.without packetId).Keyed :=
  fun e he => h e (List.mem_filter.mp he).left

theorem keys_without_le (w : OutInflight) (packetId : Nat) :
    (w.without packetId).keys ≤ w.keys := by
  unfold keys
  rw [keys_without]
  exact List.Sublist.subperm List.filter_sublist

theorem Keyed.updateStatus (h : w.Keyed) (packetId : Nat) (now : Int) (status : MomentStatus) :
    (w.updateStatus packetId now status).Keyed := by
  intro e he
  rcases List.mem_map.mp he with ⟨old, hold, rfl⟩
  have hkey := h old hold
  split
  · exact hkey
  · exact hkey

theorem keys_updateStatus (w : OutInflight) (packetId : Nat) (now : Int)
    (status : MomentStatus) : (w.updateStatus packetId now status).keys = w.keys := by
  unfold updateStatus keys
  dsimp only
  rw [List.map_map]
  refine congrArg _ (List.map_congr_left ?_)
  intro e _
  exact (apply_ite Prod.fst _ _ _).trans (ite_self _)

theorem popFrontTimeout_cases (w : OutInflight) (now : Int) :
    w.popFrontTimeout now = (w, none) ∨
      exists packetId m queues, w.queues = (packetId, m) :: queues ∧
        w.popFrontTimeout now = ({ w with queues := queues }, some m) := by
  unfold popFrontTimeout
  split
  · rcases w with ⟨cap, interval, next, queues⟩
    cases queues with
    | nil => exact Or.inl rfl
    | cons e queues => exact Or.inr ⟨e.1, e.2, queues, rfl, rfl⟩
  · exact Or.inl rfl

end OutInflight

namespace Outbound

def channelIds (tx : List Message) : Multiset Nat :=
  tx.flatMap Message.ids

def queueIds (queue : List Item) : Multiset Nat :=
  queue.flatMap (fun m => m.2.packetId.toList)

/-- The packet ids that are given to messages, wherever these are. -/
def ids (s : Outbound) : Multiset Nat :=
  channelIds s.tx + queueIds s.deliverQueue + s.outInflight.keys

theorem channelIds_cons (m : Message) (tx : List Message) :
    channelIds (m :: tx) = (m.ids : Multiset Nat) + channelIds tx := by
  unfold channelIds
  rw [List.flatMap_cons, ← Multiset.coe_add]

theorem channelIds_append (tx : List Message) (m : Message) :
    channelIds (tx ++ [m]) = channelIds tx + (m.ids : Multiset Nat) := by
  unfold channelIds
  rw [List.flatMap_append, List.flatMap_singleton, ← Multiset.coe_add]

theorem queueIds_cons (m : Item) (queue : List Item) :
    queueIds (m :: queue) = (m.2.packetId.toList : Multiset Nat) + queueIds queue := by
  unfold queueIds
  rw [List.flatMap_cons, ← Multiset.coe_add]

theorem queueIds_append (queue : List Item) (m : Item) :
    queueIds (queue ++ [m]) = queueIds queue + (m.2.packetId.toList : Multiset Nat) := by
  unfold queueIds
  rw [List.flatMap_append, List.flatMap_singleton, ← Multiset.coe_add]

theorem queueIds_tail_le (queue : List Item) : queueIds queue.tail ≤ queueIds queue := by
  cases queue with
  | nil => exact le_refl _
  | cons m rest =>
      rw [queueIds_cons]
      exact Multiset.le_add_left _ _

/-- The order among the messages of a session that is online. -/
structure Orderly (s : Outbound) : Prop where
  online : s.online = true
  keyed : s.outInflight.Keyed
  nodup : (ids s).Nodup
  below : forall id, id ∈ ids s -> 0 < id ∧ id < s.outInflight.next
  positive : 0 < s.outInflight.next
  resent : forall m, m ∈ s.deliverQueue -> m.2.packetId.isSome = true -> m.2.dup = true
  plain : forall m, m ∈ s.tx -> m.Plain
  queue : s.deliverQueue.length ≤ s.queueCap

/-- Nothing is lost without a report but an exchange that was not finished. -/
def Reported (o : Outcomes) : Prop :=
  forall x, x ∈ o -> forall loss, x.1 = Outcome.lost loss -> loss = Loss.unfinished

theorem reported_nil : Reported [] :=
  fun _ hx => absurd hx List.not_mem_nil

theorem Reported.append {o o' : Outcomes} (h : Reported o) (h' : Reported o') :
    Reported (o ++ o') := by
  intro x hx
  rcases List.mem_append.mp hx with hleft | hright
  · exact h x hleft
  · exact h' x hright

theorem reported_singleton {outcome : Outcome} {m : Item}
    (h : forall loss, outcome = Outcome.lost loss -> loss = Loss.unfinished) :
    Reported [(outcome, m)] := by
  intro x hx
  rw [List.mem_singleton.mp hx]
  exact h

/-- What a step of such a session leaves: the order, with as many new ids as it drew. -/
structure Advances (s : Outbound) (drawn : Nat) (r : Outbound × Outcomes) : Prop where
  orderly : Orderly r.1
  reported : Reported r.2
  next : r.1.outInflight.next ≤ s.outInflight.next + drawn

section Steps

variable {s t : Outbound}

/-- The ids stay in order when some of them move or go. -/
theorem Orderly.change (h : Orderly s) {tx : List Message} {queue : List Item} {w : OutInflight}
    (hids : channelIds tx + queueIds queue + w.keys ≤ ids s) (hkeyed : w.Keyed)
    (hnext : w.next = s.outInflight.next)
    (hresent : forall m, m ∈ queue -> m.2.packetId.isSome = true -> m.2.dup = true)
    (hplain : forall m, m ∈ tx -> m.Plain) (hqueue : queue.length ≤ s.queueCap) :
    Orderly { s with tx := tx, deliverQueue := queue, outInflight := w } := by
  constructor
  case online => exact h.online
  case keyed => exact hkeyed
  case nodup => exact Multiset.nodup_of_le hids h.nodup
  case below =>
    intro id hid
    show 0 < id ∧ id < w.next
    rw [hnext]
    exact h.below id (Multiset.mem_of_le hids hid)
  case positive =>
    show 0 < w.next
    rw [hnext]
    exact h.positive
  case resent => exact hresent
  case plain => exact hplain
  case queue => exact hqueue

theorem ids_put (s : Outbound) (m : Message) :
    ids (s.put m) = ids s + (m.ids : Multiset Nat) := by
  unfold ids put
  dsimp only
  rw [channelIds_append]
  abel

/-- An id in the channel or in the queue is not in the window. -/
theorem Orderly.not_mem_keys (h : Orderly s) {id : Nat}
    (hid : id ∈ channelIds s.tx + queueIds s.deliverQueue) : id ∉ s.outInflight.keys := by
  have hnodup := h.nodup
  unfold ids at hnodup
  exact fun hmem => Multiset.disjoint_left.mp (Multiset.nodup_add.mp hnodup).right.right hid hmem

theorem Orderly.next_not_mem (h : Orderly s) : s.outInflight.next ∉ ids s := by
  intro hmem
  exact Nat.lt_irrefl _ (h.below _ hmem).right

theorem Orderly.put (h : Orderly s) {m : Message} (hplain : m.Plain) (hids : m.ids = []) :
    Orderly (s.put m) := by
  apply h.change (w := s.outInflight) _ h.keyed rfl h.resent _ h.queue
  · rw [channelIds_append, hids]
    exact le_of_eq (congrArg (fun x => x + _ + _) (add_zero _))
  · intro m' hm'
    rcases List.mem_append.mp hm' with hold | hnew
    · exact h.plain m' hold
    · rw [List.mem_singleton.mp hnew]
      exact hplain

/-- The ids of a session whose channel has lost its first message. -/
theorem ids_of_tx {m : Message} {rest : List Message} (htx : s.tx = m :: rest) :
    ids s = channelIds rest + queueIds s.deliverQueue + s.outInflight.keys +
      (m.ids : Multiset Nat) := by
  unfold ids
  rw [htx, channelIds_cons]
  abel

theorem Orderly.plain_rest (h : Orderly s) {m : Message} {rest : List Message}
    (htx : s.tx = m :: rest) : m.Plain ∧ forall m', m' ∈ rest -> m'.Plain := by
  constructor
  · apply h.plain m
    rw [htx]
    exact List.mem_cons_self
  · intro m' hm'
    apply h.plain m'
    rw [htx]
    exact List.mem_cons_of_mem _ hm'

/-- A forwarded message goes into the queue, and one that is dropped is reported. -/
theorem Orderly.send (h : Orderly s) {sender : From} {p : Publish} {rest : List Message}
    (htx : s.tx = Message.forward sender p :: rest) :
    Advances s 0 (({ s with tx := rest } : Outbound).send (sender, p)) := by
  rcases h.plain_rest htx with ⟨hfirst, hplain⟩
  have hresent : forall m, m ∈ s.deliverQueue ++ [(sender, p)] ->
      m.2.packetId.isSome = true -> m.2.dup = true := by
    intro m hm
    rcases List.mem_append.mp hm with hold | hnew
    · exact h.resent m hold
    · rw [List.mem_singleton.mp hnew]
      exact hfirst
  have hids := ids_of_tx htx
  change ids s = _ + (p.packetId.toList : Multiset Nat) at hids
  have hqueue := h.queue
  rcases send_cases ({ s with tx := rest } : Outbound) (sender, p) with
    ⟨hroom, heq⟩ | heq | ⟨hroom, heq⟩ | ⟨hfull, heq⟩
  · rw [heq]
    refine ⟨?_, reported_nil, le_refl _⟩
    apply h.change _ h.keyed rfl hresent hplain
    · show (s.deliverQueue ++ [(sender, p)]).length ≤ s.queueCap
      rw [List.length_append]
      exact hroom
    · rw [hids, queueIds_append]
      apply le_of_eq
      show _ + (_ + (p.packetId.toList : Multiset Nat)) + _ = _
      abel
  · rw [heq]
    refine ⟨?_, reported_singleton nofun, le_refl _⟩
    apply h.change _ h.keyed rfl h.resent hplain h.queue
    rw [hids]
    exact Multiset.le_add_right _ _
  · rw [heq]
    refine ⟨?_, ?_, le_refl _⟩
    · apply h.change _ h.keyed rfl _ hplain
      · show (s.deliverQueue.tail ++ [(sender, p)]).length ≤ s.queueCap
        rw [List.length_append]
        exact hroom
      · rw [hids, queueIds_append]
        calc channelIds rest + (queueIds s.deliverQueue.tail + (p.packetId.toList : Multiset Nat)) +
              s.outInflight.keys
            = channelIds rest + s.outInflight.keys + (p.packetId.toList : Multiset Nat) +
                queueIds s.deliverQueue.tail := by abel
          _ ≤ channelIds rest + s.outInflight.keys + (p.packetId.toList : Multiset Nat) +
                queueIds s.deliverQueue := add_le_add_right (queueIds_tail_le _) _
          _ = _ := by abel
      · intro m hm
        apply hresent m
        rcases List.mem_append.mp hm with hold | hnew
        · exact List.mem_append_left _ (List.mem_of_mem_tail hold)
        · exact List.mem_append_right _ hnew
    · intro x hx loss hloss
      rcases List.mem_map.mp hx with ⟨e, _he, rfl⟩
      cases hloss
  · have hempty : s.deliverQueue = [] := by
      cases hq : s.deliverQueue with
      | nil => rfl
      | cons m queue =>
          exfalso
          change s.queueCap ≤ s.deliverQueue.tail.length at hfull
          rw [hq] at hfull hqueue
          have hlen : (m :: queue).length = queue.length + 1 := rfl
          have htail : (m :: queue).tail.length = queue.length := rfl
          omega
    have hsame : s.deliverQueue.tail = s.deliverQueue := by
      rw [hempty]
      rfl
    rw [heq]
    refine ⟨?_, ?_, le_refl _⟩
    · show Orderly { s with tx := rest, deliverQueue := s.deliverQueue.tail }
      rw [hsame]
      apply h.change _ h.keyed rfl h.resent hplain h.queue
      rw [hids]
      exact Multiset.le_add_right _ _
    · show Reported ((_, _) :: s.deliverQueue.head?.toList.map _)
      rw [hempty]
      exact reported_singleton nofun

/-- A message that is sent again enters the window under an id that has no place there. -/
theorem Orderly.enter (h : Orderly s) {tx : List Message} {queue : List Item}
    {m : InflightEntry} {packetId : Nat} (hm : m.message.publish.packetId = some packetId)
    (hids : ids s = channelIds tx + queueIds queue + s.outInflight.keys + {packetId})
    (hresent : forall m, m ∈ queue -> m.2.packetId.isSome = true -> m.2.dup = true)
    (hplain : forall m, m ∈ tx -> m.Plain) (hqueue : queue.length ≤ s.queueCap) :
    Advances s 0 (({ s with tx := tx, deliverQueue := queue } : Outbound).enter m) := by
  have hnew : packetId ∉ s.outInflight.keys := by
    have hnodup := h.nodup
    rw [hids, add_assoc, Multiset.nodup_add] at hnodup
    have hkeys := hnodup.right.left
    intro hmem
    exact Multiset.disjoint_left.mp (Multiset.nodup_add.mp hkeys).right.right hmem
      (Multiset.mem_singleton_self packetId)
  unfold Outbound.enter
  dsimp only
  rw [OutInflight.pushBack_new hm hnew]
  refine ⟨?_, reported_nil, le_refl _⟩
  apply h.change _ (h.keyed.append hm) rfl hresent hplain hqueue
  rw [OutInflight.keys_append, hids]
  apply le_of_eq
  show _ + _ + (_ + ({packetId} : Multiset Nat)) = _
  abel

theorem Orderly.sendRerelease (h : Orderly s) {m : OutInflightMessage} {rest : List Message}
    (htx : s.tx = Message.sendRerelease m :: rest) (now : Int) :
    Advances s 0 (({ s with tx := rest } : Outbound).sendRerelease now true m) := by
  rcases h.plain_rest htx with ⟨hfirst, hplain⟩
  rcases Option.isSome_iff_exists.mp hfirst with ⟨packetId, hpid⟩
  have hids := ids_of_tx htx
  change ids s = _ + (m.publish.packetId.toList : Multiset Nat) at hids
  rw [hpid] at hids
  let entry : InflightEntry :=
    { message := { m with status := MomentStatus.unComplete }, updateTime := now }
  have hentered := h.enter (m := entry) hpid hids h.resent hplain h.queue
  unfold Outbound.sendRerelease
  rw [hpid]
  have honline := hentered.orderly
  refine ⟨?_, hentered.reported, hentered.next⟩
  exact ⟨rfl, honline.keyed, honline.nodup, honline.below, honline.positive, honline.resent,
    honline.plain, honline.queue⟩

theorem Orderly.receive (h : Orderly s) (now : Int) : Advances s 0 (s.receive now true) := by
  unfold Outbound.receive
  cases htx : s.tx with
  | nil => exact ⟨h, reported_nil, le_refl _⟩
  | cons m rest =>
      dsimp only
      unfold process
      rw [if_pos h.online]
      rcases h.plain_rest htx with ⟨hfirst, hplain⟩
      cases m with
      | forward sender p => exact h.send htx
      | sendRerelease m => exact h.sendRerelease htx now
      | subscribes reqs =>
          refine ⟨?_, reported_nil, le_refl _⟩
          apply h.change _ h.keyed rfl h.resent hplain h.queue
          rw [ids_of_tx htx]
          exact Multiset.le_add_right _ _
      | sessionStateTransfer info clearSubscriptions => exact absurd hfirst id

/-- While the counter has not come around it holds the next id to be drawn. -/
theorem Orderly.nextId (h : Orderly s) (hnext : s.outInflight.next < 65535) :
    s.outInflight.nextId =
      ({ s.outInflight with next := s.outInflight.next + 1 }, some s.outInflight.next) := by
  have hfree : OutInflight.Free s.outInflight.exist s.outInflight.next := by
    refine ⟨h.positive.ne', ?_⟩
    rw [Bool.eq_false_iff]
    intro hused
    apply h.next_not_mem
    exact Multiset.mem_add.mpr (Or.inr (OutInflight.mem_keys.mpr
      (OutInflight.exist_iff.mp hused)))
  rcases OutInflight.draw_succ s.outInflight.exist 65534 s.outInflight.next with
    ⟨_hfree, heq⟩ | ⟨hbusy, _heq⟩
  · unfold OutInflight.nextId
    dsimp only
    rw [heq, Nat.mod_eq_of_lt (by omega)]
  · exact absurd hfree hbusy

/-- A message with the id just drawn enters the window. -/
theorem Orderly.enterDrawn (h : Orderly s) {queue : List Item} {m : InflightEntry}
    (hm : m.message.publish.packetId = some s.outInflight.next)
    (hids : channelIds s.tx + queueIds queue + s.outInflight.keys ≤ ids s)
    (hresent : forall m, m ∈ queue -> m.2.packetId.isSome = true -> m.2.dup = true)
    (hqueue : queue.length ≤ s.queueCap) :
    Advances s 1 (({ s with
      deliverQueue := queue
      outInflight := { s.outInflight with next := s.outInflight.next + 1 } } :
        Outbound).enter m) := by
  have hnew : s.outInflight.next ∉
      ({ s.outInflight with next := s.outInflight.next + 1 } : OutInflight).keys := by
    intro hmem
    exact h.next_not_mem (Multiset.mem_add.mpr (Or.inr hmem))
  unfold Outbound.enter
  dsimp only
  rw [OutInflight.pushBack_new hm hnew]
  refine ⟨?_, reported_nil, le_refl _⟩
  have hnewIds : ids ({ s with
      deliverQueue := queue
      outInflight :=
        { s.outInflight with
          next := s.outInflight.next + 1
          queues := s.outInflight.queues ++ [(s.outInflight.next, m)] } } : Outbound) ≤
      ids s + {s.outInflight.next} := by
    refine le_trans (le_of_eq ?_) (add_le_add_left hids {s.outInflight.next})
    unfold ids
    dsimp only
    have hkeys := OutInflight.keys_append (w := { s.outInflight with
      next := s.outInflight.next + 1 }) (s.outInflight.next, m)
    dsimp only at hkeys
    rw [hkeys]
    show _ + (s.outInflight.keys + _) = _
    abel
  constructor
  case online => exact h.online
  case keyed => exact OutInflight.Keyed.append (w := { s.outInflight with
      next := s.outInflight.next + 1 }) h.keyed hm
  case nodup =>
    apply Multiset.nodup_of_le hnewIds
    rw [Multiset.add_comm, Multiset.singleton_add]
    exact Multiset.nodup_cons.mpr ⟨h.next_not_mem, h.nodup⟩
  case below =>
    intro id hid
    show 0 < id ∧ id < s.outInflight.next + 1
    rcases Multiset.mem_add.mp (Multiset.mem_of_le hnewIds hid) with hold | hlast
    · have hbelow := h.below id hold
      exact ⟨hbelow.left, Nat.lt_succ_of_lt hbelow.right⟩
    · rw [Multiset.mem_singleton.mp hlast]
      exact ⟨h.positive, Nat.lt_succ_self _⟩
  case positive => exact Nat.succ_pos _
  case resent => exact hresent
  case plain => exact h.plain
  case queue => exact hqueue

theorem momentStatus_isSome {qos : QoS} (h : qos ≠ QoS.atMostOnce) :
    exists status, Peer.momentStatus qos = some status := by
  cases qos with
  | atMostOnce => exact absurd rfl h
  | atLeastOnce => exact ⟨_, rfl⟩
  | exactlyOnce => exact ⟨_, rfl⟩

theorem ids_of_queue {m : Item} {rest : List Item} (hqueue : s.deliverQueue = m :: rest) :
    ids s = channelIds s.tx + queueIds rest + s.outInflight.keys +
      (m.2.packetId.toList : Multiset Nat) := by
  unfold ids
  rw [hqueue, queueIds_cons]
  abel

theorem Orderly.deliver (h : Orderly s) (hnext : s.outInflight.next < 65535) (now : Int)
    (expired : Bool) : Advances s 1 (s.deliver now expired true) := by
  have hstay : Advances s 1 (s, []) := ⟨h, reported_nil, Nat.le_succ _⟩
  unfold Outbound.deliver
  split
  · cases hqueue : s.deliverQueue with
    | nil => exact hstay
    | cons m rest =>
        have hids := ids_of_queue hqueue
        have hresent : forall m', m' ∈ rest -> m'.2.packetId.isSome = true -> m'.2.dup = true := by
          intro m' hm'
          apply h.resent m'
          rw [hqueue]
          exact List.mem_cons_of_mem _ hm'
        have hlen : rest.length ≤ s.queueCap := by
          have hfits := h.queue
          rw [hqueue, List.length_cons] at hfits
          omega
        have hle : channelIds s.tx + queueIds rest + s.outInflight.keys ≤ ids s := by
          rw [hids]
          exact Multiset.le_add_right _ _
        have hrest : Orderly { s with deliverQueue := rest } :=
          h.change hle h.keyed rfl hresent h.plain hlen
        dsimp only
        unfold deliverItem
        by_cases hexpired : expired = true
        · rw [if_pos hexpired]
          exact ⟨hrest, reported_singleton nofun, Nat.le_succ _⟩
        · rw [if_neg hexpired]
          cases hneeds : needsId m.2 with
          | true =>
              rw [if_pos rfl]
              dsimp only
              rw [h.nextId hnext]
              dsimp only
              have hqos : m.2.qos ≠ QoS.atMostOnce :=
                of_decide_eq_true (Bool.and_eq_true_iff.mp hneeds).left
              rcases momentStatus_isSome hqos with ⟨status, hstatus⟩
              unfold publish
              rw [if_pos rfl]
              dsimp only
              rw [hstatus]
              exact h.enterDrawn rfl hle hresent hlen
          | false =>
              rw [if_neg Bool.false_ne_true]
              unfold publish
              rw [if_pos rfl]
              by_cases hqos : m.2.qos = QoS.atMostOnce
              · rw [hqos]
                exact ⟨hrest, reported_singleton nofun, Nat.le_succ _⟩
              · rcases (packetId_of_not_needsId hneeds hqos).right with ⟨packetId, hpid⟩
                rcases momentStatus_isSome hqos with ⟨status, hstatus⟩
                rw [hstatus]
                rw [hpid] at hids
                let entry : InflightEntry :=
                  { message := { publish := m.2, sender := m.1, status := status }
                    updateTime := now }
                have hentered := h.enter (m := entry) hpid hids hresent h.plain hlen
                exact ⟨hentered.orderly, hentered.reported, hentered.next.trans (Nat.le_succ _)⟩
  · exact hstay

/-- A message that timed out leaves the window and goes back into the channel. -/
theorem Orderly.reforward (h : Orderly s) {m : InflightEntry} {packetId : Nat}
    {queues : List (Nat × InflightEntry)} (hqueues : s.outInflight.queues = (packetId, m) :: queues)
    (expired : OutInflightMessage -> Bool) :
    Advances s 0 (({ s with outInflight := { s.outInflight with queues := queues } } :
      Outbound).reforward expired m.message) := by
  have hpid : m.message.publish.packetId = some packetId := by
    apply h.keyed (packetId, m)
    rw [hqueues]
    exact List.mem_cons_self
  have hkeyed : ({ s.outInflight with queues := queues } : OutInflight).Keyed := by
    intro e he
    apply h.keyed e
    rw [hqueues]
    exact List.mem_cons_of_mem _ he
  have hids : ids s = channelIds s.tx + queueIds s.deliverQueue +
      ({ s.outInflight with queues := queues } : OutInflight).keys + {packetId} := by
    unfold ids OutInflight.keys
    rw [hqueues, List.map_cons, ← Multiset.cons_coe, ← Multiset.singleton_add]
    abel
  have hput : forall m', m'.Plain -> m'.ids = [packetId] ->
      Advances s 0 (({ s with outInflight := { s.outInflight with queues := queues } } :
        Outbound).put m', []) := by
    intro m' hplain hm'
    refine ⟨?_, reported_nil, le_refl _⟩
    apply h.change _ hkeyed rfl h.resent _ h.queue
    · rw [hids, channelIds_append, hm']
      apply le_of_eq
      show _ + ({packetId} : Multiset Nat) + _ + _ = _
      abel
    · intro x hx
      rcases List.mem_append.mp hx with hold | hlast
      · exact h.plain x hold
      · rw [List.mem_singleton.mp hlast]
        exact hplain
  have hforward : Advances s 0 (({ s with
      outInflight := { s.outInflight with queues := queues } } : Outbound).put
        (Message.forward m.message.sender { m.message.publish with dup := true }), []) :=
    hput _ (fun _ => rfl) (congrArg Option.toList hpid)
  unfold Outbound.reforward
  cases m.message.status with
  | unAck => exact hforward
  | unReceived => exact hforward
  | unComplete =>
      dsimp only
      split
      · refine ⟨?_, reported_singleton (fun loss hloss => (Outcome.lost.inj hloss).symm),
          le_refl _⟩
        apply h.change _ hkeyed rfl h.resent h.plain h.queue
        rw [hids]
        exact Multiset.le_add_right _ _
      · exact hput _ (Option.isSome_iff_exists.mpr ⟨packetId, hpid⟩)
          (congrArg Option.toList hpid)

theorem Advances.andThen {drawn drawn' : Nat} {r r' : Outbound × Outcomes}
    (h : Advances s drawn r) (h' : Advances r.1 drawn' r') :
    Advances s (drawn + drawn') (r'.1, r.2 ++ r'.2) := by
  refine ⟨h'.orderly, h.reported.append h'.reported, ?_⟩
  have hfirst := h.next
  have hlater := h'.next
  show r'.1.outInflight.next ≤ _
  omega

theorem Orderly.retryFront (h : Orderly s) (now : Int) (expired : OutInflightMessage -> Bool)
    (rounds : Nat) : Advances s 0 (s.retryFront now expired rounds) := by
  induction rounds generalizing s with
  | zero => exact ⟨h, reported_nil, le_refl _⟩
  | succ rounds ih =>
      unfold Outbound.retryFront
      dsimp only
      rcases s.outInflight.popFrontTimeout_cases now with
        hkept | ⟨packetId, m, queues, hqueues, hpopped⟩
      · rw [hkept]
        exact ⟨h, reported_nil, le_refl _⟩
      · rw [hpopped]
        have hfirst := h.reforward hqueues expired
        exact hfirst.andThen (ih hfirst.orderly)

theorem Orderly.acknowledge (h : Orderly s) (packetId : Nat) :
    Advances s 0 (s.acknowledge packetId) := by
  unfold Outbound.acknowledge
  rw [if_pos h.online]
  refine ⟨?_, ?_, le_refl _⟩
  · apply h.change _ (h.keyed.without packetId) rfl h.resent h.plain h.queue
    exact add_le_add_right (OutInflight.keys_without_le _ packetId) _
  · intro x hx loss hloss
    rcases List.mem_map.mp hx with ⟨e, _he, rfl⟩
    cases hloss

theorem Orderly.publishReceived (h : Orderly s) (packetId : Nat) (now : Int) :
    Advances s 0 (s.publishReceived packetId now true, []) := by
  unfold Outbound.publishReceived
  rw [if_pos h.online]
  refine ⟨?_, reported_nil, le_refl _⟩
  have hchanged := h.change (w := s.outInflight.updateStatus packetId now MomentStatus.unComplete)
    (le_of_eq (congrArg _ (OutInflight.keys_updateStatus _ _ _ _)))
    (h.keyed.updateStatus packetId now MomentStatus.unComplete) rfl h.resent h.plain h.queue
  exact ⟨rfl, hchanged.keyed, hchanged.nodup, hchanged.below, hchanged.positive,
    hchanged.resent, hchanged.plain, hchanged.queue⟩

end Steps

/--
The session stays online and can write to its client, and nothing but new messages
comes in.
-/
def Quiet : Event -> Prop
  | Event.post m => m.Plain ∧ m.ids = []
  | Event.receive _ sinkOk => sinkOk = true
  | Event.deliver _ _ sinkOk => sinkOk = true
  | Event.publishReceived _ _ sinkOk => sinkOk = true
  | Event.disconnect => False
  | Event.clean => False
  | Event.handOver => False
  | _ => True

def draws : Event -> Nat
  | Event.deliver _ _ _ => 1
  | _ => 0

theorem Orderly.step {s : Outbound} (h : Orderly s) {e : Event} (hquiet : Quiet e)
    (hnext : s.outInflight.next + draws e ≤ 65535) : Advances s (draws e) (s.step e) := by
  cases e with
  | post m => exact ⟨h.put hquiet.left hquiet.right, reported_nil, le_refl _⟩
  | receive now sinkOk =>
      have hsink : sinkOk = true := hquiet
      rw [hsink]
      exact h.receive now
  | deliver now expired sinkOk =>
      have hsink : sinkOk = true := hquiet
      rw [hsink]
      exact h.deliver hnext now expired
  | retry now expired =>
      show Advances s 0 (s.retry now expired)
      unfold retry
      rw [if_pos h.online]
      exact h.retryFront now expired _
  | publishAck packetId => exact h.acknowledge packetId
  | publishReceived packetId now sinkOk =>
      have hsink : sinkOk = true := hquiet
      rw [hsink]
      exact h.publishReceived packetId now
  | publishComplete packetId => exact h.acknowledge packetId
  | disconnect => exact absurd hquiet id
  | clean => exact absurd hquiet id
  | handOver => exact absurd hquiet id

theorem Orderly.run {s : Outbound} (h : Orderly s) {es : List Event}
    (hquiet : forall e, e ∈ es -> Quiet e)
    (hnext : s.outInflight.next + (es.map draws).sum ≤ 65535) :
    Advances s (es.map draws).sum (s.run es) := by
  induction es generalizing s with
  | nil => exact ⟨h, reported_nil, le_refl _⟩
  | cons e es ih =>
      rw [List.map_cons, List.sum_cons] at hnext ⊢
      have hfirst := h.step (hquiet e List.mem_cons_self) (by omega)
      have hlater := ih hfirst.orderly (fun e' he' => hquiet e' (List.mem_cons_of_mem e he'))
        (by have hbound := hfirst.next; omega)
      exact hfirst.andThen hlater

theorem Orderly.new (queueCap cap : Nat) (retryInterval expiryInterval : Int) :
    Orderly (Outbound.new queueCap cap retryInterval expiryInterval) := by
  constructor
  case online => rfl
  case keyed => exact fun e he => absurd he List.not_mem_nil
  case nodup => exact Multiset.nodup_zero
  case below => exact fun id hid => absurd hid (Multiset.notMem_zero id)
  case positive => exact Nat.one_pos
  case resent => exact fun m hm => absurd hm List.not_mem_nil
  case plain => exact fun m hm => absurd hm List.not_mem_nil
  case queue => exact Nat.zero_le _

end Outbound

end Session
end Ciqada
