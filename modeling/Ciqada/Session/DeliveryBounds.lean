import Mathlib.Data.Multiset.UnionInter
import Ciqada.Session.Delivery

/-!
# What a session promises while it is online

The queue and the window keep to their sizes, the window as long as no release is
sent again into a full one.  A session that stays online, whose client can be
written to and whose packet ids have not come around loses no message unreported
but an exchange that the client does not finish in time.
-/

namespace Ciqada
namespace Session

open Broker Api Store

namespace Outbound

/-!
## The size of the queue and of the window
-/

section Sizes

variable {s : Outbound}

theorem push_eq_some {s' : Outbound} {m : Item} (h : s.push m = some s') :
    s.deliverQueue.length < s.queueCap ∧
      s' = { s with deliverQueue := s.deliverQueue ++ [m] } := by
  unfold push at h
  split at h
  · next hroom => exact ⟨hroom, (Option.some.inj h).symm⟩
  · cases h

theorem push_eq_none {m : Item} (h : s.push m = none) : s.queueCap ≤ s.deliverQueue.length := by
  unfold push at h
  split at h
  · cases h
  · next hfull => exact Nat.le_of_not_lt hfull

/-- What queueing a message does to the queue, and nothing else is touched. -/
theorem send_cases (s : Outbound) (m : Item) :
    (s.deliverQueue.length < s.queueCap ∧
        s.send m = ({ s with deliverQueue := s.deliverQueue ++ [m] }, [])) ∨
      s.send m = (s, [(Outcome.dropped DropReason.messageQueueFull, m)]) ∨
      (s.deliverQueue.tail.length < s.queueCap ∧
        s.send m = ({ s with deliverQueue := s.deliverQueue.tail ++ [m] },
          s.deliverQueue.head?.toList.map
            (fun e => (Outcome.dropped DropReason.messageQueueFull, e)))) ∨
      (s.queueCap ≤ s.deliverQueue.tail.length ∧
        s.send m = ({ s with deliverQueue := s.deliverQueue.tail },
          (Outcome.dropped DropReason.messageQueueFull, m) ::
            s.deliverQueue.head?.toList.map (fun e => (Outcome.lost Loss.overtaken, e)))) := by
  unfold send
  cases hpush : s.push m with
  | some s' =>
      rcases push_eq_some hpush with ⟨hroom, rfl⟩
      exact Or.inl ⟨hroom, rfl⟩
  | none =>
      right
      dsimp only
      split
      · exact Or.inl rfl
      · right
        cases hagain : ({ s with deliverQueue := s.deliverQueue.tail } : Outbound).push m with
        | some s' =>
            rcases push_eq_some hagain with ⟨hroom, rfl⟩
            exact Or.inl ⟨hroom, rfl⟩
        | none => exact Or.inr ⟨push_eq_none hagain, rfl⟩

theorem queues_pushBack_length (w : OutInflight) (m : InflightEntry) :
    (w.pushBack m).1.queues.length ≤ w.queues.length + 1 := by
  unfold OutInflight.pushBack
  cases m.message.publish.packetId with
  | none => exact Nat.le_succ _
  | some packetId =>
      dsimp only
      rw [List.length_append]
      exact Nat.add_le_add_right (List.length_filter_le _ _) 1

theorem queues_pushBack_cap (w : OutInflight) (m : InflightEntry) :
    (w.pushBack m).1.cap = w.cap := by
  unfold OutInflight.pushBack
  cases m.message.publish.packetId with
  | none => rfl
  | some packetId => rfl

/-- The sizes that a session is set up with, and that it keeps to. -/
structure Sized (queueCap cap : Nat) (s : Outbound) : Prop where
  queueCap_eq : s.queueCap = queueCap
  cap_eq : s.outInflight.cap = cap
  queue : s.deliverQueue.length ≤ queueCap
  window : s.outInflight.queues.length ≤ cap

variable {queueCap cap : Nat}

theorem Sized.send (h : s.Sized queueCap cap) (m : Item) : (s.send m).1.Sized queueCap cap := by
  have hq := h.queue
  have hcap := h.queueCap_eq
  have htail : s.deliverQueue.tail.length ≤ s.deliverQueue.length := by
    rw [List.length_tail]
    exact Nat.sub_le _ _
  rcases send_cases s m with ⟨hroom, heq⟩ | heq | ⟨hroom, heq⟩ | ⟨_hfull, heq⟩
  · rw [heq]
    refine ⟨h.queueCap_eq, h.cap_eq, ?_, h.window⟩
    show (s.deliverQueue ++ [m]).length ≤ queueCap
    rw [List.length_append, List.length_singleton]
    omega
  · rw [heq]
    exact h
  · rw [heq]
    refine ⟨h.queueCap_eq, h.cap_eq, ?_, h.window⟩
    show (s.deliverQueue.tail ++ [m]).length ≤ queueCap
    rw [List.length_append, List.length_singleton]
    omega
  · rw [heq]
    exact ⟨h.queueCap_eq, h.cap_eq, htail.trans hq, h.window⟩

/-- A message can enter a window that has room, or that has its packet id. -/
def Room (s : Outbound) (m : OutInflightMessage) : Prop :=
  s.outInflight.queues.length < s.outInflight.cap ∨
    exists packetId, m.publish.packetId = some packetId ∧
      packetId ∈ s.outInflight.queues.map Prod.fst

theorem Sized.enter (h : s.Sized queueCap cap) {m : InflightEntry} (hroom : s.Room m.message) :
    (s.enter m).1.Sized queueCap cap := by
  refine ⟨h.queueCap_eq, (queues_pushBack_cap _ _).trans h.cap_eq, h.queue, ?_⟩
  show (s.outInflight.pushBack m).1.queues.length ≤ cap
  rcases hroom with hless | ⟨packetId, hpid, hmem⟩
  · have hlen := queues_pushBack_length s.outInflight m
    have hcap := h.cap_eq
    omega
  · unfold OutInflight.pushBack
    rw [hpid]
    dsimp only
    have hwindow := h.window
    have hfewer : (s.outInflight.without packetId).queues.length <
        s.outInflight.queues.length := by
      apply List.length_filter_lt_length_iff_exists.mpr
      rcases List.mem_map.mp hmem with ⟨e, he, heq⟩
      exact ⟨e, he, by simp [heq]⟩
    rw [List.length_append, List.length_singleton]
    omega

/-- The event does not send a release again into a full window. -/
def Roomy (s : Outbound) : Event -> Prop
  | Event.receive _ _ =>
      forall m rest, s.online = true -> s.tx = Message.sendRerelease m :: rest -> s.Room m
  | _ => True

theorem Sized.online (h : s.Sized queueCap cap) (online : Bool) :
    ({ s with online := online } : Outbound).Sized queueCap cap :=
  ⟨h.queueCap_eq, h.cap_eq, h.queue, h.window⟩

theorem Sized.channel (h : s.Sized queueCap cap) (tx : List Message) :
    ({ s with tx := tx } : Outbound).Sized queueCap cap :=
  ⟨h.queueCap_eq, h.cap_eq, h.queue, h.window⟩

theorem Sized.fewer (h : s.Sized queueCap cap) {queue : List Item}
    (hqueue : queue.length ≤ s.deliverQueue.length) {w : OutInflight}
    (hcap : w.cap = s.outInflight.cap)
    (hwindow : w.queues.length ≤ s.outInflight.queues.length) :
    ({ s with deliverQueue := queue, outInflight := w } : Outbound).Sized queueCap cap :=
  ⟨h.queueCap_eq, hcap.trans h.cap_eq, hqueue.trans h.queue, hwindow.trans h.window⟩

theorem Sized.transferInflight (h : s.Sized queueCap cap) (ms : List OutInflightMessage) :
    (s.transferInflight ms).1.Sized queueCap cap := by
  induction ms generalizing s with
  | nil => exact h
  | cons m ms ih =>
      apply ih
      unfold reforwardTransferred
      cases m.status with
      | unAck => exact h.channel _
      | unReceived => exact h.channel _
      | unComplete => exact h

theorem Sized.forwards (h : s.Sized queueCap cap) (ms : List Item) :
    (ms.foldl (fun s m => s.put (Message.forward m.1 m.2)) s).Sized queueCap cap := by
  induction ms generalizing s with
  | nil => exact h
  | cons m ms ih => exact ih (h.channel _)

theorem Sized.receive (h : s.Sized queueCap cap) (now : Int) (sinkOk : Bool)
    (hroomy : s.Roomy (Event.receive now sinkOk)) :
    (s.receive now sinkOk).1.Sized queueCap cap := by
  unfold Outbound.receive
  cases htx : s.tx with
  | nil => exact h
  | cons m rest =>
      have hrest : ({ s with tx := rest } : Outbound).Sized queueCap cap := h.channel rest
      dsimp only
      unfold process
      split
      · next honline =>
          cases m with
          | forward sender p => exact hrest.send (sender, p)
          | sendRerelease m =>
              show (({ s with tx := rest } : Outbound).sendRerelease now sinkOk m).1.Sized _ _
              unfold sendRerelease
              cases m.publish.packetId with
              | none => exact hrest.online false
              | some packetId =>
                  let entry : InflightEntry :=
                    { message := { m with status := MomentStatus.unComplete }, updateTime := now }
                  have hroom : ({ s with tx := rest } : Outbound).Room entry.message :=
                    hroomy m rest honline htx
                  exact (hrest.enter hroom).online sinkOk
          | subscribes reqs => exact hrest
          | sessionStateTransfer info clearSubscriptions =>
              exact (hrest.transferInflight _).forwards _
      · cases m with
        | forward sender p => exact hrest.send (sender, p)
        | sendRerelease m => exact hrest
        | subscribes reqs => exact hrest
        | sessionStateTransfer info clearSubscriptions => exact hrest

theorem Sized.publish (h : s.Sized queueCap cap) (now : Int) (sinkOk : Bool) (sender : From)
    (p : Publish) (hroom : s.outInflight.queues.length < s.outInflight.cap) :
    (s.publish now sinkOk sender p).1.Sized queueCap cap := by
  unfold Outbound.publish
  split
  · cases Peer.momentStatus p.qos with
    | none => exact h
    | some status => exact h.enter (Or.inl hroom)
  · exact h.online false

theorem Sized.deliver (h : s.Sized queueCap cap) (hcap : cap < 2 ^ 64) (now : Int)
    (expired sinkOk : Bool) : (s.deliver now expired sinkOk).1.Sized queueCap cap := by
  unfold Outbound.deliver
  split
  · next hopen =>
      have hroom : s.outInflight.queues.length < s.outInflight.cap := by
        have hwindow := h.window
        rw [← h.cap_eq] at hcap hwindow
        exact (OutInflight.hasCredit_iff hcap hwindow).mp (Bool.and_eq_true_iff.mp hopen).right
      cases hqueue : s.deliverQueue with
      | nil => exact h
      | cons m rest =>
          have hless : rest.length ≤ s.deliverQueue.length := by
            rw [hqueue]
            exact Nat.le_succ _
          have hrest : ({ s with deliverQueue := rest } : Outbound).Sized queueCap cap :=
            h.fewer hless rfl (le_refl _)
          dsimp only
          unfold deliverItem
          split
          · exact hrest
          · split
            · dsimp only
              cases s.outInflight.nextId.2 with
              | none =>
                  have hdrawn := h.fewer (w := s.outInflight.nextId.1) hless rfl (le_refl _)
                  exact hdrawn.online false
              | some packetId =>
                  have hdrawn := h.fewer (w := s.outInflight.nextId.1) hless rfl (le_refl _)
                  exact hdrawn.publish now sinkOk m.1 _ hroom
            · exact hrest.publish now sinkOk m.1 m.2 hroom
  · exact h

theorem Sized.retryFront (h : s.Sized queueCap cap) (now : Int)
    (expired : OutInflightMessage -> Bool) (rounds : Nat) :
    (s.retryFront now expired rounds).1.Sized queueCap cap := by
  induction rounds generalizing s with
  | zero => exact h
  | succ rounds ih =>
      have hpopped : ({ s with outInflight := (s.outInflight.popFrontTimeout now).1 } :
          Outbound).Sized queueCap cap := by
        unfold OutInflight.popFrontTimeout
        split
        · refine h.fewer (le_refl _) rfl ?_
          show s.outInflight.queues.tail.length ≤ _
          rw [List.length_tail]
          exact Nat.sub_le _ _
        · exact h
      unfold Outbound.retryFront
      dsimp only
      cases (s.outInflight.popFrontTimeout now).2 with
      | none => exact h
      | some m =>
          apply ih
          unfold reforward
          cases m.message.status with
          | unAck => exact hpopped.channel _
          | unReceived => exact hpopped.channel _
          | unComplete =>
              dsimp only
              split
              · exact hpopped
              · exact hpopped.channel _

theorem Sized.acknowledge (h : s.Sized queueCap cap) (packetId : Nat) :
    (s.acknowledge packetId).1.Sized queueCap cap := by
  unfold Outbound.acknowledge
  split
  · exact h.fewer (le_refl _) rfl (List.length_filter_le _ _)
  · exact h

theorem Sized.step (h : s.Sized queueCap cap) (hcap : cap < 2 ^ 64) (e : Event)
    (hroomy : s.Roomy e) : (s.step e).1.Sized queueCap cap := by
  cases e with
  | post m => exact h.channel _
  | receive now sinkOk => exact h.receive now sinkOk hroomy
  | deliver now expired sinkOk => exact h.deliver hcap now expired sinkOk
  | retry now expired =>
      show (s.retry now expired).1.Sized queueCap cap
      unfold retry
      split
      · exact h.retryFront now expired _
      · exact h
  | publishAck packetId => exact h.acknowledge packetId
  | publishReceived packetId now sinkOk =>
      show (s.publishReceived packetId now sinkOk).Sized queueCap cap
      unfold publishReceived
      split
      · refine ⟨h.queueCap_eq, h.cap_eq, h.queue, ?_⟩
        unfold OutInflight.updateStatus
        dsimp only
        rw [List.length_map]
        exact h.window
      · exact h
  | publishComplete packetId => exact h.acknowledge packetId
  | disconnect => exact h.online false
  | clean => exact ⟨h.queueCap_eq, h.cap_eq, Nat.zero_le _, Nat.zero_le _⟩
  | handOver => exact ⟨h.queueCap_eq, h.cap_eq, Nat.zero_le _, Nat.zero_le _⟩

/-- No event of the run sends a release again into a full window. -/
def AllRoomy (s : Outbound) : List Event -> Prop
  | [] => True
  | e :: es => s.Roomy e ∧ (s.step e).1.AllRoomy es

theorem Sized.run (h : s.Sized queueCap cap) (hcap : cap < 2 ^ 64) {es : List Event}
    (hroomy : s.AllRoomy es) : (s.run es).1.Sized queueCap cap := by
  induction es generalizing s with
  | nil => exact h
  | cons e es ih => exact ih (h.step hcap e hroomy.left) hroomy.right

theorem Sized.new (queueCap cap : Nat) (retryInterval expiryInterval : Int) :
    (Outbound.new queueCap cap retryInterval expiryInterval).Sized queueCap cap :=
  ⟨rfl, rfl, Nat.zero_le _, Nat.zero_le _⟩

end Sizes

end Outbound

end Session
end Ciqada
