import Ciqada.Store.OverlappingFlush
import Ciqada.Store.Replay

/-!
# When an accepted message is visible

`store` puts a message on a channel and returns; the worker takes it off later.
Memory is a queue from which eviction takes only the front, so a message that
the worker has taken is visible to replay and to a flush as long as it has not
expired and fits the caps together with the messages taken after it.
-/

namespace Ciqada
namespace Store

open Foundation Broker

/-- The messages fit the caps together. -/
def FitsCaps (cfg : Config) (entries : List (MsgId × StoredMsg)) : Prop :=
  (cfg.maxMsgs = 0 ∨ entries.length ≤ cfg.maxMsgs) ∧
    (cfg.maxBytes = 0 ∨ (entries.map (fun entry => entry.2.approxSize)).sum ≤ cfg.maxBytes)

instance (cfg : Config) (entries : List (MsgId × StoredMsg)) : Decidable (FitsCaps cfg entries) :=
  inferInstanceAs (Decidable ((_ ∨ _) ∧ (_ ∨ _)))

theorem FitsCaps.of_append {cfg : Config} {entries rest : List (MsgId × StoredMsg)}
    (h : FitsCaps cfg (entries ++ rest)) : FitsCaps cfg entries := by
  unfold FitsCaps at h
  rw [List.length_append, List.map_append, List.sum_append] at h
  constructor
  · rcases h.left with hnone | hcount
    · exact Or.inl hnone
    · exact Or.inr (by omega)
  · rcases h.right with hnone | hsize
    · exact Or.inl hnone
    · exact Or.inr (by omega)

theorem StoredMsg.Grown.approxSize {msg msg' : StoredMsg} (h : StoredMsg.Grown msg msg') :
    msg'.approxSize = msg.approxSize := by
  unfold StoredMsg.approxSize
  rw [h.publish]

theorem StoredMsg.Grown.trans {msg msg' msg'' : StoredMsg} (h : StoredMsg.Grown msg msg')
    (h' : StoredMsg.Grown msg' msg'') : StoredMsg.Grown msg msg'' :=
  ⟨h'.sender.trans h.sender, h'.publish.trans h.publish, h'.expiryAt.trans h.expiryAt,
    h.deliveredTo.trans h'.deliveredTo⟩

namespace MemState

variable {m : MemState} {cfg : Config} {entries : List (MsgId × StoredMsg)}

/-- The messages are in memory, and the order of arrival ends with them. -/
structure Queued (m : MemState) (entries : List (MsgId × StoredMsg)) : Prop where
  order : exists front, m.order = front ++ entries.map Prod.fst
  held : forall entry, entry ∈ entries ->
    exists msg, m.msgs.lookup entry.1 = some msg ∧ StoredMsg.Grown entry.2 msg

/-!
## Eviction takes the front
-/

/-- A memory that holds nothing but messages that fit is not over the caps. -/
theorem not_overCap_of_fits (h : Coherent { m with order := entries.map Prod.fst })
    (hheld : forall entry, entry ∈ entries ->
      exists msg, m.msgs.lookup entry.1 = some msg ∧ StoredMsg.Grown entry.2 msg)
    (hfits : FitsCaps cfg entries) : m.overCap cfg = false := by
  have htotal := @Table.total_of_list _ _ _ StoredMsg.approxSize m.msgs _ h.orderNodup h.orderExact
  have hbytes : m.bytes = Table.total StoredMsg.approxSize m.msgs := h.counts.counted
  have hsizes : ((entries.map Prod.fst).map (Table.weight StoredMsg.approxSize m.msgs)) =
      entries.map (fun entry => entry.2.approxSize) := by
    rw [List.map_map]
    apply List.map_congr_left
    intro entry hentry
    rcases hheld entry hentry with ⟨msg, hlookup, hgrown⟩
    exact (Table.weight_of_lookup hlookup).trans hgrown.approxSize
  rw [List.length_map, hsizes, ← hbytes] at htotal
  unfold overCap
  rw [htotal.left, htotal.right]
  rcases hfits with ⟨hcount, hsize⟩
  rw [Bool.or_eq_false_iff, Bool.and_eq_false_iff, Bool.and_eq_false_iff]
  simp only [decide_eq_false_iff_not]
  omega

theorem queued_evictFrom {now : Int} {id : MsgId} {msg : StoredMsg}
    {rest : List (MsgId × StoredMsg)} {front : List MsgId}
    (h : Coherent { m with order := front ++ ((id, msg) :: rest).map Prod.fst })
    (hheld : forall entry, entry ∈ (id, msg) :: rest ->
      exists msg, m.msgs.lookup entry.1 = some msg ∧ StoredMsg.Grown entry.2 msg)
    (hfits : FitsCaps cfg ((id, msg) :: rest)) (hlive : now < msg.expiryAt) :
    Queued (evictFrom cfg now (front ++ ((id, msg) :: rest).map Prod.fst) m)
      ((id, msg) :: rest) := by
  induction front generalizing m with
  | nil =>
      rcases hheld (id, msg) List.mem_cons_self with ⟨msg', hlookup, hgrown⟩
      have hstops : (!m.overCap cfg && !m.expired now id) = true := by
        have hexpired : m.expired now id = false := by
          unfold expired
          rw [hlookup]
          exact decide_eq_false (not_le.mpr (hgrown.expiryAt.symm ▸ hlive))
        rw [not_overCap_of_fits h hheld hfits, hexpired]
        rfl
      rw [List.nil_append, List.map_cons]
      unfold evictFrom
      rw [if_pos hstops]
      exact ⟨⟨[], rfl⟩, hheld⟩
  | cons first front ih =>
      rw [List.cons_append] at h ⊢
      unfold evictFrom
      split
      · exact ⟨⟨first :: front, rfl⟩, hheld⟩
      · apply ih h.evictOne
        intro entry hentry
        have hne : entry.1 ≠ first := by
          intro heq
          apply (List.nodup_cons.mp h.orderNodup).left
          rw [← heq]
          exact List.mem_append_right front (List.mem_map.mpr ⟨entry, hentry, rfl⟩)
        rcases hheld entry hentry with ⟨msg', hlookup, hgrown⟩
        refine ⟨msg', ?_, hgrown⟩
        rw [lookup_evictOne_of_ne hne]
        exact hlookup

theorem Queued.evict {now : Int} {id : MsgId} {msg : StoredMsg}
    {rest : List (MsgId × StoredMsg)} (h : Queued m ((id, msg) :: rest)) (hcoherent : Coherent m)
    (hfits : FitsCaps cfg ((id, msg) :: rest)) (hlive : now < msg.expiryAt) :
    Queued (m.evict cfg now) ((id, msg) :: rest) := by
  rcases h.order with ⟨front, horder⟩
  unfold MemState.evict
  rw [horder]
  apply queued_evictFrom ?_ h.held hfits hlive
  rw [← horder]
  exact hcoherent

/-!
## The worker and replay
-/

theorem Queued.put {key : MsgId} {msg : StoredMsg} (h : Queued m entries) (hnew : key ∉ m.msgs) :
    Queued (m.put key msg) (entries ++ [(key, msg)]) := by
  constructor
  · rcases h.order with ⟨front, horder⟩
    refine ⟨front, ?_⟩
    rw [Coherent.put_order, if_neg hnew, horder, List.map_append, List.append_assoc]
    rfl
  · intro entry hentry
    rw [put_msgs, Table.lookup_insert_if]
    rcases List.mem_append.mp hentry with hold | hlast
    · rcases h.held entry hold with ⟨msg', hlookup, hgrown⟩
      have hne : entry.1 ≠ key := by
        intro heq
        rw [heq] at hlookup
        exact hnew (Finmap.mem_of_lookup_eq_some hlookup)
      rw [if_neg hne]
      exact ⟨msg', hlookup, hgrown⟩
    · rw [List.mem_singleton.mp hlast, if_pos rfl]
      exact ⟨msg, rfl, StoredMsg.grown_refl msg⟩

theorem queued_nil (m : MemState) : Queued m [] :=
  ⟨⟨m.order, (List.append_nil _).symm⟩, fun _ h => absurd h List.not_mem_nil⟩

theorem Queued.deliver (h : Queued m entries) (now : Int) (clientId : String)
    (iter : List MsgId) : Queued (m.deliver now clientId iter).1 entries := by
  constructor
  · show exists front, (((m.deliver now clientId iter).2.map Prod.fst).foldl (mark clientId)
      m).order = front ++ _
    rw [(marks_frame clientId _ m).left]
    exact h.order
  · intro entry hentry
    rcases h.held entry hentry with ⟨msg, hlookup, hgrown⟩
    show exists msg', (((m.deliver now clientId iter).2.map Prod.fst).foldl (mark clientId)
      m).msgs.lookup entry.1 = some msg' ∧ _
    rw [lookup_marks, hlookup]
    split
    · exact ⟨_, rfl, hgrown.trans (StoredMsg.grown_givenTo clientId msg)⟩
    · exact ⟨msg, rfl, hgrown⟩

end MemState

/-- The time at which an event looks at the clock. -/
def Event.time? : Event -> Option Int
  | Event.store now _ _ _ _ => some now
  | Event.work now => some now
  | Event.get now _ _ _ => some now
  | Event.flush now _ => some now
  | Event.nextMsgId => none
  | Event.settle _ => none

namespace System

variable {Row : Type} {cfg : Config} {codec : Codec Row} {s s' : System Row}

/-- What the worker takes off the channel. -/
def takenBy (s : System Row) : Event -> List (MsgId × StoredMsg)
  | Event.work _ => s.channel.head?.toList
  | _ => []

/-!
## A message after the worker has taken it
-/

/--
The message heads the end of the queue that has been taken since, and every
client it was given to is among those that replay gave it to.
-/
structure Tracked (s : System Row) (id : MsgId) (msg : StoredMsg)
    (rest : List (MsgId × StoredMsg)) (given : List (String × MsgId)) : Prop where
  coherent : s.mem.Coherent
  queued : s.mem.Queued ((id, msg) :: rest)
  served : forall clientId msg', s.mem.msgs.lookup id = some msg' ->
    clientId ∈ msg'.deliveredTo -> (clientId, id) ∈ given

section Track

variable {id : MsgId} {msg : StoredMsg} {rest : List (MsgId × StoredMsg)}
variable {given : List (String × MsgId)}

theorem Tracked.mono {given' : List (String × MsgId)} (h : Tracked s id msg rest given)
    (hsub : forall x, x ∈ given -> x ∈ given') : Tracked s id msg rest given' :=
  ⟨h.coherent, h.queued, fun clientId msg' hlookup hin =>
    hsub _ (h.served clientId msg' hlookup hin)⟩

theorem Tracked.mem (h : Tracked s id msg rest given) : id ∈ s.mem.msgs := by
  rcases h.queued.held (id, msg) List.mem_cons_self with ⟨msg', hlookup, _⟩
  exact Finmap.mem_of_lookup_eq_some hlookup

theorem takenBy_work {entry : MsgId × StoredMsg} {behind : List (MsgId × StoredMsg)} (now : Int)
    (hchannel : s.channel = entry :: behind) : s.takenBy (Event.work now) = [entry] := by
  unfold takenBy
  rw [hchannel]
  rfl

theorem of_takenBy {e : Event} {entry : MsgId × StoredMsg} {more : List (MsgId × StoredMsg)}
    (h : s.takenBy e = entry :: more) : exists now, e = Event.work now := by
  cases e with
  | work now => exact ⟨now, rfl⟩
  | nextMsgId => cases h
  | store now msgId sender p expiryInterval => cases h
  | get now clientId topicFilter iter => cases h
  | flush now commits => cases h
  | settle i => cases h

/-- Steps other than those of the worker add nothing to the queue. -/
theorem queued_still {e : Event} (hcoherent : s.mem.Coherent)
    (hqueued : s.mem.Queued ((id, msg) :: rest)) (hfits : FitsCaps cfg ((id, msg) :: rest))
    (hlive : forall t, t ∈ e.time? -> t < msg.expiryAt) (htake : s.takenBy e = [])
    (hstep : step cfg codec s e = some s') : s'.mem.Queued ((id, msg) :: rest) := by
  cases e with
  | work now =>
      rcases of_step_work hstep with ⟨key, msg', behind, hchannel, _, _⟩
      rw [takenBy_work now hchannel] at htake
      cases htake
  | get now clientId topicFilter iter =>
      rw [of_step_get hstep]
      exact (hqueued.evict hcoherent hfits (hlive now rfl)).deliver now clientId iter
  | flush now commits =>
      rw [← Option.some.inj hstep, snapshot_mem]
      have hevict := hqueued.evict hcoherent hfits (hlive now rfl)
      exact ⟨hevict.order, hevict.held⟩
  | nextMsgId =>
      rw [← Option.some.inj hstep]
      exact hqueued
  | store now msgId sender p expiryInterval =>
      rw [← Option.some.inj hstep]
      exact hqueued
  | settle i =>
      rcases of_step_settle hstep with ⟨f, _, rfl⟩
      exact hqueued

theorem queued_step {e : Event} (hcoherent : s.mem.Coherent)
    (hqueued : s.mem.Queued ((id, msg) :: rest)) (hfresh : FreshIds s e)
    (hfits : FitsCaps cfg ((id, msg) :: (rest ++ s.takenBy e)))
    (hlive : forall t, t ∈ e.time? -> t < msg.expiryAt)
    (hstep : step cfg codec s e = some s') :
    s'.mem.Queued ((id, msg) :: (rest ++ s.takenBy e)) := by
  cases htake : s.takenBy e with
  | nil =>
      rw [htake, List.append_nil] at hfits
      rw [List.append_nil]
      exact queued_still hcoherent hqueued hfits hlive htake hstep
  | cons entry more =>
      rcases of_takenBy htake with ⟨now, rfl⟩
      rcases of_step_work hstep with ⟨key, msg', behind, hchannel, hsize, rfl⟩
      rw [takenBy_work now hchannel] at hfits
      rw [← htake, takenBy_work now hchannel]
      have hnew : key ∉ s.mem.msgs := by
        apply hfresh (key, msg')
        rw [hchannel]
        rfl
      exact (hqueued.put hnew).evict (hcoherent.put hsize) hfits (hlive now rfl)

theorem Tracked.step {e : Event} (h : Tracked s id msg rest given) (hfresh : FreshIds s e)
    (hfits : FitsCaps cfg ((id, msg) :: (rest ++ s.takenBy e)))
    (hlive : forall t, t ∈ e.time? -> t < msg.expiryAt)
    (hstep : step cfg codec s e = some s') :
    Tracked s' id msg (rest ++ s.takenBy e) (given ++ s.givenBy cfg e) where
  coherent := coherent_step h.coherent hstep
  queued := queued_step h.coherent h.queued hfresh hfits hlive hstep
  served := by
    intro clientId msg' hlookup hin
    rcases of_lookup_step hstep (not_stored_of_fresh hfresh h.mem) hlookup with
      hsame | ⟨clientId', old, hgiven, hold, rfl⟩
    · exact List.mem_append_left _ (h.served clientId msg' hsame hin)
    · rcases Finset.mem_insert.mp hin with rfl | hbefore
      · exact List.mem_append_right _ hgiven
      · exact List.mem_append_left _ (h.served clientId old hold hbefore)

theorem Tracked.run {es : List Event} (h : Tracked s id msg rest given)
    (hrun : Run (System.step cfg codec) FreshIds s es s')
    (hfits : FitsCaps cfg ((id, msg) :: (rest ++ collect (System.step cfg codec) takenBy s es)))
    (hlive : forall e, e ∈ es -> forall t, t ∈ e.time? -> t < msg.expiryAt) :
    Tracked s' id msg (rest ++ collect (System.step cfg codec) takenBy s es)
      (given ++ collect (System.step cfg codec) (givenBy cfg) s es) := by
  induction hrun generalizing rest given with
  | nil s =>
      show Tracked s id msg (rest ++ []) (given ++ [])
      rw [List.append_nil, List.append_nil]
      exact h
  | @cons s r t e es hfresh hstep _ ih =>
      rw [collect_cons es hstep, ← List.append_assoc] at hfits ⊢
      rw [collect_cons es hstep, ← List.append_assoc]
      have hnow : FitsCaps cfg ((id, msg) :: (rest ++ s.takenBy e)) := hfits.of_append
      have hnext := h.step hfresh hnow (hlive e List.mem_cons_self) hstep
      exact ih hnext hfits (fun e' he' => hlive e' (List.mem_cons_of_mem e he'))

/-!
## The channel
-/

/-- What a call of `store` puts on the channel. -/
def sentBy : Event -> List (MsgId × StoredMsg)
  | Event.store now msgId sender p expiryInterval =>
      [(msgId, StoredMsg.new now sender p expiryInterval)]
  | _ => []

theorem snapshot_channel (now : Int) (commits : Bool) (s : System Row) :
    (s.snapshot cfg codec now commits).channel = s.channel := by
  unfold snapshot
  dsimp only
  split <;> rfl

/-- The channel hands over what was sent, in the same order. -/
theorem channel_step {e : Event} (hstep : step cfg codec s e = some s') :
    s.takenBy e ++ s'.channel = s.channel ++ sentBy e := by
  cases e with
  | work now =>
      rcases of_step_work hstep with ⟨key, msg, rest, hchannel, _, rfl⟩
      rw [takenBy_work now hchannel, hchannel]
      exact (List.append_nil _).symm
  | store now msgId sender p expiryInterval =>
      rw [← Option.some.inj hstep]
      rfl
  | nextMsgId =>
      rw [← Option.some.inj hstep]
      exact (List.append_nil _).symm
  | get now clientId topicFilter iter =>
      rw [of_step_get hstep]
      exact (List.append_nil _).symm
  | flush now commits =>
      rw [← Option.some.inj hstep, snapshot_channel]
      exact (List.append_nil _).symm
  | settle i =>
      rcases of_step_settle hstep with ⟨f, _, rfl⟩
      exact (List.append_nil _).symm

/-- The step in which the worker takes the message. -/
theorem tracked_work {now : Int} {behind : List (MsgId × StoredMsg)}
    (hcoherent : s.mem.Coherent) (hchannel : s.channel = (id, msg) :: behind)
    (hnew : msg.deliveredTo = ∅) (hfresh : FreshIds s (Event.work now))
    (hfits : FitsCaps cfg [(id, msg)]) (hlive : now < msg.expiryAt)
    (hstep : step cfg codec s (Event.work now) = some s') : Tracked s' id msg [] [] := by
  have hcoherent' := coherent_step hcoherent hstep
  rcases of_step_work hstep with ⟨key, msg', rest', hchannel', hsize, rfl⟩
  rw [hchannel] at hchannel'
  rcases List.cons.inj hchannel' with ⟨heq, _⟩
  rcases Prod.mk.inj heq with ⟨rfl, rfl⟩
  have hout : id ∉ s.mem.msgs := by
    apply hfresh (id, msg)
    rw [hchannel]
    rfl
  have hput : (s.mem.put id msg).Queued [(id, msg)] := (MemState.queued_nil s.mem).put hout
  refine ⟨hcoherent', hput.evict (hcoherent.put hsize) hfits hlive, ?_⟩
  intro clientId msg' hlookup hin
  have hlookup' := MemState.lookup_of_evict hlookup
  rw [MemState.put_msgs, Finmap.lookup_insert] at hlookup'
  rw [← Option.some.inj hlookup', hnew] at hin
  exact absurd hin (Finset.notMem_empty clientId)

/-- A message on the channel is tracked once the worker has taken more than was ahead of it. -/
theorem tracked_of_taken {es : List Event} {ahead behind : List (MsgId × StoredMsg)}
    (hrun : Run (System.step cfg codec) FreshIds s es s') (hcoherent : s.mem.Coherent)
    (hchannel : s.channel = ahead ++ (id, msg) :: behind) (hnew : msg.deliveredTo = ∅)
    (htaken : ahead.length < (collect (System.step cfg codec) takenBy s es).length)
    (hfits : FitsCaps cfg ((collect (System.step cfg codec) takenBy s es).drop ahead.length))
    (hlive : forall e, e ∈ es -> forall t, t ∈ e.time? -> t < msg.expiryAt) :
    exists rest, (collect (System.step cfg codec) takenBy s es).drop ahead.length =
      (id, msg) :: rest ∧
      Tracked s' id msg rest (collect (System.step cfg codec) (givenBy cfg) s es) := by
  induction hrun generalizing ahead behind with
  | nil s => exact absurd htaken (Nat.not_lt_zero _)
  | @cons s r t e es hfresh hstep htail ih =>
      have hcoherent' := coherent_step hcoherent hstep
      have hlive' : forall e', e' ∈ es -> forall t, t ∈ e'.time? -> t < msg.expiryAt :=
        fun e' he' => hlive e' (List.mem_cons_of_mem e he')
      have hstill := channel_step hstep
      rw [collect_cons es hstep] at htaken hfits
      rw [collect_cons es hstep, collect_cons es hstep]
      cases htake : s.takenBy e with
      | nil =>
          rw [htake, hchannel] at hstill
          rw [htake] at htaken hfits
          have hchannel' : r.channel = ahead ++ (id, msg) :: (behind ++ sentBy e) := by
            rw [show r.channel = _ from hstill, List.append_assoc]
            rfl
          rcases ih hcoherent' hchannel' htaken hfits hlive' with ⟨rest, hdrop, htracked⟩
          exact ⟨rest, hdrop, htracked.mono (fun x hx => List.mem_append_right _ hx)⟩
      | cons entry more =>
          rcases of_takenBy htake with ⟨now, rfl⟩
          change s.channel.head?.toList = entry :: more at htake
          rw [hchannel] at htake hstill
          cases ahead with
          | nil =>
              rcases List.cons.inj htake with ⟨rfl, rfl⟩
              change FitsCaps cfg ((s.takenBy (Event.work now) ++ _)) at hfits
              rw [takenBy_work now hchannel] at hfits
              have htracked := tracked_work hcoherent hchannel hnew hfresh hfits.of_append
                (hlive (Event.work now) List.mem_cons_self now rfl) hstep
              have hrun' := htracked.run htail hfits hlive'
              exact ⟨_, rfl, hrun'.mono (fun x hx => List.mem_append_right _ hx)⟩
          | cons first ahead =>
              rcases List.cons.inj htake with ⟨rfl, rfl⟩
              rw [takenBy_work now hchannel] at hstill htaken hfits
              have hchannel' : r.channel = ahead ++ (id, msg) :: behind := by
                have hrest := (List.cons.inj hstill).right
                rw [← List.append_nil (ahead ++ (id, msg) :: behind)]
                exact hrest
              rcases ih hcoherent' hchannel' (Nat.lt_of_succ_lt_succ htaken) hfits hlive' with
                ⟨rest, hdrop, htracked⟩
              exact ⟨rest, hdrop, htracked.mono (fun x hx => List.mem_append_right _ hx)⟩

end Track

/-!
## Shutting down
-/

/--
The flush at shutdown.  No other flush is in progress; the worker and replay may
go on until its transaction has committed.
-/
def ShutdownFlush (cfg : Config) (codec : Codec Row) (s : System Row) (now : Int)
    (s' : System Row) : Prop :=
  s.flight = [] ∧ exists s1 es s2, step cfg codec s (Event.flush now true) = some s1 ∧
    Run (step cfg codec) MemoryOnly s1 es s2 ∧
    ((s1.flight = [] ∧ s' = s2) ∨ step cfg codec s2 (Event.settle 0) = some s')

/-- What the worker and replay do meanwhile makes no difference to the table. -/
theorem flushed_of_shutdown {now : Int} (h : ShutdownFlush cfg codec s now s') :
    exists q, Flushed cfg codec s q ∧ q.disk = s'.disk ∧
      q.mem.msgs = (s.mem.evict cfg now).msgs := by
  rcases h with ⟨hidle, s1, es, s2, hsnap, hrun, hends⟩
  rcases memoryOnly_run hrun with ⟨hdisk, hflight⟩
  have hmsgs : s1.mem.msgs = (s.mem.evict cfg now).msgs := by
    rw [← Option.some.inj hsnap, snapshot_mem]
  rcases hends with ⟨hnone, rfl⟩ | hsettle
  · exact ⟨s1, ⟨now, s1, hidle, hsnap, Or.inl ⟨hnone, rfl⟩⟩, hdisk.symm, hmsgs⟩
  · rcases of_step_settle hsettle with ⟨f, hf, rfl⟩
    rw [hflight] at hf
    have hdone : step cfg codec s1 (Event.settle 0) = some (s1.settle 0 f) := by
      simp only [step, hf]
    refine ⟨s1.settle 0 f,
      ⟨now, s1, hidle, hsnap, Or.inr ⟨[], s1, Run.nil s1, rfl, rfl, hdone⟩⟩, ?_, hmsgs⟩
    show f.apply s1.disk = f.apply s2.disk
    rw [hdisk]

/-!
## Visibility
-/

/--
A message that was accepted in the given state and that the worker has taken
since, with more than was ahead of it on the channel.  So far it has not
expired, and it fits the caps with what was taken after it.
-/
structure Applied (cfg : Config) (codec : Codec Row) (s : System Row) (accepted : Int)
    (id : MsgId) (sender : From) (p : Publish) (expiryInterval : Nat) (post : List Event) :
    Prop where
  taken : s.channel.length < (collect (step cfg codec) takenBy s
    (Event.store accepted id sender p expiryInterval :: post)).length
  fits : FitsCaps cfg ((collect (step cfg codec) takenBy s
    (Event.store accepted id sender p expiryInterval :: post)).drop s.channel.length)
  live : forall e, e ∈ post -> forall t, t ∈ e.time? ->
    t < (StoredMsg.new accepted sender p expiryInterval).expiryAt

section Visible

variable {disk : Table MsgId Row} {opened accepted : Int} {pre post : List Event}
variable {s0 s1 : System Row} {id : MsgId} {sender : From} {p : Publish} {expiryInterval : Nat}

theorem tracked_of_applied (hopen : openStore cfg codec disk opened = some s0)
    (hpre : Run (step cfg codec) FreshIds s0 pre s1)
    (hrun : Run (step cfg codec) FreshIds s1
      (Event.store accepted id sender p expiryInterval :: post) s)
    (h : Applied cfg codec s1 accepted id sender p expiryInterval post) :
    exists rest, FitsCaps cfg ((id, StoredMsg.new accepted sender p expiryInterval) :: rest) ∧
      Tracked s id (StoredMsg.new accepted sender p expiryInterval) rest
        (collect (step cfg codec) (givenBy cfg) s1
          (Event.store accepted id sender p expiryInterval :: post)) := by
  have hcoherent := coherent_run hopen (hpre.mono (fun _ _ _ => trivial))
  cases hrun with
  | @cons _ s2 _ _ _ _ hstep htail =>
      have hchannel : s2.channel =
          s1.channel ++ [(id, StoredMsg.new accepted sender p expiryInterval)] :=
        channel_step hstep
      have htaken := h.taken
      have hfits := h.fits
      rw [collect_cons post hstep] at htaken hfits
      rw [collect_cons post hstep]
      rcases tracked_of_taken htail (coherent_step hcoherent hstep) hchannel rfl htaken hfits
        h.live with ⟨rest, hdrop, htracked⟩
      change FitsCaps cfg ((collect (step cfg codec) takenBy s2 post).drop s1.channel.length)
        at hfits
      rw [hdrop] at hfits
      exact ⟨rest, hfits, htracked⟩

theorem mem_get_of_tracked {msg : StoredMsg} {rest : List (MsgId × StoredMsg)}
    {given : List (String × MsgId)} {now : Int} {clientId topicFilter : String}
    {iter : List MsgId} (hindexed : s.mem.Indexed) (htracked : Tracked s id msg rest given)
    (hfits : FitsCaps cfg ((id, msg) :: rest)) (hlive : now < msg.expiryAt)
    (hmatch : topicMatches msg.publish.topic topicFilter = true)
    (hunserved : (clientId, id) ∉ given)
    (hiter : (s.mem.evict cfg now).IterOrder topicFilter iter) :
    (id, msg.sender, msg.publish) ∈ (s.mem.get cfg now clientId iter).2 := by
  have hevict := htracked.queued.evict htracked.coherent hfits hlive
  rcases hevict.held _ List.mem_cons_self with ⟨msg', hlookup, hgrown⟩
  have hanswers := MemState.answers_deliver (hindexed.evict cfg now) hiter now clientId
  apply (hanswers.exact id msg.sender msg.publish).mpr
  refine ⟨msg', hlookup, ?_, ?_, ?_, hgrown.sender, hgrown.publish⟩
  · rw [hgrown.expiryAt]
    exact hlive
  · intro hgiven
    exact hunserved (htracked.served clientId msg' (MemState.lookup_of_evict hlookup) hgiven)
  · rw [hgrown.publish]
    exact hmatch

theorem reload_of_tracked {msg : StoredMsg} {rest : List (MsgId × StoredMsg)}
    {given : List (String × MsgId)} {now t : Int} (hlaw : codec.RoundTrips)
    (hindexed : s.mem.Indexed) (hfollows : Follows codec s) (hknown : Known codec opened s)
    (htracked : Tracked s id msg rest given) (hfits : FitsCaps cfg ((id, msg) :: rest))
    (hlive : now < msg.expiryAt) (hshutdown : ShutdownFlush cfg codec s now s')
    (ht : opened ≤ t) (hlive' : t < msg.expiryAt) :
    exists r msg', openStore cfg codec s'.disk t = some r ∧ r.mem.msgs.lookup id = some msg' ∧
      msg'.sender = msg.sender ∧ msg'.publish = msg.publish := by
  have hevict := htracked.queued.evict htracked.coherent hfits hlive
  rcases hevict.held _ List.mem_cons_self with ⟨msg', hlookup, hgrown⟩
  rcases flushed_of_shutdown hshutdown with ⟨q, hflush, hdisk, hmsgs⟩
  have hpersisted := (hfollows.flushed hlaw hflush).right
  have hknown' := known_flushed hlaw hfollows hknown hflush
  rcases @openStore_of_persisted _ cfg _ _ _ _ (indexed_flushed hindexed hflush) hpersisted
    hknown' ht with ⟨r, hr⟩
  rw [hdisk] at hr
  refine ⟨r, msg', hr, ?_, hgrown.sender, hgrown.publish⟩
  rw [(of_openStore hr).left, ← hdisk, load_of_persisted hpersisted hknown' ht id, hmsgs, hlookup]
  apply Option.filter_eq_some_iff.mpr
  refine ⟨rfl, decide_eq_true ?_⟩
  rw [hgrown.expiryAt]
  exact hlive'

/--
Once the worker has taken a message, replay returns it to a client it was not
given to, and after a flush at shutdown opening loads it.
-/
theorem applied_is_visible (hlaw : codec.RoundTrips)
    (hopen : openStore cfg codec disk opened = some s0)
    (hpre : Run (step cfg codec) FreshIds s0 pre s1)
    (hrun : Run (step cfg codec) FreshIds s1
      (Event.store accepted id sender p expiryInterval :: post) s)
    (happlied : Applied cfg codec s1 accepted id sender p expiryInterval post) :
    (forall now clientId topicFilter iter,
      now < (StoredMsg.new accepted sender p expiryInterval).expiryAt ->
      topicMatches p.topic topicFilter = true ->
      (clientId, id) ∉ collect (step cfg codec) (givenBy cfg) s1
        (Event.store accepted id sender p expiryInterval :: post) ->
      (s.mem.evict cfg now).IterOrder topicFilter iter ->
      (id, sender, p) ∈ (s.mem.get cfg now clientId iter).2) ∧
    (Run (step cfg codec) Orderly s0
        (pre ++ Event.store accepted id sender p expiryInterval :: post) s ->
      forall now s', now < (StoredMsg.new accepted sender p expiryInterval).expiryAt ->
        ShutdownFlush cfg codec s now s' ->
        forall t, opened ≤ t -> t < (StoredMsg.new accepted sender p expiryInterval).expiryAt ->
          exists r msg, openStore cfg codec s'.disk t = some r ∧
            r.mem.msgs.lookup id = some msg ∧ msg.sender = sender ∧ msg.publish = p) := by
  rcases tracked_of_applied hopen hpre hrun happlied with ⟨rest, hfits, htracked⟩
  have hindexed : s.mem.Indexed :=
    indexed_run hopen ((hpre.append hrun).mono (fun _ _ h => sameTopic_of_freshIds h))
  constructor
  · intro now clientId topicFilter iter hlive hmatch hunserved hiter
    exact mem_get_of_tracked hindexed htracked hfits hlive hmatch hunserved hiter
  · intro horderly now s' hlive hshutdown t ht hlive'
    rcases follows_known_run hlaw (horderly.mono (fun _ _ h => careful_of_orderly h))
      ⟨follows_openStore hopen, known_openStore hopen⟩ with ⟨hfollows, hknown⟩
    exact reload_of_tracked hlaw hindexed hfollows hknown htracked hfits hlive hshutdown ht hlive'

end Visible

end System

namespace Sample

/-- The worker takes an accepted message and a later one; another client replays the first. -/
def taken : List Event :=
  [Event.work 11, Event.store 12 8 sender (publish "a/c") 100, Event.work 13,
    Event.get 14 "other" "a/b" [7]]

def visible : System (Option StoredMsg) :=
  (exec? (System.step cfg codec) System.Orderly blank
    (Event.store 10 7 sender (publish "a/b") 100 :: taken)).get (by decide +kernel)

def shutDown : System (Option StoredMsg) :=
  (exec? (System.step cfg codec) System.Orderly visible
    [Event.flush 21 true, Event.settle 0]).get (by decide +kernel)

end Sample

namespace System

theorem applied_is_visible_taken :
    (7, Sample.sender, Sample.publish "a/b") ∈
        (Sample.visible.mem.get Sample.cfg 20 "reader" [7]).2 ∧
      exists r msg, openStore Sample.cfg Sample.codec Sample.shutDown.disk 30 = some r ∧
        r.mem.msgs.lookup 7 = some msg ∧ msg.sender = Sample.sender ∧
        msg.publish = Sample.publish "a/b" := by
  have hrun := @Run.of_isSome _ _ (step Sample.cfg Sample.codec) Orderly _ Sample.blank
    (Event.store 10 7 Sample.sender (Sample.publish "a/b") 100 :: Sample.taken) (by decide +kernel)
  have happlied : Applied Sample.cfg Sample.codec Sample.blank 10 7 Sample.sender
      (Sample.publish "a/b") 100 Sample.taken :=
    ⟨by decide +kernel, by decide +kernel, by decide +kernel⟩
  have hvisible := applied_is_visible Sample.codec_roundTrips Sample.blank_eq
    (Run.nil Sample.blank) (hrun.mono (fun _ _ h => freshIds_of_orderly h)) happlied
  have hshutdown : ShutdownFlush Sample.cfg Sample.codec Sample.visible 21 Sample.shutDown := by
    refine ⟨List.isEmpty_iff.mp (by decide +kernel), _, [], _, rfl, Run.nil _, Or.inr ?_⟩
    exact (Option.some_get _).symm
  exact ⟨hvisible.left 20 "reader" "a/b" [7] (by decide +kernel) (by decide +kernel)
      (by decide +kernel) (by decide +kernel),
    hvisible.right hrun 21 Sample.shutDown (by decide +kernel) hshutdown 30 (by decide)
      (by decide +kernel)⟩

/-- Right after `store` has returned, the message is still on the channel. -/
theorem accepted_not_visible :
    ¬ forall pre s1 accepted id sender p expiryInterval post s,
      Run (step Sample.cfg Sample.codec) Orderly Sample.blank pre s1 ->
      Run (step Sample.cfg Sample.codec) Orderly s1
        (Event.store accepted id sender p expiryInterval :: post) s ->
      FitsCaps Sample.cfg [(id, StoredMsg.new accepted sender p expiryInterval)] ->
      forall now clientId topicFilter iter,
        now < (StoredMsg.new accepted sender p expiryInterval).expiryAt ->
        topicMatches p.topic topicFilter = true ->
        (clientId, id) ∉ collect (step Sample.cfg Sample.codec) (givenBy Sample.cfg) s1
          (Event.store accepted id sender p expiryInterval :: post) ->
        (s.mem.evict Sample.cfg now).IterOrder topicFilter iter ->
        (id, sender, p) ∈ (s.mem.get Sample.cfg now clientId iter).2 := by
  intro h
  have hrun := @Run.of_isSome _ _ (step Sample.cfg Sample.codec) Orderly _ Sample.blank
    [Event.store 10 7 Sample.sender (Sample.publish "a/b") 100] (by decide +kernel)
  have hget := h [] Sample.blank 10 7 Sample.sender (Sample.publish "a/b") 100 [] _
    (Run.nil Sample.blank) hrun (by decide +kernel) 11 "reader" "a/b" [] (by decide +kernel)
    (by decide +kernel) (by decide +kernel) (by decide +kernel)
  exact absurd hget (by decide +kernel)

end System

end Store
end Ciqada
