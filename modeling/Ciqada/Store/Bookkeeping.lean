import Ciqada.Store.DeadRows
import Ciqada.Store.OverlappingFlush

/-!
# Bookkeeping without flushes

A store that is never flushed still notes which rows would have to be written and
which would have to go.  The cap bounds the messages, their order, what is dirty
and the topic index.  What has been removed is noted until the next flush, so it
grows with every eviction.
-/

namespace Ciqada
namespace Store

open Foundation Broker

namespace MemState

variable {cfg : Config} {now : Int} {m : MemState}

/-- All collections have at most so many entries. -/
structure Bounded (limit : Nat) (m : MemState) : Prop where
  msgs : m.msgs.keys.card ≤ limit
  order : m.order.length ≤ limit
  dirty : m.dirty.card ≤ limit
  removed : m.removed.card ≤ limit
  byTopic : Table.total Finset.card m.byTopic ≤ limit

/-!
## The topic index
-/

theorem weight_byTopic (m : MemState) (topic : String) :
    Table.weight Finset.card m.byTopic topic = (Index.entriesOf m.byTopic topic).card := by
  unfold Table.weight Index.entriesOf
  cases m.byTopic.lookup topic with
  | none => rfl
  | some ids => rfl

/-- An exact index has one entry for each message. -/
theorem Indexed.total_byTopic (h : Indexed m) :
    Table.total Finset.card m.byTopic = m.msgs.keys.card := by
  have hids : m.byTopic.keys.biUnion (Index.entriesOf m.byTopic) = m.msgs.keys := by
    ext id
    rw [Finset.mem_biUnion, Finmap.mem_keys, Finmap.mem_iff]
    constructor
    · rintro ⟨topic, _, hid⟩
      rcases (h.exact topic id).mp hid with ⟨msg, hlookup, _⟩
      exact ⟨msg, hlookup⟩
    · rintro ⟨msg, hlookup⟩
      have hid := (h.exact msg.publish.topic id).mpr ⟨msg, hlookup, rfl⟩
      exact ⟨msg.publish.topic, mem_keys_of_mem_entriesOf hid, hid⟩
  unfold Table.total
  simp only [weight_byTopic]
  rw [← hids, Finset.card_biUnion]
  -- a message has one topic
  intro topic _ topic' _ hne
  rw [Function.onFun, Finset.disjoint_left]
  intro id hid hid'
  rcases (h.exact topic id).mp hid with ⟨msg, hlookup, htopic⟩
  rcases (h.exact topic' id).mp hid' with ⟨msg', hlookup', htopic'⟩
  rw [hlookup] at hlookup'
  rw [← Option.some.inj hlookup'] at htopic'
  exact hne (htopic.symm.trans htopic')

/-!
## What is bounded
-/

/-- With a cap on messages, eviction brings the order within it. -/
theorem Coherent.length_evict_le (h : Coherent m) (hcap : 0 < cfg.maxMsgs) :
    (m.evict cfg now).order.length ≤ cfg.maxMsgs := by
  rcases h.evicted cfg now with ⟨gone, _, hevicted⟩
  have hsettled := ok_trim (settled_nil cfg now m) m.order
  rw [hevicted.order]
  rcases hsettled.left.left with hnone | hcount
  · omega
  · exact hcount

theorem Coherent.card_msgs (h : Coherent m) : m.msgs.keys.card = m.order.length :=
  (@Table.total_of_list _ _ _ StoredMsg.approxSize m.msgs _ h.orderNodup h.orderExact).left

/-- Only what has been removed may exceed a bound on the order. -/
theorem bounded_iff {limit : Nat} (h : Coherent m) (hindexed : Indexed m)
    (horder : m.order.length ≤ limit) : Bounded limit m <-> m.removed.card ≤ limit := by
  have hmsgs : m.msgs.keys.card ≤ limit := by
    rw [h.card_msgs]
    exact horder
  have hdirty : m.dirty ⊆ m.msgs.keys := by
    intro id hid
    exact Finmap.mem_keys.mpr (h.dirtyHeld id hid)
  constructor
  · intro hbounded
    exact hbounded.removed
  · intro hremoved
    refine ⟨hmsgs, horder, (Finset.card_le_card hdirty).trans hmsgs, hremoved, ?_⟩
    rw [hindexed.total_byTopic]
    exact hmsgs

/-- Each evicted message adds an entry. -/
theorem Coherent.card_removed (h : Coherent m) {gone kept : List MsgId}
    (hsplit : m.order = gone ++ kept) (hevicted : Evicted m (m.evict cfg now) gone kept) :
    (m.evict cfg now).removed.card = m.removed.card + gone.length := by
  have hnodup : gone.Nodup := by
    have horder := h.orderNodup
    rw [hsplit] at horder
    exact (List.nodup_append.mp horder).left
  rw [hevicted.removed, Finset.card_union_of_disjoint, List.toFinset_card_of_nodup hnodup]
  rw [Finset.disjoint_left]
  intro id hremoved hgone
  apply h.removedGone id hremoved
  rw [← h.orderExact id, hsplit]
  exact List.mem_append_left kept (List.mem_toFinset.mp hgone)

/-- Some front of the order can go without noting more removals than the limit. -/
def Room (cfg : Config) (now : Int) (m : MemState) : Prop :=
  exists n, n ≤ m.order.length ∧ Settled cfg now m (m.order.drop n) ∧
    m.removed.card + n ≤ cfg.maxMsgs

instance (cfg : Config) (now : Int) (m : MemState) : Decidable (Room cfg now m) :=
  inferInstanceAs (Decidable (exists n, n ≤ m.order.length ∧ _))

theorem Coherent.room_iff (h : Coherent m) :
    Room cfg now m <-> (m.evict cfg now).removed.card ≤ cfg.maxMsgs := by
  rcases h.evicted cfg now with ⟨gone, hsplit, hevicted⟩
  have hlength := congrArg List.length hsplit
  rw [List.length_append] at hlength
  rw [h.card_removed hsplit hevicted]
  constructor
  · rintro ⟨n, hn, hsettled, hroom⟩
    have hkept := (suffix_trim_of_ok (List.drop_suffix n m.order) hsettled).length_le
    rw [List.length_drop] at hkept
    omega
  · intro hroom
    refine ⟨gone.length, by omega, ?_, hroom⟩
    have hdrop : m.order.drop gone.length = trim (Settled cfg now m) m.order := by
      conv_lhs => rw [hsplit]
      exact List.drop_left
    rw [hdrop]
    exact ok_trim (settled_nil cfg now m) m.order

end MemState

namespace System

variable {Row : Type} {cfg : Config} {codec : Codec Row} {s s' : System Row}

/-!
## Runs in memory
-/

/-- No flush, and no id in memory moves to another topic. -/
def InMemory (s : System Row) (e : Event) : Prop :=
  MemoryOnly s e ∧ SameTopic s e

instance (s : System Row) (e : Event) : Decidable (InMemory s e) :=
  inferInstanceAs (Decidable (_ ∧ _))

/-- The event does not have to evict more messages than may still be noted. -/
def HasRoom (cfg : Config) (s : System Row) (e : Event) : Prop :=
  forall m now, s.evictionOf e = some (m, now) -> m.Room cfg now

instance (cfg : Config) (s : System Row) (e : Event) : Decidable (HasRoom cfg s e) :=
  match h : s.evictionOf e with
  | none => isTrue (fun _ _ hm => absurd (h.symm.trans hm) (Option.some_ne_none _).symm)
  | some (m, now) =>
      decidable_of_iff (m.Room cfg now)
        ⟨fun hroom _ _ hm => by
          rcases Prod.mk.inj (Option.some.inj (h.symm.trans hm)) with ⟨rfl, rfl⟩
          exact hroom, fun hroom => hroom m now h⟩

/-- A step in memory evicts once, or leaves memory alone. -/
theorem removed_step {e : Event} (hmeets : MemoryOnly s e)
    (hstep : step cfg codec s e = some s') :
    (s.evictionOf e = none ∧ s'.mem = s.mem) ∨
      exists m now, s.evictionOf e = some (m, now) ∧
        s'.mem.removed = (m.evict cfg now).removed ∧
        s'.mem.order = (m.evict cfg now).order := by
  cases e with
  | nextMsgId =>
      left
      rw [← Option.some.inj hstep]
      exact ⟨rfl, rfl⟩
  | store now msgId sender p expiryInterval =>
      left
      rw [← Option.some.inj hstep]
      exact ⟨rfl, rfl⟩
  | work now =>
      right
      rcases of_step_work hstep with ⟨key, msg, rest, hchannel, _, rfl⟩
      refine ⟨s.mem.put key msg, now, ?_, rfl, rfl⟩
      unfold evictionOf
      rw [hchannel]
      rfl
  | get now clientId topicFilter iter =>
      right
      rw [of_step_get hstep]
      have hframe := MemState.marks_frame clientId
        (((s.mem.evict cfg now).deliver now clientId iter).2.map Prod.fst) (s.mem.evict cfg now)
      exact ⟨s.mem, now, rfl, hframe.right.right.right.left, hframe.left⟩
  | flush now commits => exact hmeets.elim
  | settle i => exact hmeets.elim

/-- The representation, with the order within the cap. -/
structure Capped (cfg : Config) (s : System Row) : Prop where
  coherent : s.mem.Coherent
  indexed : s.mem.Indexed
  order : s.mem.order.length ≤ cfg.maxMsgs

theorem Capped.bounded_iff (h : Capped cfg s) :
    s.mem.Bounded cfg.maxMsgs <-> s.mem.removed.card ≤ cfg.maxMsgs :=
  MemState.bounded_iff h.coherent h.indexed h.order

theorem capped_openStore {opened : Int} (hopen : openStore cfg codec ∅ opened = some s) :
    Capped cfg s ∧ s.mem.Bounded cfg.maxMsgs := by
  rcases of_openStore hopen with ⟨hmsgs, _, hindexed, _, hremoved, _⟩
  have hcoherent := coherent_openStore hopen
  have horder : s.mem.order.length = 0 := by
    rw [← hcoherent.card_msgs, hmsgs]
    rfl
  have hcapped : Capped cfg s := ⟨hcoherent, hindexed, by omega⟩
  refine ⟨hcapped, hcapped.bounded_iff.mpr ?_⟩
  rw [hremoved, Finset.card_empty]
  exact Nat.zero_le _

theorem capped_step {e : Event} (hcap : 0 < cfg.maxMsgs) (h : Capped cfg s)
    (hmeets : InMemory s e) (hstep : step cfg codec s e = some s') : Capped cfg s' := by
  refine ⟨coherent_step h.coherent hstep, indexed_step h.indexed hmeets.right hstep, ?_⟩
  rcases removed_step hmeets.left hstep with ⟨_, hmem⟩ | ⟨m, now, hevicts, _, horder⟩
  · rw [hmem]
    exact h.order
  · rw [horder]
    exact (coherent_evictionOf h.coherent hstep hevicts).length_evict_le hcap

/-- A step keeps the bounds exactly when it has room. -/
theorem bounded_step_iff {e : Event} (hcap : 0 < cfg.maxMsgs) (h : Capped cfg s)
    (hbounded : s.mem.Bounded cfg.maxMsgs) (hmeets : InMemory s e)
    (hstep : step cfg codec s e = some s') :
    s'.mem.Bounded cfg.maxMsgs <-> HasRoom cfg s e := by
  rcases removed_step hmeets.left hstep with ⟨hnone, hmem⟩ | ⟨m, now, hevicts, hremoved, _⟩
  · rw [hmem]
    apply iff_of_true hbounded
    intro m now hevicts
    rw [hnone] at hevicts
    cases hevicts
  · rw [(capped_step hcap h hmeets hstep).bounded_iff, hremoved,
      ← (coherent_evictionOf h.coherent hstep hevicts).room_iff]
    constructor
    · intro hroom m' now' hevicts'
      rw [hevicts] at hevicts'
      rcases Prod.mk.inj (Option.some.inj hevicts') with ⟨rfl, rfl⟩
      exact hroom
    · intro hroom
      exact hroom m now hevicts

theorem bounded_run_iff {es : List Event} (hcap : 0 < cfg.maxMsgs) (h : Capped cfg s)
    (hbounded : s.mem.Bounded cfg.maxMsgs) (hrun : Run (step cfg codec) InMemory s es s') :
    Throughout (step cfg codec) (fun t => t.mem.Bounded cfg.maxMsgs) s es <->
      Run (step cfg codec) (HasRoom cfg) s es s' := by
  induction hrun with
  | nil s =>
      rw [throughout_nil]
      exact iff_of_true hbounded (Run.nil s)
  | @cons s t r e es hmeets hstep _ ih =>
      have hnext := capped_step hcap h hmeets hstep
      rw [throughout_cons hstep]
      constructor
      · rintro ⟨_, htail⟩
        exact Run.cons ((bounded_step_iff hcap h hbounded hmeets hstep).mp htail.head) hstep
          ((ih hnext htail.head).mp htail)
      · intro hall
        cases hall with
        | cons hroom hfirst hrest =>
            rw [hstep] at hfirst
            rw [← Option.some.inj hfirst] at hrest
            have hkept := (bounded_step_iff hcap h hbounded hmeets hstep).mpr hroom
            exact ⟨hbounded, (ih hnext hkept).mpr hrest⟩

/-- Without a flush, whatever was stored is in memory or noted as removed. -/
theorem noted_run {es : List Event} {id : MsgId} (hrun : Run (step cfg codec) InMemory s es s')
    (h : (id ∈ s.mem.msgs ∨ id ∈ s.mem.removed) ∨
      id ∈ collect (step cfg codec) storedBy s es) :
    id ∈ s'.mem.msgs ∨ id ∈ s'.mem.removed := by
  induction hrun with
  | nil s =>
      rcases h with hnoted | hnone
      · exact hnoted
      · cases hnone
  | @cons s t r e es hmeets hstep _ ih =>
      apply ih
      rw [collect_cons _ hstep] at h
      rcases h with hnoted | hstored
      · left
        cases effect_of_step hstep with
        | idle _ channel counter => exact hnoted
        | memory _ channel hm =>
            rcases hnoted with hin | hremoved
            · exact hm.left id hin
            · exact hm.owed id hremoved
        | snapshot now commits => exact hmeets.left.elim
        | settled i hf => exact hmeets.left.elim
      · rcases List.mem_append.mp hstored with hnow | hlater
        · exact Or.inl (of_storedBy hnow hstep)
        · exact Or.inr hlater

/-- Every id beyond the cap is noted, however many there are. -/
theorem card_stored_le {opened : Int} {es : List Event} {s0 : System Row}
    (hcap : 0 < cfg.maxMsgs) (hopen : openStore cfg codec ∅ opened = some s0)
    (hrun : Run (step cfg codec) InMemory s0 es s) :
    (collect (step cfg codec) storedBy s0 es).toFinset.card ≤
      cfg.maxMsgs + s.mem.removed.card := by
  have hcapped : Capped cfg s := hrun.invariant (capped_openStore hopen).left
    (fun _ _ _ hinv hmeets hstep => capped_step hcap hinv hmeets hstep)
  have hmsgs : s.mem.msgs.keys.card ≤ cfg.maxMsgs := by
    rw [hcapped.coherent.card_msgs]
    exact hcapped.order
  have hnoted : (collect (step cfg codec) storedBy s0 es).toFinset ⊆
      s.mem.msgs.keys ∪ s.mem.removed := by
    intro id hid
    rw [Finset.mem_union, Finmap.mem_keys]
    exact noted_run hrun (Or.inr (List.mem_toFinset.mp hid))
  have hcard := (Finset.card_le_card hnoted).trans (Finset.card_union_le _ _)
  omega

/-- A run that stores more than twice as many ids as the cap breaks the bound. -/
theorem not_bounded_of_many {opened : Int} {es : List Event} {s0 : System Row}
    (hcap : 0 < cfg.maxMsgs) (hopen : openStore cfg codec ∅ opened = some s0)
    (hrun : Run (step cfg codec) InMemory s0 es s)
    (hmany : 2 * cfg.maxMsgs < (collect (step cfg codec) storedBy s0 es).toFinset.card) :
    ¬ s.mem.Bounded cfg.maxMsgs := by
  intro hbounded
  have hstored := card_stored_le hcap hopen hrun
  have hremoved := hbounded.removed
  omega

end System

namespace Sample

/-- Two messages, of which the second pushes out the first. -/
def two : List Event :=
  [Event.store 10 7 sender (publish "a") 100, Event.work 11,
    Event.store 10 8 sender (publish "a") 100, Event.work 12]

end Sample

namespace System

end System

end Store
end Ciqada
