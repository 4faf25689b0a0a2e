import Ciqada.Store.Replay

/-!
# Ids that are stored again

The worker replaces a message whose id is in memory without taking the old topic
out of the index.  The index stays exact if and only if no id moves to another
topic while it is in memory.
-/

namespace Ciqada
namespace Store

open Foundation Broker

namespace MemState

/-- The index lists an id under a topic that its message does not have. -/
def Stale (m : MemState) (topic : String) (id : MsgId) : Prop :=
  id ∈ Index.entriesOf m.byTopic topic ∧
    forall msg, m.msgs.lookup id = some msg -> msg.publish.topic ≠ topic

namespace Stale

variable {m : MemState} {topic : String} {id : MsgId}

/-- Eviction looks up the index under the present topic, so it leaves the entry. -/
theorem evictOne (h : Stale m topic id) (id' : MsgId) : Stale (m.evictOne id') topic id := by
  unfold MemState.evictOne
  cases hlookup : m.msgs.lookup id' with
  | none => exact h
  | some msg =>
      constructor
      · show id ∈ Index.entriesOf (Index.drop m.byTopic msg.publish.topic id') topic
        rw [Index.mem_drop]
        refine ⟨?_, h.left⟩
        rintro ⟨htopic, hid⟩
        rw [← hid] at hlookup
        exact h.right msg hlookup htopic.symm
      · intro msg' hlookup'
        rw [Table.lookup_erase_if] at hlookup'
        split at hlookup'
        · cases hlookup'
        · exact h.right msg' hlookup'

theorem evictFrom (cfg : Config) (now : Int) (order : List MsgId) (h : Stale m topic id) :
    Stale (MemState.evictFrom cfg now order m) topic id := by
  induction order generalizing m with
  | nil => exact h
  | cons id' rest ih =>
      unfold MemState.evictFrom
      split
      · exact h
      · exact ih (h.evictOne id')

theorem of_put {old msg : StoredMsg} (h : Indexed m) (hold : m.msgs.lookup id = some old)
    (hmoved : old.publish.topic ≠ msg.publish.topic) :
    Stale (m.put id msg) old.publish.topic id := by
  constructor
  · rw [put_byTopic, Index.mem_add]
    exact Or.inr ((h.exact old.publish.topic id).mpr ⟨old, hold, rfl⟩)
  · intro msg' hlookup
    rw [put_msgs, Finmap.lookup_insert] at hlookup
    rw [← Option.some.inj hlookup]
    exact hmoved.symm

end Stale

end MemState

namespace System

variable {Row : Type} {cfg : Config} {codec : Codec Row} {s s' : System Row}

/--
The index is exact and has no empty sets; replay returns only messages whose
topic matches, and no id twice.
-/
structure ExactTopics (cfg : Config) (s : System Row) : Prop where
  exact : forall topic id, id ∈ Index.entriesOf s.mem.byTopic topic <->
    exists msg, s.mem.msgs.lookup id = some msg ∧ msg.publish.topic = topic
  noEmpty : Index.NoEmpty s.mem.byTopic
  matching : forall now clientId topicFilter iter,
    (s.mem.evict cfg now).IterOrder topicFilter iter ->
    forall entry, entry ∈ (s.mem.get cfg now clientId iter).2 ->
      topicMatches entry.2.2.topic topicFilter = true
  once : forall now clientId topicFilter iter,
    (s.mem.evict cfg now).IterOrder topicFilter iter ->
    ((s.mem.get cfg now clientId iter).2.map Prod.fst).Nodup

theorem exactTopics_of_indexed (h : s.mem.Indexed) : ExactTopics cfg s where
  exact := h.exact
  noEmpty := h.noEmpty
  matching := by
    intro now clientId topicFilter iter hiter entry hentry
    have hanswers := MemState.answers_deliver (h.evict cfg now) hiter now clientId
    rcases (hanswers.exact entry.1 entry.2.1 entry.2.2).mp hentry with
      ⟨msg, _, _, _, hmatch, _, hp⟩
    rw [← hp]
    exact hmatch
  once := by
    intro now clientId topicFilter iter hiter
    exact (MemState.answers_deliver (h.evict cfg now) hiter now clientId).nodup

/-- A worker step after which the index is exact did not move an id. -/
theorem sameTopic_of_exact {e : Event} (h : s.mem.Indexed)
    (hstep : step cfg codec s e = some s') (hexact : ExactTopics cfg s') : SameTopic s e := by
  cases e with
  | work now =>
      rcases of_step_work hstep with ⟨key, msg, rest, hchannel, _hfits, rfl⟩
      intro entry hentry old hold
      rw [hchannel] at hentry
      rw [← Option.some.inj hentry] at hold ⊢
      by_contra hmoved
      have hput := MemState.Stale.of_put h hold hmoved
      have hstale := hput.evictFrom cfg now (s.mem.put key msg).order
      rcases (hexact.exact old.publish.topic key).mp hstale.left with ⟨msg', hlookup, htopic⟩
      exact hstale.right msg' hlookup htopic
  | nextMsgId => trivial
  | store now msgId sender p expiryInterval => trivial
  | get now clientId topicFilter iter => trivial
  | flush now commits => trivial
  | settle i => trivial

theorem run_sameTopic_of_exact {es : List Event} (h : s.mem.Indexed)
    (hrun : Run (step cfg codec) Always s es s')
    (hexact : Throughout (step cfg codec) (ExactTopics cfg) s es) :
    Run (step cfg codec) SameTopic s es s' := by
  induction hrun with
  | nil s => exact Run.nil s
  | @cons s t r e es _ hstep _ ih =>
      have htail := hexact.tail hstep
      have hsame := sameTopic_of_exact h hstep htail.head
      exact Run.cons hsame hstep (ih (indexed_step h hsame hstep) htail)

/--
The index is exact in all states of a run, and replay in them returns only
matching messages and none twice, if and only if the run never stores a message
under an id whose message in memory has another topic.
-/
theorem topic_index_exact_iff {disk : Table MsgId Row} {opened : Int} {es : List Event}
    {s0 : System Row} (hopen : openStore cfg codec disk opened = some s0)
    (hrun : Run (step cfg codec) Always s0 es s) :
    Throughout (step cfg codec) (ExactTopics cfg) s0 es <-> Run (step cfg codec) SameTopic s0 es s := by
  constructor
  · intro hexact
    exact run_sameTopic_of_exact (of_openStore hopen).right.right.left hrun hexact
  · intro hsame pre post t heq hpre
    rw [heq] at hsame
    rcases hsame.of_append with ⟨u, hpre', _⟩
    rw [hpre.unique hpre']
    exact exactTopics_of_indexed (indexed_run hopen hpre')

end System

namespace Sample

/-- A stored id is stored again, with or without another topic. -/
def again (topic : String) : List Event :=
  [Event.store 10 7 sender (publish "a/b") 100, Event.work 11,
    Event.store 12 7 sender (publish topic) 100, Event.work 13]

end Sample

namespace System

theorem topic_index_exact_again :
    exists s, Run (step Sample.cfg Sample.codec) SameTopic Sample.blank (Sample.again "a/b") s ∧
      Throughout (step Sample.cfg Sample.codec) (ExactTopics Sample.cfg) Sample.blank
        (Sample.again "a/b") := by
  have hrun := @Run.of_isSome _ _ (step Sample.cfg Sample.codec) SameTopic _ Sample.blank
    (Sample.again "a/b") (by decide +kernel)
  exact ⟨_, hrun,
    (topic_index_exact_iff Sample.blank_eq (hrun.mono (fun _ _ _ => trivial))).mpr hrun⟩

/--
Id 7 is stored on `a/b` and then on `c`: a replay of `a/b` returns the message
on `c`.
-/
theorem topic_index_fails :
    ¬ forall es s, Run (step Sample.cfg Sample.codec) Always Sample.blank es s ->
      ExactTopics Sample.cfg s := by
  intro h
  have hrun := @Run.of_isSome _ _ (step Sample.cfg Sample.codec) Always _ Sample.blank
    (Sample.again "c") (by decide +kernel)
  have hmatch := (h _ _ hrun).matching 14 "reader" "a/b" [7] (by decide +kernel)
    (7, Sample.sender, Sample.publish "c") (by decide +kernel)
  exact absurd hmatch (by decide +kernel)

end System

end Store
end Ciqada
