import Ciqada.Store.TopicIndex

/-!
# What replay returns

Replay answers with the live messages that match the filter and that the client
has not been given, each of them once, and marks them for the client.
-/

namespace Ciqada
namespace Store

open Foundation Broker

/-- The message with the client added to those it was given to. -/
def StoredMsg.givenTo (clientId : String) (msg : StoredMsg) : StoredMsg :=
  { msg with deliveredTo := insert clientId msg.deliveredTo }

theorem StoredMsg.givenTo_givenTo (clientId : String) (msg : StoredMsg) :
    (msg.givenTo clientId).givenTo clientId = msg.givenTo clientId := by
  unfold StoredMsg.givenTo
  rw [Finset.insert_eq_of_mem (Finset.mem_insert_self clientId msg.deliveredTo)]

namespace MemState

variable {m : MemState}

/-!
## Candidates
-/

theorem mem_keys_of_mem_entriesOf {index : Index String MsgId} {topic : String} {id : MsgId}
    (h : id ∈ Index.entriesOf index topic) : topic ∈ index.keys := by
  unfold Index.entriesOf at h
  cases hlookup : index.lookup topic with
  | none =>
      rw [hlookup] at h
      exact absurd h (Finset.notMem_empty id)
  | some ids => exact Finmap.mem_keys.mpr (Finmap.mem_of_lookup_eq_some hlookup)

/-- Both ways to select candidates find the messages whose topic matches. -/
theorem mem_candidates {topicFilter : String} {id : MsgId} (h : Indexed m) :
    id ∈ m.candidates topicFilter <->
      exists msg, m.msgs.lookup id = some msg ∧
        topicMatches msg.publish.topic topicFilter = true := by
  unfold candidates
  split
  · rw [Multiset.mem_bind]
    constructor
    · rintro ⟨topic, htopic, hid⟩
      rcases (h.exact topic id).mp hid with ⟨msg, hlookup, rfl⟩
      exact ⟨msg, hlookup, (Finset.mem_filter.mp htopic).right⟩
    · rintro ⟨msg, hlookup, hmatch⟩
      have hid := (h.exact msg.publish.topic id).mpr ⟨msg, hlookup, rfl⟩
      exact ⟨msg.publish.topic, Finset.mem_filter.mpr ⟨mem_keys_of_mem_entriesOf hid, hmatch⟩, hid⟩
  · rename_i hliteral
    rw [Bool.not_eq_true] at hliteral
    rw [Finset.mem_val, h.exact topicFilter id]
    constructor
    · rintro ⟨msg, hlookup, htopic⟩
      exact ⟨msg, hlookup, (topicMatches_of_literal hliteral).mpr htopic⟩
    · rintro ⟨msg, hlookup, hmatch⟩
      exact ⟨msg, hlookup, (topicMatches_of_literal hliteral).mp hmatch⟩

/-- An id has one topic, so the scan of the index finds it once. -/
theorem nodup_candidates (h : Indexed m) (topicFilter : String) :
    (m.candidates topicFilter).Nodup := by
  unfold candidates
  split
  · rw [Multiset.nodup_bind]
    constructor
    · intro topic _
      exact (Index.entriesOf m.byTopic topic).nodup
    · apply Multiset.Nodup.pairwise ?_ (Finset.nodup _)
      intro topic _ topic' _ hne
      apply Multiset.disjoint_left.mpr
      intro id hid hid'
      rcases (h.exact topic id).mp hid with ⟨msg, hlookup, htopic⟩
      rcases (h.exact topic' id).mp hid' with ⟨msg', hlookup', htopic'⟩
      rw [hlookup] at hlookup'
      rw [← Option.some.inj hlookup', htopic] at htopic'
      exact hne htopic'
  · exact (Index.entriesOf m.byTopic topicFilter).nodup

/-!
## The answer
-/

theorem hit_eq_some {now : Int} {clientId : String} {id : MsgId}
    {entry : MsgId × From × Publish} :
    m.hit now clientId id = some entry <->
      exists msg, m.msgs.lookup id = some msg ∧ now < msg.expiryAt ∧
        clientId ∉ msg.deliveredTo ∧ entry = (id, msg.sender, msg.publish) := by
  unfold hit
  cases hlookup : m.msgs.lookup id with
  | none => simp
  | some msg =>
      dsimp only
      constructor
      · intro hhit
        split at hhit
        · cases hhit
        · rename_i hlive
          rw [not_or, not_le] at hlive
          exact ⟨msg, rfl, hlive.left, hlive.right, (Option.some.inj hhit).symm⟩
      · rintro ⟨msg', heq, hlive, hnew, rfl⟩
        rw [← Option.some.inj heq] at hlive hnew ⊢
        rw [if_neg]
        rintro (hexpired | hgiven)
        · exact absurd hlive (not_lt.mpr hexpired)
        · exact hnew hgiven

theorem mem_deliver {now : Int} {clientId : String} {iter : List MsgId}
    {entry : MsgId × From × Publish} :
    entry ∈ (m.deliver now clientId iter).2 <->
      entry.1 ∈ iter ∧ exists msg, m.msgs.lookup entry.1 = some msg ∧ now < msg.expiryAt ∧
        clientId ∉ msg.deliveredTo ∧ entry = (entry.1, msg.sender, msg.publish) := by
  show entry ∈ iter.filterMap (m.hit now clientId) <-> _
  rw [List.mem_filterMap]
  constructor
  · rintro ⟨id, hid, hhit⟩
    rcases hit_eq_some.mp hhit with ⟨msg, hlookup, hlive, hnew, rfl⟩
    exact ⟨hid, msg, hlookup, hlive, hnew, rfl⟩
  · rintro ⟨hid, hmsg⟩
    exact ⟨entry.1, hid, hit_eq_some.mpr hmsg⟩

/-- The ids of the answer are candidates in the order they came in. -/
theorem ids_deliver (now : Int) (clientId : String) (iter : List MsgId) :
    (m.deliver now clientId iter).2.map Prod.fst =
      iter.filter (fun id => (m.hit now clientId id).isSome) := by
  show (iter.filterMap (m.hit now clientId)).map Prod.fst = _
  induction iter with
  | nil => rfl
  | cons id iter ih =>
      cases hhit : m.hit now clientId id with
      | none => rw [List.filterMap_cons_none hhit, List.filter_cons_of_neg (by simp [hhit]), ih]
      | some entry =>
          rcases hit_eq_some.mp hhit with ⟨msg, _, _, _, rfl⟩
          rw [List.filterMap_cons_some hhit, List.filter_cons_of_pos (by simp [hhit]),
            List.map_cons, ih]

theorem nodup_deliver {now : Int} {clientId : String} {iter : List MsgId} (h : iter.Nodup) :
    ((m.deliver now clientId iter).2.map Prod.fst).Nodup := by
  rw [ids_deliver]
  exact h.filter _

/-!
## The marks
-/

theorem lookup_mark (clientId : String) (m : MemState) (id id' : MsgId) :
    (m.mark clientId id).msgs.lookup id' =
      if id' = id then (m.msgs.lookup id').map (StoredMsg.givenTo clientId)
      else m.msgs.lookup id' := by
  unfold mark
  cases hlookup : m.msgs.lookup id with
  | none =>
      dsimp only
      split
      · rename_i heq
        rw [heq, hlookup]
        rfl
      · rfl
  | some msg =>
      dsimp only
      rw [Table.lookup_insert_if]
      split
      · rename_i heq
        rw [heq, hlookup]
        rfl
      · rfl

theorem lookup_marks (clientId : String) (ids : List MsgId) (m : MemState) (id : MsgId) :
    (ids.foldl (mark clientId) m).msgs.lookup id =
      if id ∈ ids then (m.msgs.lookup id).map (StoredMsg.givenTo clientId)
      else m.msgs.lookup id := by
  induction ids generalizing m with
  | nil => rfl
  | cons first ids ih =>
      rw [List.foldl_cons, ih, lookup_mark]
      by_cases hfirst : id = first
      · have hin : id ∈ first :: ids := by
          rw [hfirst]
          exact List.mem_cons_self
        rw [if_pos hfirst, if_pos hin]
        split
        · -- marked twice, which is the same as once
          rw [Option.map_map]
          congr 1
          funext msg
          exact StoredMsg.givenTo_givenTo clientId msg
        · rfl
      · rw [if_neg hfirst]
        have hmem : id ∈ first :: ids <-> id ∈ ids := by
          rw [List.mem_cons]
          constructor
          · rintro (heq | hin)
            · exact absurd heq hfirst
            · exact hin
          · intro hin
            exact Or.inr hin
        simp only [hmem]

/-- What the marks leave alone. -/
theorem marks_frame (clientId : String) (ids : List MsgId) (m : MemState) :
    (ids.foldl (mark clientId) m).order = m.order ∧
      (ids.foldl (mark clientId) m).byTopic = m.byTopic ∧
      (ids.foldl (mark clientId) m).bytes = m.bytes ∧
      (ids.foldl (mark clientId) m).removed = m.removed ∧
      (ids.foldl (mark clientId) m).dirty = m.dirty ∪ ids.toFinset := by
  induction ids generalizing m with
  | nil => simp
  | cons id ids ih =>
      have hmark : (m.mark clientId id).order = m.order ∧
          (m.mark clientId id).byTopic = m.byTopic ∧ (m.mark clientId id).bytes = m.bytes ∧
          (m.mark clientId id).removed = m.removed ∧
          (m.mark clientId id).dirty = insert id m.dirty := by
        unfold mark
        split
        · exact ⟨rfl, rfl, rfl, rfl, rfl⟩
        · exact ⟨rfl, rfl, rfl, rfl, rfl⟩
      rcases hmark with ⟨horder, htopics, hbytes, hremoved, hdirty⟩
      have ih' := ih (m.mark clientId id)
      rw [horder, htopics, hbytes, hremoved, hdirty] at ih'
      refine ⟨ih'.left, ih'.right.left, ih'.right.right.left, ih'.right.right.right.left, ?_⟩
      rw [List.foldl_cons, ih'.right.right.right.right, List.toFinset_cons]
      simp [Finset.insert_union, Finset.union_insert]

/-!
## Replay as a whole
-/

/--
The answer to a client holds, each once, the messages in memory that are live,
match the filter and were not given to the client.  Memory changes by the marks
on them and by making them dirty.
-/
structure Answers (m : MemState) (now : Int) (clientId topicFilter : String) (m' : MemState)
    (out : List (MsgId × From × Publish)) : Prop where
  nodup : (out.map Prod.fst).Nodup
  exact : forall id sender p, (id, sender, p) ∈ out <->
    exists msg, m.msgs.lookup id = some msg ∧ now < msg.expiryAt ∧
      clientId ∉ msg.deliveredTo ∧ topicMatches msg.publish.topic topicFilter = true ∧
      msg.sender = sender ∧ msg.publish = p
  marked : forall id, m'.msgs.lookup id =
    if id ∈ out.map Prod.fst then (m.msgs.lookup id).map (StoredMsg.givenTo clientId)
    else m.msgs.lookup id
  order : m'.order = m.order
  byTopic : m'.byTopic = m.byTopic
  bytes : m'.bytes = m.bytes
  removed : m'.removed = m.removed
  dirty : m'.dirty = m.dirty ∪ (out.map Prod.fst).toFinset

theorem answers_deliver {topicFilter : String} {iter : List MsgId} (h : Indexed m)
    (hiter : m.IterOrder topicFilter iter) (now : Int) (clientId : String) :
    Answers m now clientId topicFilter (m.deliver now clientId iter).1
      (m.deliver now clientId iter).2 := by
  have hmem : forall id, id ∈ iter <-> id ∈ m.candidates topicFilter := by
    intro id
    rw [← hiter]
    exact Multiset.mem_coe.symm
  have hnodup : iter.Nodup := by
    rw [← Multiset.coe_nodup, hiter]
    exact nodup_candidates h topicFilter
  rcases marks_frame clientId ((m.deliver now clientId iter).2.map Prod.fst) m with
    ⟨horder, htopics, hbytes, hremoved, hdirty⟩
  refine ⟨nodup_deliver hnodup, ?_, lookup_marks clientId _ m, horder, htopics, hbytes, hremoved,
    hdirty⟩
  intro id sender p
  rw [mem_deliver, hmem, mem_candidates h]
  constructor
  · rintro ⟨⟨msg, hlookup, hmatch⟩, msg', hlookup', hlive, hnew, heq⟩
    rw [hlookup] at hlookup'
    rw [← Option.some.inj hlookup'] at hlive hnew heq
    have hparts := Prod.mk.inj (Prod.mk.inj heq).right
    exact ⟨msg, hlookup, hlive, hnew, hmatch, hparts.left.symm, hparts.right.symm⟩
  · rintro ⟨msg, hlookup, hlive, hnew, hmatch, rfl, rfl⟩
    exact ⟨⟨msg, hlookup, hmatch⟩, msg, hlookup, hlive, hnew, rfl⟩

/-!
## What happens to a message in memory
-/

end MemState

/-- The same message, given to more clients. -/
structure StoredMsg.Grown (msg msg' : StoredMsg) : Prop where
  sender : msg'.sender = msg.sender
  publish : msg'.publish = msg.publish
  expiryAt : msg'.expiryAt = msg.expiryAt
  deliveredTo : msg.deliveredTo ⊆ msg'.deliveredTo

theorem StoredMsg.grown_refl (msg : StoredMsg) : StoredMsg.Grown msg msg :=
  ⟨rfl, rfl, rfl, Finset.Subset.refl _⟩

theorem StoredMsg.grown_givenTo (clientId : String) (msg : StoredMsg) :
    StoredMsg.Grown msg (msg.givenTo clientId) :=
  ⟨rfl, rfl, rfl, Finset.subset_insert clientId msg.deliveredTo⟩

namespace System

variable {Row : Type} {cfg : Config} {codec : Codec Row} {s s' : System Row}

/-- The ids that a step stores. -/
def storedBy (s : System Row) : Event -> List MsgId
  | Event.work _ => s.channel.head?.toList.map Prod.fst
  | _ => []

theorem mem_storedBy {e : Event} {id : MsgId} :
    id ∈ s.storedBy e <->
      exists now entry, e = Event.work now ∧ entry ∈ s.channel.head? ∧ entry.1 = id := by
  cases e with
  | work now => simp [storedBy]
  | nextMsgId => simp [storedBy]
  | store now msgId sender p expiryInterval => simp [storedBy]
  | get now clientId topicFilter iter => simp [storedBy]
  | flush now commits => simp [storedBy]
  | settle i => simp [storedBy]

theorem ne_of_not_stored {now : Int} {id key : MsgId} {msg : StoredMsg}
    {rest : List (MsgId × StoredMsg)} (hid : id ∉ s.storedBy (Event.work now))
    (hchannel : s.channel = (key, msg) :: rest) : id ≠ key := by
  intro heq
  apply hid
  exact mem_storedBy.mpr ⟨now, (key, msg), rfl, by rw [hchannel]; rfl, heq.symm⟩

theorem not_stored_of_fresh {e : Event} {id : MsgId} (h : FreshIds s e) (hin : id ∈ s.mem.msgs) :
    id ∉ s.storedBy e := by
  intro hid
  rcases mem_storedBy.mp hid with ⟨now, entry, rfl, hentry, rfl⟩
  exact h entry hentry hin

/-- The messages that a step returns, each with its client. -/
def givenBy (cfg : Config) (s : System Row) : Event -> List (String × MsgId)
  | Event.get now clientId _ iter =>
      (s.mem.get cfg now clientId iter).2.map (fun entry => (clientId, entry.1))
  | _ => []

/-- A message that a step has not stored was there before, or replay has just given it. -/
theorem of_lookup_step {e : Event} {id : MsgId} {msg' : StoredMsg}
    (hstep : step cfg codec s e = some s') (hid : id ∉ s.storedBy e)
    (hlookup : s'.mem.msgs.lookup id = some msg') :
    s.mem.msgs.lookup id = some msg' ∨
      exists clientId msg, (clientId, id) ∈ s.givenBy cfg e ∧
        s.mem.msgs.lookup id = some msg ∧ msg' = msg.givenTo clientId := by
  cases e with
  | nextMsgId =>
      rw [← Option.some.inj hstep] at hlookup
      exact Or.inl hlookup
  | store now msgId sender p expiryInterval =>
      rw [← Option.some.inj hstep] at hlookup
      exact Or.inl hlookup
  | work now =>
      rcases of_step_work hstep with ⟨key, msg, rest, hchannel, _hfits, rfl⟩
      have hother := ne_of_not_stored hid hchannel
      have hput := MemState.lookup_of_evict hlookup
      rw [MemState.put_msgs, Table.lookup_insert_if, if_neg hother] at hput
      exact Or.inl hput
  | get now clientId topicFilter iter =>
      rw [of_step_get hstep] at hlookup
      change ((((s.mem.evict cfg now).deliver now clientId iter).2.map Prod.fst).foldl
        (MemState.mark clientId) (s.mem.evict cfg now)).msgs.lookup id = some msg' at hlookup
      rw [MemState.lookup_marks] at hlookup
      split at hlookup
      · rename_i hgiven
        rcases Option.map_eq_some_iff.mp hlookup with ⟨msg, hmsg, rfl⟩
        rcases List.mem_map.mp hgiven with ⟨entry, hentry, rfl⟩
        exact Or.inr ⟨clientId, msg, List.mem_map.mpr ⟨entry, hentry, rfl⟩,
          MemState.lookup_of_evict hmsg, rfl⟩
      · exact Or.inl (MemState.lookup_of_evict hlookup)
  | flush now commits =>
      rw [← Option.some.inj hstep, snapshot_mem] at hlookup
      exact Or.inl (MemState.lookup_of_evict hlookup)
  | settle i =>
      rcases of_step_settle hstep with ⟨f, _hf, rfl⟩
      exact Or.inl hlookup

theorem grown_step {e : Event} {id : MsgId} {msg' : StoredMsg}
    (hstep : step cfg codec s e = some s') (hid : id ∉ s.storedBy e)
    (hlookup : s'.mem.msgs.lookup id = some msg') :
    exists msg, s.mem.msgs.lookup id = some msg ∧ StoredMsg.Grown msg msg' := by
  rcases of_lookup_step hstep hid hlookup with hsame | ⟨clientId, msg, _, hmsg, rfl⟩
  · exact ⟨msg', hsame, StoredMsg.grown_refl msg'⟩
  · exact ⟨msg, hmsg, StoredMsg.grown_givenTo clientId msg⟩

/-- What a replay gives was not given before, and is marked afterwards. -/
theorem of_givenBy {e : Event} {clientId : String} {id : MsgId} (h : s.mem.Indexed)
    (hstep : step cfg codec s e = some s') (hgiven : (clientId, id) ∈ s.givenBy cfg e) :
    exists msg, s.mem.msgs.lookup id = some msg ∧ clientId ∉ msg.deliveredTo ∧
      s'.mem.msgs.lookup id = some (msg.givenTo clientId) := by
  cases e with
  | get now clientId' topicFilter iter =>
      rcases List.mem_map.mp hgiven with ⟨entry, hentry, heq⟩
      rcases Prod.mk.inj heq with ⟨rfl, rfl⟩
      have hanswers := MemState.answers_deliver (h.evict cfg now) (iterOrder_of_step hstep) now
        clientId'
      rcases (hanswers.exact entry.1 entry.2.1 entry.2.2).mp hentry with
        ⟨msg, hlookup, _, hnew, _⟩
      refine ⟨msg, MemState.lookup_of_evict hlookup, hnew, ?_⟩
      rw [of_step_get hstep]
      have hin : entry.1 ∈ ((s.mem.evict cfg now).deliver now clientId' iter).2.map Prod.fst :=
        List.mem_map.mpr ⟨entry, hentry, rfl⟩
      show ((s.mem.evict cfg now).deliver now clientId' iter).1.msgs.lookup entry.1 = _
      rw [hanswers.marked entry.1, if_pos hin, hlookup]
      rfl
  | nextMsgId => cases hgiven
  | store now msgId sender p expiryInterval => cases hgiven
  | work now => cases hgiven
  | flush now commits => cases hgiven
  | settle i => cases hgiven

theorem nodup_givenBy {e : Event} (h : s.mem.Indexed)
    (hstep : step cfg codec s e = some s') : (s.givenBy cfg e).Nodup := by
  cases e with
  | get now clientId topicFilter iter =>
      have hanswers := MemState.answers_deliver (h.evict cfg now) (iterOrder_of_step hstep) now
        clientId
      have hpairs := hanswers.nodup.map (fun id id' heq => (Prod.mk.inj heq).right :
        Function.Injective (fun id : MsgId => (clientId, id)))
      rw [List.map_map] at hpairs
      exact hpairs
  | nextMsgId => exact List.nodup_nil
  | store now msgId sender p expiryInterval => exact List.nodup_nil
  | work now => exact List.nodup_nil
  | flush now commits => exact List.nodup_nil
  | settle i => exact List.nodup_nil

theorem get_exact {disk : Table MsgId Row} {opened : Int} {es : List Event} {s0 : System Row}
    {now : Int} {clientId topicFilter : String} {iter : List MsgId}
    (hopen : openStore cfg codec disk opened = some s0)
    (hrun : Run (step cfg codec) FreshIds s0 es s)
    (hiter : (s.mem.evict cfg now).IterOrder topicFilter iter) :
    MemState.Answers (s.mem.evict cfg now) now clientId topicFilter
      (s.mem.get cfg now clientId iter).1 (s.mem.get cfg now clientId iter).2 := by
  have hindexed := indexed_run hopen (hrun.mono (fun _ _ h => sameTopic_of_freshIds h))
  exact MemState.answers_deliver (hindexed.evict cfg now) hiter now clientId

end System

namespace Sample

/-- Two messages on two topics. -/
def pair : List Event :=
  [Event.store 10 7 sender (publish "a/b") 100, Event.work 11,
    Event.store 12 8 sender (publish "a/c") 5, Event.work 13]

end Sample

namespace System

/-- The second message has expired, so only the first one is returned. -/
theorem get_exact_pair :
    exists s, Run (step Sample.cfg Sample.codec) FreshIds Sample.blank Sample.pair s ∧
      MemState.Answers (s.mem.evict Sample.cfg 20) 20 "reader" "a/+"
        (s.mem.get Sample.cfg 20 "reader" [7, 8]).1
        (s.mem.get Sample.cfg 20 "reader" [7, 8]).2 ∧
      (s.mem.get Sample.cfg 20 "reader" [7, 8]).2 =
        [(7, Sample.sender, Sample.publish "a/b")] := by
  have hrun := @Run.of_isSome _ _ (step Sample.cfg Sample.codec) FreshIds _ Sample.blank
    Sample.pair (by decide +kernel)
  exact ⟨_, hrun, get_exact Sample.blank_eq hrun (by decide +kernel), by decide +kernel⟩

end System

end Store
end Ciqada
