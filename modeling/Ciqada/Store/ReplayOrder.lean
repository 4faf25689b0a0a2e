import Ciqada.Store.Lives

/-!
# The order of replayed messages

Replay collects its answer from hash tables, in the order in which these yield
topics and ids.  So two messages of one publisher on one topic come in the order
in which they were stored only by chance.
-/

namespace Ciqada

namespace Foundation

universe u

variable {A : Type u} {l : List A} {a b : A}

/-- Of two elements of a list, one comes before the other. -/
theorem pair_sublist_or (ha : a ∈ l) (hb : b ∈ l) (hne : a ≠ b) :
    [a, b].Sublist l ∨ [b, a].Sublist l := by
  induction l with
  | nil => cases ha
  | cons x l ih =>
      rcases List.mem_cons.mp ha with rfl | ha'
      · rcases List.mem_cons.mp hb with rfl | hb'
        · exact absurd rfl hne
        · exact Or.inl ((List.singleton_sublist.mpr hb').cons_cons a)
      · rcases List.mem_cons.mp hb with rfl | hb'
        · exact Or.inr ((List.singleton_sublist.mpr ha').cons_cons b)
        · rcases ih ha' hb' with hab | hba
          · exact Or.inl (hab.cons x)
          · exact Or.inr (hba.cons x)

/-- Without repetition, two elements come in one order only. -/
theorem not_pair_sublist_symm (hnodup : l.Nodup) (hab : [a, b].Sublist l) :
    ¬ [b, a].Sublist l := by
  induction l with
  | nil => cases hab
  | cons x l ih =>
      have hx := List.nodup_cons.mp hnodup
      intro hba
      rcases List.sublist_cons_iff.mp hab with hab' | ⟨_, heq, hb⟩
      · rcases List.sublist_cons_iff.mp hba with hba' | ⟨_, heq, _⟩
        · exact ih hx.right hab' hba'
        · rw [← (List.cons.inj heq).left] at hx
          exact hx.left (hab'.subset (List.mem_cons_of_mem a List.mem_cons_self))
      · rcases List.sublist_cons_iff.mp hba with hba' | ⟨_, heq', _⟩
        · rw [← (List.cons.inj heq).left] at hx
          exact hx.left (hba'.subset (List.mem_cons_of_mem b List.mem_cons_self))
        · rw [← (List.cons.inj heq).right, List.singleton_sublist] at hb
          rw [← (List.cons.inj heq').left] at hx
          exact hx.left hb

end Foundation

namespace Store

open Foundation Broker

namespace MemState

variable {m : MemState} {topicFilter : String}

/--
The candidates as hash tables yield them: the matching topics in some order, and
for each of them its ids in some order.
-/
def HashOrder (m : MemState) (topicFilter : String) (iter : List MsgId) : Prop :=
  if hasWildcard topicFilter then
    exists (topics : List String) (ids : String -> List MsgId),
      (topics : Multiset String) =
        (m.byTopic.keys.filter (fun t => topicMatches t topicFilter)).val ∧
      (forall t, t ∈ topics -> (ids t : Multiset MsgId) = (Index.entriesOf m.byTopic t).val) ∧
      iter = topics.flatMap ids
  else (iter : Multiset MsgId) = (Index.entriesOf m.byTopic topicFilter).val

theorem iterOrder_of_hashOrder {iter : List MsgId} (h : m.HashOrder topicFilter iter) :
    m.IterOrder topicFilter iter := by
  unfold HashOrder at h
  unfold IterOrder candidates
  split at h
  · rename_i hwild
    rcases h with ⟨topics, ids, htopics, hids, rfl⟩
    rw [if_pos hwild, ← htopics, ← Multiset.coe_bind]
    exact Multiset.bind_congr hids
  · rename_i hliteral
    rw [if_neg hliteral]
    exact h

/-- The ids of a matching topic can come in any order. -/
theorem exists_hashOrder {topic : String} {ids : List MsgId}
    (hids : (ids : Multiset MsgId) = (Index.entriesOf m.byTopic topic).val)
    (hin : topic ∈ m.byTopic.keys) (hmatch : topicMatches topic topicFilter = true) :
    exists iter, m.HashOrder topicFilter iter ∧ ids.Sublist iter := by
  unfold HashOrder
  split
  · -- every other topic may yield its ids as they come
    refine ⟨_, ⟨(m.byTopic.keys.filter (fun t => topicMatches t topicFilter)).toList,
      fun t => if t = topic then ids else (Index.entriesOf m.byTopic t).toList, ?_, ?_, rfl⟩, ?_⟩
    · exact Finset.coe_toList _
    · intro t _
      dsimp only
      split
      · rename_i heq
        rw [heq]
        exact hids
      · exact Finset.coe_toList _
    · rw [List.flatMap_def]
      apply List.sublist_flatten_of_mem
      refine List.mem_map.mpr ⟨topic, ?_, if_pos rfl⟩
      exact Finset.mem_toList.mpr (Finset.mem_filter.mpr ⟨hin, hmatch⟩)
  · rename_i hliteral
    rw [Bool.not_eq_true] at hliteral
    rw [(topicMatches_of_literal hliteral).mp hmatch] at hids
    exact ⟨ids, hids, List.Sublist.refl ids⟩

/-- Two ids of a topic can come in either order. -/
theorem exists_pair_order {topic : String} {id id' : MsgId}
    (hid : id ∈ Index.entriesOf m.byTopic topic) (hid' : id' ∈ Index.entriesOf m.byTopic topic)
    (hne : id ≠ id') (hmatch : topicMatches topic topicFilter = true) :
    exists iter, m.HashOrder topicFilter iter ∧ [id, id'].Sublist iter := by
  have hrest : id' ∈ (Index.entriesOf m.byTopic topic).val.erase id :=
    (Multiset.mem_erase_of_ne hne.symm).mpr hid'
  have hids : ((id :: id' :: (((Index.entriesOf m.byTopic topic).val.erase id).erase id').toList :
      List MsgId) : Multiset MsgId) = (Index.entriesOf m.byTopic topic).val := by
    rw [← Multiset.cons_coe, ← Multiset.cons_coe, Multiset.coe_toList, Multiset.cons_erase hrest,
      Multiset.cons_erase hid]
  rcases exists_hashOrder hids (mem_keys_of_mem_entriesOf hid) hmatch with ⟨iter, hiter, hsub⟩
  refine ⟨iter, hiter, List.Sublist.trans ?_ hsub⟩
  exact ((List.nil_sublist _).cons_cons id').cons_cons id

end MemState

namespace Lives

variable {Row : Type} {cfg : Config} {codec : Codec Row} {h : Lives Row}

/-- An answer lists the messages of one publisher on one topic in the order they were stored. -/
def InOrder (h : Lives Row) (out : List (MsgId × From × Publish)) : Prop :=
  forall a b, a ∈ out -> b ∈ out -> a.2.2.topic = b.2.2.topic ->
    a.2.1.id.clientId = b.2.1.id.clientId -> [a.1, b.1].Sublist h.applied -> [a, b].Sublist out

/-- The store has a message for the client that the worker has stored. -/
def Waits (cfg : Config) (h : Lives Row) (now : Int) (clientId : String) (id : MsgId)
    (msg : StoredMsg) : Prop :=
  id ∈ h.applied ∧ (h.sys.mem.evict cfg now).msgs.lookup id = some msg ∧
    now < msg.expiryAt ∧ clientId ∉ msg.deliveredTo

/-- No two messages of one publisher on one matching topic wait for the client. -/
def OneEach (cfg : Config) (h : Lives Row) (now : Int) (clientId topicFilter : String) : Prop :=
  forall id msg id' msg', h.Waits cfg now clientId id msg -> h.Waits cfg now clientId id' msg' ->
    topicMatches msg.publish.topic topicFilter = true ->
    msg.publish.topic = msg'.publish.topic ->
    msg.sender.id.clientId = msg'.sender.id.clientId -> id = id'

theorem inOrder_of_oneEach {now : Int} {clientId topicFilter : String} {iter : List MsgId}
    (hsound : Sound h) (hone : h.OneEach cfg now clientId topicFilter)
    (hiter : (h.sys.mem.evict cfg now).HashOrder topicFilter iter) :
    h.InOrder (h.sys.mem.get cfg now clientId iter).2 := by
  intro a b ha hb htopic hsender hstored
  have hanswers := MemState.answers_deliver (hsound.indexed.evict cfg now)
    (MemState.iterOrder_of_hashOrder hiter) now clientId
  rcases (hanswers.exact a.1 a.2.1 a.2.2).mp ha with ⟨msg, hlookup, hlive, hnew, hmatch, hs, hp⟩
  rcases (hanswers.exact b.1 b.2.1 b.2.2).mp hb with
    ⟨msg', hlookup', hlive', hnew', _, hs', hp'⟩
  have heq : a.1 = b.1 := by
    apply hone a.1 msg b.1 msg' ⟨hstored.subset List.mem_cons_self, hlookup, hlive, hnew⟩
      ⟨hstored.subset (List.mem_cons_of_mem _ List.mem_cons_self), hlookup', hlive', hnew'⟩ hmatch
    · rw [hp, hp']
      exact htopic
    · rw [hs, hs']
      exact hsender
  have hpair := hsound.appliedOnce.sublist hstored
  rw [heq] at hpair
  exact absurd List.mem_cons_self (List.nodup_cons.mp hpair).left

/-- The hash tables may yield the later one of two waiting messages first. -/
theorem not_stored_of_inOrder {now : Int} {clientId topicFilter : String} {id id' : MsgId}
    {msg msg' : StoredMsg} (hsound : Sound h)
    (hinOrder : forall iter, (h.sys.mem.evict cfg now).HashOrder topicFilter iter ->
      h.InOrder (h.sys.mem.get cfg now clientId iter).2)
    (hwaits : h.Waits cfg now clientId id msg) (hwaits' : h.Waits cfg now clientId id' msg')
    (hmatch : topicMatches msg.publish.topic topicFilter = true)
    (htopic : msg.publish.topic = msg'.publish.topic)
    (hsender : msg.sender.id.clientId = msg'.sender.id.clientId) (hne : id ≠ id') :
    ¬ [id, id'].Sublist h.applied := by
  intro hstored
  rcases hwaits with ⟨_, hlookup, hlive, hnew⟩
  rcases hwaits' with ⟨_, hlookup', hlive', hnew'⟩
  have hindexed := hsound.indexed.evict cfg now
  rcases MemState.exists_pair_order ((hindexed.exact _ id').mpr ⟨msg', hlookup', htopic.symm⟩)
    ((hindexed.exact _ id).mpr ⟨msg, hlookup, rfl⟩) hne.symm hmatch with ⟨iter, hiter, hpair⟩
  have hanswers := MemState.answers_deliver hindexed (MemState.iterOrder_of_hashOrder hiter) now
    clientId
  have hin : (id, msg.sender, msg.publish) ∈ (h.sys.mem.get cfg now clientId iter).2 :=
    (hanswers.exact id _ _).mpr ⟨msg, hlookup, hlive, hnew, hmatch, rfl, rfl⟩
  have hin' : (id', msg'.sender, msg'.publish) ∈ (h.sys.mem.get cfg now clientId iter).2 :=
    (hanswers.exact id' _ _).mpr ⟨msg', hlookup', hlive', hnew', htopic ▸ hmatch, rfl, rfl⟩
  have hkept : [id, id'].Sublist
      (((h.sys.mem.evict cfg now).deliver now clientId iter).2.map Prod.fst) :=
    (hinOrder iter hiter _ _ hin hin' htopic hsender hstored).map Prod.fst
  apply not_pair_sublist_symm hanswers.nodup hkept
  have hfirst := hkept.subset List.mem_cons_self
  have hsecond := hkept.subset (List.mem_cons_of_mem id List.mem_cons_self)
  rw [MemState.ids_deliver] at hfirst hsecond ⊢
  have hsub := hpair.filter (fun id => ((h.sys.mem.evict cfg now).hit now clientId id).isSome)
  have hboth : forall x, x ∈ [id', id] ->
      ((h.sys.mem.evict cfg now).hit now clientId x).isSome = true := by
    intro x hx
    rcases List.mem_cons.mp hx with rfl | hx'
    · exact (List.mem_filter.mp hsecond).right
    · rw [List.mem_singleton.mp hx']
      exact (List.mem_filter.mp hfirst).right
  rw [List.filter_eq_self.mpr hboth] at hsub
  exact hsub

theorem oneEach_of_inOrder {now : Int} {clientId topicFilter : String} (hsound : Sound h)
    (hinOrder : forall iter, (h.sys.mem.evict cfg now).HashOrder topicFilter iter ->
      h.InOrder (h.sys.mem.get cfg now clientId iter).2) :
    h.OneEach cfg now clientId topicFilter := by
  intro id msg id' msg' hwaits hwaits' hmatch htopic hsender
  by_contra hne
  rcases pair_sublist_or hwaits.left hwaits'.left hne with hstored | hstored
  · exact not_stored_of_inOrder hsound hinOrder hwaits hwaits' hmatch htopic hsender hne hstored
  · exact not_stored_of_inOrder hsound hinOrder hwaits' hwaits (htopic ▸ hmatch) htopic.symm
      hsender.symm (Ne.symm hne) hstored

theorem replay_in_order_iff {disk : Table MsgId Row} {opened : Int} {s0 : System Row}
    {ts : List Turn} (hopen : System.openStore cfg codec disk opened = some s0)
    (hrun : Run (step cfg codec) NewIds (begin s0) ts h) (now : Int)
    (clientId topicFilter : String) :
    (forall iter, (h.sys.mem.evict cfg now).HashOrder topicFilter iter ->
      h.InOrder (h.sys.mem.get cfg now clientId iter).2) <->
      h.OneEach cfg now clientId topicFilter := by
  have hsound := sound_run hopen hrun
  exact ⟨oneEach_of_inOrder hsound, fun hone _ hiter => inOrder_of_oneEach hsound hone hiter⟩

end Lives

namespace Sample

/-- Two messages of one publisher, on the same topic or not, are flushed and loaded again. -/
def storedTwice (topic : String) : List Turn :=
  [Turn.act (Event.store 10 7 sender (publish "a/b") 100), Turn.act (Event.work 11),
    Turn.act (Event.store 12 8 sender (publish topic) 100), Turn.act (Event.work 13),
    Turn.act (Event.flush 14 true), Turn.act (Event.settle 0), Turn.restart 15]

def reloaded : Lives (Option StoredMsg) :=
  (exec? (Lives.step cfg codec) Lives.NewIds (Lives.begin blank) (storedTwice "a/c")).get
    (by decide +kernel)

end Sample

namespace Lives

theorem replay_in_order_two_topics :
    Run (step Sample.cfg Sample.codec) NewIds (begin Sample.blank) (Sample.storedTwice "a/c")
        Sample.reloaded ∧
      forall iter, (Sample.reloaded.sys.mem.evict Sample.cfg 20).HashOrder "a/+" iter ->
        Sample.reloaded.InOrder (Sample.reloaded.sys.mem.get Sample.cfg 20 "reader" iter).2 := by
  have hrun : Run (step Sample.cfg Sample.codec) NewIds (begin Sample.blank)
      (Sample.storedTwice "a/c") Sample.reloaded := Run.of_isSome _
  refine ⟨hrun, (replay_in_order_iff Sample.blank_eq hrun 20 "reader" "a/+").mpr ?_⟩
  have htopics : forall id, id ∈ Sample.reloaded.applied -> forall id',
      id' ∈ Sample.reloaded.applied ->
      forall msg, msg ∈ (Sample.reloaded.sys.mem.evict Sample.cfg 20).msgs.lookup id ->
      forall msg', msg' ∈ (Sample.reloaded.sys.mem.evict Sample.cfg 20).msgs.lookup id' ->
        msg.publish.topic = msg'.publish.topic -> id = id' := by
    decide +kernel
  intro id msg id' msg' hwaits hwaits' _ htopic _
  exact htopics id hwaits.left id' hwaits'.left msg hwaits.right.left msg' hwaits'.right.left htopic

/-- The hash set of the topic yields the later message first. -/
theorem replay_in_order_fails :
    ¬ forall ts h, Run (step Sample.cfg Sample.codec) NewIds (begin Sample.blank) ts h ->
      forall now clientId topicFilter iter,
        (h.sys.mem.evict Sample.cfg now).HashOrder topicFilter iter ->
        h.InOrder (h.sys.mem.get Sample.cfg now clientId iter).2 := by
  intro hall
  have hrun := @Run.of_isSome _ _ (step Sample.cfg Sample.codec) NewIds _ (begin Sample.blank)
    (Sample.storedTwice "a/b") (by decide +kernel)
  have hpair := hall _ _ hrun 20 "reader" "a/b" [8, 7] (by
    rw [MemState.HashOrder, if_neg (by decide +kernel)]
    decide +kernel) (7, Sample.sender, Sample.publish "a/b")
    (8, Sample.sender, Sample.publish "a/b") (by decide +kernel) (by decide +kernel) rfl rfl
    (by decide +kernel)
  exact absurd hpair (by decide +kernel)

end Lives

end Store
end Ciqada
