import Ciqada.Store.Memory

/-!
# What the memory operations keep

Eviction, the worker and replay are compared with the state they start from in
one relation, which says what may happen to a message and to the two sets of
owed changes.  A second invariant says that the topic index and the byte count
describe the messages in memory.
-/

namespace Ciqada
namespace Store

open Foundation Broker

namespace MemState

/-!
## What an operation may do
-/

/--
What any memory operation does.  A message that is not dirty was there before
and was not dirty then, a message leaves memory only by eviction, and an owed
removal is dropped only when the id is stored again.
-/
structure Moves (m m' : MemState) : Prop where
  kept : forall id msg, m'.msgs.lookup id = some msg -> id ∉ m'.dirty ->
    m.msgs.lookup id = some msg ∧ id ∉ m.dirty
  left : forall id, id ∈ m.msgs -> id ∈ m'.msgs ∨ id ∈ m'.removed
  owed : forall id, id ∈ m.removed -> id ∈ m'.msgs ∨ id ∈ m'.removed
  apart : (forall id, id ∈ m.removed -> id ∉ m.msgs) ->
    forall id, id ∈ m'.removed -> id ∉ m'.msgs

namespace Moves

variable {m m' m'' : MemState}

theorem refl (m : MemState) : Moves m m where
  kept _ _ hlookup hclean := ⟨hlookup, hclean⟩
  left _ hmem := Or.inl hmem
  owed _ hmem := Or.inr hmem
  apart h := h

theorem trans (h : Moves m m') (h' : Moves m' m'') : Moves m m'' where
  kept := by
    intro id msg hlookup hclean
    rcases h'.kept id msg hlookup hclean with ⟨hlookup', hclean'⟩
    exact h.kept id msg hlookup' hclean'
  left := by
    intro id hmem
    rcases h.left id hmem with hin | hremoved
    · exact h'.left id hin
    · exact h'.owed id hremoved
  owed := by
    intro id hmem
    rcases h.owed id hmem with hin | hremoved
    · exact h'.left id hin
    · exact h'.owed id hremoved
  apart hapart := h'.apart (h.apart hapart)

theorem foldl {A : Type} {op : MemState -> A -> MemState}
    (hop : forall m a, Moves m (op m a)) (as : List A) (m : MemState) :
    Moves m (as.foldl op m) := by
  induction as generalizing m with
  | nil => exact refl m
  | cons a as ih => exact (hop m a).trans (ih (op m a))

/-- The order of arrival is not part of what is compared. -/
theorem setOrder (h : Moves m m') (order : List MsgId) :
    Moves m { m' with order := order } where
  kept := h.kept
  left := h.left
  owed := h.owed
  apart := h.apart

end Moves

/-- One round with a message under the id. -/
theorem evictOne_of_lookup {m : MemState} {id : MsgId} {msg : StoredMsg}
    (h : m.msgs.lookup id = some msg) :
    m.evictOne id =
      { m with
        msgs := m.msgs.erase id
        bytes := m.bytes - msg.approxSize
        dirty := m.dirty.erase id
        removed := insert id m.removed
        byTopic := Index.drop m.byTopic msg.publish.topic id } := by
  unfold evictOne
  rw [h]

theorem lookup_evictOne_of_ne {m : MemState} {id id' : MsgId} (hne : id' ≠ id) :
    (m.evictOne id).msgs.lookup id' = m.msgs.lookup id' := by
  unfold evictOne
  split
  · rw [Table.lookup_erase_if, if_neg hne]
  · rfl

theorem moves_evictOne (m : MemState) (id : MsgId) : Moves m (m.evictOne id) := by
  unfold evictOne
  cases hlookup : m.msgs.lookup id with
  | none => exact Moves.refl m
  | some msg =>
      constructor
      · intro id' msg' hlookup' hclean
        rw [Table.lookup_erase_if] at hlookup'
        split at hlookup'
        · cases hlookup'
        · rename_i hne
          refine ⟨hlookup', ?_⟩
          intro hdirty
          exact hclean (Finset.mem_erase.mpr ⟨hne, hdirty⟩)
      · intro id' hmem
        by_cases hid : id' = id
        · right
          rw [hid]
          exact Finset.mem_insert_self id m.removed
        · left
          exact Finmap.mem_erase.mpr ⟨hid, hmem⟩
      · intro id' hremoved
        right
        exact Finset.mem_insert_of_mem hremoved
      · intro hapart id' hremoved hmem
        rcases Finmap.mem_erase.mp hmem with ⟨hne, hin⟩
        rcases Finset.mem_insert.mp hremoved with heq | hold
        · exact hne heq
        · exact hapart id' hold hin

theorem moves_evictFrom (cfg : Config) (now : Int) (order : List MsgId) (m : MemState) :
    Moves m (evictFrom cfg now order m) := by
  induction order generalizing m with
  | nil => exact (Moves.refl m).setOrder []
  | cons id rest ih =>
      unfold evictFrom
      split
      · exact (Moves.refl m).setOrder (id :: rest)
      · exact (moves_evictOne m id).trans (ih (m.evictOne id))

theorem moves_evict (cfg : Config) (now : Int) (m : MemState) : Moves m (m.evict cfg now) :=
  moves_evictFrom cfg now m.order m

theorem lookup_of_evictOne {m : MemState} {id id' : MsgId} {msg : StoredMsg}
    (h : (m.evictOne id).msgs.lookup id' = some msg) : m.msgs.lookup id' = some msg := by
  unfold evictOne at h
  split at h
  · rw [Table.lookup_erase_if] at h
    split at h
    · cases h
    · exact h
  · exact h

/-- Eviction changes no message that it leaves in memory. -/
theorem lookup_of_evict {cfg : Config} {now : Int} {m : MemState} {id : MsgId}
    {msg : StoredMsg} (h : (m.evict cfg now).msgs.lookup id = some msg) :
    m.msgs.lookup id = some msg := by
  have hloop : forall (order : List MsgId) (m : MemState),
      (evictFrom cfg now order m).msgs.lookup id = some msg -> m.msgs.lookup id = some msg := by
    intro order
    induction order with
    | nil =>
        intro m hm
        exact hm
    | cons first rest ih =>
        intro m hm
        unfold evictFrom at hm
        split at hm
        · exact hm
        · exact lookup_of_evictOne (ih (m.evictOne first) hm)
  exact hloop m.order m h

/-- The loop stops here: the front of the order is live and no cap is exceeded. -/
def Rests (cfg : Config) (now : Int) (m : MemState) : Prop :=
  forall id, m.order.head? = some id -> (!m.overCap cfg && !m.expired now id) = true

theorem rests_evictFrom (cfg : Config) (now : Int) (order : List MsgId) (m : MemState) :
    Rests cfg now (evictFrom cfg now order m) := by
  induction order generalizing m with
  | nil =>
      intro id hfront
      cases hfront
  | cons id rest ih =>
      unfold evictFrom
      split
      · rename_i hlive
        intro id' hfront
        rw [← Option.some.inj hfront]
        exact hlive
      · exact ih (m.evictOne id)

theorem rests_evict (cfg : Config) (now : Int) (m : MemState) : Rests cfg now (m.evict cfg now) :=
  rests_evictFrom cfg now m.order m

theorem evict_of_rests {cfg : Config} {now : Int} {m : MemState} (h : Rests cfg now m) :
    m.evict cfg now = m := by
  unfold evict
  cases horder : m.order with
  | nil =>
      unfold evictFrom
      rw [← horder]
  | cons id rest =>
      have hlive : (!m.overCap cfg && !m.expired now id) = true := by
        apply h id
        rw [horder]
        rfl
      unfold evictFrom
      rw [if_pos hlive, ← horder]

/-!
## The worker and replay
-/

theorem place_msgs (key : MsgId) (msg : StoredMsg) (m : MemState) :
    (m.place key msg).msgs = m.msgs.insert key msg := by
  unfold place
  split <;> rfl

theorem place_dirty (key : MsgId) (msg : StoredMsg) (m : MemState) :
    (m.place key msg).dirty = m.dirty := by
  unfold place
  split <;> rfl

theorem place_removed (key : MsgId) (msg : StoredMsg) (m : MemState) :
    (m.place key msg).removed = m.removed := by
  unfold place
  split <;> rfl

theorem place_byTopic (key : MsgId) (msg : StoredMsg) (m : MemState) :
    (m.place key msg).byTopic = m.byTopic := by
  unfold place
  split <;> rfl

theorem put_msgs (key : MsgId) (msg : StoredMsg) (m : MemState) :
    (m.put key msg).msgs = m.msgs.insert key msg :=
  place_msgs key msg _

theorem put_dirty (key : MsgId) (msg : StoredMsg) (m : MemState) :
    (m.put key msg).dirty = insert key m.dirty := by
  show insert key (place key msg _).dirty = _
  rw [place_dirty]

theorem put_removed (key : MsgId) (msg : StoredMsg) (m : MemState) :
    (m.put key msg).removed = m.removed.erase key :=
  place_removed key msg _

theorem put_byTopic (key : MsgId) (msg : StoredMsg) (m : MemState) :
    (m.put key msg).byTopic = Index.add m.byTopic msg.publish.topic key := by
  show Index.add (place key msg _).byTopic _ key = _
  rw [place_byTopic]

/-- The stored message is dirty, whether or not its id was in use. -/
theorem moves_put (key : MsgId) (msg : StoredMsg) (m : MemState) : Moves m (m.put key msg) := by
  constructor
  · intro id msg' hlookup hclean
    rw [put_dirty, Finset.mem_insert, not_or] at hclean
    rw [put_msgs, Table.lookup_insert_if, if_neg hclean.left] at hlookup
    exact ⟨hlookup, hclean.right⟩
  · intro id hmem
    rw [put_msgs, Finmap.mem_insert]
    exact Or.inl (Or.inr hmem)
  · intro id hremoved
    rw [put_msgs, put_removed, Finmap.mem_insert, Finset.mem_erase]
    by_cases hid : id = key
    · exact Or.inl (Or.inl hid)
    · exact Or.inr ⟨hid, hremoved⟩
  · intro hapart id hremoved hmem
    rw [put_removed, Finset.mem_erase] at hremoved
    rw [put_msgs, Finmap.mem_insert] at hmem
    rcases hmem with heq | hin
    · exact hremoved.left heq
    · exact hapart id hremoved.right hin

theorem moves_insertMsg (cfg : Config) (now : Int) (key : MsgId) (msg : StoredMsg)
    (m : MemState) : Moves m (m.insertMsg cfg now key msg) :=
  (moves_put key msg m).trans (moves_evict cfg now (m.put key msg))

theorem moves_mark (clientId : String) (m : MemState) (id : MsgId) :
    Moves m (m.mark clientId id) := by
  unfold mark
  cases hlookup : m.msgs.lookup id with
  | none =>
      constructor
      · intro id' msg' hlookup' hclean
        exact ⟨hlookup', fun hdirty => hclean (Finset.mem_insert_of_mem hdirty)⟩
      · intro id' hmem
        exact Or.inl hmem
      · intro id' hremoved
        exact Or.inr hremoved
      · intro hapart
        exact hapart
  | some msg =>
      have hin : id ∈ m.msgs := Finmap.mem_of_lookup_eq_some hlookup
      constructor
      · intro id' msg' hlookup' hclean
        rw [Finset.mem_insert, not_or] at hclean
        rw [Table.lookup_insert_if, if_neg hclean.left] at hlookup'
        exact ⟨hlookup', hclean.right⟩
      · intro id' hmem
        left
        exact Finmap.mem_insert.mpr (Or.inr hmem)
      · intro id' hremoved
        exact Or.inr hremoved
      · intro hapart id' hremoved hmem
        rcases Finmap.mem_insert.mp hmem with heq | hold
        · rw [heq] at hremoved
          exact hapart id hremoved hin
        · exact hapart id' hremoved hold

theorem moves_deliver (now : Int) (clientId : String) (iter : List MsgId) (m : MemState) :
    Moves m (m.deliver now clientId iter).1 :=
  Moves.foldl (moves_mark clientId) _ m

theorem moves_get (cfg : Config) (now : Int) (clientId : String) (iter : List MsgId)
    (m : MemState) : Moves m (m.get cfg now clientId iter).1 :=
  (moves_evict cfg now m).trans (moves_deliver now clientId iter (m.evict cfg now))

/-!
## The byte count
-/

/-- The byte count is the size of all messages, and no addition saturates. -/
structure Counted (m : MemState) : Prop where
  counted : m.bytes = Table.total StoredMsg.approxSize m.msgs
  fits : Table.total StoredMsg.approxSize m.msgs ≤ usizeMax

namespace Counted

variable {m : MemState}

theorem evictOne (h : Counted m) (id : MsgId) : Counted (m.evictOne id) := by
  unfold MemState.evictOne
  cases hlookup : m.msgs.lookup id with
  | none => exact h
  | some msg =>
      have htotal := @Table.total_erase _ _ _ StoredMsg.approxSize m.msgs id msg hlookup
      have hcounted := h.counted
      have hfits := h.fits
      constructor
      · show m.bytes - msg.approxSize = Table.total StoredMsg.approxSize (m.msgs.erase id)
        omega
      · show Table.total StoredMsg.approxSize (m.msgs.erase id) ≤ usizeMax
        omega

/-- A stored message adds its size, in exchange for the size of the one it replaces. -/
theorem put {key : MsgId} {msg : StoredMsg} (h : Counted m)
    (hfits : Table.total StoredMsg.approxSize (m.msgs.insert key msg) ≤ usizeMax) :
    Counted (m.put key msg) := by
  constructor
  · rw [put_msgs]
    show (MemState.place key msg { m with removed := m.removed.erase key }).bytes = _
    unfold MemState.place saturatingAdd
    cases hlookup : m.msgs.lookup key with
    | none =>
        have htotal := @Table.total_insert _ _ _ StoredMsg.approxSize m.msgs key msg
          (Finmap.lookup_eq_none.mp hlookup)
        dsimp only
        rw [h.counted, ← htotal]
        exact Nat.min_eq_left hfits
    | some old =>
        have htotal := @Table.total_replace _ _ _ StoredMsg.approxSize m.msgs key old msg hlookup
        have herase := @Table.total_erase _ _ _ StoredMsg.approxSize m.msgs key old hlookup
        dsimp only
        rw [h.counted]
        omega
  · rw [put_msgs]
    exact hfits

/-- A mark does not change the size of a message. -/
theorem mark (h : Counted m) (clientId : String) (id : MsgId) :
    Counted (m.mark clientId id) := by
  unfold MemState.mark
  cases hlookup : m.msgs.lookup id with
  | none => exact ⟨h.counted, h.fits⟩
  | some msg =>
      have htotal := @Table.total_replace _ _ _ StoredMsg.approxSize m.msgs id msg
        { msg with deliveredTo := insert clientId msg.deliveredTo } hlookup
      have hsize : StoredMsg.approxSize
          { msg with deliveredTo := insert clientId msg.deliveredTo } = msg.approxSize := rfl
      rw [hsize] at htotal
      have hsame := Nat.add_right_cancel htotal
      exact ⟨h.counted.trans hsame.symm, hsame.le.trans h.fits⟩

end Counted

/-!
## The topic index
-/

/-- The topic index and the byte count describe the messages in memory. -/
structure Indexed (m : MemState) : Prop where
  exact : forall topic id, id ∈ Index.entriesOf m.byTopic topic <->
    exists msg, m.msgs.lookup id = some msg ∧ msg.publish.topic = topic
  noEmpty : Index.NoEmpty m.byTopic
  counted : m.bytes = Table.total StoredMsg.approxSize m.msgs
  fits : Table.total StoredMsg.approxSize m.msgs ≤ usizeMax

namespace Indexed

variable {m m' : MemState}

theorem toCounted (h : Indexed m) : Counted m :=
  ⟨h.counted, h.fits⟩

/-- Index and byte count are determined by the messages. -/
theorem determined (h : Indexed m) (h' : Indexed m') (hmsgs : m.msgs = m'.msgs) :
    m.byTopic = m'.byTopic ∧ m.bytes = m'.bytes := by
  constructor
  · apply Index.ext_of_noEmpty h.noEmpty h'.noEmpty
    intro topic id
    rw [h.exact topic id, h'.exact topic id, hmsgs]
  · rw [h.counted, h'.counted, hmsgs]

theorem evictOne (h : Indexed m) (id : MsgId) : Indexed (m.evictOne id) := by
  have hcounted := h.toCounted.evictOne id
  unfold MemState.evictOne at hcounted ⊢
  cases hlookup : m.msgs.lookup id with
  | none => exact h
  | some msg =>
      rw [hlookup] at hcounted
      constructor
      · intro topic id'
        show id' ∈ Index.entriesOf (Index.drop m.byTopic msg.publish.topic id) topic <-> _
        rw [Index.mem_drop, h.exact topic id', Table.lookup_erase_if]
        by_cases hid : id' = id
        · rw [if_pos hid]
          constructor
          · rintro ⟨hother, msg', hlookup', htopic⟩
            rw [hid, hlookup] at hlookup'
            rw [← Option.some.inj hlookup'] at htopic
            exact absurd ⟨htopic.symm, hid⟩ hother
          · rintro ⟨msg', hnone, _⟩
            cases hnone
        · rw [if_neg hid]
          constructor
          · intro hmem
            exact hmem.right
          · intro hmem
            exact ⟨fun hboth => hid hboth.right, hmem⟩
      · exact Index.noEmpty_drop h.noEmpty msg.publish.topic id
      · exact hcounted.counted
      · exact hcounted.fits

theorem setOrder (h : Indexed m) (order : List MsgId) : Indexed { m with order := order } where
  exact := h.exact
  noEmpty := h.noEmpty
  counted := h.counted
  fits := h.fits

theorem evictFrom (cfg : Config) (now : Int) (order : List MsgId) (h : Indexed m) :
    Indexed (MemState.evictFrom cfg now order m) := by
  induction order generalizing m with
  | nil => exact h.setOrder []
  | cons id rest ih =>
      unfold MemState.evictFrom
      split
      · exact h.setOrder (id :: rest)
      · exact ih (h.evictOne id)

theorem evict (h : Indexed m) (cfg : Config) (now : Int) : Indexed (m.evict cfg now) :=
  evictFrom cfg now m.order h

/-- A stored message adds its entry, as long as it does not move its id to another topic. -/
theorem put {key : MsgId} {msg : StoredMsg} (h : Indexed m)
    (hsame : forall old, m.msgs.lookup key = some old -> old.publish.topic = msg.publish.topic)
    (hfits : Table.total StoredMsg.approxSize (m.msgs.insert key msg) ≤ usizeMax) :
    Indexed (m.put key msg) := by
  have hcounted := h.toCounted.put hfits
  constructor
  · intro topic id
    rw [put_byTopic, put_msgs, Index.mem_add, h.exact topic id, Table.lookup_insert_if]
    by_cases hid : id = key
    · rw [if_pos hid, hid]
      constructor
      · rintro (⟨htopic, _⟩ | ⟨old, hlookup, htopic⟩)
        · exact ⟨msg, rfl, htopic.symm⟩
        · exact ⟨msg, rfl, (hsame old hlookup).symm.trans htopic⟩
      · rintro ⟨msg', hlookup, htopic⟩
        rw [← Option.some.inj hlookup] at htopic
        exact Or.inl ⟨htopic.symm, rfl⟩
    · rw [if_neg hid]
      constructor
      · rintro (⟨_, heq⟩ | hold)
        · exact absurd heq hid
        · exact hold
      · intro hold
        exact Or.inr hold
  · rw [put_byTopic]
    exact Index.noEmpty_add h.noEmpty msg.publish.topic key
  · exact hcounted.counted
  · exact hcounted.fits

/-- A mark does not change the topic of a message. -/
theorem mark (h : Indexed m) (clientId : String) (id : MsgId) : Indexed (m.mark clientId id) := by
  have hcounted := h.toCounted.mark clientId id
  unfold MemState.mark at hcounted ⊢
  cases hlookup : m.msgs.lookup id with
  | none => exact ⟨h.exact, h.noEmpty, h.counted, h.fits⟩
  | some msg =>
      rw [hlookup] at hcounted
      constructor
      · intro topic id'
        show id' ∈ Index.entriesOf m.byTopic topic <-> _
        rw [h.exact topic id', Table.lookup_insert_if]
        by_cases hid : id' = id
        · rw [if_pos hid, hid, hlookup]
          constructor
          · rintro ⟨msg', hmsg, htopic⟩
            rw [← Option.some.inj hmsg] at htopic
            exact ⟨_, rfl, htopic⟩
          · rintro ⟨msg', hmsg, htopic⟩
            rw [← Option.some.inj hmsg] at htopic
            exact ⟨msg, rfl, htopic⟩
        · rw [if_neg hid]
      · exact h.noEmpty
      · exact hcounted.counted
      · exact hcounted.fits

theorem deliver (h : Indexed m) (now : Int) (clientId : String) (iter : List MsgId) :
    Indexed (m.deliver now clientId iter).1 :=
  @List.foldlRecOn MemState MsgId Indexed _ (MemState.mark clientId) m h
    (fun _m hm id _hid => hm.mark clientId id)

end Indexed

end MemState

end Store
end Ciqada
