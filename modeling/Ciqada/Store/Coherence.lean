import Ciqada.Store.Reopen

/-!
# The representation of the store in memory

The order of arrival lists every message once, the byte count is exact, and the
two sets of owed changes are about ids in memory and ids out of memory.  Ids are
arbitrary here: an id may be stored again while it is in memory or after its
eviction.
-/

namespace Ciqada
namespace Store

open Foundation Broker

namespace MemState

structure Coherent (m : MemState) : Prop where
  orderNodup : m.order.Nodup
  orderExact : forall id, id ∈ m.order <-> id ∈ m.msgs
  counts : Counted m
  dirtyHeld : forall id, id ∈ m.dirty -> id ∈ m.msgs
  removedGone : forall id, id ∈ m.removed -> id ∉ m.msgs

theorem mem_rest_iff {id id' : MsgId} {rest : List MsgId} (hnodup : (id :: rest).Nodup) :
    id' ∈ rest <-> id' ≠ id ∧ id' ∈ id :: rest := by
  constructor
  · intro hrest
    refine ⟨?_, List.mem_cons_of_mem id hrest⟩
    intro heq
    rw [heq] at hrest
    exact (List.nodup_cons.mp hnodup).left hrest
  · intro h
    exact (List.mem_cons.mp h.right).resolve_left h.left

namespace Coherent

variable {m : MemState}

/-!
## Eviction
-/

/-- One round of the loop takes the front of the order out of memory. -/
theorem evictOne {id : MsgId} {rest : List MsgId}
    (h : Coherent { m with order := id :: rest }) :
    Coherent { m.evictOne id with order := rest } := by
  have hnodup := List.nodup_cons.mp h.orderNodup
  have hin : id ∈ m.msgs := (h.orderExact id).mp List.mem_cons_self
  have hcounted : Counted m := ⟨h.counts.counted, h.counts.fits⟩
  have hcounts := hcounted.evictOne id
  have hmoves := (moves_evictOne m id).apart h.removedGone
  rcases Finmap.mem_iff.mp hin with ⟨msg, hlookup⟩
  have hmem : forall id', id' ∈ (m.evictOne id).msgs <-> id' ≠ id ∧ id' ∈ m.msgs := by
    intro id'
    rw [evictOne_of_lookup hlookup]
    exact Finmap.mem_erase
  constructor
  · exact hnodup.right
  · intro id'
    show id' ∈ rest <-> id' ∈ (m.evictOne id).msgs
    rw [hmem, ← h.orderExact id']
    exact mem_rest_iff h.orderNodup
  · exact ⟨hcounts.counted, hcounts.fits⟩
  · intro id' hdirty
    show id' ∈ (m.evictOne id).msgs
    rw [hmem]
    rw [evictOne_of_lookup hlookup] at hdirty
    rcases Finset.mem_erase.mp hdirty with ⟨hne, hdirty'⟩
    exact ⟨hne, h.dirtyHeld id' hdirty'⟩
  · exact hmoves

theorem evictFrom {order : List MsgId} (cfg : Config) (now : Int)
    (h : Coherent { m with order := order }) : Coherent (MemState.evictFrom cfg now order m) := by
  induction order generalizing m with
  | nil => exact h
  | cons id rest ih =>
      unfold MemState.evictFrom
      split
      · exact h
      · exact ih h.evictOne

theorem evict (h : Coherent m) (cfg : Config) (now : Int) : Coherent (m.evict cfg now) :=
  evictFrom cfg now h

/-!
## The worker
-/

theorem put_order (key : MsgId) (msg : StoredMsg) (m : MemState) :
    (m.put key msg).order = if key ∈ m.msgs then m.order else m.order ++ [key] := by
  show (MemState.place key msg { m with removed := m.removed.erase key }).order = _
  unfold MemState.place
  cases hlookup : m.msgs.lookup key with
  | none => rw [if_neg (Finmap.lookup_eq_none.mp hlookup)]
  | some old => rw [if_pos (Finmap.mem_of_lookup_eq_some hlookup)]

theorem put {key : MsgId} {msg : StoredMsg} (h : Coherent m)
    (hfits : Table.total StoredMsg.approxSize (m.msgs.insert key msg) ≤ usizeMax) :
    Coherent (m.put key msg) := by
  constructor
  · rw [put_order]
    split
    · exact h.orderNodup
    · rename_i hnew
      rw [List.nodup_append]
      refine ⟨h.orderNodup, List.nodup_singleton key, ?_⟩
      intro id hid id' hid' heq
      rw [heq, List.mem_singleton.mp hid'] at hid
      exact hnew ((h.orderExact key).mp hid)
  · intro id
    rw [put_order, put_msgs, Finmap.mem_insert]
    split
    · rename_i hold
      rw [h.orderExact id]
      constructor
      · intro hin
        exact Or.inr hin
      · rintro (heq | hin)
        · rw [heq]
          exact hold
        · exact hin
    · rw [List.mem_append, List.mem_singleton, h.orderExact id]
      exact or_comm
  · exact h.counts.put hfits
  · intro id hdirty
    rw [put_dirty, Finset.mem_insert] at hdirty
    rw [put_msgs, Finmap.mem_insert]
    rcases hdirty with heq | hold
    · exact Or.inl heq
    · exact Or.inr (h.dirtyHeld id hold)
  · exact (moves_put key msg m).apart h.removedGone

/-!
## Replay
-/

theorem mem_mark {clientId : String} {id id' : MsgId} :
    id' ∈ (m.mark clientId id).msgs <-> id' ∈ m.msgs := by
  unfold MemState.mark
  cases hlookup : m.msgs.lookup id with
  | none => exact Iff.rfl
  | some msg =>
      rw [Finmap.mem_insert]
      constructor
      · rintro (heq | hin)
        · rw [heq]
          exact Finmap.mem_of_lookup_eq_some hlookup
        · exact hin
      · intro hin
        exact Or.inr hin

theorem mark_order (clientId : String) (m : MemState) (id : MsgId) :
    (m.mark clientId id).order = m.order := by
  unfold MemState.mark
  split <;> rfl

theorem mark_dirty (clientId : String) (m : MemState) (id : MsgId) :
    (m.mark clientId id).dirty = insert id m.dirty := by
  unfold MemState.mark
  split <;> rfl

theorem mark {id : MsgId} (h : Coherent m) (clientId : String) (hid : id ∈ m.msgs) :
    Coherent (m.mark clientId id) := by
  constructor
  · rw [mark_order]
    exact h.orderNodup
  · intro id'
    rw [mark_order, mem_mark]
    exact h.orderExact id'
  · exact h.counts.mark clientId id
  · intro id' hdirty
    rw [mark_dirty, Finset.mem_insert] at hdirty
    rw [mem_mark]
    rcases hdirty with heq | hold
    · rw [heq]
      exact hid
    · exact h.dirtyHeld id' hold
  · exact (moves_mark clientId m id).apart h.removedGone

theorem marks {ids : List MsgId} (h : Coherent m) (clientId : String)
    (hids : forall id, id ∈ ids -> id ∈ m.msgs) :
    Coherent (ids.foldl (MemState.mark clientId) m) := by
  induction ids generalizing m with
  | nil => exact h
  | cons id ids ih =>
      apply ih (h.mark clientId (hids id List.mem_cons_self))
      intro id' hid'
      rw [mem_mark]
      exact hids id' (List.mem_cons_of_mem id hid')

/-- Only ids in memory are touched. -/
theorem mem_of_hit {now : Int} {clientId : String} {id : MsgId} {entry : MsgId × From × Publish}
    (h : m.hit now clientId id = some entry) : entry.1 ∈ m.msgs := by
  unfold MemState.hit at h
  split at h
  · rename_i msg hlookup
    split at h
    · cases h
    · rw [← Option.some.inj h]
      exact Finmap.mem_of_lookup_eq_some hlookup
  · cases h

theorem deliver (h : Coherent m) (now : Int) (clientId : String) (iter : List MsgId) :
    Coherent (m.deliver now clientId iter).1 := by
  apply h.marks clientId
  intro id hid
  rcases List.mem_map.mp hid with ⟨entry, hentry, rfl⟩
  rcases List.mem_filterMap.mp hentry with ⟨id', _, hhit⟩
  exact mem_of_hit hhit

end Coherent

end MemState

namespace System

variable {Row : Type} {cfg : Config} {codec : Codec Row} {s s' : System Row}

/-!
## Opening and runs
-/

theorem perm_expiryOrder (msgs : Table MsgId StoredMsg) :
    (expiryOrder msgs).Perm ((Table.rows msgs).map Prod.fst) := by
  have hsorted := List.perm_insertionSort
    (fun a b : Int × MsgId => a.1 < b.1 ∨ (a.1 = b.1 ∧ a.2 ≤ b.2))
    ((Table.rows msgs).map (fun entry => (entry.2.expiryAt, entry.1)))
  have hids := hsorted.map Prod.snd
  rw [List.map_map] at hids
  exact hids

theorem coherent_openStore {disk : Table MsgId Row} {now : Int}
    (hopen : openStore cfg codec disk now = some s) : s.mem.Coherent := by
  unfold openStore at hopen
  dsimp only at hopen
  split at hopen
  · rename_i hfits
    rw [← Option.some.inj hopen]
    constructor
    · exact (perm_expiryOrder _).nodup_iff.mpr Table.nodup_rows
    · intro id
      rw [(perm_expiryOrder _).mem_iff, List.mem_map]
      constructor
      · rintro ⟨⟨id', msg⟩, hrow, rfl⟩
        exact Finmap.mem_of_lookup_eq_some (Table.mem_rows.mp hrow)
      · intro hin
        rcases Finmap.mem_iff.mp hin with ⟨msg, hlookup⟩
        exact ⟨(id, msg), Table.mem_rows.mpr hlookup, rfl⟩
    · exact ⟨rfl, hfits⟩
    · intro id hid
      exact absurd hid (Finset.notMem_empty id)
    · intro id hid
      exact absurd hid (Finset.notMem_empty id)
  · cases hopen

theorem coherent_step {e : Event} (h : s.mem.Coherent)
    (hstep : step cfg codec s e = some s') : s'.mem.Coherent := by
  cases e with
  | nextMsgId =>
      rw [← Option.some.inj hstep]
      exact h
  | store now msgId sender p expiryInterval =>
      rw [← Option.some.inj hstep]
      exact h
  | work now =>
      rcases of_step_work hstep with ⟨key, msg, rest, _hchannel, hfits, rfl⟩
      exact (h.put hfits).evict cfg now
  | get now clientId topicFilter iter =>
      rw [of_step_get hstep]
      exact (h.evict cfg now).deliver now clientId iter
  | flush now commits =>
      rw [← Option.some.inj hstep, snapshot_mem]
      have hevict := h.evict cfg now
      refine ⟨hevict.orderNodup, hevict.orderExact,
        ⟨hevict.counts.counted, hevict.counts.fits⟩, ?_, ?_⟩
      · intro id hid
        exact absurd hid (Finset.notMem_empty id)
      · intro id hid
        exact absurd hid (Finset.notMem_empty id)
  | settle i =>
      rcases of_step_settle hstep with ⟨f, _hf, rfl⟩
      exact h

theorem coherent_run {disk : Table MsgId Row} {opened : Int} {es : List Event} {s0 : System Row}
    (hopen : openStore cfg codec disk opened = some s0)
    (hrun : Run (step cfg codec) Always s0 es s) : s.mem.Coherent :=
  hrun.invariant (coherent_openStore hopen)
    (fun _s _e _t hinv _ hstep => coherent_step hinv hstep)

theorem representation_invariant {disk : Table MsgId Row} {opened : Int} {es : List Event}
    {s0 : System Row} (hopen : openStore cfg codec disk opened = some s0)
    (hrun : Run (step cfg codec) Always s0 es s) :
    s.mem.order.Nodup ∧ (forall id, id ∈ s.mem.order <-> id ∈ s.mem.msgs) ∧
      s.mem.bytes = Table.total StoredMsg.approxSize s.mem.msgs ∧
      (forall id, id ∈ s.mem.dirty -> id ∈ s.mem.msgs) ∧
      forall id, id ∈ s.mem.removed -> id ∉ s.mem.msgs ∧ id ∉ s.mem.dirty := by
  have h := coherent_run hopen hrun
  refine ⟨h.orderNodup, h.orderExact, h.counts.counted, h.dirtyHeld, ?_⟩
  intro id hid
  refine ⟨h.removedGone id hid, ?_⟩
  intro hdirty
  exact h.removedGone id hid (h.dirtyHeld id hdirty)

end System

namespace Sample

/-- An id is stored again on another topic, and then replayed. -/
def restore : List Event :=
  [Event.store 10 7 sender (publish "a/b") 100, Event.work 11,
    Event.store 12 7 sender (publish "c") 100, Event.work 13,
    Event.get 14 "reader" "c" [7], Event.flush 15 false, Event.settle 0]

end Sample

namespace System

theorem representation_invariant_restored :
    exists s, Run (step Sample.cfg Sample.codec) Always Sample.blank Sample.restore s ∧
      s.mem.order = [7] ∧ s.mem.bytes = Table.total StoredMsg.approxSize s.mem.msgs := by
  have hrun := @Run.of_isSome _ _ (step Sample.cfg Sample.codec) Always _ Sample.blank
    Sample.restore (by decide +kernel)
  have h := representation_invariant Sample.blank_eq hrun
  exact ⟨_, hrun, by decide +kernel, h.right.right.left⟩

end System

end Store
end Ciqada
