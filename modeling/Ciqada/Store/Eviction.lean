import Ciqada.Foundation.Trim
import Ciqada.Store.Coherence

/-!
# What eviction removes

Eviction trims the order of arrival: it takes ids from the front until the rest
is within the caps and starts with a live message.  The counters that the loop
tests are the length and the weight of that rest, because the representation is
kept from round to round.
-/

namespace Ciqada
namespace Store

open Foundation Broker

namespace MemState

variable {cfg : Config} {now : Int} {m m' : MemState} {ids : List MsgId}

/-!
## What may be left
-/

/-- The messages under these ids, taken together, are within the caps. -/
def WithinCaps (cfg : Config) (m : MemState) (ids : List MsgId) : Prop :=
  (cfg.maxMsgs = 0 ∨ ids.length ≤ cfg.maxMsgs) ∧
    (cfg.maxBytes = 0 ∨
      (ids.map (Table.weight StoredMsg.approxSize m.msgs)).sum ≤ cfg.maxBytes)

instance (cfg : Config) (m : MemState) (ids : List MsgId) : Decidable (WithinCaps cfg m ids) :=
  inferInstanceAs (Decidable ((_ ∨ _) ∧ (_ ∨ _)))

/-- They are within the caps, and the first of them is live. -/
def Settled (cfg : Config) (now : Int) (m : MemState) (ids : List MsgId) : Prop :=
  WithinCaps cfg m ids ∧ forall id, id ∈ ids.head? -> m.expired now id = false

instance (cfg : Config) (now : Int) (m : MemState) :
    DecidablePred (Settled cfg now m) :=
  fun _ids => inferInstanceAs (Decidable (_ ∧ _))

theorem withinCaps_nil (cfg : Config) (m : MemState) : WithinCaps cfg m [] :=
  ⟨Or.inr (Nat.zero_le _), Or.inr (Nat.zero_le _)⟩

theorem settled_nil (cfg : Config) (now : Int) (m : MemState) : Settled cfg now m [] :=
  ⟨withinCaps_nil cfg m, fun _ h => absurd h (Option.not_mem_none _)⟩

/-- A shorter rest is within the caps as well. -/
theorem WithinCaps.suffix {ids' : List MsgId} (h : WithinCaps cfg m ids) (hsuffix : ids' <:+ ids) :
    WithinCaps cfg m ids' := by
  rcases hsuffix with ⟨front, rfl⟩
  unfold WithinCaps at h ⊢
  rw [List.length_append, List.map_append, List.sum_append] at h
  constructor
  · rcases h.left with hnone | hcount
    · exact Or.inl hnone
    · exact Or.inr (by omega)
  · rcases h.right with hnone | hsize
    · exact Or.inl hnone
    · exact Or.inr (by omega)

/-- The counters of a memory that holds exactly these ids tell whether it is within the caps. -/
theorem overCap_eq_false_iff (h : Coherent { m with order := ids }) :
    m.overCap cfg = false <-> WithinCaps cfg m ids := by
  have htotal := @Table.total_of_list _ _ _ StoredMsg.approxSize m.msgs _ h.orderNodup h.orderExact
  have hbytes : m.bytes = Table.total StoredMsg.approxSize m.msgs := h.counts.counted
  unfold overCap WithinCaps
  rw [htotal.left, hbytes, htotal.right, Bool.or_eq_false_iff, Bool.and_eq_false_iff,
    Bool.and_eq_false_iff]
  simp only [decide_eq_false_iff_not]
  omega

theorem stops_iff {id : MsgId} {rest : List MsgId}
    (h : Coherent { m with order := id :: rest }) :
    (!m.overCap cfg && !m.expired now id) = true <-> Settled cfg now m (id :: rest) := by
  rw [Bool.and_eq_true, Bool.not_eq_true', Bool.not_eq_true', overCap_eq_false_iff h]
  unfold Settled
  rw [List.head?_cons]
  constructor
  · rintro ⟨hcaps, hlive⟩
    refine ⟨hcaps, ?_⟩
    rintro id' ⟨⟩
    exact hlive
  · rintro ⟨hcaps, hlive⟩
    exact ⟨hcaps, hlive id rfl⟩

/-- Only the messages under the ids matter. -/
theorem settled_congr (h : forall id, id ∈ ids -> m.msgs.lookup id = m'.msgs.lookup id) :
    Settled cfg now m ids <-> Settled cfg now m' ids := by
  have hsizes : ids.map (Table.weight StoredMsg.approxSize m.msgs) =
      ids.map (Table.weight StoredMsg.approxSize m'.msgs) := by
    apply List.map_congr_left
    intro id hid
    unfold Table.weight
    rw [h id hid]
  have hfront : forall id, id ∈ ids.head? -> m.expired now id = m'.expired now id := by
    intro id hid
    unfold expired
    rw [h id (List.mem_of_mem_head? hid)]
  unfold Settled WithinCaps
  rw [hsizes]
  apply and_congr Iff.rfl
  constructor
  · intro hlive id hid
    rw [← hfront id hid]
    exact hlive id hid
  · intro hlive id hid
    rw [hfront id hid]
    exact hlive id hid

/-!
## The loop
-/

/-- Memory after the ids that are gone were evicted, with the rest of the order. -/
structure Evicted (m m' : MemState) (gone kept : List MsgId) : Prop where
  order : m'.order = kept
  msgs : forall id, m'.msgs.lookup id = if id ∈ gone then none else m.msgs.lookup id
  removed : m'.removed = m.removed ∪ gone.toFinset
  dirty : m'.dirty = m.dirty \ gone.toFinset

theorem Evicted.refl (m : MemState) (order : List MsgId) :
    Evicted m { m with order := order } [] order where
  order := rfl
  msgs _ := (if_neg List.not_mem_nil).symm
  removed := by simp
  dirty := by simp

/-- One round more in front. -/
theorem Evicted.cons {id : MsgId} {gone kept : List MsgId} (hin : id ∈ m.msgs)
    (h : Evicted (m.evictOne id) m' gone kept) : Evicted m m' (id :: gone) kept := by
  rcases Finmap.mem_iff.mp hin with ⟨msg, hlookup⟩
  rw [evictOne_of_lookup hlookup] at h
  constructor
  · exact h.order
  · intro id'
    rw [h.msgs, Table.lookup_erase_if]
    by_cases hgone : id' ∈ gone
    · rw [if_pos hgone, if_pos (List.mem_cons_of_mem id hgone)]
    · rw [if_neg hgone]
      by_cases hid : id' = id
      · rw [if_pos hid, if_pos (hid ▸ List.mem_cons_self)]
      · rw [if_neg hid, if_neg]
        rw [List.mem_cons, not_or]
        exact ⟨hid, hgone⟩
  · rw [h.removed, List.toFinset_cons, Finset.insert_union, Finset.union_insert]
  · rw [h.dirty, List.toFinset_cons, Finset.sdiff_insert, Finset.erase_sdiff_comm]

theorem evicted_evictFrom {order : List MsgId} (h : Coherent { m with order := order }) :
    exists gone, order = gone ++ trim (Settled cfg now m) order ∧
      Evicted m (evictFrom cfg now order m) gone (trim (Settled cfg now m) order) := by
  induction order generalizing m with
  | nil => exact ⟨[], rfl, Evicted.refl m []⟩
  | cons id rest ih =>
      have hnodup := List.nodup_cons.mp h.orderNodup
      unfold evictFrom
      split
      · rename_i hstops
        rw [trim_of_ok ((stops_iff h).mp hstops)]
        exact ⟨[], rfl, Evicted.refl m (id :: rest)⟩
      · rename_i hgoes
        rw [trim_cons_of_not (fun hsettled => hgoes ((stops_iff h).mpr hsettled))]
        -- the messages of the rest are the same after this round
        have hsame : trim (Settled cfg now (m.evictOne id)) rest =
            trim (Settled cfg now m) rest := by
          apply trim_congr
          intro ids hsuffix
          apply settled_congr
          intro id' hid'
          have hne : id' ≠ id := by
            intro heq
            rw [heq] at hid'
            exact hnodup.left (hsuffix.subset hid')
          exact lookup_evictOne_of_ne hne
        rcases ih h.evictOne with ⟨gone, hsplit, hevicted⟩
        rw [hsame] at hsplit hevicted
        refine ⟨id :: gone, congrArg (List.cons id) hsplit, ?_⟩
        exact hevicted.cons ((h.orderExact id).mp List.mem_cons_self)

/-- Eviction leaves the longest rest of the order that may be left. -/
theorem Coherent.evicted (h : Coherent m) (cfg : Config) (now : Int) :
    exists gone, m.order = gone ++ trim (Settled cfg now m) m.order ∧
      Evicted m (m.evict cfg now) gone (trim (Settled cfg now m) m.order) :=
  evicted_evictFrom h

/-!
## A new message

The byte count may have saturated here, so only a bound on it is used.
-/

/-- A live message at the end of the order that fits on its own outlasts the loop. -/
theorem lookup_evictFrom_last {order : List MsgId} {key : MsgId} {msg : StoredMsg}
    (hnodup : (order ++ [key]).Nodup) (hids : forall id, id ∈ order ++ [key] <-> id ∈ m.msgs)
    (hbytes : m.bytes ≤ Table.total StoredMsg.approxSize m.msgs)
    (hlookup : m.msgs.lookup key = some msg) (hlive : now < msg.expiryAt)
    (hfits : cfg.maxBytes = 0 ∨ msg.approxSize ≤ cfg.maxBytes) :
    (evictFrom cfg now (order ++ [key]) m).msgs.lookup key = some msg := by
  induction order generalizing m with
  | nil =>
      -- all others are gone, so the counters are those of the message
      have hcounts := @Table.total_of_list _ _ _ StoredMsg.approxSize m.msgs _ hnodup hids
      rw [List.nil_append, List.length_singleton, List.map_singleton, List.sum_singleton,
        Table.weight_of_lookup hlookup] at hcounts
      have hroom : m.overCap cfg = false := by
        unfold overCap
        rw [hcounts.left, Bool.or_eq_false_iff, Bool.and_eq_false_iff, Bool.and_eq_false_iff]
        simp only [decide_eq_false_iff_not]
        omega
      have hexpired : m.expired now key = false := by
        unfold expired
        rw [hlookup]
        exact decide_eq_false (not_le.mpr hlive)
      rw [List.nil_append]
      unfold evictFrom
      rw [hroom, hexpired]
      exact hlookup
  | cons id order ih =>
      rw [List.cons_append] at hnodup hids ⊢
      rcases List.nodup_cons.mp hnodup with ⟨hout, hrest⟩
      unfold evictFrom
      split
      · exact hlookup
      · rcases Finmap.mem_iff.mp ((hids id).mp List.mem_cons_self) with ⟨first, hfirst⟩
        have herase := @Table.total_erase _ _ _ StoredMsg.approxSize m.msgs id first hfirst
        have hne : key ≠ id := by
          intro heq
          rw [← heq] at hout
          exact hout (List.mem_append_right order (List.mem_singleton_self key))
        apply ih hrest
        · intro id'
          rw [evictOne_of_lookup hfirst, Finmap.mem_erase, ← hids id', mem_rest_iff hnodup]
        · rw [evictOne_of_lookup hfirst]
          show m.bytes - first.approxSize ≤ Table.total StoredMsg.approxSize (m.msgs.erase id)
          omega
        · rw [lookup_evictOne_of_ne hne]
          exact hlookup

theorem bytes_put_le {key : MsgId} {msg : StoredMsg} (h : Counted m) (hnew : key ∉ m.msgs) :
    (m.put key msg).bytes ≤ Table.total StoredMsg.approxSize (m.put key msg).msgs := by
  rw [put_msgs, Table.total_insert msg hnew, ← h.counted]
  show (MemState.place key msg { m with removed := m.removed.erase key }).bytes ≤ _
  unfold MemState.place saturatingAdd
  rw [Finmap.lookup_eq_none.mpr hnew]
  exact Nat.min_le_left _ _

/-- A new message is not dropped by its own insertion. -/
theorem Coherent.lookup_insertMsg {key : MsgId} {msg : StoredMsg} (h : Coherent m)
    (hnew : key ∉ m.msgs) (hlive : now < msg.expiryAt)
    (hfits : cfg.maxBytes = 0 ∨ msg.approxSize ≤ cfg.maxBytes) :
    (m.insertMsg cfg now key msg).msgs.lookup key = some msg := by
  have horder : (m.put key msg).order = m.order ++ [key] := by
    rw [Coherent.put_order, if_neg hnew]
  unfold insertMsg MemState.evict
  rw [horder]
  apply lookup_evictFrom_last ?_ ?_ (bytes_put_le h.counts hnew) ?_ hlive hfits
  · rw [List.nodup_append]
    refine ⟨h.orderNodup, List.nodup_singleton key, ?_⟩
    intro id hid id' hid' heq
    rw [heq, List.mem_singleton.mp hid'] at hid
    exact hnew ((h.orderExact key).mp hid)
  · intro id
    rw [put_msgs, Finmap.mem_insert, List.mem_append, List.mem_singleton, h.orderExact id]
    exact or_comm
  · rw [put_msgs, Finmap.lookup_insert]

theorem evict_trims_front (h : Coherent m) (cfg : Config) (now : Int) :
    (exists gone kept, m.order = gone ++ kept ∧ Settled cfg now m kept ∧
      (forall gone' kept', m.order = gone' ++ kept' -> Settled cfg now m kept' ->
        gone.length ≤ gone'.length) ∧
      Evicted m (m.evict cfg now) gone kept) ∧
    (m.evict cfg now).evict cfg now = m.evict cfg now ∧
    forall key msg, key ∉ m.msgs -> now < msg.expiryAt ->
      (cfg.maxBytes = 0 ∨ msg.approxSize ≤ cfg.maxBytes) ->
      (m.insertMsg cfg now key msg).msgs.lookup key = some msg := by
  refine ⟨?_, evict_of_rests (rests_evict cfg now m),
    fun key msg hnew hlive hfits => h.lookup_insertMsg hnew hlive hfits⟩
  rcases h.evicted cfg now with ⟨gone, hsplit, hevicted⟩
  refine ⟨gone, _, hsplit, ok_trim (settled_nil cfg now m) m.order, ?_, hevicted⟩
  intro gone' kept' hsplit' hsettled
  have hkept := (suffix_trim_of_ok ⟨gone', hsplit'.symm⟩ hsettled).length_le
  have hlength := congrArg List.length (hsplit.symm.trans hsplit')
  rw [List.length_append, List.length_append] at hlength
  omega

end MemState

/-!
## Where a run evicts
-/

namespace System

variable {Row : Type} {cfg : Config} {codec : Codec Row} {s s' : System Row}

/-- The memory and the time at which an event evicts; the worker does so after storing. -/
def evictionOf (s : System Row) : Event -> Option (MemState × Int)
  | Event.work now => s.channel.head?.map (fun entry => (s.mem.put entry.1 entry.2, now))
  | Event.get now _ _ _ => some (s.mem, now)
  | Event.flush now _ => some (s.mem, now)
  | Event.nextMsgId => none
  | Event.store _ _ _ _ _ => none
  | Event.settle _ => none

theorem coherent_evictionOf {e : Event} {m : MemState} {now : Int} (h : s.mem.Coherent)
    (hstep : step cfg codec s e = some s') (hm : s.evictionOf e = some (m, now)) :
    m.Coherent := by
  cases e with
  | work now' =>
      rcases of_step_work hstep with ⟨key, msg, rest, hchannel, hfits, _⟩
      unfold evictionOf at hm
      rw [hchannel] at hm
      rw [← (Prod.mk.inj (Option.some.inj hm)).left]
      exact h.put hfits
  | get now' clientId topicFilter iter =>
      rw [← (Prod.mk.inj (Option.some.inj hm)).left]
      exact h
  | flush now' commits =>
      rw [← (Prod.mk.inj (Option.some.inj hm)).left]
      exact h
  | nextMsgId => cases hm
  | store now' msgId sender p expiryInterval => cases hm
  | settle i => cases hm

end System

namespace Sample

/-- Room for one message. -/
def tight : Config :=
  { nodeId := 1, maxMsgs := 1, maxBytes := 0 }

/-- Three messages, of which the first expires before the others. -/
def three : List Event :=
  [Event.store 10 7 sender (publish "a") 5, Event.work 11,
    Event.store 10 8 sender (publish "a") 90, Event.work 12,
    Event.store 10 9 sender (publish "a") 190, Event.work 13]

end Sample

namespace MemState

theorem evict_trims_front_three :
    exists m : MemState, m.order = [7, 8, 9] ∧ (exists gone kept, m.order = gone ++ kept ∧
      Settled Sample.tight 20 m kept ∧ Evicted m (m.evict Sample.tight 20) gone kept) ∧
      (m.evict Sample.tight 20).order = [9] := by
  have hrun := @Run.of_isSome _ _ (System.step Sample.cfg Sample.codec) Always _ Sample.blank
    Sample.three (by decide +kernel)
  have hcoherent := System.coherent_run Sample.blank_eq hrun
  rcases (evict_trims_front hcoherent Sample.tight 20).left with
    ⟨gone, kept, hsplit, hsettled, _, hevicted⟩
  exact ⟨_, by decide +kernel, ⟨gone, kept, hsplit, hsettled, hevicted⟩, by decide +kernel⟩

end MemState

end Store
end Ciqada
