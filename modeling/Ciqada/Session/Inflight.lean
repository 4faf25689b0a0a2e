import Mathlib.Data.Finset.Card
import Mathlib.Data.Finset.Image
import Mathlib.Data.Finset.Range
import Ciqada.Session.Shared

/-!
# Messages in flight

A message that waits for an acknowledgement is kept in a window under its packet
id.  Packet ids are drawn from a counter of 16 bits that wraps; an id that is in
flight is passed over.  The room left in the window is computed in machine words.
-/

namespace Ciqada
namespace Session

open Broker Api Store

/-- A message in flight and the time it was last touched. -/
structure InflightEntry where
  message : OutInflightMessage
  updateTime : Int
  deriving DecidableEq

namespace InflightEntry

def timeout (m : InflightEntry) (now intervalMillis : Int) : Bool :=
  decide (0 < intervalMillis) && decide (intervalMillis ≤ now - m.updateTime)

end InflightEntry

structure OutInflight where
  cap : Nat
  interval : Int
  next : Nat
  queues : List (Nat × InflightEntry)
  deriving DecidableEq

namespace OutInflight

/-- The shorter of two intervals, where none is written as zero. -/
def intervalOf (retryInterval expiryInterval : Int) : Int :=
  if retryInterval = 0 then expiryInterval
  else if expiryInterval = 0 then retryInterval
  else min retryInterval expiryInterval

def new (cap : Nat) (retryInterval expiryInterval : Int) : OutInflight :=
  { cap := cap, interval := intervalOf retryInterval expiryInterval, next := 1, queues := [] }

def get (w : OutInflight) (packetId : Nat) : Option InflightEntry :=
  w.queues.lookup packetId

def frontTimeout (w : OutInflight) (now : Int) : Bool :=
  if w.interval = 0 then false
  else w.queues.head?.any (fun e => e.2.timeout now w.interval)

/-- How long to wait for the first message; at least a millisecond. -/
def getTimeout (w : OutInflight) (now : Int) : Option Int :=
  if w.interval = 0 then none
  else w.queues.head?.map (fun e => max 1 (w.interval - (now - e.2.updateTime)))

def popFront (w : OutInflight) : OutInflight × Option InflightEntry :=
  ({ w with queues := w.queues.tail }, w.queues.head?.map Prod.snd)

def popFrontTimeout (w : OutInflight) (now : Int) : OutInflight × Option InflightEntry :=
  if w.frontTimeout now then w.popFront else (w, none)

def without (w : OutInflight) (packetId : Nat) : OutInflight :=
  { w with queues := w.queues.filter (fun e => e.1 != packetId) }

/-- A message takes the place of an earlier one with its packet id. -/
def pushBack (w : OutInflight) (m : InflightEntry) : OutInflight × Option InflightEntry :=
  match m.message.publish.packetId with
  | none => (w, none)
  | some packetId =>
      ({ w with queues := (w.without packetId).queues ++ [(packetId, m)] }, w.get packetId)

def remove (w : OutInflight) (packetId : Nat) : OutInflight × Option InflightEntry :=
  (w.without packetId, w.get packetId)

def updateStatus (w : OutInflight) (packetId : Nat) (now : Int) (status : MomentStatus) :
    OutInflight :=
  { w with
    queues := w.queues.map (fun e =>
      if e.1 = packetId then
        (e.1, { message := { e.2.message with status := status }, updateTime := now })
      else e) }

def exist (w : OutInflight) (packetId : Nat) : Bool :=
  decide (packetId ∈ w.queues.map Prod.fst)

/-- The difference is taken in words of 64 bits, and wraps below zero. -/
def hasCredit (w : OutInflight) : Bool :=
  decide (0 < (w.cap + (2 ^ 64 - w.queues.length % 2 ^ 64)) % 2 ^ 64)

/-- So many draws from the counter, until one is not zero and not in flight. -/
def draw (used : Nat -> Bool) : Nat -> Nat -> Option Nat × Nat
  | 0, next => (none, next)
  | draws + 1, packetId =>
      let next := (packetId + 1) % 65536
      if packetId = 0 then draw used draws next
      else if used packetId then draw used draws next
      else (some packetId, next)

def nextId (w : OutInflight) : OutInflight × Option Nat :=
  let drawn := draw w.exist 65535 w.next
  ({ w with next := drawn.2 }, drawn.1)

/-- Everything is taken out, from the front. -/
def toInflightMessages (w : OutInflight) : OutInflight × List OutInflightMessage :=
  ({ w with queues := [] }, w.queues.map (fun e => e.2.message))

/-!
## Packet ids
-/

def Free (used : Nat -> Bool) (packetId : Nat) : Prop :=
  packetId ≠ 0 ∧ used packetId = false

theorem draw_succ (used : Nat -> Bool) (draws next : Nat) :
    (Free used next ∧ draw used (draws + 1) next = (some next, (next + 1) % 65536)) ∨
      (¬ Free used next ∧
        draw used (draws + 1) next = draw used draws ((next + 1) % 65536)) := by
  unfold Free
  show (_ ∧ (if next = 0 then _ else if used next = true then _ else _) = _) ∨ _
  by_cases hzero : next = 0
  · right
    exact ⟨fun h => h.left hzero, if_pos hzero⟩
  · by_cases hused : used next = true
    · right
      refine ⟨fun h => Bool.noConfusion (hused.symm.trans h.right), ?_⟩
      exact (if_neg hzero).trans (if_pos hused)
    · left
      exact ⟨⟨hzero, Bool.eq_false_iff.mpr hused⟩, (if_neg hzero).trans (if_neg hused)⟩

/-- The first free id from the counter on, within the number of draws. -/
theorem draw_eq_some {used : Nat -> Bool} {draws next id cursor : Nat} (hnext : next < 65536)
    (h : draw used draws next = (some id, cursor)) :
    exists k, k < draws ∧ id = (next + k) % 65536 ∧ Free used id ∧
      cursor = (id + 1) % 65536 ∧ forall j, j < k -> ¬ Free used ((next + j) % 65536) := by
  induction draws generalizing next with
  | zero => cases h
  | succ draws ih =>
      rcases draw_succ used draws next with ⟨hfree, heq⟩ | ⟨hbusy, heq⟩
      · rw [heq] at h
        have hid : next = id := Option.some.inj (Prod.mk.inj h).left
        have hcursor := (Prod.mk.inj h).right
        refine ⟨0, Nat.succ_pos draws, ?_, hid ▸ hfree, ?_, nofun⟩
        · rw [Nat.add_zero, Nat.mod_eq_of_lt hnext, hid]
        · rw [← hid, hcursor]
      · rw [heq] at h
        rcases ih (Nat.mod_lt _ (by decide)) h with ⟨k, hk, hid, hfree, hcursor, hbefore⟩
        have hshift : forall j, ((next + 1) % 65536 + j) % 65536 = (next + (j + 1)) % 65536 := by
          intro j
          omega
        refine ⟨k + 1, Nat.succ_lt_succ hk, by rw [hid, hshift], hfree, hcursor, ?_⟩
        intro j hj
        cases j with
        | zero =>
            rw [Nat.add_zero, Nat.mod_eq_of_lt hnext]
            exact hbusy
        | succ j =>
            rw [← hshift]
            exact hbefore j (Nat.lt_of_succ_lt_succ hj)

theorem draw_eq_none {used : Nat -> Bool} {draws next : Nat} (hnext : next < 65536)
    (h : (draw used draws next).1 = none) :
    forall j, j < draws -> ¬ Free used ((next + j) % 65536) := by
  induction draws generalizing next with
  | zero => exact fun j hj => absurd hj (Nat.not_lt_zero j)
  | succ draws ih =>
      rcases draw_succ used draws next with ⟨_hfree, heq⟩ | ⟨hbusy, heq⟩
      · rw [heq] at h
        cases h
      · rw [heq] at h
        intro j hj
        cases j with
        | zero =>
            rw [Nat.add_zero, Nat.mod_eq_of_lt hnext]
            exact hbusy
        | succ j =>
            have hlater := ih (Nat.mod_lt _ (by decide)) h j (Nat.lt_of_succ_lt_succ hj)
            rw [show (next + (j + 1)) % 65536 = ((next + 1) % 65536 + j) % 65536 by omega]
            exact hlater

theorem draw_cursor {used : Nat -> Bool} {draws next : Nat} (hnext : next < 65536) :
    (draw used draws next).2 < 65536 := by
  induction draws generalizing next with
  | zero => exact hnext
  | succ draws ih =>
      rcases draw_succ used draws next with ⟨_hfree, heq⟩ | ⟨_hbusy, heq⟩
      · rw [heq]
        exact Nat.mod_lt _ (by decide)
      · rw [heq]
        exact ih (Nat.mod_lt _ (by decide))

theorem card_range_erase_two (n x y : Nat) :
    n ≤ (((Finset.range n).erase x).erase y).card + 2 := by
  have hx := Finset.pred_card_le_card_erase (s := Finset.range n) (a := x)
  have hy := Finset.pred_card_le_card_erase (s := (Finset.range n).erase x) (a := y)
  rw [Finset.card_range] at hx
  omega

variable {w : OutInflight}

theorem exist_iff {packetId : Nat} :
    w.exist packetId = true <-> packetId ∈ w.queues.map Prod.fst := by
  unfold exist
  rw [decide_eq_true_iff]

/--
A packet id that is drawn is the first that is not in flight, from the counter on.
None is drawn only when all ids but the one that the counter has just passed are in
flight, so that up to 65533 messages in flight there always is one.
-/
theorem nextId_exact (w : OutInflight) (hnext : w.next < 65536) :
    (forall id, (w.nextId).2 = some id ->
      (id ≠ 0 ∧ id < 65536 ∧ id ∉ w.queues.map Prod.fst) ∧
        (w.nextId).1 = { w with next := (id + 1) % 65536 } ∧
        exists k, k < 65535 ∧ id = (w.next + k) % 65536 ∧
          forall j, j < k -> (w.next + j) % 65536 = 0 ∨
            (w.next + j) % 65536 ∈ w.queues.map Prod.fst) ∧
    ((w.nextId).2 = none <->
      forall id, 0 < id -> id < 65536 -> id ≠ (w.next + 65535) % 65536 ->
        id ∈ w.queues.map Prod.fst) ∧
    (w.queues.length ≤ 65533 -> (w.nextId).2.isSome = true) := by
  have hbusy : forall id, ¬ Free w.exist id -> id = 0 ∨ id ∈ w.queues.map Prod.fst := by
    intro id hid
    by_cases hzero : id = 0
    · exact Or.inl hzero
    · right
      rw [← exist_iff]
      by_contra hnot
      exact hid ⟨hzero, Bool.eq_false_iff.mpr hnot⟩
  have hnone : (w.nextId).2 = none <->
      forall id, 0 < id -> id < 65536 -> id ≠ (w.next + 65535) % 65536 ->
        id ∈ w.queues.map Prod.fst := by
    constructor
    · intro h id hpos hlt hid
      have hdrawn : (draw w.exist 65535 w.next).1 = none := h
      have hall := draw_eq_none hnext hdrawn ((id + 65536 - w.next) % 65536) (by omega)
      rw [show (w.next + (id + 65536 - w.next) % 65536) % 65536 = id by omega] at hall
      rcases hbusy id hall with hzero | hmem
      · omega
      · exact hmem
    · intro hall
      by_contra hsome
      cases hdrawn : draw w.exist 65535 w.next with
      | mk drawn cursor =>
          cases drawn with
          | none => exact hsome (congrArg Prod.fst hdrawn)
          | some id =>
              rcases draw_eq_some hnext hdrawn with ⟨k, hk, hid, hfree, _hcursor, _hbefore⟩
              have hmem := hall id (Nat.pos_of_ne_zero hfree.left) (by omega) (by omega)
              have hused := exist_iff.mpr hmem
              rw [hfree.right] at hused
              cases hused
  refine ⟨?_, hnone, ?_⟩
  · intro id hid
    cases hdrawn : draw w.exist 65535 w.next with
    | mk drawn cursor =>
        have hdrawnId : drawn = some id := by
          rw [← hid]
          exact (congrArg Prod.fst hdrawn).symm
        rw [hdrawnId] at hdrawn
        rcases draw_eq_some hnext hdrawn with ⟨k, hk, heq, hfree, hcursor, hbefore⟩
        refine ⟨⟨hfree.left, by omega, ?_⟩, ?_, k, hk, heq, ?_⟩
        · intro hmem
          have hused := exist_iff.mpr hmem
          rw [hfree.right] at hused
          cases hused
        · unfold nextId
          dsimp only
          rw [hdrawn, hcursor]
        · intro j hj
          exact hbusy _ (hbefore j hj)
  · intro hlen
    rw [← Option.ne_none_iff_isSome]
    intro hno
    have hall := hnone.mp hno
    -- all ids but zero and one more are in flight
    have hsub : ((Finset.range 65536).erase 0).erase ((w.next + 65535) % 65536) ⊆
        (w.queues.map Prod.fst).toFinset := by
      intro id hid
      rw [Finset.mem_erase, Finset.mem_erase, Finset.mem_range] at hid
      exact List.mem_toFinset.mpr
        (hall id (Nat.pos_of_ne_zero hid.right.left) hid.right.right hid.left)
    have hcard := Finset.card_le_card hsub
    have hfew := List.toFinset_card_le (w.queues.map Prod.fst)
    have hmany := card_range_erase_two 65536 0 ((w.next + 65535) % 65536)
    rw [List.length_map] at hfew
    omega

/-- A new window has an id to give. -/
theorem nextId_exact_sample :
    ((new 65535 0 0).nextId).2.isSome = true :=
  (nextId_exact (new 65535 0 0) (by decide)).right.right (by decide)

/-!
## Room and time
-/

/-- There is credit exactly when the window is not full, if it is not overfull. -/
theorem hasCredit_iff (hcap : w.cap < 2 ^ 64) (hlen : w.queues.length ≤ w.cap) :
    w.hasCredit = true <-> w.queues.length < w.cap := by
  unfold hasCredit
  rw [decide_eq_true_iff]
  omega

/-- An overfull window has credit again, since the difference wraps. -/
theorem hasCredit_of_overfull (hcap : w.cap < w.queues.length)
    (hlen : w.queues.length < 2 ^ 64) : w.hasCredit = true := by
  unfold hasCredit
  rw [decide_eq_true_iff]
  omega

/-- Once the wait is over the first message has timed out. -/
theorem frontTimeout_of_getTimeout {now t : Int} (hinterval : 0 < w.interval)
    (h : w.getTimeout now = some t) : w.frontTimeout (now + t) = true := by
  unfold getTimeout at h
  unfold frontTimeout
  rw [if_neg hinterval.ne'] at h ⊢
  cases hhead : w.queues.head? with
  | none =>
      rw [hhead] at h
      cases h
  | some e =>
      rw [hhead] at h
      have ht : max 1 (w.interval - (now - e.2.updateTime)) = t := Option.some.inj h
      show (decide _ && decide _) = true
      rw [decide_eq_true hinterval, Bool.true_and, decide_eq_true_iff]
      omega

end OutInflight

end Session
end Ciqada
