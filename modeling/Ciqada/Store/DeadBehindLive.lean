import Ciqada.Store.Eviction
import Ciqada.Store.Replay

/-!
# Dead messages behind live ones

Eviction looks at the front of the order of arrival only, while every message has
its own expiry.  It may therefore give up a live message for a cap and keep a
dead one further back.  This happens exactly when a dead message stands behind a
live one that the caps leave room for, and a live one in front is over the caps.
-/

namespace Ciqada
namespace Store

open Foundation Broker

namespace MemState

variable {cfg : Config} {now : Int} {m : MemState}

/-- When eviction gives up a live message, it leaves no dead one. -/
def Spares (cfg : Config) (now : Int) (m : MemState) : Prop :=
  (exists id msg, m.msgs.lookup id = some msg ∧ now < msg.expiryAt ∧
    id ∉ (m.evict cfg now).msgs) ->
  forall id msg, (m.evict cfg now).msgs.lookup id = some msg -> now < msg.expiryAt

/--
A live message whose rest of the order is over the caps, then a live one whose
rest is within them, then a dead one.
-/
def Stranded (cfg : Config) (now : Int) (m : MemState) : Prop :=
  exists front a between c behind b rest,
    m.order = front ++ a :: (between ++ c :: (behind ++ b :: rest)) ∧
      m.expired now a = false ∧ m.expired now c = false ∧ m.expired now b = true ∧
      ¬ WithinCaps cfg m (a :: (between ++ c :: (behind ++ b :: rest))) ∧
      WithinCaps cfg m (c :: (behind ++ b :: rest))

theorem expired_eq_false_iff {id : MsgId} :
    m.expired now id = false <-> exists msg, m.msgs.lookup id = some msg ∧ now < msg.expiryAt := by
  unfold expired
  cases hlookup : m.msgs.lookup id with
  | none => simp
  | some msg => simp

theorem expired_of_lookup {id : MsgId} {msg : StoredMsg} (hlookup : m.msgs.lookup id = some msg) :
    m.expired now id = true <-> msg.expiryAt ≤ now := by
  unfold expired
  rw [hlookup, decide_eq_true_eq]

section Evicted

variable {m' : MemState} {gone kept : List MsgId}

theorem Evicted.mem_iff {id : MsgId} (h : Evicted m m' gone kept) :
    id ∈ m'.msgs <-> id ∈ m.msgs ∧ id ∉ gone := by
  rw [Finmap.mem_iff, Finmap.mem_iff, h.msgs]
  by_cases hgone : id ∈ gone
  · rw [if_pos hgone]
    constructor
    · rintro ⟨msg, hnone⟩
      cases hnone
    · rintro ⟨_, hstays⟩
      exact absurd hgone hstays
  · rw [if_neg hgone]
    constructor
    · intro hin
      exact ⟨hin, hgone⟩
    · intro hin
      exact hin.left

/-- What is left in the order is not gone. -/
theorem not_mem_gone {id : MsgId} (hnodup : m.order.Nodup) (hsplit : m.order = gone ++ kept)
    (hkept : id ∈ kept) : id ∉ gone := by
  intro hgone
  rw [hsplit, List.nodup_append] at hnodup
  exact hnodup.right.right id hgone id hkept rfl

end Evicted

/-- A message whose rest of the order is over the caps goes. -/
theorem not_mem_trim_of_over {a : MsgId} {rest : List MsgId} (hnodup : m.order.Nodup)
    (hfrom : a :: rest <:+ m.order) (hover : ¬ WithinCaps cfg m (a :: rest)) :
    a ∉ trim (Settled cfg now m) m.order := by
  have hkept := ok_trim (settled_nil cfg now m) m.order
  rcases List.suffix_or_suffix_of_suffix hfrom (trim_suffix (Settled cfg now m) m.order) with
    hin | hshort
  · exact absurd (hkept.left.suffix hin) hover
  · rcases List.suffix_cons_iff.mp hshort with heq | htail
    · rw [heq] at hkept
      exact absurd hkept.left hover
    · intro hmem
      exact (List.nodup_cons.mp (hnodup.sublist hfrom.sublist)).left (htail.subset hmem)

/-- A live message goes only while its rest of the order is over the caps. -/
theorem over_of_gone {front rest : List MsgId} {a : MsgId} (horder : m.order = front ++ a :: rest)
    (hlive : m.expired now a = false)
    (hshort : (trim (Settled cfg now m) m.order).length ≤ rest.length) :
    ¬ WithinCaps cfg m (a :: rest) := by
  intro hroom
  have hsettled : Settled cfg now m (a :: rest) := by
    refine ⟨hroom, ?_⟩
    rintro id ⟨⟩
    exact hlive
  have hlength := (suffix_trim_of_ok ⟨front, horder.symm⟩ hsettled).length_le
  rw [List.length_cons] at hlength
  omega

/-- The front up to the first message over the caps goes, the room behind it stays. -/
theorem not_spares_of_stranded (h : Coherent m) (hstranded : Stranded cfg now m) :
    ¬ Spares cfg now m := by
  intro hspares
  rcases hstranded with
    ⟨front, a, between, c, behind, b, rest, horder, hlive, hnext, hdead, hover, hroom⟩
  rcases h.evicted cfg now with ⟨gone, hsplit, hevicted⟩
  have hnodup := h.orderNodup
  have hsuffix := trim_suffix (Settled cfg now m) m.order
  have hfrom : a :: (between ++ c :: (behind ++ b :: rest)) <:+ m.order := ⟨front, horder.symm⟩
  have hstays : c :: (behind ++ b :: rest) <:+ trim (Settled cfg now m) m.order := by
    refine suffix_trim_of_ok (List.IsSuffix.trans ⟨a :: between, rfl⟩ hfrom) ⟨hroom, ?_⟩
    rintro id ⟨⟩
    exact hnext
  have hgone : a ∈ gone := by
    have hin : a ∈ m.order := hfrom.subset List.mem_cons_self
    rw [hsplit] at hin
    rcases List.mem_append.mp hin with hgone | hmem
    · exact hgone
    · exact absurd hmem (not_mem_trim_of_over hnodup hfrom hover)
  rcases expired_eq_false_iff.mp hlive with ⟨msg, hlookup, hafter⟩
  have hlost : a ∉ (m.evict cfg now).msgs := fun hin => (hevicted.mem_iff.mp hin).right hgone
  have hb : b ∈ trim (Settled cfg now m) m.order := by
    apply hstays.subset
    simp
  rcases Finmap.mem_iff.mp ((h.orderExact b).mp (hsuffix.subset hb)) with ⟨dead, hdeadLookup⟩
  have hleft : (m.evict cfg now).msgs.lookup b = some dead := by
    rw [hevicted.msgs, if_neg (not_mem_gone hnodup hsplit hb)]
    exact hdeadLookup
  have hnot := hspares ⟨a, msg, hlookup, hafter, hlost⟩ b dead hleft
  exact absurd ((expired_of_lookup hdeadLookup).mp hdead) (not_le.mpr hnot)

theorem stranded_of_not_spares (h : Coherent m) (hlost : ¬ Spares cfg now m) :
    Stranded cfg now m := by
  rcases not_forall.mp hlost with ⟨⟨a, live, hlive, hafter, hout⟩, hkeeps⟩
  rcases not_forall.mp hkeeps with ⟨b, hkeeps⟩
  rcases not_forall.mp hkeeps with ⟨dead, hkeeps⟩
  rcases not_forall.mp hkeeps with ⟨hdead, hnot⟩
  have hover : dead.expiryAt ≤ now := not_lt.mp hnot
  rcases h.evicted cfg now with ⟨gone, hsplit, hevicted⟩
  have hkept := ok_trim (settled_nil cfg now m) m.order
  have hgone : a ∈ gone := by
    by_contra hstays
    exact hout (hevicted.mem_iff.mpr ⟨Finmap.mem_of_lookup_eq_some hlive, hstays⟩)
  rcases hevicted.mem_iff.mp (Finmap.mem_of_lookup_eq_some hdead) with ⟨hb, hstays⟩
  have hrest : b ∈ trim (Settled cfg now m) m.order := by
    have hin := (h.orderExact b).mpr hb
    rw [hsplit] at hin
    exact (List.mem_append.mp hin).resolve_left hstays
  have hexpired : m.expired now b = true := by
    rw [hevicted.msgs, if_neg hstays] at hdead
    exact (expired_of_lookup hdead).mpr hover
  have haLive : m.expired now a = false := expired_eq_false_iff.mpr ⟨live, hlive, hafter⟩
  rcases List.append_of_mem hgone with ⟨front, between, rfl⟩
  cases htrim : trim (Settled cfg now m) m.order with
  | nil =>
      rw [htrim] at hrest
      cases hrest
  | cons c tail =>
      rw [htrim] at hrest hkept hsplit
      have hfirst : m.expired now c = false := hkept.right c rfl
      have htail : b ∈ tail := by
        rcases List.mem_cons.mp hrest with heq | htail
        · rw [heq, hfirst] at hexpired
          cases hexpired
        · exact htail
      rcases List.append_of_mem htail with ⟨behind, rest, rfl⟩
      have horder : m.order = front ++ a :: (between ++ c :: (behind ++ b :: rest)) := by
        rw [hsplit, List.append_assoc]
        rfl
      refine ⟨front, a, between, c, behind, b, rest, horder, haLive, hfirst, hexpired, ?_,
        hkept.left⟩
      apply over_of_gone horder haLive
      rw [htrim, List.length_append]
      exact Nat.le_add_left _ _

theorem spares_iff (h : Coherent m) : Spares cfg now m <-> ¬ Stranded cfg now m := by
  constructor
  · intro hspares hstranded
    exact not_spares_of_stranded h hstranded hspares
  · intro hnone
    by_contra hlost
    exact hnone (stranded_of_not_spares h hlost)

/-- It takes three messages. -/
theorem three_le_of_stranded (h : Stranded cfg now m) : 3 ≤ m.order.length := by
  rcases h with ⟨front, a, between, c, behind, b, rest, horder, _⟩
  rw [horder]
  simp only [List.length_cons, List.length_append]
  omega

/-!
## Messages in order of expiry
-/

/-- The order of arrival is also the order of expiry. -/
def InExpiryOrder (m : MemState) : Prop :=
  m.order.Pairwise (fun a b => forall x y, m.msgs.lookup a = some x -> m.msgs.lookup b = some y ->
    x.expiryAt ≤ y.expiryAt)

theorem not_stranded_of_expiryOrder (h : Coherent m) (hsorted : InExpiryOrder m) :
    ¬ Stranded cfg now m := by
  rintro ⟨front, a, between, c, behind, b, rest, horder, hlive, _, hdead, _⟩
  unfold InExpiryOrder at hsorted
  rw [horder, List.pairwise_append] at hsorted
  have hb : b ∈ between ++ c :: (behind ++ b :: rest) := by simp
  have hin : b ∈ m.order := by
    rw [horder]
    exact List.mem_append_right front (List.mem_cons_of_mem a hb)
  rcases expired_eq_false_iff.mp hlive with ⟨x, hx, hafter⟩
  rcases Finmap.mem_iff.mp ((h.orderExact b).mp hin) with ⟨y, hy⟩
  have hle := (List.pairwise_cons.mp hsorted.right.left).left b hb x y hx hy
  have hover := (expired_of_lookup hy).mp hdead
  omega

theorem InExpiryOrder.evict (hsorted : InExpiryOrder m) (h : Coherent m) (cfg : Config)
    (now : Int) : InExpiryOrder (m.evict cfg now) := by
  rcases h.evicted cfg now with ⟨gone, hsplit, hevicted⟩
  unfold InExpiryOrder
  rw [hevicted.order]
  apply (List.Pairwise.sublist (trim_suffix _ _).sublist hsorted).imp
  intro a b hle x y hx hy
  exact hle x y (lookup_of_evict hx) (lookup_of_evict hy)

/-- A new message that expires last keeps the order. -/
theorem InExpiryOrder.put {key : MsgId} {msg : StoredMsg} (hsorted : InExpiryOrder m)
    (h : Coherent m) (hnew : key ∉ m.msgs)
    (hlast : forall id old, m.msgs.lookup id = some old -> old.expiryAt ≤ msg.expiryAt) :
    InExpiryOrder (m.put key msg) := by
  have hother : forall id, id ∈ m.order -> id ≠ key := by
    intro id hid heq
    rw [heq] at hid
    exact hnew ((h.orderExact key).mp hid)
  unfold InExpiryOrder
  rw [Coherent.put_order, if_neg hnew, put_msgs, List.pairwise_append]
  refine ⟨?_, List.pairwise_singleton _ key, ?_⟩
  · apply hsorted.imp_of_mem
    intro a b ha hb hle x y hx hy
    rw [Table.lookup_insert_if, if_neg (hother a ha)] at hx
    rw [Table.lookup_insert_if, if_neg (hother b hb)] at hy
    exact hle x y hx hy
  · intro a ha b hb x y hx hy
    rw [Table.lookup_insert_if, if_neg (hother a ha)] at hx
    rw [List.mem_singleton.mp hb, Finmap.lookup_insert] at hy
    rw [← Option.some.inj hy]
    exact hlast a x hx

theorem InExpiryOrder.deliver (hsorted : InExpiryOrder m) (now : Int) (clientId : String)
    (iter : List MsgId) : InExpiryOrder (m.deliver now clientId iter).1 := by
  have hgrown : forall (ids : List MsgId) (id : MsgId) (msg : StoredMsg),
      (ids.foldl (mark clientId) m).msgs.lookup id = some msg ->
      exists old, m.msgs.lookup id = some old ∧ msg.expiryAt = old.expiryAt := by
    intro ids id msg hlookup
    rw [lookup_marks] at hlookup
    split at hlookup
    · rcases Option.map_eq_some_iff.mp hlookup with ⟨old, hold, rfl⟩
      exact ⟨old, hold, rfl⟩
    · exact ⟨msg, hlookup, rfl⟩
  show InExpiryOrder (List.foldl (mark clientId) m _)
  unfold InExpiryOrder
  rw [(marks_frame clientId _ m).left]
  apply hsorted.imp
  intro a b hle x y hx hy
  rcases hgrown _ a x hx with ⟨x', hx', hxe⟩
  rcases hgrown _ b y hy with ⟨y', hy', hye⟩
  rw [hxe, hye]
  exact hle x' y' hx' hy'

end MemState

namespace System

variable {Row : Type} {cfg : Config} {codec : Codec Row} {s s' : System Row}

/-!
## Evictions along a run
-/

/-- The event gives up no live message for a dead one. -/
def SparesLive (cfg : Config) (s : System Row) (e : Event) : Prop :=
  forall m now, s.evictionOf e = some (m, now) -> m.Spares cfg now

/-- The event finds no dead message stranded. -/
def NoneStranded (cfg : Config) (s : System Row) (e : Event) : Prop :=
  forall m now, s.evictionOf e = some (m, now) -> ¬ m.Stranded cfg now

/-- The worker's next message is new and expires after all that are in memory. -/
def ExpiresLast (s : System Row) : Event -> Prop
  | Event.work _ => forall entry, entry ∈ s.channel.head? -> entry.1 ∉ s.mem.msgs ∧
      forall id old, s.mem.msgs.lookup id = some old -> old.expiryAt ≤ entry.2.expiryAt
  | _ => True

/-- Expiry first, then the id. -/
def ByExpiry (a b : Int × Nat) : Prop :=
  a.1 < b.1 ∨ (a.1 = b.1 ∧ a.2 ≤ b.2)

instance : DecidableRel ByExpiry :=
  fun _ _ => inferInstanceAs (Decidable (_ ∨ _))

theorem pairwise_expiryOrder (msgs : Table MsgId StoredMsg) :
    (expiryOrder msgs).Pairwise (fun a b => forall x y, msgs.lookup a = some x ->
      msgs.lookup b = some y -> x.expiryAt ≤ y.expiryAt) := by
  have htotal : Std.Total ByExpiry := by
    constructor
    intro a b
    unfold ByExpiry
    omega
  have htrans : IsTrans (Int × Nat) ByExpiry := by
    constructor
    intro a b c hab hbc
    unfold ByExpiry at hab hbc ⊢
    omega
  have hsorted : List.Pairwise ByExpiry (((Table.rows msgs).map
      (fun entry => (entry.2.expiryAt, entry.1))).insertionSort
        (fun a b => a.1 < b.1 ∨ (a.1 = b.1 ∧ a.2 ≤ b.2))) :=
    List.pairwise_insertionSort ByExpiry _
  -- an entry of the sorted list carries the expiry of the message under its id
  have hentry : forall entry msg, entry ∈ ((Table.rows msgs).map
      (fun entry => (entry.2.expiryAt, entry.1))).insertionSort
        (fun a b => a.1 < b.1 ∨ (a.1 = b.1 ∧ a.2 ≤ b.2)) ->
      msgs.lookup entry.2 = some msg -> msg.expiryAt = entry.1 := by
    intro entry msg hmem hlookup
    rcases List.mem_map.mp ((List.mem_insertionSort _).mp hmem) with ⟨⟨id, msg'⟩, hrow, rfl⟩
    rw [Table.mem_rows.mp hrow] at hlookup
    rw [← Option.some.inj hlookup]
  unfold expiryOrder
  rw [List.pairwise_map]
  apply hsorted.imp_of_mem
  intro a b ha hb hle x y hx hy
  rw [hentry a x ha hx, hentry b y hb hy]
  unfold ByExpiry at hle
  omega

theorem inExpiryOrder_openStore {disk : Table MsgId Row} {opened : Int}
    (hopen : openStore cfg codec disk opened = some s) : s.mem.InExpiryOrder := by
  unfold openStore at hopen
  dsimp only at hopen
  split at hopen
  · rw [← Option.some.inj hopen]
    exact pairwise_expiryOrder _
  · cases hopen

theorem inExpiryOrder_step {e : Event} (hsorted : s.mem.InExpiryOrder) (h : s.mem.Coherent)
    (hlast : ExpiresLast s e) (hstep : step cfg codec s e = some s') :
    s'.mem.InExpiryOrder := by
  cases e with
  | nextMsgId =>
      rw [← Option.some.inj hstep]
      exact hsorted
  | store now msgId sender p expiryInterval =>
      rw [← Option.some.inj hstep]
      exact hsorted
  | work now =>
      rcases of_step_work hstep with ⟨key, msg, rest, hchannel, hfits, rfl⟩
      have hhead : (key, msg) ∈ s.channel.head? := by
        rw [hchannel]
        rfl
      rcases hlast (key, msg) hhead with ⟨hnew, hexpiry⟩
      exact (hsorted.put h hnew hexpiry).evict (h.put hfits) cfg now
  | get now clientId topicFilter iter =>
      rw [of_step_get hstep]
      exact (hsorted.evict h cfg now).deliver now clientId iter
  | flush now commits =>
      rw [← Option.some.inj hstep, snapshot_mem]
      exact hsorted.evict h cfg now
  | settle i =>
      rcases of_step_settle hstep with ⟨f, _hf, rfl⟩
      exact hsorted

/-- Messages that are stored in the order of their expiry are never stranded. -/
theorem noneStranded_of_expiresLast {disk : Table MsgId Row} {opened : Int} {es : List Event}
    {s0 : System Row} (hopen : openStore cfg codec disk opened = some s0)
    (hrun : Run (step cfg codec) ExpiresLast s0 es s) :
    Run (step cfg codec) (NoneStranded cfg) s0 es s := by
  have hinit : s0.mem.Coherent ∧ s0.mem.InExpiryOrder :=
    ⟨coherent_openStore hopen, inExpiryOrder_openStore hopen⟩
  clear hopen
  induction hrun with
  | nil s => exact Run.nil s
  | @cons s t r e es hlast hstep _ ih =>
      rcases hinit with ⟨hcoherent, hsorted⟩
      refine Run.cons ?_ hstep
        (ih ⟨coherent_step hcoherent hstep, inExpiryOrder_step hsorted hcoherent hlast hstep⟩)
      intro m now hm
      refine MemState.not_stranded_of_expiryOrder (coherent_evictionOf hcoherent hstep hm) ?_
      cases e with
      | work now' =>
          rcases of_step_work hstep with ⟨key, msg, rest, hchannel, hfits, _⟩
          have hhead : (key, msg) ∈ s.channel.head? := by
            rw [hchannel]
            rfl
          unfold evictionOf at hm
          rw [hchannel] at hm
          rw [← (Prod.mk.inj (Option.some.inj hm)).left]
          rcases hlast (key, msg) hhead with ⟨hnew, hexpiry⟩
          exact hsorted.put hcoherent hnew hexpiry
      | get now' clientId topicFilter iter =>
          rw [← (Prod.mk.inj (Option.some.inj hm)).left]
          exact hsorted
      | flush now' commits =>
          rw [← (Prod.mk.inj (Option.some.inj hm)).left]
          exact hsorted
      | nextMsgId => cases hm
      | store now' msgId sender p expiryInterval => cases hm
      | settle i => cases hm

end System

namespace Sample

/-- Room for three messages. -/
def narrow : Config :=
  { nodeId := 1, maxMsgs := 3, maxBytes := 0 }

/-- Two messages with a long interval, then one with a short interval of its own. -/
def mixed : List Event :=
  [Event.store 10 7 sender (publish "a") 1000, Event.work 11,
    Event.store 11 8 sender (publish "a") 1000, Event.work 12,
    Event.store 12 9 sender (publish "a") 3, Event.work 13,
    Event.store 20 10 sender (publish "a") 1000]

def single : List Event :=
  [Event.store 10 7 sender (publish "a") 1000, Event.work 11]

/-- The three messages are in memory, the fourth is on the channel. -/
def crowded : System (Option StoredMsg) :=
  (exec? (System.step narrow codec) Always System.vacant mixed).get (by decide +kernel)

end Sample

namespace System

end System

end Store
end Ciqada
