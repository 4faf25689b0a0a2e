import Mathlib.Data.List.TakeWhile
import Mathlib.Order.Interval.Finset.Nat
import Ciqada.Foundation.Table
import Ciqada.Session.State

/-!
# Topic aliases to a client

A client of version 5 may let the broker number topics, so that a topic has to be
sent once only.  The broker gives the next number to every topic that it has not
numbered before, until the numbers run out, and writes a number instead of the topic
from then on.  This module says when the client can read the topics back; the client
follows the rules that the broker itself follows for the aliases of a client.
-/

namespace Ciqada
namespace Session

open Broker Foundation

/-- The properties that the sink writes; a message need not have any. -/
structure PublishProperties where
  messageExpiryInterval : Option Nat
  topicAlias : Option Nat
  deriving DecidableEq

/-- A message to a client; what it carries besides is sent as it is. -/
structure Outgoing where
  topic : String
  properties : Option PublishProperties
  deriving DecidableEq

namespace Outgoing

def topicAlias (p : Outgoing) : Option Nat :=
  p.properties.bind PublishProperties.topicAlias

end Outgoing

namespace Fitter

/-- `topicAliasMax` is the number of aliases that the connect packet allows. -/
def maxServerTopicAliases (cfg : ListenerConfig) (topicAliasMax : Nat) : ConnectInfo -> Nat
  | ConnectInfo.v5 _ _ => min topicAliasMax cfg.maxTopicAliases
  | ConnectInfo.v3 _ _ => 0

end Fitter

structure ServerTopicAliases where
  maxTopicAliases : Nat
  aliases : Table String Nat

namespace ServerTopicAliases

def new (maxTopicAliases : Nat) : ServerTopicAliases :=
  { maxTopicAliases := maxTopicAliases, aliases := ∅ }

/--
The topic and the alias to write.  The new alias is cut to 16 bits; nothing is
answered where the code takes it for unreachable that this leaves 0.
-/
def get (a : ServerTopicAliases) (topic : String) :
    Option (ServerTopicAliases × Option String × Option Nat) :=
  if a.maxTopicAliases = 0 then some (a, some topic, none)
  else
    match a.aliases.lookup topic with
    | some key => some (a, none, some key)
    | none =>
        if a.maxTopicAliases ≤ a.aliases.keys.card then some (a, some topic, none)
        else
          let key := (a.aliases.keys.card + 1) % 2 ^ 16
          if key = 0 then none
          else some ({ a with aliases := a.aliases.insert topic key }, some topic, some key)

end ServerTopicAliases

namespace Sink

/-- The aliases of a session, if the client allows any. -/
def serverTopicAliases (serverTopicAliasMax : Nat) : Option ServerTopicAliases :=
  if 0 < serverTopicAliasMax then some (ServerTopicAliases.new serverTopicAliasMax) else none

def topicAndAlias (a : Option ServerTopicAliases) (topic : String) :
    Option (Option ServerTopicAliases × Option String × Option Nat) :=
  match a with
  | none => some (none, some topic, none)
  | some a => (a.get topic).map (fun r => (some r.1, r.2))

/-- What a sink of version 5 writes for a message. -/
def publish (a : Option ServerTopicAliases) (p : Outgoing) (messageExpiryInterval : Option Nat) :
    Option (Option ServerTopicAliases × Outgoing) :=
  (topicAndAlias a p.topic).map (fun r =>
    (r.1,
      { topic := r.2.1.getD ""
        properties := p.properties.map (fun _ =>
          { messageExpiryInterval := messageExpiryInterval, topicAlias := r.2.2 }) }))

/-- The messages written for those of a connection, each with its remaining time. -/
def publishAll (a : Option ServerTopicAliases) :
    List (Outgoing × Option Nat) -> Option (List Outgoing)
  | [] => some []
  | p :: ps =>
      match publish a p.1 p.2 with
      | none => none
      | some (a, w) => (publishAll a ps).map (fun ws => w :: ws)

end Sink

namespace ClientTopicAliases

/-- The topics that a reader takes the messages for; it stops at the first error. -/
def readAll (c : ClientTopicAliases) : List Outgoing -> Except Reason (List String)
  | [] => Except.ok []
  | w :: ws =>
      match c.setAndGet w.topicAlias w.topic with
      | Except.error e => Except.error e
      | Except.ok (c, topic) => (readAll c ws).map (fun topics => topic :: topics)

end ClientTopicAliases

/-!
## Which topics are left out
-/

/-- The topics of the messages so far. -/
def topics (pre : List (Outgoing × Option Nat)) : List String :=
  pre.map (fun p => p.1.topic)

/-- The topic came before, and early enough to have a number. -/
def Numbered (max : Nat) (pre : List (Outgoing × Option Nat)) (topic : String) : Prop :=
  topic ∈ topics pre ∧ ((topics pre).takeWhile (fun t => t != topic)).toFinset.card < max

/-- All messages with the topic have properties. -/
def Whole (pre : List (Outgoing × Option Nat)) (topic : String) : Prop :=
  forall q, q ∈ pre -> q.1.topic = topic -> q.1.properties.isSome = true

theorem topics_append (pre post : List (Outgoing × Option Nat)) :
    topics (pre ++ post) = topics pre ++ topics post :=
  List.map_append

theorem mem_topics_snoc {pre : List (Outgoing × Option Nat)} {p : Outgoing × Option Nat}
    {topic : String} (h : topic ∈ topics (pre ++ [p])) (hnew : topic ∉ topics pre) :
    topic = p.1.topic := by
  rw [topics_append] at h
  rcases List.mem_append.mp h with hold | hlast
  · exact absurd hold hnew
  · exact List.mem_singleton.mp hlast

theorem whole_append {pre post : List (Outgoing × Option Nat)} {topic : String} :
    Whole (pre ++ post) topic <-> Whole pre topic ∧ Whole post topic := by
  constructor
  · intro h
    exact ⟨fun q hq => h q (List.mem_append_left post hq),
      fun q hq => h q (List.mem_append_right pre hq)⟩
  · intro h q hq
    rcases List.mem_append.mp hq with hpre | hpost
    · exact h.left q hpre
    · exact h.right q hpost

theorem whole_singleton {p : Outgoing × Option Nat} {topic : String} :
    Whole [p] topic <-> (p.1.topic = topic -> p.1.properties.isSome = true) := by
  constructor
  · intro h
    exact h p List.mem_cons_self
  · intro h q hq
    rw [List.mem_singleton.mp hq]
    exact h

theorem whole_of_not_mem {pre : List (Outgoing × Option Nat)} {topic : String}
    (h : topic ∉ topics pre) : Whole pre topic :=
  fun q hq htopic => absurd (List.mem_map.mpr ⟨q, hq, htopic⟩) h

theorem takeWhile_of_not_mem {topic : String} {ts : List String} (h : topic ∉ ts) :
    ts.takeWhile (fun t => t != topic) = ts := by
  rw [List.takeWhile_eq_self_iff]
  intro t ht
  rw [bne_iff_ne]
  rintro rfl
  exact h ht

/-- Later messages do not change whether a topic is numbered, but by bringing it. -/
theorem numbered_append {max : Nat} {pre post : List (Outgoing × Option Nat)} {topic : String}
    (h : topic ∈ topics pre) :
    Numbered max (pre ++ post) topic <-> Numbered max pre topic := by
  have htake : (topics (pre ++ post)).takeWhile (fun t => t != topic) =
      (topics pre).takeWhile (fun t => t != topic) := by
    rw [topics_append, List.takeWhile_append]
    split
    · have hself := List.takeWhile_eq_self_iff.mp
        (List.Sublist.eq_of_length (List.takeWhile_sublist _) ‹_›) topic h
      rw [bne_self_eq_false] at hself
      cases hself
    · rfl
  unfold Numbered
  rw [htake, topics_append]
  constructor
  · intro hnum
    exact ⟨h, hnum.right⟩
  · intro hnum
    exact ⟨List.mem_append_left _ h, hnum.right⟩

theorem numbered_snoc_new {max : Nat} {pre : List (Outgoing × Option Nat)}
    {p : Outgoing × Option Nat} (h : p.1.topic ∉ topics pre) :
    Numbered max (pre ++ [p]) p.1.topic <-> (topics pre).toFinset.card < max := by
  have htake : (topics (pre ++ [p])).takeWhile (fun t => t != p.1.topic) = topics pre := by
    rw [topics_append, List.takeWhile_append_of_pos]
    · show topics pre ++ List.takeWhile _ [p.1.topic] = topics pre
      rw [List.takeWhile_cons_of_neg (by simp), List.append_nil]
    · intro t ht
      rw [bne_iff_ne]
      rintro rfl
      exact h ht
  unfold Numbered
  rw [htake, topics_append]
  constructor
  · exact And.right
  · intro hcard
    exact ⟨List.mem_append_right _ List.mem_cons_self, hcard⟩

/-!
## The numbers of the broker
-/

/-- The aliases of the broker are those of the numbered topics. -/
structure Numbers (max : Nat) (pre : List (Outgoing × Option Nat)) (a : ServerTopicAliases) :
    Prop where
  max_eq : a.maxTopicAliases = max
  size : a.aliases.keys.card ≤ max
  range : forall topic key, a.aliases.lookup topic = some key ->
    0 < key ∧ key ≤ a.aliases.keys.card
  injective : forall topic topic' key, a.aliases.lookup topic = some key ->
    a.aliases.lookup topic' = some key -> topic = topic'
  numbered : forall topic, topic ∈ a.aliases <-> Numbered max pre topic
  room : a.aliases.keys.card < max -> a.aliases.keys = (topics pre).toFinset

/-- What the broker does for the topic of a message, and what it has then. -/
inductive Written (max : Nat) (a : ServerTopicAliases) (topic : String) :
    ServerTopicAliases -> Option String -> Option Nat -> Prop where
  | known (key : Nat) (hkey : a.aliases.lookup topic = some key) :
      Written max a topic a none (some key)
  | plain (hnew : topic ∉ a.aliases) : Written max a topic a (some topic) none
  | fresh (hnew : topic ∉ a.aliases) (hroom : a.aliases.keys.card < max) :
      Written max a topic
        { a with aliases := a.aliases.insert topic (a.aliases.keys.card + 1) }
        (some topic) (some (a.aliases.keys.card + 1))

section Numbers

variable {max : Nat} {pre : List (Outgoing × Option Nat)} {a : ServerTopicAliases}

theorem numbers_new (max : Nat) : Numbers max [] (ServerTopicAliases.new max) := by
  constructor
  case max_eq => rfl
  case size => exact Nat.zero_le max
  case range => exact fun _ _ h => absurd h (by simp [ServerTopicAliases.new])
  case injective => exact fun _ _ _ h => absurd h (by simp [ServerTopicAliases.new])
  case numbered =>
    intro topic
    constructor
    · intro h
      exact absurd h Finmap.notMem_empty
    · intro h
      exact absurd h.left List.not_mem_nil
  case room => exact fun _ => rfl

/-- A topic that is not numbered has not come before, while there is room. -/
theorem Numbers.not_mem_topics (h : Numbers max pre a) (hroom : a.aliases.keys.card < max)
    {topic : String} (hnew : topic ∉ a.aliases) : topic ∉ topics pre := by
  intro hmem
  apply hnew
  rw [← Finmap.mem_keys, h.room hroom]
  exact List.mem_toFinset.mpr hmem

theorem Numbers.keys_subset (h : Numbers max pre a) :
    a.aliases.keys ⊆ (topics pre).toFinset := by
  intro topic htopic
  exact List.mem_toFinset.mpr ((h.numbered topic).mp (Finmap.mem_keys.mp htopic)).left

/-- A message whose topic is numbered already, or comes too late, changes nothing. -/
theorem Numbers.keep (h : Numbers max pre a) {p : Outgoing × Option Nat}
    (hkeep : p.1.topic ∈ a.aliases ∨ max ≤ a.aliases.keys.card) :
    Numbers max (pre ++ [p]) a := by
  constructor
  case max_eq => exact h.max_eq
  case size => exact h.size
  case range => exact h.range
  case injective => exact h.injective
  case numbered =>
    intro topic
    rw [h.numbered topic]
    by_cases hpre : topic ∈ topics pre
    · exact (numbered_append hpre).symm
    · constructor
      · intro hnum
        exact absurd hnum.left hpre
      · intro hnum
        exfalso
        have htopic := mem_topics_snoc hnum.left hpre
        rw [htopic] at hpre hnum
        rcases hkeep with hmem | hfull
        · exact hpre ((h.numbered _).mp hmem).left
        · have hcard := (numbered_snoc_new hpre).mp ⟨hnum.left, hnum.right⟩
          have hle := Finset.card_le_card h.keys_subset
          omega
  case room =>
    intro hroom
    rcases hkeep with hmem | hfull
    · rw [h.room hroom, topics_append, List.toFinset_append]
      refine (Finset.union_eq_left.mpr ?_).symm
      intro topic htopic
      have hlast : topic = p.1.topic := List.mem_singleton.mp (List.mem_toFinset.mp htopic)
      rw [hlast]
      exact List.mem_toFinset.mpr ((h.numbered _).mp hmem).left
    · omega

/-- A new topic gets the next number while there is room. -/
theorem Numbers.enter (h : Numbers max pre a) {p : Outgoing × Option Nat}
    (hnew : p.1.topic ∉ a.aliases) (hroom : a.aliases.keys.card < max) :
    Numbers max (pre ++ [p])
      { a with aliases := a.aliases.insert p.1.topic (a.aliases.keys.card + 1) } := by
  have hpre := h.not_mem_topics hroom hnew
  have hkeys : (a.aliases.insert p.1.topic (a.aliases.keys.card + 1)).keys =
      insert p.1.topic a.aliases.keys := by
    ext topic
    rw [Finmap.mem_keys, Finmap.mem_insert, Finset.mem_insert, Finmap.mem_keys]
  have hcard : (a.aliases.insert p.1.topic (a.aliases.keys.card + 1)).keys.card =
      a.aliases.keys.card + 1 := by
    rw [hkeys, Finset.card_insert_of_notMem]
    rw [Finmap.mem_keys]
    exact hnew
  constructor
  case max_eq => exact h.max_eq
  case size =>
    show (a.aliases.insert p.1.topic (a.aliases.keys.card + 1)).keys.card ≤ max
    omega
  case range =>
    intro topic key hkey
    dsimp only at hkey ⊢
    rw [hcard]
    rw [Table.lookup_insert_if] at hkey
    split at hkey
    · have hlast := Option.some.inj hkey
      omega
    · have hold := h.range topic key hkey
      omega
  case injective =>
    intro topic topic' key hkey hkey'
    dsimp only at hkey hkey'
    rw [Table.lookup_insert_if] at hkey hkey'
    split at hkey
    · split at hkey'
      · rw [‹topic = _›, ‹topic' = _›]
      · have hlast := Option.some.inj hkey
        have hold := h.range topic' key hkey'
        omega
    · split at hkey'
      · have hlast := Option.some.inj hkey'
        have hold := h.range topic key hkey
        omega
      · exact h.injective topic topic' key hkey hkey'
  case numbered =>
    intro topic
    dsimp only
    rw [Finmap.mem_insert]
    by_cases htopic : topic = p.1.topic
    · rw [htopic, numbered_snoc_new hpre, ← h.room hroom]
      constructor
      · intro _
        exact hroom
      · intro _
        exact Or.inl rfl
    · rw [or_iff_right htopic, h.numbered topic]
      by_cases hold : topic ∈ topics pre
      · exact (numbered_append hold).symm
      · constructor
        · intro hnum
          exact absurd hnum.left hold
        · intro hnum
          exact absurd (mem_topics_snoc hnum.left hold) htopic
  case room =>
    intro _
    dsimp only
    rw [hkeys, h.room hroom, topics_append, List.toFinset_append]
    ext topic
    rw [Finset.mem_insert, Finset.mem_union, List.mem_toFinset, List.mem_toFinset]
    show _ <-> _ ∨ topic ∈ [p.1.topic]
    rw [List.mem_singleton, or_comm]

theorem Numbers.get (h : Numbers max pre a) (hpos : 0 < max) (hmax : max < 2 ^ 16)
    (p : Outgoing × Option Nat) :
    exists a' topic key, a.get p.1.topic = some (a', topic, key) ∧
      Written max a p.1.topic a' topic key ∧ Numbers max (pre ++ [p]) a' := by
  unfold ServerTopicAliases.get
  have hmaxEq := h.max_eq
  rw [if_neg (by omega)]
  cases hkey : a.aliases.lookup p.1.topic with
  | some key =>
      have hmem : p.1.topic ∈ a.aliases := Finmap.mem_iff.mpr ⟨key, hkey⟩
      exact ⟨_, _, _, rfl, Written.known key hkey, h.keep (Or.inl hmem)⟩
  | none =>
      have hnew : p.1.topic ∉ a.aliases := Finmap.lookup_eq_none.mp hkey
      dsimp only
      by_cases hroom : a.aliases.keys.card < max
      · have hcut : (a.aliases.keys.card + 1) % 2 ^ 16 = a.aliases.keys.card + 1 :=
          Nat.mod_eq_of_lt (by omega)
        rw [if_neg (by omega), hcut, if_neg (Nat.succ_ne_zero _)]
        exact ⟨_, _, _, rfl, Written.fresh hnew hroom, h.enter hnew hroom⟩
      · rw [if_pos (by omega)]
        exact ⟨_, _, _, rfl, Written.plain hnew, h.keep (Or.inr (by omega))⟩

end Numbers

/-!
## What the client reads
-/

/-- The client knows the numbers of the topics whose messages all have properties. -/
structure Agree (max limit : Nat) (pre : List (Outgoing × Option Nat))
    (a : ServerTopicAliases) (c : ClientTopicAliases) : Prop where
  numbers : Numbers max pre a
  limit_eq : c.maxTopicAliases = limit
  known : forall key topic, c.aliases.lookup key = some topic <->
    a.aliases.lookup topic = some key ∧ Whole pre topic

/-- Every message of a numbered topic has properties, and so have all before it. -/
def Readable (max : Nat) (pre ps : List (Outgoing × Option Nat)) : Prop :=
  forall mid p post, ps = mid ++ p :: post -> Numbered max (pre ++ mid) p.1.topic ->
    p.1.properties.isSome = true ∧ Whole (pre ++ mid) p.1.topic

theorem readable_cons {max : Nat} {pre ps : List (Outgoing × Option Nat)}
    {p : Outgoing × Option Nat} :
    Readable max pre (p :: ps) <->
      (Numbered max pre p.1.topic -> p.1.properties.isSome = true ∧ Whole pre p.1.topic) ∧
        Readable max (pre ++ [p]) ps := by
  constructor
  · intro h
    constructor
    · have hhead := h [] p ps rfl
      rw [List.append_nil] at hhead
      exact hhead
    · intro mid q post heq
      have hlater := h (p :: mid) q post (congrArg (List.cons p) heq)
      rw [List.append_cons] at hlater
      exact hlater
  · intro h mid q post heq
    cases mid with
    | nil =>
        rcases List.cons.inj heq with ⟨rfl, rfl⟩
        rw [List.append_nil]
        exact h.left
    | cons m mid =>
        rcases List.cons.inj heq with ⟨rfl, htl⟩
        rw [List.append_cons]
        exact h.right mid q post htl

section Reading

variable {max limit : Nat} {pre : List (Outgoing × Option Nat)}
variable {a a' : ServerTopicAliases} {c : ClientTopicAliases} {p : Outgoing × Option Nat}
variable {topic : Option String} {key : Option Nat}

/-- The message that is written for an answer of the broker's aliases. -/
def written (p : Outgoing × Option Nat) (topic : Option String) (key : Option Nat) : Outgoing :=
  { topic := topic.getD ""
    properties := p.1.properties.map (fun _ =>
      { messageExpiryInterval := p.2, topicAlias := key }) }

theorem topicAlias_written :
    (written p topic key).topicAlias = if p.1.properties.isSome = true then key else none := by
  unfold written Outgoing.topicAlias
  cases p.1.properties with
  | none => rfl
  | some _ => rfl

theorem setAndGet_topic (c : ClientTopicAliases) {topic : String} (htopic : topic ≠ "") :
    c.setAndGet none topic = Except.ok (c, topic) := by
  unfold ClientTopicAliases.setAndGet
  dsimp only
  rw [if_neg (by simpa using htopic)]

theorem setAndGet_none (c : ClientTopicAliases) :
    exists e, c.setAndGet none "" = Except.error e :=
  ⟨_, rfl⟩

theorem setAndGet_alias (c : ClientTopicAliases) (key : Nat) :
    (forall topic, c.aliases.lookup key = some topic ->
      c.setAndGet (some key) "" = Except.ok (c, topic)) ∧
    (c.aliases.lookup key = none -> exists e, c.setAndGet (some key) "" = Except.error e) := by
  have hempty : "".isEmpty = true := rfl
  unfold ClientTopicAliases.setAndGet
  dsimp only
  constructor
  · intro topic htopic
    rw [if_pos hempty, htopic]
  · intro hnone
    rw [if_pos hempty, hnone]
    exact ⟨_, rfl⟩

theorem setAndGet_enter (c : ClientTopicAliases) {key : Nat} {topic : String}
    (htopic : topic ≠ "") (hroom : c.aliases.keys.card < c.maxTopicAliases) :
    c.setAndGet (some key) topic =
      Except.ok ({ c with aliases := c.aliases.insert key topic }, topic) := by
  unfold ClientTopicAliases.setAndGet
  dsimp only
  rw [if_neg (by simpa using htopic), if_neg (fun h => absurd h.right (by omega))]

theorem agree_new (max limit : Nat) :
    Agree max limit [] (ServerTopicAliases.new max) (ClientTopicAliases.new limit) := by
  constructor
  case numbers => exact numbers_new max
  case limit_eq => rfl
  case known =>
    intro key topic
    constructor
    · intro h
      exact absurd h (by simp [ClientTopicAliases.new])
    · intro h
      exact absurd h.left (by simp [ServerTopicAliases.new])

/-- The client has no more numbers than the broker has given. -/
theorem Agree.card_le (h : Agree max limit pre a c) :
    c.aliases.keys.card ≤ a.aliases.keys.card := by
  have hsub : c.aliases.keys ⊆ Finset.Icc 1 a.aliases.keys.card := by
    intro key hkey
    rcases Finmap.mem_iff.mp (Finmap.mem_keys.mp hkey) with ⟨topic, htopic⟩
    have hrange := h.numbers.range topic key ((h.known key topic).mp htopic).left
    exact Finset.mem_Icc.mpr hrange
  have hcard := Finset.card_le_card hsub
  rw [Nat.card_Icc] at hcard
  omega

theorem whole_snoc_of_ne {t : String} (hne : p.1.topic ≠ t) :
    Whole (pre ++ [p]) t <-> Whole pre t := by
  rw [whole_append, whole_singleton]
  constructor
  · exact And.left
  · intro h
    exact ⟨h, fun heq => absurd heq hne⟩

/-- A message of a topic without a number is read as it is, and the two go on agreeing. -/
theorem Agree.plain (h : Agree max limit pre a c) (hnext : Numbers max (pre ++ [p]) a)
    (hnew : p.1.topic ∉ a.aliases) : Agree max limit (pre ++ [p]) a c := by
  constructor
  case numbers => exact hnext
  case limit_eq => exact h.limit_eq
  case known =>
    intro key topic
    rw [h.known key topic]
    constructor
    · rintro ⟨hkey, hwhole⟩
      have hne : p.1.topic ≠ topic := by
        rintro rfl
        exact hnew (Finmap.mem_iff.mpr ⟨key, hkey⟩)
      exact ⟨hkey, (whole_snoc_of_ne hne).mpr hwhole⟩
    · rintro ⟨hkey, hwhole⟩
      exact ⟨hkey, (whole_append.mp hwhole).left⟩

/-- A message of a numbered topic is read if all of its messages have properties. -/
theorem Agree.again (h : Agree max limit pre a c) (hnext : Numbers max (pre ++ [p]) a)
    {number : Nat} (hkey : a.aliases.lookup p.1.topic = some number) :
    ((p.1.properties.isSome = true ∧ Whole pre p.1.topic) ->
      c.setAndGet (written p none (some number)).topicAlias "" = Except.ok (c, p.1.topic) ∧
        Agree max limit (pre ++ [p]) a c) ∧
    (¬ (p.1.properties.isSome = true ∧ Whole pre p.1.topic) ->
      exists e, c.setAndGet (written p none (some number)).topicAlias "" = Except.error e) := by
  rw [topicAlias_written]
  constructor
  · rintro ⟨hprops, hwhole⟩
    rw [if_pos hprops]
    refine ⟨(setAndGet_alias c number).left _ ((h.known _ _).mpr ⟨hkey, hwhole⟩), hnext,
      h.limit_eq, ?_⟩
    intro key topic
    rw [h.known key topic, whole_append, whole_singleton]
    constructor
    · rintro ⟨hlookup, hbefore⟩
      exact ⟨hlookup, hbefore, fun _ => hprops⟩
    · rintro ⟨hlookup, hbefore, _hlast⟩
      exact ⟨hlookup, hbefore⟩
  · intro hnot
    by_cases hprops : p.1.properties.isSome = true
    · rw [if_pos hprops]
      apply (setAndGet_alias c number).right
      cases hlookup : c.aliases.lookup number with
      | none => rfl
      | some topic =>
          exfalso
          rcases (h.known number topic).mp hlookup with ⟨hsame, hwhole⟩
          rw [h.numbers.injective _ _ _ hsame hkey] at hwhole
          exact hnot ⟨hprops, hwhole⟩
    · rw [if_neg hprops]
      exact setAndGet_none c

/-- A new number is read and kept by the client, if the message has properties. -/
theorem Agree.enter (h : Agree max limit pre a c) (hlimit : max ≤ limit)
    (htopic : p.1.topic ≠ "") (hnew : p.1.topic ∉ a.aliases)
    (hroom : a.aliases.keys.card < max) :
    exists c', c.setAndGet
        (written p (some p.1.topic) (some (a.aliases.keys.card + 1))).topicAlias p.1.topic =
          Except.ok (c', p.1.topic) ∧
      Agree max limit (pre ++ [p])
        { a with aliases := a.aliases.insert p.1.topic (a.aliases.keys.card + 1) } c' := by
  have hnext := h.numbers.enter hnew hroom
  have hwhole := whole_of_not_mem (h.numbers.not_mem_topics hroom hnew)
  have hvacant : c.aliases.lookup (a.aliases.keys.card + 1) = none := by
    cases hlookup : c.aliases.lookup (a.aliases.keys.card + 1) with
    | none => rfl
    | some topic =>
        have hrange := h.numbers.range topic _ ((h.known _ _).mp hlookup).left
        omega
  have hold : forall key topic, topic ≠ p.1.topic -> (c.aliases.lookup key = some topic <->
      (a.aliases.insert p.1.topic (a.aliases.keys.card + 1)).lookup topic = some key ∧
        Whole (pre ++ [p]) topic) := by
    intro key topic hne
    rw [h.known key topic, Table.lookup_insert_if, if_neg hne, whole_snoc_of_ne hne.symm]
  rw [topicAlias_written]
  by_cases hprops : p.1.properties.isSome = true
  · rw [if_pos hprops]
    have hcard := h.card_le
    have hlimitEq := h.limit_eq
    refine ⟨_, setAndGet_enter c htopic (by omega), hnext, h.limit_eq, ?_⟩
    intro key topic
    dsimp only
    rw [Table.lookup_insert_if]
    by_cases hne : topic = p.1.topic
    · rw [hne, Table.lookup_insert_if, if_pos rfl, whole_append, whole_singleton]
      constructor
      · intro hlookup
        split at hlookup
        · rw [‹key = _›]
          exact ⟨rfl, hwhole, fun _ => hprops⟩
        · have hsame := ((h.known _ _).mp hlookup).left
          exact absurd (Finmap.mem_iff.mpr ⟨key, hsame⟩) hnew
      · rintro ⟨hkey, _hwhole⟩
        rw [if_pos (Option.some.inj hkey).symm]
    · rw [← hold key topic hne]
      constructor
      · intro hlookup
        split at hlookup
        · exact absurd (Option.some.inj hlookup).symm hne
        · exact hlookup
      · intro hlookup
        rw [if_neg]
        · exact hlookup
        · rintro rfl
          rw [hvacant] at hlookup
          cases hlookup
  · rw [if_neg hprops]
    refine ⟨c, setAndGet_topic c htopic, hnext, h.limit_eq, ?_⟩
    intro key topic
    by_cases hne : topic = p.1.topic
    · rw [hne, whole_append, whole_singleton]
      constructor
      · intro hlookup
        have hsame := ((h.known _ _).mp hlookup).left
        exact absurd (Finmap.mem_iff.mpr ⟨key, hsame⟩) hnew
      · rintro ⟨_hkey, _hwhole, hlast⟩
        exact absurd (hlast rfl) hprops
    · exact hold key topic hne

/-- What is written for a message, and that the broker's aliases go on. -/
theorem Numbers.publish (h : Numbers max pre a) (hpos : 0 < max) (hmax : max < 2 ^ 16)
    (p : Outgoing × Option Nat) :
    exists a' topic key, Sink.publish (some a) p.1 p.2 = some (some a', written p topic key) ∧
      Written max a p.1.topic a' topic key ∧ Numbers max (pre ++ [p]) a' := by
  rcases h.get hpos hmax p with ⟨a', topic, key, hget, hwritten, hnext⟩
  refine ⟨a', topic, key, ?_, hwritten, hnext⟩
  unfold Sink.publish Sink.topicAndAlias
  dsimp only
  rw [hget]
  rfl

theorem Numbers.alias_le (h : Numbers max pre a) {topic : String} {answer : Option String}
    (hwritten : Written max a topic a' answer key) (p : Outgoing × Option Nat) :
    forall k, (written p answer key).topicAlias = some k -> 0 < k ∧ k ≤ max := by
  intro k hk
  rw [topicAlias_written] at hk
  split at hk
  · cases hwritten with
    | known number hnumber =>
        have hrange := h.range topic number hnumber
        have hsize := h.size
        have heq := Option.some.inj hk
        omega
    | plain _ => cases hk
    | fresh _ hroom =>
        have heq := Option.some.inj hk
        omega
  · cases hk

/-- All messages are written, with aliases that the client allows. -/
theorem Numbers.publishAll (h : Numbers max pre a) (hpos : 0 < max) (hmax : max < 2 ^ 16)
    (ps : List (Outgoing × Option Nat)) :
    exists ws, Sink.publishAll (some a) ps = some ws ∧
      forall w, w ∈ ws -> forall k, w.topicAlias = some k -> 0 < k ∧ k ≤ max := by
  induction ps generalizing pre a with
  | nil => exact ⟨[], rfl, fun w hw => absurd hw List.not_mem_nil⟩
  | cons p ps ih =>
      rcases h.publish hpos hmax p with ⟨a', topic, key, hpublish, hwritten, hnext⟩
      rcases ih hnext with ⟨ws, hws, hbound⟩
      refine ⟨written p topic key :: ws, ?_, ?_⟩
      · unfold Sink.publishAll
        rw [hpublish]
        dsimp only
        rw [hws]
        rfl
      · intro w hw
        rcases List.mem_cons.mp hw with rfl | hrest
        · exact h.alias_le hwritten p
        · exact hbound w hrest

/-- A message is read for what it is, or its topic has a number the client was not told. -/
theorem Agree.step (h : Agree max limit pre a c) (hlimit : max ≤ limit)
    (htopic : p.1.topic ≠ "") (hwritten : Written max a p.1.topic a' topic key)
    (hnext : Numbers max (pre ++ [p]) a') :
    ((Numbered max pre p.1.topic -> p.1.properties.isSome = true ∧ Whole pre p.1.topic) ->
      exists c', c.setAndGet (written p topic key).topicAlias (written p topic key).topic =
          Except.ok (c', p.1.topic) ∧ Agree max limit (pre ++ [p]) a' c') ∧
    (¬ (Numbered max pre p.1.topic -> p.1.properties.isSome = true ∧ Whole pre p.1.topic) ->
      exists e, c.setAndGet (written p topic key).topicAlias (written p topic key).topic =
        Except.error e) := by
  cases hwritten with
  | known number hnumber =>
      have hmem : Numbered max pre p.1.topic :=
        (h.numbers.numbered _).mp (Finmap.mem_iff.mpr ⟨number, hnumber⟩)
      have hagain := h.again hnext hnumber
      constructor
      · intro hgood
        rcases hagain.left (hgood hmem) with ⟨hread, hafter⟩
        exact ⟨c, hread, hafter⟩
      · intro hbad
        exact hagain.right (fun hwhole => hbad (fun _ => hwhole))
  | plain hnew =>
      have hnot : ¬ Numbered max pre p.1.topic := fun hnum =>
        hnew ((h.numbers.numbered _).mpr hnum)
      constructor
      · intro _
        refine ⟨c, ?_, h.plain hnext hnew⟩
        rw [topicAlias_written, ite_self]
        exact setAndGet_topic c htopic
      · intro hbad
        exact absurd (fun hnum => absurd hnum hnot) hbad
  | fresh hnew hroom =>
      have hnot : ¬ Numbered max pre p.1.topic := fun hnum =>
        hnew ((h.numbers.numbered _).mpr hnum)
      constructor
      · intro _
        exact h.enter hlimit htopic hnew hroom
      · intro hbad
        exact absurd (fun hnum => absurd hnum hnot) hbad

/-- The topics are read to the end, or up to the first message that cannot be read. -/
theorem Agree.readAll (h : Agree max limit pre a c) (hpos : 0 < max) (hmax : max < 2 ^ 16)
    (hlimit : max ≤ limit) {ps : List (Outgoing × Option Nat)}
    (htopics : forall p, p ∈ ps -> p.1.topic ≠ "") {ws : List Outgoing}
    (hws : Sink.publishAll (some a) ps = some ws) :
    (Readable max pre ps -> c.readAll ws = Except.ok (topics ps)) ∧
      (¬ Readable max pre ps -> exists e, c.readAll ws = Except.error e) := by
  induction ps generalizing pre a c ws with
  | nil =>
      cases hws
      constructor
      · intro _
        rfl
      · intro hnot
        exact absurd (fun mid p post heq => absurd heq (by simp)) hnot
  | cons p ps ih =>
      rcases h.numbers.publish hpos hmax p with ⟨a', topic, key, hpublish, hwritten, hnext⟩
      unfold Sink.publishAll at hws
      rw [hpublish] at hws
      rcases Option.map_eq_some_iff.mp hws with ⟨rest, hrest, rfl⟩
      have hhead := h.step hlimit (htopics p List.mem_cons_self) hwritten hnext
      rw [readable_cons]
      unfold ClientTopicAliases.readAll
      by_cases hgood : Numbered max pre p.1.topic ->
          p.1.properties.isSome = true ∧ Whole pre p.1.topic
      · rcases hhead.left hgood with ⟨c', hread, hafter⟩
        have htail := ih hafter (fun q hq => htopics q (List.mem_cons_of_mem p hq)) hrest
        rw [hread]
        dsimp only
        constructor
        · intro hreadable
          rw [htail.left hreadable.right]
          rfl
        · intro hnot
          rcases htail.right (fun hlater => hnot ⟨hgood, hlater⟩) with ⟨e, he⟩
          rw [he]
          exact ⟨e, rfl⟩
      · rcases hhead.right hgood with ⟨e, he⟩
        rw [he]
        constructor
        · intro hreadable
          exact absurd hreadable.left hgood
        · intro _
          exact ⟨e, rfl⟩

end Reading

/-- Without aliases every topic is written and read as it is. -/
theorem publishAll_none (c : ClientTopicAliases) {ps : List (Outgoing × Option Nat)}
    (htopics : forall p, p ∈ ps -> p.1.topic ≠ "") :
    exists ws, Sink.publishAll none ps = some ws ∧
      (forall w, w ∈ ws -> w.topicAlias = none) ∧ c.readAll ws = Except.ok (topics ps) := by
  induction ps with
  | nil => exact ⟨[], rfl, fun w hw => absurd hw List.not_mem_nil, rfl⟩
  | cons p ps ih =>
      rcases ih (fun q hq => htopics q (List.mem_cons_of_mem p hq)) with ⟨ws, hws, halias, hread⟩
      have hnone : (written p (some p.1.topic) none).topicAlias = none := by
        rw [topicAlias_written, ite_self]
      refine ⟨written p (some p.1.topic) none :: ws, ?_, ?_, ?_⟩
      · unfold Sink.publishAll
        show (Sink.publishAll none ps).map _ = _
        rw [hws]
        rfl
      · intro w hw
        rcases List.mem_cons.mp hw with rfl | hrest
        · exact hnone
        · exact halias w hrest
      · unfold ClientTopicAliases.readAll
        have hhead := setAndGet_topic c (htopics p List.mem_cons_self)
        rw [hnone, show (written p (some p.1.topic) none).topic = p.1.topic from rfl, hhead]
        dsimp only
        rw [hread]
        rfl

theorem maxServerTopicAliases_le (cfg : ListenerConfig) (topicAliasMax : Nat) (ci : ConnectInfo) :
    Fitter.maxServerTopicAliases cfg topicAliasMax ci ≤ topicAliasMax := by
  cases ci with
  | v3 _ _ => exact Nat.zero_le _
  | v5 _ _ => exact Nat.min_le_left _ _

namespace Sample

/-- A client of version 5. -/
def aliasClient : ConnectInfo :=
  ConnectInfo.v5 { nodeId := 1, clientId := "c", username := none, createTime := 0 }
    { cleanStart := true, sessionExpiryIntervalSecs := 0, username := none, password := none,
      lastWill := none }

/-- Two messages for one topic, of which only the first has properties. -/
def bare : List (Outgoing × Option Nat) :=
  [({ topic := "a", properties := some { messageExpiryInterval := none, topicAlias := none } },
      none),
    ({ topic := "a", properties := none }, none)]

end Sample

end Session
end Ciqada
