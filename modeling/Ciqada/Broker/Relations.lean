import Ciqada.Foundation.Run
import Ciqada.Foundation.Gather
import Ciqada.Broker.TreeWalk

/-!
# The router's tables

The router keeps the subscriptions of every filter in a table of its own, the
filters in the topic tree, and two counters beside them.  Adding and removing
subscriptions keeps the four in step.
-/

namespace Ciqada
namespace Broker

open Foundation

/-- A number that goes up and down, with the highest value it has had. -/
structure Counter where
  count : Int
  max : Int
  deriving DecidableEq

namespace Counter

def new : Counter :=
  { count := 0, max := 0 }

def inc (c : Counter) : Counter :=
  { count := c.count + 1, max := Max.max c.max (c.count + 1) }

def dec (c : Counter) : Counter :=
  { c with count := c.count - 1 }

end Counter

/-- The options a relation keeps; the identifier is one of version 5. -/
structure RelationOptions extends SubscriptionOptions where
  subscriptionIdentifier : Option Nat
  deriving DecidableEq

/-- The clients of a filter. -/
abbrev FilterRelations : Type :=
  Table String (Id × RelationOptions)

abbrev AllRelationsMap : Type :=
  Table String FilterRelations

structure DefaultRouter where
  topics : Node Unit
  topicsCount : Counter
  relations : AllRelationsMap
  relationsCount : Counter

namespace DefaultRouter

def new : DefaultRouter :=
  { topics := Node.empty, topicsCount := Counter.new, relations := ∅,
    relationsCount := Counter.new }

def add (r : DefaultRouter) (topicFilter : String) (id : Id) (opts : RelationOptions) :
    Except TopicError DefaultRouter :=
  match Topic.fromStr topicFilter with
  | Except.error e => Except.error e
  | Except.ok topic =>
      let rels := (r.relations.lookup topicFilter).getD ∅
      Except.ok
        { topics := r.topics.insert () topic.levels
          topicsCount :=
            if topicFilter ∈ r.relations then r.topicsCount else r.topicsCount.inc
          relations := r.relations.insert topicFilter (rels.insert id.clientId (id, opts))
          relationsCount :=
            if id.clientId ∈ rels then r.relationsCount else r.relationsCount.inc }

/-- A filter without clients goes from the table and from the tree. -/
def dropFilter (r : DefaultRouter) (topicFilter : String) :
    DefaultRouter × Except TopicError Bool :=
  let r :=
    { r with relations := r.relations.erase topicFilter, topicsCount := r.topicsCount.dec }
  match Topic.fromStr topicFilter with
  | Except.error e => (r, Except.error e)
  | Except.ok topic =>
      ({ r with topics := (r.topics.remove () topic.levels).1 }, Except.ok true)

/-- Only the connection that made a relation removes it. -/
def remove (r : DefaultRouter) (topicFilter : String) (id : Id) :
    DefaultRouter × Except TopicError Bool :=
  match r.relations.lookup topicFilter with
  | none => (r, Except.ok false)
  | some rels =>
      match rels.lookup id.clientId with
      | none => (r, Except.ok false)
      | some row =>
          if row.1 ≠ id then (r, Except.ok false)
          else
            let rels := rels.erase id.clientId
            let r :=
              { r with
                relations := r.relations.insert topicFilter rels
                relationsCount := r.relationsCount.dec }
            if Table.size rels = 0 then r.dropFilter topicFilter else (r, Except.ok true)

/-!
## The relations as a whole
-/

/-- The relation of a client with a filter. -/
def relation (r : DefaultRouter) (topicFilter clientId : String) :
    Option (Id × RelationOptions) :=
  (r.relations.lookup topicFilter).bind (fun rels => rels.lookup clientId)

/--
What the parts of the router say about each other.  Every filter of the table
parses and is in the tree, has a client, and the counters count.  What is in the
tree are filters.
-/
structure Coherent (r : DefaultRouter) : Prop where
  canonical : r.topics.Canonical
  parses : forall f, f ∈ r.relations -> exists topic, Topic.fromStr f = Except.ok topic
  covered : forall f topic, f ∈ r.relations -> Topic.fromStr f = Except.ok topic ->
    r.topics.holds topic.levels () = true
  named : forall path, r.topics.holds path () = true ->
    exists f topic, Topic.fromStr f = Except.ok topic ∧ topic.levels = path
  inhabited : forall f rels, r.relations.lookup f = some rels -> Table.size rels ≠ 0
  own : forall f clientId row, r.relation f clientId = some row -> row.1.clientId = clientId
  topicsCount : r.topicsCount.count = Table.size r.relations
  relationsCount : r.relationsCount.count = Table.total Table.size r.relations

/-- The tree holds no filter beside those of the table. -/
def Tidy (r : DefaultRouter) : Prop :=
  forall path, r.topics.holds path () = true ->
    exists f topic, f ∈ r.relations ∧ Topic.fromStr f = Except.ok topic ∧ topic.levels = path

theorem levels_inj {f f' : String} {topic topic' : Topic} (hf : Topic.fromStr f = Except.ok topic)
    (hf' : Topic.fromStr f' = Except.ok topic') (hlevels : topic.levels = topic'.levels) :
    f = f' := by
  have htopic : topic = topic' := by
    cases topic
    cases topic'
    exact congrArg Topic.mk hlevels
  rw [← Topic.toText_of_fromStr hf, ← Topic.toText_of_fromStr hf', htopic]

theorem relation_eq_some {r : DefaultRouter} {f clientId : String} {row : Id × RelationOptions} :
    r.relation f clientId = some row <->
      exists rels, r.relations.lookup f = some rels ∧ rels.lookup clientId = some row :=
  Option.bind_eq_some_iff

theorem lookup_getD (r : DefaultRouter) (f clientId : String) :
    ((r.relations.lookup f).getD ∅).lookup clientId = r.relation f clientId := by
  unfold relation
  cases r.relations.lookup f with
  | none => exact Finmap.lookup_empty clientId
  | some rels => rfl

/-!
## Adding
-/

section Add

variable {r r' : DefaultRouter} {topicFilter : String} {id : Id} {opts : RelationOptions}

theorem add_ok_iff :
    r.add topicFilter id opts = Except.ok r' <->
      exists topic, Topic.fromStr topicFilter = Except.ok topic ∧
        r' =
          { topics := r.topics.insert () topic.levels
            topicsCount :=
              if topicFilter ∈ r.relations then r.topicsCount else r.topicsCount.inc
            relations := r.relations.insert topicFilter
              (((r.relations.lookup topicFilter).getD ∅).insert id.clientId (id, opts))
            relationsCount :=
              if id.clientId ∈ (r.relations.lookup topicFilter).getD ∅ then r.relationsCount
              else r.relationsCount.inc } := by
  unfold add
  cases htopic : Topic.fromStr topicFilter with
  | error e => simp
  | ok topic => simp [eq_comm]

theorem relation_add (hadd : r.add topicFilter id opts = Except.ok r') (f clientId : String) :
    r'.relation f clientId =
      if f = topicFilter ∧ clientId = id.clientId then some (id, opts)
      else r.relation f clientId := by
  rcases add_ok_iff.mp hadd with ⟨topic, _htopic, rfl⟩
  unfold relation
  dsimp only
  rw [Table.lookup_insert_if]
  by_cases hf : f = topicFilter
  · rw [if_pos hf, hf]
    show (((r.relations.lookup topicFilter).getD ∅).insert id.clientId (id, opts)).lookup
      clientId = _
    rw [Table.lookup_insert_if, lookup_getD]
    by_cases hc : clientId = id.clientId
    · rw [if_pos hc, if_pos ⟨rfl, hc⟩]
    · rw [if_neg hc, if_neg (fun h => hc h.right)]
      rfl
  · rw [if_neg hf, if_neg (fun h => hf h.left)]

theorem mem_add (hadd : r.add topicFilter id opts = Except.ok r') (f : String) :
    f ∈ r'.relations <-> f = topicFilter ∨ f ∈ r.relations := by
  rcases add_ok_iff.mp hadd with ⟨topic, _htopic, rfl⟩
  exact Finmap.mem_insert

theorem total_lookup_getD (r : DefaultRouter) (f : String) :
    Table.size ((r.relations.lookup f).getD ∅) = Table.weight Table.size r.relations f := by
  unfold Table.weight
  cases r.relations.lookup f with
  | none => rfl
  | some rels => rfl

theorem Coherent.add (hr : r.Coherent) (hadd : r.add topicFilter id opts = Except.ok r') :
    r'.Coherent := by
  have hrelation := relation_add hadd
  have hmem := mem_add hadd
  rcases add_ok_iff.mp hadd with ⟨topic, htopic, heq⟩
  constructor
  case canonical =>
    rw [heq]
    exact (hr.canonical.insert () topic.levels).left
  case parses =>
    intro f hf
    rcases (hmem f).mp hf with rfl | hold
    · exact ⟨topic, htopic⟩
    · exact hr.parses f hold
  case covered =>
    intro f t hf ht
    rw [heq]
    show (Node.insert () topic.levels r.topics).holds t.levels () = true
    rw [Node.holds_insert, Bool.or_eq_true, decide_eq_true_iff]
    rcases (hmem f).mp hf with rfl | hold
    · rw [htopic] at ht
      rw [Except.ok.inj ht]
      exact Or.inl ⟨rfl, rfl⟩
    · exact Or.inr (hr.covered f t hold ht)
  case named =>
    intro path hpath
    rw [heq] at hpath
    change (Node.insert () topic.levels r.topics).holds path () = true at hpath
    rw [Node.holds_insert, Bool.or_eq_true, decide_eq_true_iff] at hpath
    rcases hpath with ⟨hnew, _⟩ | hold
    · exact ⟨topicFilter, topic, htopic, hnew.symm⟩
    · exact hr.named path hold
  case inhabited =>
    intro f rels hf
    rw [heq] at hf
    dsimp only at hf
    rw [Table.lookup_insert_if] at hf
    by_cases hsame : f = topicFilter
    · rw [if_pos hsame] at hf
      rw [← Option.some.inj hf, ne_eq, Table.size_eq_zero]
      intro hnone
      have hrow := hnone id.clientId
      rw [Finmap.lookup_insert] at hrow
      cases hrow
    · rw [if_neg hsame] at hf
      exact hr.inhabited f rels hf
  case own =>
    intro f clientId row hrow
    rw [hrelation] at hrow
    split at hrow
    · next hsame => rw [← Option.some.inj hrow, hsame.right]
    · exact hr.own f clientId row hrow
  case topicsCount =>
    rw [heq]
    dsimp only
    by_cases hin : topicFilter ∈ r.relations
    · rw [if_pos hin, Table.size_insert_of_mem hin]
      exact hr.topicsCount
    · rw [if_neg hin, Table.size_insert_of_not_mem hin]
      show r.topicsCount.count + 1 = _
      rw [hr.topicsCount]
      rfl
  case relationsCount =>
    have hcount := hr.relationsCount
    have htotal := Table.total_insert_weight Table.size r.relations topicFilter
      (((r.relations.lookup topicFilter).getD ∅).insert id.clientId (id, opts))
    rw [← total_lookup_getD] at htotal
    rw [heq]
    dsimp only
    by_cases hin : id.clientId ∈ (r.relations.lookup topicFilter).getD ∅
    · rw [if_pos hin]
      rw [Table.size_insert_of_mem hin] at htotal
      rw [hcount]
      exact congrArg Nat.cast (Nat.add_right_cancel htotal).symm
    · rw [if_neg hin]
      rw [Table.size_insert_of_not_mem hin] at htotal
      show r.relationsCount.count + 1 = _
      rw [hcount]
      omega

theorem Tidy.add (hr : r.Tidy) (hadd : r.add topicFilter id opts = Except.ok r') : r'.Tidy := by
  have hmem := mem_add hadd
  rcases add_ok_iff.mp hadd with ⟨topic, htopic, heq⟩
  intro path hpath
  rw [heq] at hpath
  change (Node.insert () topic.levels r.topics).holds path () = true at hpath
  rw [Node.holds_insert, Bool.or_eq_true, decide_eq_true_iff] at hpath
  rcases hpath with ⟨hnew, _⟩ | hold
  · exact ⟨topicFilter, topic, (hmem _).mpr (Or.inl rfl), htopic, hnew.symm⟩
  · rcases hr path hold with ⟨f, t, hf, ht, hlevels⟩
    exact ⟨f, t, (hmem f).mpr (Or.inr hf), ht, hlevels⟩

end Add

/-!
## Removing
-/

section Remove

variable {r : DefaultRouter} {topicFilter : String} {id : Id}

/-- The relation is there and was made by the connection. -/
def Owns (r : DefaultRouter) (topicFilter : String) (id : Id) : Prop :=
  exists opts, r.relation topicFilter id.clientId = some (id, opts)

/-- The router after the relation of a connection has gone. -/
def without (r : DefaultRouter) (topicFilter : String) (id : Id) (rels : FilterRelations) :
    DefaultRouter :=
  { r with
    relations := r.relations.insert topicFilter (rels.erase id.clientId)
    relationsCount := r.relationsCount.dec }

/-- What a removal does: nothing, one client less, or one filter less. -/
theorem remove_cases (r : DefaultRouter) (topicFilter : String) (id : Id) :
    (¬ r.Owns topicFilter id ∧ r.remove topicFilter id = (r, Except.ok false)) ∨
    (exists rels, r.relations.lookup topicFilter = some rels ∧ id.clientId ∈ rels ∧
      r.Owns topicFilter id ∧
      ((Table.size (rels.erase id.clientId) ≠ 0 ∧
          r.remove topicFilter id = (r.without topicFilter id rels, Except.ok true)) ∨
        (Table.size (rels.erase id.clientId) = 0 ∧
          r.remove topicFilter id =
            (r.without topicFilter id rels).dropFilter topicFilter))) := by
  unfold remove Owns
  cases hrels : r.relations.lookup topicFilter with
  | none =>
      left
      refine ⟨?_, rfl⟩
      rintro ⟨opts, hrow⟩
      unfold relation at hrow
      rw [hrels] at hrow
      cases hrow
  | some rels =>
      have hrelation : r.relation topicFilter id.clientId = rels.lookup id.clientId := by
        unfold relation
        rw [hrels]
        rfl
      dsimp only
      rw [hrelation]
      cases hrow : rels.lookup id.clientId with
      | none =>
          left
          refine ⟨?_, rfl⟩
          rintro ⟨opts, h⟩
          cases h
      | some row =>
          dsimp only
          by_cases hid : row.1 = id
          · right
            rw [if_neg (fun h => h hid)]
            refine ⟨rels, rfl, Table.mem_iff_lookup.mpr ⟨row, hrow⟩, ?_, ?_⟩
            · exact ⟨row.2, congrArg some (Prod.ext hid rfl)⟩
            · by_cases hsize : Table.size (rels.erase id.clientId) = 0
              · rw [if_pos hsize]
                exact Or.inr ⟨hsize, rfl⟩
              · rw [if_neg hsize]
                exact Or.inl ⟨hsize, rfl⟩
          · left
            rw [if_pos hid]
            refine ⟨?_, rfl⟩
            rintro ⟨opts, h⟩
            exact hid (congrArg Prod.fst (Option.some.inj h))

theorem dropFilter_eq (r : DefaultRouter) {topicFilter : String} {topic : Topic}
    (htopic : Topic.fromStr topicFilter = Except.ok topic) :
    r.dropFilter topicFilter =
      ({ topics := (r.topics.remove () topic.levels).1
         topicsCount := r.topicsCount.dec
         relations := r.relations.erase topicFilter
         relationsCount := r.relationsCount }, Except.ok true) := by
  unfold dropFilter
  rw [htopic]

/-- In a coherent router a removal cannot fail, and it answers whether the relation was there. -/
theorem Coherent.remove_answer (hr : r.Coherent) (topicFilter : String) (id : Id) :
    exists removed, (r.remove topicFilter id).2 = Except.ok removed ∧
      (removed = true <-> r.Owns topicFilter id) := by
  rcases remove_cases r topicFilter id with ⟨hnot, heq⟩ |
    ⟨rels, hrels, _hmem, howns, ⟨_hsize, heq⟩ | ⟨_hsize, heq⟩⟩
  · exact ⟨false, by rw [heq], by simp [hnot]⟩
  · exact ⟨true, by rw [heq], by simp [howns]⟩
  · rcases hr.parses topicFilter (Table.mem_iff_lookup.mpr ⟨rels, hrels⟩) with ⟨topic, htopic⟩
    exact ⟨true, by rw [heq, dropFilter_eq _ htopic], by simp [howns]⟩

theorem relation_without {rels : FilterRelations}
    (hrels : r.relations.lookup topicFilter = some rels) (f clientId : String) :
    (r.without topicFilter id rels).relation f clientId =
      if f = topicFilter ∧ clientId = id.clientId then none else r.relation f clientId := by
  unfold relation without
  dsimp only
  rw [Table.lookup_insert_if]
  by_cases hf : f = topicFilter
  · rw [if_pos hf, hf, hrels]
    show (rels.erase id.clientId).lookup clientId = _
    rw [Table.lookup_erase_if]
    by_cases hc : clientId = id.clientId
    · rw [if_pos hc, if_pos ⟨rfl, hc⟩]
    · rw [if_neg hc, if_neg (fun h => hc h.right)]
      rfl
  · rw [if_neg hf, if_neg (fun h => hf h.left)]

/-- A removal takes away the relation of the connection and no other. -/
theorem Coherent.relation_remove (hr : r.Coherent) (topicFilter : String) (id : Id)
    (f clientId : String) :
    ((r.remove topicFilter id).1.relation f clientId = none ∧ f = topicFilter ∧
        clientId = id.clientId ∧ r.Owns topicFilter id) ∨
      ((r.remove topicFilter id).1.relation f clientId = r.relation f clientId ∧
        ¬ (f = topicFilter ∧ clientId = id.clientId ∧ r.Owns topicFilter id)) := by
  rcases remove_cases r topicFilter id with ⟨hnot, heq⟩ |
    ⟨rels, hrels, _hmem, howns, ⟨_hsize, heq⟩ | ⟨hsize, heq⟩⟩
  · right
    rw [heq]
    exact ⟨rfl, fun h => hnot h.right.right⟩
  · rw [heq, relation_without hrels]
    by_cases hsame : f = topicFilter ∧ clientId = id.clientId
    · rw [if_pos hsame]
      exact Or.inl ⟨rfl, hsame.left, hsame.right, howns⟩
    · rw [if_neg hsame]
      exact Or.inr ⟨rfl, fun h => hsame ⟨h.left, h.right.left⟩⟩
  · rcases hr.parses topicFilter (Table.mem_iff_lookup.mpr ⟨rels, hrels⟩) with ⟨topic, htopic⟩
    rw [heq, dropFilter_eq _ htopic]
    unfold relation without
    dsimp only
    rw [Table.lookup_erase_if, Table.lookup_insert_if]
    by_cases hf : f = topicFilter
    · rw [if_pos hf]
      by_cases hc : clientId = id.clientId
      · exact Or.inl ⟨rfl, hf, hc, howns⟩
      · right
        refine ⟨?_, fun h => hc h.right.left⟩
        rw [hf, hrels]
        have hgone := Table.size_eq_zero.mp hsize clientId
        rw [Table.lookup_erase_if, if_neg hc] at hgone
        exact hgone.symm
    · right
      rw [if_neg hf, if_neg hf]
      exact ⟨rfl, fun h => hf h.left⟩

theorem mem_without {rels : FilterRelations} (hrels : r.relations.lookup topicFilter = some rels)
    (f : String) : f ∈ (r.without topicFilter id rels).relations <-> f ∈ r.relations := by
  show f ∈ r.relations.insert topicFilter _ <-> _
  rw [Finmap.mem_insert]
  constructor
  · rintro (rfl | hold)
    · exact Table.mem_iff_lookup.mpr ⟨rels, hrels⟩
    · exact hold
  · exact Or.inr

/-- The counter of relations after one relation has gone. -/
theorem Coherent.relationsCount_without (hr : r.Coherent) {rels : FilterRelations}
    (hrels : r.relations.lookup topicFilter = some rels) (hmem : id.clientId ∈ rels) :
    (r.without topicFilter id rels).relationsCount.count =
      Table.total Table.size (r.without topicFilter id rels).relations := by
  have hcount := hr.relationsCount
  have htotal := Table.total_insert_weight Table.size r.relations topicFilter (rels.erase id.clientId)
  have hsize := Table.size_erase_of_mem hmem
  rw [Table.weight_of_lookup hrels] at htotal
  show r.relationsCount.count - 1 = Table.total Table.size (r.relations.insert topicFilter _)
  omega

/-- A filter that keeps a client. -/
theorem Coherent.without (hr : r.Coherent) {rels : FilterRelations}
    (hrels : r.relations.lookup topicFilter = some rels) (hmem : id.clientId ∈ rels)
    (hsize : Table.size (rels.erase id.clientId) ≠ 0) :
    (r.without topicFilter id rels).Coherent := by
  have hfilters : forall f,
      f ∈ (r.without topicFilter id rels).relations <-> f ∈ r.relations := mem_without hrels
  constructor
  case canonical => exact hr.canonical
  case parses => exact fun f hf => hr.parses f ((hfilters f).mp hf)
  case covered => exact fun f topic hf ht => hr.covered f topic ((hfilters f).mp hf) ht
  case named => exact hr.named
  case inhabited =>
    intro f rels' hf
    change (r.relations.insert topicFilter _).lookup f = some rels' at hf
    rw [Table.lookup_insert_if] at hf
    by_cases hsame : f = topicFilter
    · rw [if_pos hsame] at hf
      rw [← Option.some.inj hf]
      exact hsize
    · rw [if_neg hsame] at hf
      exact hr.inhabited f rels' hf
  case own =>
    intro f clientId row hrow
    rw [relation_without hrels] at hrow
    split at hrow
    · cases hrow
    · exact hr.own f clientId row hrow
  case topicsCount =>
    show r.topicsCount.count = Table.size (r.relations.insert topicFilter _)
    rw [Table.size_insert_of_mem (Table.mem_iff_lookup.mpr ⟨rels, hrels⟩)]
    exact hr.topicsCount
  case relationsCount => exact hr.relationsCount_without hrels hmem

/-- A filter that loses its last client. -/
theorem Coherent.dropFilter (hr : r.Coherent) {rels : FilterRelations} {topic : Topic}
    (htopic : Topic.fromStr topicFilter = Except.ok topic)
    (hrels : r.relations.lookup topicFilter = some rels) (hmem : id.clientId ∈ rels)
    (hsize : Table.size (rels.erase id.clientId) = 0) :
    ((r.without topicFilter id rels).dropFilter topicFilter).1.Coherent := by
  have hin : topicFilter ∈ r.relations := Table.mem_iff_lookup.mpr ⟨rels, hrels⟩
  rw [dropFilter_eq _ htopic]
  have hback : (r.without topicFilter id rels).relations.erase topicFilter =
      r.relations.erase topicFilter := by
    apply Finmap.ext_lookup
    intro f
    show ((r.relations.insert topicFilter _).erase topicFilter).lookup f = _
    rw [Table.lookup_erase_if, Table.lookup_erase_if, Table.lookup_insert_if]
    split
    · rfl
    · rfl
  have hfilters : forall f, f ∈ r.relations.erase topicFilter <-> f ≠ topicFilter ∧ f ∈ r.relations :=
    fun f => Finmap.mem_erase
  have hcount := hr.relationsCount_without hrels hmem
  rw [hback]
  constructor
  case canonical => exact hr.canonical.remove () topic.levels
  case parses => exact fun f hf => hr.parses f ((hfilters f).mp hf).right
  case covered =>
    intro f t hf ht
    rcases (hfilters f).mp hf with ⟨hne, hold⟩
    show (r.topics.remove () topic.levels).1.holds t.levels () = true
    rw [Node.holds_remove hr.canonical, hr.covered f t hold ht, Bool.true_and,
      Bool.not_eq_true', decide_eq_false_iff_not]
    exact fun h => hne (levels_inj ht htopic h.left)
  case named =>
    intro path hpath
    change (r.topics.remove () topic.levels).1.holds path () = true at hpath
    rw [Node.holds_remove hr.canonical, Bool.and_eq_true] at hpath
    exact hr.named path hpath.left
  case inhabited =>
    intro f rels' hf
    change (r.relations.erase topicFilter).lookup f = some rels' at hf
    rw [Table.lookup_erase_if] at hf
    split at hf
    · cases hf
    · exact hr.inhabited f rels' hf
  case own =>
    intro f clientId row hrow
    rcases relation_eq_some.mp hrow with ⟨rels', hf, hc⟩
    change (r.relations.erase topicFilter).lookup f = some rels' at hf
    rw [Table.lookup_erase_if] at hf
    split at hf
    · cases hf
    · exact hr.own f clientId row (relation_eq_some.mpr ⟨rels', hf, hc⟩)
  case topicsCount =>
    have hone := Table.size_erase_of_mem hin
    have htopics := hr.topicsCount
    show r.topicsCount.count - 1 = Table.size (r.relations.erase topicFilter)
    omega
  case relationsCount =>
    have hlast : (r.without topicFilter id rels).relations.lookup topicFilter =
        some (rels.erase id.clientId) := Finmap.lookup_insert _
    have htotal := @Table.total_erase _ _ _ Table.size _ _ _ hlast
    rw [hback] at htotal
    show (r.without topicFilter id rels).relationsCount.count =
      Table.total Table.size (r.relations.erase topicFilter)
    omega

theorem Coherent.remove (hr : r.Coherent) (topicFilter : String) (id : Id) :
    (r.remove topicFilter id).1.Coherent := by
  rcases remove_cases r topicFilter id with ⟨_hnot, heq⟩ |
    ⟨rels, hrels, hmem, _howns, ⟨hsize, heq⟩ | ⟨hsize, heq⟩⟩
  · rw [heq]
    exact hr
  · rw [heq]
    exact hr.without hrels hmem hsize
  · rcases hr.parses topicFilter (Table.mem_iff_lookup.mpr ⟨rels, hrels⟩) with ⟨topic, htopic⟩
    rw [heq]
    exact hr.dropFilter htopic hrels hmem hsize

theorem Tidy.remove (hr : r.Tidy) (hcoherent : r.Coherent) (topicFilter : String) (id : Id) :
    (r.remove topicFilter id).1.Tidy := by
  rcases remove_cases r topicFilter id with ⟨_hnot, heq⟩ |
    ⟨rels, hrels, _hmem, _howns, ⟨_hsize, heq⟩ | ⟨_hsize, heq⟩⟩
  · rw [heq]
    exact hr
  · rw [heq]
    intro path hpath
    rcases hr path hpath with ⟨f, topic, hf, ht, hlevels⟩
    exact ⟨f, topic, (mem_without hrels f).mpr hf, ht, hlevels⟩
  · rcases hcoherent.parses topicFilter (Table.mem_iff_lookup.mpr ⟨rels, hrels⟩) with
      ⟨topic, htopic⟩
    rw [heq, dropFilter_eq _ htopic]
    intro path hpath
    change (r.topics.remove () topic.levels).1.holds path () = true at hpath
    rw [Node.holds_remove hcoherent.canonical, Bool.and_eq_true, Bool.not_eq_true',
      decide_eq_false_iff_not] at hpath
    rcases hr path hpath.left with ⟨f, t, hf, ht, hlevels⟩
    refine ⟨f, t, ?_, ht, hlevels⟩
    show f ∈ (r.without topicFilter id rels).relations.erase topicFilter
    refine Finmap.mem_erase.mpr ⟨?_, (mem_without hrels f).mpr hf⟩
    intro hsame
    rw [hsame, htopic] at ht
    exact hpath.right ⟨by rw [← hlevels, ← Except.ok.inj ht], rfl⟩

end Remove

theorem Coherent.new : DefaultRouter.new.Coherent := by
  constructor
  case canonical => exact Node.Canonical.empty
  case parses => exact fun f hf => absurd hf Finmap.notMem_empty
  case covered => exact fun f topic hf _ => absurd hf Finmap.notMem_empty
  case named =>
    intro path hpath
    rw [show DefaultRouter.new.topics = Node.empty from rfl, Node.holds_empty] at hpath
    cases hpath
  case inhabited =>
    intro f rels hf
    rw [show DefaultRouter.new.relations = ∅ from rfl, Finmap.lookup_empty] at hf
    cases hf
  case own =>
    intro f clientId row hrow
    rcases relation_eq_some.mp hrow with ⟨rels, hf, _⟩
    rw [show DefaultRouter.new.relations = ∅ from rfl, Finmap.lookup_empty] at hf
    cases hf
  case topicsCount => rfl
  case relationsCount => rfl

theorem Tidy.new : DefaultRouter.new.Tidy := by
  intro path hpath
  rw [show DefaultRouter.new.topics = Node.empty from rfl, Node.holds_empty] at hpath
  cases hpath

/-!
## Counting what the tables hold
-/

/-- The filters that have a client, and the relations, each as a plain set. -/
structure Counts (r : DefaultRouter) (filters : Finset String)
    (pairs : Finset (String × String)) : Prop where
  mem_filters : forall f, f ∈ filters <-> exists clientId, (r.relation f clientId).isSome = true
  mem_pairs : forall f clientId, (f, clientId) ∈ pairs <-> (r.relation f clientId).isSome = true

variable {r : DefaultRouter}

theorem Coherent.mem_iff (hr : r.Coherent) (f : String) :
    f ∈ r.relations <-> exists clientId, (r.relation f clientId).isSome = true := by
  constructor
  · intro hf
    rcases Table.mem_iff_lookup.mp hf with ⟨rels, hrels⟩
    by_contra hnone
    apply hr.inhabited f rels hrels
    rw [Table.size_eq_zero]
    intro clientId
    cases hrow : rels.lookup clientId with
    | none => rfl
    | some row =>
        refine absurd ⟨clientId, ?_⟩ hnone
        rw [relation_eq_some.mpr ⟨rels, hrels, hrow⟩]
        rfl
  · rintro ⟨clientId, hsome⟩
    rcases Option.isSome_iff_exists.mp hsome with ⟨row, hrow⟩
    rcases relation_eq_some.mp hrow with ⟨rels, hrels, _⟩
    exact Table.mem_iff_lookup.mpr ⟨rels, hrels⟩

/-- Routers with the same relations list the same tables. -/
theorem Coherent.relations_ext {r' : DefaultRouter} (hr : r.Coherent) (hr' : r'.Coherent)
    (h : r.relation = r'.relation) : r.relations = r'.relations := by
  have hmem : forall f, f ∈ r.relations <-> f ∈ r'.relations := by
    intro f
    rw [hr.mem_iff, hr'.mem_iff, h]
  apply Finmap.ext_lookup
  intro f
  cases hf : r.relations.lookup f with
  | none =>
      cases hf' : r'.relations.lookup f with
      | none => rfl
      | some rels =>
          have hin := (hmem f).mpr (Table.mem_iff_lookup.mpr ⟨rels, hf'⟩)
          rcases Table.mem_iff_lookup.mp hin with ⟨rels', hrels'⟩
          rw [hf] at hrels'
          cases hrels'
  | some rels =>
      rcases Table.mem_iff_lookup.mp
        ((hmem f).mp (Table.mem_iff_lookup.mpr ⟨rels, hf⟩)) with ⟨rels', hf'⟩
      rw [hf']
      congr 1
      apply Finmap.ext_lookup
      intro clientId
      have hclient := congrFun (congrFun h f) clientId
      unfold DefaultRouter.relation at hclient
      rw [hf, hf'] at hclient
      exact hclient

/-- The counters and the size of the tree in terms of the plain sets. -/
theorem Coherent.counts (hr : r.Coherent) :
    exists filters pairs, r.Counts filters pairs ∧ r.topicsCount.count = filters.card ∧
      r.relationsCount.count = pairs.card := by
  let row := fun f => (r.relations.lookup f).getD ∅
  refine ⟨r.relations.keys, r.relations.keys.biUnion
    (fun f => (row f).keys.image (fun clientId => (f, clientId))), ?_, hr.topicsCount, ?_⟩
  · constructor
    case mem_filters =>
      intro f
      rw [Finmap.mem_keys]
      exact hr.mem_iff f
    case mem_pairs =>
      intro f clientId
      have hrow : clientId ∈ row f <-> (r.relation f clientId).isSome = true := by
        rw [← lookup_getD, Finmap.lookup_isSome]
      rw [Finset.mem_biUnion, ← hrow]
      constructor
      · rintro ⟨f', _hf', hmem⟩
        rcases Finset.mem_image.mp hmem with ⟨c, hc, heq⟩
        rcases Prod.mk.inj heq with ⟨rfl, rfl⟩
        exact Finmap.mem_keys.mp hc
      · intro hmem
        refine ⟨f, ?_, Finset.mem_image.mpr ⟨clientId, Finmap.mem_keys.mpr hmem, rfl⟩⟩
        exact Finmap.mem_keys.mpr ((hr.mem_iff f).mpr ⟨clientId, hrow.mp hmem⟩)
  · rw [hr.relationsCount, Finset.card_biUnion]
    · unfold Table.total
      congr 1
      apply Finset.sum_congr rfl
      intro f _hf
      rw [Finset.card_image_of_injective _ (fun c d h => (Prod.mk.inj h).right)]
      exact (total_lookup_getD r f).symm
    · intro f _hf f' _hf' hne
      refine Finset.disjoint_left.mpr ?_
      intro pair hpair hpair'
      rcases Finset.mem_image.mp hpair with ⟨c, _hc, rfl⟩
      rcases Finset.mem_image.mp hpair' with ⟨c', _hc', heq⟩
      exact hne (Prod.mk.inj heq).left.symm

/-- In a tidy router the tree has one value for each filter. -/
theorem Tidy.valuesSize_eq (htidy : r.Tidy) (hr : r.Coherent) :
    r.topics.valuesSize = Table.size r.relations := by
  rw [hr.canonical.valuesSize_eq]
  symm
  apply Finset.card_bij
    (fun f _ => ((Topic.fromStr f).toOption.elim [] Topic.levels, ()))
  · intro f hf
    rcases hr.parses f (Finmap.mem_keys.mp hf) with ⟨topic, htopic⟩
    rw [htopic, List.mem_toFinset, hr.canonical.mem_entries]
    exact hr.covered f topic (Finmap.mem_keys.mp hf) htopic
  · intro f hf f' hf' heq
    rcases hr.parses f (Finmap.mem_keys.mp hf) with ⟨topic, htopic⟩
    rcases hr.parses f' (Finmap.mem_keys.mp hf') with ⟨topic', htopic'⟩
    rw [htopic, htopic'] at heq
    exact levels_inj htopic htopic' (Prod.mk.inj heq).left
  · rintro ⟨path, _⟩ hentry
    rw [List.mem_toFinset, hr.canonical.mem_entries] at hentry
    rcases htidy path hentry with ⟨f, topic, hf, htopic, rfl⟩
    refine ⟨f, Finmap.mem_keys.mpr hf, ?_⟩
    rw [htopic]
    rfl

/-!
## Any sequence of requests
-/

inductive Request where
  | add (topicFilter : String) (id : Id) (opts : RelationOptions)
  | remove (topicFilter : String) (id : Id)

/-- A request that fails leaves the router as it is. -/
def serve (r : DefaultRouter) : Request -> DefaultRouter
  | Request.add topicFilter id opts =>
      match r.add topicFilter id opts with
      | Except.ok r => r
      | Except.error _ => r
  | Request.remove topicFilter id => (r.remove topicFilter id).1

/-- The relations as a plain map from filters and clients. -/
abbrev Plan : Type :=
  String -> String -> Option (Id × RelationOptions)

/--
What the requests ask for: the last subscription of a client with a filter that
parses stands until the connection that made it removes it.
-/
def plan (m : Plan) : Request -> Plan
  | Request.add topicFilter id opts => fun f clientId =>
      if (Topic.fromStr topicFilter).toOption.isSome ∧ f = topicFilter ∧ clientId = id.clientId
      then some (id, opts)
      else m f clientId
  | Request.remove topicFilter id => fun f clientId =>
      if f = topicFilter ∧ clientId = id.clientId ∧ (m f clientId).map Prod.fst = some id then none
      else m f clientId

def routerAfter (es : List Request) : DefaultRouter :=
  es.foldl serve new

def planAfter (es : List Request) : Plan :=
  es.foldl plan (fun _ _ => none)

theorem owns_iff {r : DefaultRouter} {topicFilter : String} {id : Id} :
    r.Owns topicFilter id <->
      (r.relation topicFilter id.clientId).map Prod.fst = some id := by
  unfold Owns
  cases r.relation topicFilter id.clientId with
  | none => simp
  | some row =>
      constructor
      · rintro ⟨opts, h⟩
        rw [h]
        rfl
      · intro h
        exact ⟨row.2, congrArg some (Prod.ext (Option.some.inj h) rfl)⟩

theorem Coherent.serve (hr : r.Coherent) (e : Request) : (r.serve e).Coherent := by
  cases e with
  | add topicFilter id opts =>
      show (match r.add topicFilter id opts with
        | Except.ok r => r
        | Except.error _ => r).Coherent
      cases hadd : r.add topicFilter id opts with
      | error e => exact hr
      | ok r' => exact hr.add hadd
  | remove topicFilter id => exact hr.remove topicFilter id

theorem Tidy.serve (htidy : r.Tidy) (hr : r.Coherent) (e : Request) : (r.serve e).Tidy := by
  cases e with
  | add topicFilter id opts =>
      show (match r.add topicFilter id opts with
        | Except.ok r => r
        | Except.error _ => r).Tidy
      cases hadd : r.add topicFilter id opts with
      | error e => exact htidy
      | ok r' => exact htidy.add hadd
  | remove topicFilter id => exact htidy.remove hr topicFilter id

theorem Coherent.relation_serve (hr : r.Coherent) (e : Request) :
    (r.serve e).relation = plan r.relation e := by
  funext f clientId
  cases e with
  | add topicFilter id opts =>
      show (match r.add topicFilter id opts with
        | Except.ok r => r
        | Except.error _ => r).relation f clientId = ite _ _ _
      cases hadd : r.add topicFilter id opts with
      | error e =>
          have hfails : (Topic.fromStr topicFilter).toOption.isSome = false := by
            unfold DefaultRouter.add at hadd
            cases htopic : Topic.fromStr topicFilter with
            | error e => rfl
            | ok topic =>
                rw [htopic] at hadd
                cases hadd
          rw [hfails, if_neg (fun h => Bool.false_ne_true h.left)]
      | ok r' =>
          rcases add_ok_iff.mp hadd with ⟨topic, htopic, _⟩
          have hparses : (Topic.fromStr topicFilter).toOption.isSome = true := by
            rw [htopic]
            rfl
          rw [hparses]
          show r'.relation f clientId = _
          rw [relation_add hadd]
          simp
  | remove topicFilter id =>
      show (r.remove topicFilter id).1.relation f clientId = ite _ _ _
      rcases hr.relation_remove topicFilter id f clientId with ⟨hgone, rfl, rfl, howns⟩ |
        ⟨hsame, hnot⟩
      · rw [hgone, if_pos ⟨rfl, rfl, owns_iff.mp howns⟩]
      · rw [hsame, if_neg]
        rintro ⟨rfl, rfl, howner⟩
        exact hnot ⟨rfl, rfl, owns_iff.mpr howner⟩

theorem routerAfter_invariant (es : List Request) {r : DefaultRouter} {m : Plan}
    (hr : r.Coherent) (htidy : r.Tidy) (hm : r.relation = m) :
    (es.foldl DefaultRouter.serve r).Coherent ∧ (es.foldl DefaultRouter.serve r).Tidy ∧
      (es.foldl DefaultRouter.serve r).relation = es.foldl plan m := by
  induction es generalizing r m with
  | nil => exact ⟨hr, htidy, hm⟩
  | cons e es ih =>
      apply ih (hr.serve e) (htidy.serve hr e)
      rw [hr.relation_serve, hm]

theorem relation_new : new.relation = fun _ _ => none := by
  funext f clientId
  show ((∅ : AllRelationsMap).lookup f).bind _ = none
  rw [Finmap.lookup_empty]
  rfl

/--
After any requests the tables hold the relations that the requests ask for; the
tree, the filters and both counters agree with them.
-/
theorem router_exact (es : List Request) :
    (routerAfter es).relation = planAfter es ∧
    (forall path, (routerAfter es).topics.holds path () = true <->
      exists f topic, (exists clientId, (planAfter es f clientId).isSome = true) ∧
        Topic.fromStr f = Except.ok topic ∧ topic.levels = path) ∧
    exists filters pairs, (routerAfter es).Counts filters pairs ∧
      (routerAfter es).topicsCount.count = filters.card ∧
      (routerAfter es).topics.valuesSize = filters.card ∧
      (routerAfter es).relationsCount.count = pairs.card := by
  rcases routerAfter_invariant es Coherent.new Tidy.new relation_new with
    ⟨hcoherent, htidy, hrelation⟩
  have hr : (routerAfter es).Coherent := hcoherent
  have ht : (routerAfter es).Tidy := htidy
  have hplan : (routerAfter es).relation = planAfter es := hrelation
  refine ⟨hplan, ?_, ?_⟩
  · intro path
    rw [← hplan]
    constructor
    · intro hpath
      rcases ht path hpath with ⟨f, topic, hf, htopic, hlevels⟩
      exact ⟨f, topic, (hr.mem_iff f).mp hf, htopic, hlevels⟩
    · rintro ⟨f, topic, hclient, htopic, rfl⟩
      exact hr.covered f topic ((hr.mem_iff f).mpr hclient) htopic
  · rcases hr.counts with ⟨filters, pairs, hcounts, htopics, hpairs⟩
    refine ⟨filters, pairs, hcounts, htopics, ?_, hpairs⟩
    have hsize := ht.valuesSize_eq hr
    have hcount := hr.topicsCount
    omega

end DefaultRouter

end Broker
end Ciqada
