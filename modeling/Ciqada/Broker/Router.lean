import Ciqada.Broker.Types
import Ciqada.Broker.Topic

/-!
# Routing

The router keeps which client subscribed to which filter.  Filters are held in a
tree of levels; the model keeps the paths of that tree, which are the filters of
the relations, and follows the tree's matching rule along one path.
-/

namespace Ciqada
namespace Broker

/-- The options of version 5 that routing reads. -/
structure V5Options where
  noLocal : Bool
  retainAsPublished : Bool
  deriving DecidableEq

/-- Subscription options; `v5` is absent for a subscription of version 3. -/
structure SubscriptionOptions where
  qos : QoS
  sharedGroup : Option String
  v5 : Option V5Options
  deriving DecidableEq

namespace SubscriptionOptions

def isV3 (o : SubscriptionOptions) : Bool :=
  o.v5.isNone

def noLocal (o : SubscriptionOptions) : Bool :=
  o.v5.elim false V5Options.noLocal

def retainAsPublished (o : SubscriptionOptions) : Bool :=
  o.v5.elim false V5Options.retainAsPublished

end SubscriptionOptions

structure Relation where
  topicFilter : String
  clientId : String
  id : Id
  opts : SubscriptionOptions
  deriving DecidableEq

/--
One path of the tree against the levels of a topic.  At the root, a topic in the
reserved name space is not matched by a wildcard.
-/
def pathMatches (root : Bool) : List Level -> List Level -> Bool
  | path, [] => path == [] || path == [Level.multiWildcard]
  | [], _ :: _ => false
  | level :: path, t :: topic =>
      let reserved := match t with
        | Level.metadata _ => root
        | _ => false
      (!reserved && level == Level.multiWildcard && path.isEmpty) ||
        (!reserved && level == Level.singleWildcard && pathMatches false path topic) ||
          (level == t && pathMatches false path topic)

structure Router where
  relations : List Relation
  deriving DecidableEq

namespace Router

def empty : Router :=
  { relations := [] }

/-- One relation for each filter and client; a new one replaces the old. -/
def add (r : Router) (topicFilter : String) (id : Id) (opts : SubscriptionOptions) :
    Except TopicError Router :=
  match Topic.fromStr topicFilter with
  | Except.error e => Except.error e
  | Except.ok _ =>
      Except.ok
        { relations :=
            r.relations.filter
                (fun x => !(x.topicFilter == topicFilter && x.clientId == id.clientId)) ++
              [{ topicFilter := topicFilter, clientId := id.clientId, id := id, opts := opts }] }

/-- Only the connection that made a relation removes it. -/
def remove (r : Router) (topicFilter : String) (id : Id) : Router :=
  { relations := r.relations.filter
      (fun x => !(x.topicFilter == topicFilter && x.clientId == id.clientId && x.id == id)) }

/-- The relations whose filter matches a topic. -/
def hits (r : Router) (topic : Topic) : List Relation :=
  r.relations.filter fun x =>
    match Topic.fromStr x.topicFilter with
    | Except.ok filter => pathMatches true filter.levels topic.levels
    | Except.error _ => false

/-- Of several relations of a client the first one is kept. -/
def firstPerClient : List Relation -> List Relation
  | [] => []
  | x :: xs => x :: (firstPerClient xs).filter (fun y => y.clientId != x.clientId)

def collect (found : List Relation) : List Relation :=
  found.filter (fun x => x.opts.isV3) ++
    firstPerClient (found.filter (fun x => !x.opts.isV3))

/-- Which member of a shared group receives a message. -/
abbrev Choice : Type :=
  List Relation -> Option Nat

/-- The members of a shared group that one filter has. -/
def members (found : List Relation) (topicFilter group : String) : List Relation :=
  found.filter (fun x => x.topicFilter == topicFilter && x.opts.sharedGroup == some group)

def chosen (choice : Choice) (found : List Relation) : List Relation :=
  let groups := (found.filterMap
    (fun x => x.opts.sharedGroup.map (fun group => (x.topicFilter, group)))).dedup
  groups.filterMap fun (topicFilter, group) =>
    (choice (members found topicFilter group)).bind
      (fun idx => (members found topicFilter group)[idx]?)

/-- The relations a message from a connection is sent to. -/
def matchesTopic (choice : Choice) (r : Router) (thisId : Id) (topicName : String) :
    List Relation :=
  match Topic.fromStr topicName with
  | Except.error _ => []
  | Except.ok topic =>
      let found := (r.hits topic).filter (fun x => !(x.opts.noLocal && x.id == thisId))
      collect (found.filter (fun x => x.opts.sharedGroup.isNone) ++ chosen choice found)

end Router

/-- The filter selects the topic in the router. -/
def Routes (topicFilter topicName : String) : Prop :=
  exists filter topic, Topic.fromStr topicFilter = Except.ok filter ∧
    Topic.fromStr topicName = Except.ok topic ∧
      pathMatches true filter.levels topic.levels = true

/-!
## What the router answers
-/

namespace Router

theorem mem_of_mem_firstPerClient {x : Relation} {xs : List Relation}
    (hx : x ∈ firstPerClient xs) : x ∈ xs := by
  induction xs with
  | nil => exact hx
  | cons y ys ih =>
      unfold firstPerClient at hx
      rcases List.mem_cons.mp hx with hhead | htail
      · rw [hhead]
        exact List.mem_cons_self
      · exact List.mem_cons_of_mem y (ih (List.mem_filter.mp htail).left)

theorem mem_of_mem_collect {x : Relation} {xs : List Relation} (hx : x ∈ collect xs) :
    x ∈ xs := by
  rcases List.mem_append.mp hx with hv3 | hv5
  · exact (List.mem_filter.mp hv3).left
  · exact (List.mem_filter.mp (mem_of_mem_firstPerClient hv5)).left

theorem mem_of_mem_chosen {choice : Choice} {x : Relation} {xs : List Relation}
    (hx : x ∈ chosen choice xs) : x ∈ xs := by
  rcases List.mem_filterMap.mp hx with ⟨⟨topicFilter, group⟩, _hgroup, hchoice⟩
  rcases Option.bind_eq_some_iff.mp hchoice with ⟨idx, _hidx, hget⟩
  exact (List.mem_filter.mp (List.mem_of_getElem? hget)).left

/-- A message is sent only where a relation of the router selects it. -/
theorem of_mem_matchesTopic {choice : Choice} {r : Router} {thisId : Id} {topicName : String}
    {x : Relation} (hx : x ∈ r.matchesTopic choice thisId topicName) :
    x ∈ r.relations ∧ Routes x.topicFilter topicName := by
  unfold matchesTopic at hx
  cases htopic : Topic.fromStr topicName with
  | error e =>
      rw [htopic] at hx
      cases hx
  | ok topic =>
      rw [htopic] at hx
      have hfound : x ∈ (r.hits topic).filter (fun x => !(x.opts.noLocal && x.id == thisId)) := by
        rcases List.mem_append.mp (mem_of_mem_collect hx) with hplain | hshared
        · exact (List.mem_filter.mp hplain).left
        · exact mem_of_mem_chosen hshared
      rcases List.mem_filter.mp (List.mem_filter.mp hfound).left with ⟨hmem, hmatch⟩
      refine ⟨hmem, ?_⟩
      cases hfilter : Topic.fromStr x.topicFilter with
      | error e =>
          rw [hfilter] at hmatch
          cases hmatch
      | ok filter =>
          rw [hfilter] at hmatch
          exact ⟨filter, topic, hfilter, htopic, hmatch⟩

theorem mem_add {r r' : Router} {topicFilter : String} {id : Id} {opts : SubscriptionOptions}
    (hadd : r.add topicFilter id opts = Except.ok r') {x : Relation} (hx : x ∈ r'.relations) :
    x ∈ r.relations ∨ (x.clientId = id.clientId ∧ x.topicFilter = topicFilter) := by
  unfold add at hadd
  split at hadd
  · cases hadd
  · rw [← Except.ok.inj hadd] at hx
    rcases List.mem_append.mp hx with hold | hnew
    · exact Or.inl (List.mem_filter.mp hold).left
    · rw [List.mem_singleton.mp hnew]
      exact Or.inr ⟨rfl, rfl⟩

theorem mem_of_mem_remove {r : Router} {topicFilter : String} {id : Id} {x : Relation}
    (hx : x ∈ (r.remove topicFilter id).relations) : x ∈ r.relations :=
  (List.mem_filter.mp hx).left

end Router

end Broker
end Ciqada
