import Mathlib.Data.String.Basic
import Ciqada.Broker.Relations

/-!
# Where a message goes

The router walks the tree along the topic, looks up the clients of every filter
found, and collects for each node what to send there.  Clients of version 3 get
a copy for each filter, clients of version 5 one copy with the identifiers of
their subscriptions, and of a shared group one member is chosen.

Tables are gone through in any order, and the draws for the shared groups are
any numbers.
-/

namespace Ciqada
namespace Broker

open Foundation

structure SharedGroupType where
  group : String
  isOnline : Bool
  clientIds : List String
  deriving DecidableEq

structure SubRelation where
  topicFilter : String
  clientId : String
  opts : RelationOptions
  subIds : Option (List Nat)
  group : Option SharedGroupType
  deriving DecidableEq

/-!
## Shared groups
-/

structure Candidate where
  nodeId : Nat
  clientId : String
  opts : RelationOptions
  isOnline : Bool
  deriving DecidableEq

namespace SharedSubscription

/-- Candidates are drawn and taken out until one is online or none is left. -/
def rounds (random : Nat -> Nat) : Nat -> Nat -> List (Nat × Bool) -> Option (Nat × Bool)
  | 0, _, _ => none
  | fuel + 1, draw, tmp =>
      let rIdx := if tmp.length = 1 then 0 else random draw % tmp.length
      match tmp[rIdx]? with
      | none => none
      | some (idx, isOnline) =>
          let rest := tmp.eraseIdx rIdx
          if isOnline then some (idx, true)
          else if rest.isEmpty then some (idx, isOnline)
          else rounds random fuel (draw + 1) rest

/-- The index of the chosen candidate and whether it is online. -/
def choice (random : Nat -> Nat) (ncs : List Candidate) : Option (Nat × Bool) :=
  if ncs.isEmpty then none
  else
    let tmp := ncs.zipIdx.map (fun c => (c.2, c.1.isOnline))
    rounds random tmp.length 0 tmp

end SharedSubscription

/-!
## Collecting
-/

/-- A client that a filter selects. -/
structure Pick where
  nodeId : Nat
  topicFilter : String
  clientId : String
  opts : RelationOptions
  group : Option SharedGroupType
  deriving DecidableEq

namespace Pick

def isV3 (p : Pick) : Bool :=
  p.opts.isV3

def subscriptionIdentifier (p : Pick) : Option Nat :=
  p.opts.subscriptionIdentifier

end Pick

structure SubscriptioRelationsCollector where
  v3Rels : List SubRelation
  v5Rels : Table String SubRelation

namespace SubscriptioRelationsCollector

def empty : SubscriptioRelationsCollector :=
  { v3Rels := [], v5Rels := ∅ }

/-- The first selection makes the row; later ones add their identifier. -/
def merge (row : Option SubRelation) (p : Pick) : SubRelation :=
  match row with
  | none =>
      { topicFilter := p.topicFilter, clientId := p.clientId, opts := p.opts,
        subIds := p.subscriptionIdentifier.map (fun id => [id]), group := p.group }
  | some row =>
      match p.subscriptionIdentifier with
      | none => row
      | some id =>
          match row.subIds with
          | some ids => { row with subIds := some (ids ++ [id]) }
          | none => { row with subIds := some [id] }

def add (c : SubscriptioRelationsCollector) (p : Pick) : SubscriptioRelationsCollector :=
  if p.isV3 then
    { c with
      v3Rels := c.v3Rels ++
        [{ topicFilter := p.topicFilter, clientId := p.clientId, opts := p.opts,
           subIds := none, group := p.group }] }
  else
    { c with v5Rels := c.v5Rels.insert p.clientId (merge (c.v5Rels.lookup p.clientId) p) }

end SubscriptioRelationsCollector

/-- What routing takes from its surroundings: who is online, draws, and orders of tables. -/
structure Dispatch where
  isOnline : Nat -> String -> Bool
  random : String -> String -> Nat -> Nat
  rels : Enumeration String (Id × RelationOptions)
  groups : Enumeration String (List Candidate)
  v5 : Enumeration String SubRelation
  nodes : Enumeration Nat SubscriptioRelationsCollector

namespace Dispatch

/-- A client does not hear its own messages under the option for it. -/
def hears (thisId : Id) (row : Id × RelationOptions) : Bool :=
  !(row.2.toSubscriptionOptions.noLocal && thisId == row.1)

def clientPick (topicFilter : String) (row : String × Id × RelationOptions) : Pick :=
  { nodeId := row.2.1.nodeId, topicFilter := topicFilter, clientId := row.1, opts := row.2.2,
    group := none }

def plainPick (topicFilter : String) (row : String × Id × RelationOptions) : Option Pick :=
  match row.2.2.sharedGroup with
  | some _ => none
  | none => some (clientPick topicFilter row)

/-- A member of a shared group, with its group. -/
def candidate (env : Dispatch) (row : String × Id × RelationOptions) :
    Option (String × Candidate) :=
  row.2.2.sharedGroup.map fun group =>
    (group, { nodeId := row.2.1.nodeId, clientId := row.1, opts := row.2.2,
              isOnline := env.isOnline row.2.1.nodeId row.1 })

/-- The members of every group. -/
def groupTable (cands : List (String × Candidate)) : Table String (List Candidate) :=
  Table.gather Prod.fst (fun members c => members.getD [] ++ [c.2]) ∅ cands

def groupPick (env : Dispatch) (topicFilter : String) (entry : String × List Candidate) :
    Option Pick :=
  (SharedSubscription.choice (env.random topicFilter entry.1) entry.2).bind fun chosen =>
    entry.2[chosen.1]?.map fun c =>
      { nodeId := c.nodeId, topicFilter := topicFilter, clientId := c.clientId, opts := c.opts,
        group := some { group := entry.1, isOnline := chosen.2,
                        clientIds := entry.2.map Candidate.clientId } }

/-- The clients of one filter that hear the message. -/
def listeners (env : Dispatch) (thisId : Id) (rels : FilterRelations) :
    List (String × Id × RelationOptions) :=
  (env.rels.list rels).filter (fun row => hears thisId row.2)

def filterPicks (env : Dispatch) (thisId : Id) (topicFilter : String) (rels : FilterRelations) :
    List Pick :=
  let rows := env.listeners thisId rels
  rows.filterMap (plainPick topicFilter) ++
    (env.groups.list (groupTable (rows.filterMap env.candidate))).filterMap
      (env.groupPick topicFilter)

def picksFor (env : Dispatch) (r : DefaultRouter) (thisId : Id) (topicFilter : String) :
    List Pick :=
  (r.relations.lookup topicFilter).elim [] (env.filterPicks thisId topicFilter)

/-- Everything that the filters of the walk select. -/
def picks (env : Dispatch) (r : DefaultRouter) (thisId : Id) (topic : Topic) : List Pick :=
  (Node.iter topic.levels [] r.topics).flatMap fun item =>
    env.picksFor r thisId (Topic.toText { levels := item.1 })

abbrev Collectors : Type :=
  Table Nat SubscriptioRelationsCollector

def collectors (ps : List Pick) : Collectors :=
  Table.gather Pick.nodeId
    (fun c p => (c.getD SubscriptioRelationsCollector.empty).add p) ∅ ps

def subRelations (env : Dispatch) (c : SubscriptioRelationsCollector) : List SubRelation :=
  c.v3Rels ++ (env.v5.list c.v5Rels).map Prod.snd

/-- The rows to send, by node. -/
def matchesTopic (env : Dispatch) (r : DefaultRouter) (thisId : Id) (topicName : String) :
    Except TopicError (List (Nat × List SubRelation)) :=
  match Topic.fromStr topicName with
  | Except.error e => Except.error e
  | Except.ok topic =>
      Except.ok ((env.nodes.list (collectors (env.picks r thisId topic))).map
        (fun entry => (entry.1, env.subRelations entry.2)))

end Dispatch

/-!
## The choice
-/

namespace SharedSubscription

/-- Induction over the rounds: the candidates that were taken out are offline. -/
theorem rounds_spec (random : Nat -> Nat) (fuel draw : Nat) (tmp : List (Nat × Bool))
    (hne : tmp ≠ []) (hfuel : tmp.length ≤ fuel) :
    exists chosen, rounds random fuel draw tmp = some chosen ∧ chosen ∈ tmp ∧
      ((exists c, c ∈ tmp ∧ c.2 = true) -> chosen.2 = true) := by
  induction fuel generalizing draw tmp with
  | zero => exact absurd (List.eq_nil_of_length_eq_zero (Nat.le_zero.mp hfuel)) hne
  | succ fuel ih =>
      have hpos : 0 < tmp.length := List.length_pos_iff.mpr hne
      have hidx : (if tmp.length = 1 then 0 else random draw % tmp.length) < tmp.length := by
        split
        · exact hpos
        · exact Nat.mod_lt _ hpos
      unfold rounds
      dsimp only
      generalize hr : (if tmp.length = 1 then 0 else random draw % tmp.length) = rIdx at hidx ⊢
      rw [List.getElem?_eq_getElem hidx]
      have hmem : tmp[rIdx] ∈ tmp := List.getElem_mem hidx
      rcases hc : tmp[rIdx] with ⟨idx, isOnline⟩
      rw [hc] at hmem
      dsimp only
      cases isOnline with
      | true => exact ⟨(idx, true), rfl, hmem, fun _ => rfl⟩
      | false =>
          rw [if_neg Bool.false_ne_true]
          have hsplit : forall c, c ∈ tmp -> c = (idx, false) ∨ c ∈ tmp.eraseIdx rIdx := by
            intro c hmemc
            rcases List.mem_iff_getElem?.mp hmemc with ⟨i, hi⟩
            by_cases hir : i = rIdx
            · left
              rw [hir, List.getElem?_eq_getElem hidx, hc] at hi
              exact (Option.some.inj hi).symm
            · exact Or.inr (List.mem_eraseIdx_iff_getElem?.mpr ⟨i, hir, hi⟩)
          by_cases hrest : (tmp.eraseIdx rIdx).isEmpty = true
          · rw [if_pos hrest]
            refine ⟨(idx, false), rfl, hmem, ?_⟩
            rintro ⟨c, hmemc, honline⟩
            rcases hsplit c hmemc with rfl | hin
            · exact honline
            · rw [List.isEmpty_iff.mp hrest] at hin
              cases hin
          · rw [if_neg hrest]
            have hlen := List.length_eraseIdx_of_lt hidx
            rcases ih (draw + 1) (tmp.eraseIdx rIdx) (fun h => hrest (List.isEmpty_iff.mpr h))
              (by omega) with ⟨chosen, heq, hin, honline⟩
            refine ⟨chosen, heq, List.mem_of_mem_eraseIdx hin, ?_⟩
            rintro ⟨c, hmemc, hc2⟩
            rcases hsplit c hmemc with rfl | hin'
            · cases hc2
            · exact honline ⟨c, hin', hc2⟩

/-- A nonempty group gets a member, and an online one if it has any. -/
theorem choice_spec (random : Nat -> Nat) {ncs : List Candidate} (hne : ncs ≠ []) :
    exists idx c, choice random ncs = some (idx, c.isOnline) ∧ ncs[idx]? = some c ∧
      ((exists m, m ∈ ncs ∧ m.isOnline = true) -> c.isOnline = true) := by
  have htmp : ncs.zipIdx.map (fun c => (c.2, c.1.isOnline)) ≠ [] := by
    simpa using hne
  rcases rounds_spec random _ 0 _ htmp le_rfl with ⟨chosen, heq, hmem, honline⟩
  rcases List.mem_map.mp hmem with ⟨⟨c, idx⟩, hc, rfl⟩
  refine ⟨idx, c, ?_, List.mem_zipIdx_iff_getElem?.mp hc, ?_⟩
  · unfold choice
    rw [if_neg (fun h => hne (List.isEmpty_iff.mp h))]
    exact heq
  · rintro ⟨m, hm, hon⟩
    rcases List.mem_iff_getElem?.mp hm with ⟨i, hi⟩
    apply honline
    exact ⟨(i, m.isOnline), List.mem_map.mpr ⟨(m, i), List.mem_zipIdx_iff_getElem?.mpr hi, rfl⟩,
      hon⟩

end SharedSubscription

/-!
## The collector
-/

namespace SubscriptioRelationsCollector

/-- The row of a selection of version 3. -/
def row3 (p : Pick) : SubRelation :=
  { topicFilter := p.topicFilter, clientId := p.clientId, opts := p.opts, subIds := none,
    group := p.group }

theorem foldl_add (ps : List Pick) (c : SubscriptioRelationsCollector) :
    (ps.foldl add c).v3Rels = c.v3Rels ++ (ps.filter Pick.isV3).map row3 ∧
      (ps.foldl add c).v5Rels =
        Table.gather Pick.clientId merge c.v5Rels (ps.filter (fun p => !p.isV3)) := by
  induction ps generalizing c with
  | nil => exact ⟨(List.append_nil _).symm, rfl⟩
  | cons p ps ih =>
      rw [List.foldl_cons]
      cases hv3 : p.isV3 with
      | true =>
          have hadd : c.add p = { c with v3Rels := c.v3Rels ++ [row3 p] } := by
            unfold add
            rw [if_pos hv3]
            rfl
          rw [hadd, List.filter_cons_of_pos hv3, List.filter_cons_of_neg (by simp [hv3]),
            List.map_cons]
          refine ⟨?_, (ih _).right⟩
          rw [(ih _).left, List.append_assoc]
          rfl
      | false =>
          have hadd : c.add p =
              { c with
                v5Rels := c.v5Rels.insert p.clientId (merge (c.v5Rels.lookup p.clientId) p) } := by
            unfold add
            rw [if_neg (by simp [hv3])]
          rw [hadd, List.filter_cons_of_neg (by simp [hv3]), List.filter_cons_of_pos (by simp [hv3])]
          exact ih _

/-- A merged row keeps its client, and lists the identifiers of what was merged. -/
theorem foldl_merge {ps : List Pick} {row x : SubRelation}
    (hx : ps.foldl (fun row p => some (merge row p)) (some row) = some x) :
    x.clientId = row.clientId ∧ x.topicFilter = row.topicFilter ∧ x.opts = row.opts ∧
      x.subIds.getD [] =
        row.subIds.getD [] ++ ps.filterMap Pick.subscriptionIdentifier := by
  induction ps generalizing row with
  | nil =>
      rw [← Option.some.inj hx]
      exact ⟨rfl, rfl, rfl, (List.append_nil _).symm⟩
  | cons p ps ih =>
      rw [List.foldl_cons] at hx
      have hrest := ih hx
      cases hid : p.subscriptionIdentifier with
      | none =>
          have hmerge : merge (some row) p = row := by
            unfold merge
            rw [hid]
          rw [hmerge] at hrest
          rw [List.filterMap_cons_none hid]
          exact hrest
      | some id =>
          have hmerge : (merge (some row) p).clientId = row.clientId ∧
              (merge (some row) p).topicFilter = row.topicFilter ∧
              (merge (some row) p).opts = row.opts ∧
              (merge (some row) p).subIds.getD [] = row.subIds.getD [] ++ [id] := by
            unfold merge
            rw [hid]
            dsimp only
            cases row.subIds with
            | none => exact ⟨rfl, rfl, rfl, rfl⟩
            | some ids => exact ⟨rfl, rfl, rfl, rfl⟩
          rw [List.filterMap_cons_some hid]
          rcases hmerge with ⟨hc, hf, ho, hi⟩
          rcases hrest with ⟨hc', hf', ho', hi'⟩
          refine ⟨hc'.trans hc, hf'.trans hf, ho'.trans ho, ?_⟩
          rw [hi', hi, List.append_assoc]
          rfl

/-- The row of a client that has at least one selection of version 5. -/
theorem merged {p : Pick} {ps : List Pick} :
    exists x, (p :: ps).foldl (fun row p => some (merge row p)) none = some x ∧
      x.clientId = p.clientId ∧ x.topicFilter = p.topicFilter ∧ x.opts = p.opts ∧
      x.subIds.getD [] = (p :: ps).filterMap Pick.subscriptionIdentifier := by
  rw [List.foldl_cons]
  have hsome : (ps.foldl (fun row p => some (merge row p)) (some (merge none p))).isSome = true := by
    induction ps using List.reverseRecOn with
    | nil => rfl
    | append_singleton ps q _ => rw [List.foldl_append]; rfl
  rcases Option.isSome_iff_exists.mp hsome with ⟨x, hx⟩
  rcases foldl_merge hx with ⟨hc, hf, ho, hi⟩
  refine ⟨x, hx, hc, hf, ho, ?_⟩
  rw [hi]
  show (p.subscriptionIdentifier.map (fun id => [id])).getD [] ++ _ = _
  cases hid : p.subscriptionIdentifier with
  | none =>
      rw [List.filterMap_cons_none hid]
      rfl
  | some id =>
      rw [List.filterMap_cons_some hid]
      rfl

end SubscriptioRelationsCollector

/-!
## The rows of a node
-/

namespace Dispatch

open SubscriptioRelationsCollector

def rowsAt (answer : List (Nat × List SubRelation)) (nodeId : Nat) : List SubRelation :=
  (answer.lookup nodeId).getD []

/-- The selections for a node, and those of one of its clients of version 5. -/
def picksAt (ps : List Pick) (nodeId : Nat) : List Pick :=
  ps.filter (fun p => p.nodeId = nodeId)

def picksOf (ps : List Pick) (nodeId : Nat) (clientId : String) : List Pick :=
  ((picksAt ps nodeId).filter (fun p => !p.isV3)).filter (fun p => p.clientId = clientId)

theorem lookup_map_list {Row Row' : Type} (e : Enumeration Nat Row) (t : Table Nat Row)
    (f : Row -> Row') (k : Nat) :
    ((e.list t).map (fun entry => (entry.1, f entry.2))).lookup k = (t.lookup k).map f := by
  have hlookup : (e.list t).lookup k = t.lookup k := by
    cases hrow : t.lookup k with
    | none =>
        rw [List.lookup_eq_none_iff]
        rintro ⟨k', row⟩ hmem
        apply bne_iff_ne.mpr
        intro heq
        change k = k' at heq
        rw [← heq, e.mem_list, hrow] at hmem
        cases hmem
    | some row =>
        have hmem := (e.mem_list t k row).mpr hrow
        have hkeys := e.keys_nodup t
        generalize e.list t = rows at hmem hkeys
        induction rows with
        | nil => cases hmem
        | cons entry rows ih =>
            rcases entry with ⟨k', row'⟩
            rcases List.nodup_cons.mp hkeys with ⟨hfresh, hrest⟩
            rw [List.lookup_cons]
            rcases List.mem_cons.mp hmem with heq | htail
            · rcases Prod.mk.inj heq with ⟨rfl, rfl⟩
              rw [beq_self_eq_true]
            · have hne : k ≠ k' := by
                intro h
                exact hfresh (List.mem_map.mpr ⟨(k, row), htail, h⟩)
              rw [beq_false_of_ne hne]
              exact ih htail hrest
  rw [← hlookup]
  induction e.list t with
  | nil => rfl
  | cons entry rows ih =>
      rw [List.map_cons, List.lookup_cons, List.lookup_cons]
      cases k == entry.1 with
      | true => rfl
      | false => exact ih

theorem lookup_collectors (ps : List Pick) (nodeId : Nat) :
    (collectors ps).lookup nodeId =
      if picksAt ps nodeId = [] then none
      else some ((picksAt ps nodeId).foldl add SubscriptioRelationsCollector.empty) := by
  unfold collectors
  rw [Table.lookup_gather, Finmap.lookup_empty, Table.foldl_getD]
  rfl

theorem v5Rels_lookup (ps : List Pick) (nodeId : Nat) (clientId : String) :
    ((picksAt ps nodeId).foldl add SubscriptioRelationsCollector.empty).v5Rels.lookup clientId =
      (picksOf ps nodeId clientId).foldl (fun row p => some (merge row p)) none := by
  rw [(foldl_add _ _).right, Table.lookup_gather]
  show List.foldl _ ((∅ : Table String SubRelation).lookup clientId) _ = _
  rw [Finmap.lookup_empty]
  rfl

/-- What a node is sent: a row for each selection of version 3, and merged rows. -/
theorem rowsAt_eq (env : Dispatch) (ps : List Pick) (nodeId : Nat) :
    exists merged : List SubRelation,
      rowsAt ((env.nodes.list (collectors ps)).map
          (fun entry => (entry.1, env.subRelations entry.2))) nodeId =
        ((picksAt ps nodeId).filter Pick.isV3).map row3 ++ merged ∧
      (merged.map SubRelation.clientId).Nodup ∧
      forall x, x ∈ merged <->
        (picksOf ps nodeId x.clientId).foldl (fun row p => some (merge row p)) none = some x := by
  unfold rowsAt
  rw [lookup_map_list, lookup_collectors]
  by_cases hnone : picksAt ps nodeId = []
  · rw [if_pos hnone, hnone]
    refine ⟨[], rfl, List.nodup_nil, ?_⟩
    intro x
    unfold picksOf
    rw [hnone]
    simp
  · rw [if_neg hnone]
    let c := (picksAt ps nodeId).foldl add SubscriptioRelationsCollector.empty
    have hkey : forall clientId x, c.v5Rels.lookup clientId = some x -> x.clientId = clientId := by
      intro clientId x hx
      rw [v5Rels_lookup] at hx
      cases hps : picksOf ps nodeId clientId with
      | nil =>
          rw [hps] at hx
          cases hx
      | cons p rest =>
          rcases @merged p rest with ⟨y, hy, hc, _⟩
          rw [hps, hy] at hx
          rw [← Option.some.inj hx, hc]
          have hp : p ∈ picksOf ps nodeId clientId := by
            rw [hps]
            exact List.mem_cons_self
          exact of_decide_eq_true (List.mem_filter.mp hp).right
    refine ⟨(env.v5.list c.v5Rels).map Prod.snd, ?_, ?_, ?_⟩
    · show c.v3Rels ++ _ = _
      rw [(foldl_add _ _).left]
      rfl
    · rw [List.map_map]
      have hsame : (env.v5.list c.v5Rels).map (SubRelation.clientId ∘ Prod.snd) =
          (env.v5.list c.v5Rels).map Prod.fst := by
        apply List.map_congr_left
        rintro ⟨clientId, x⟩ hmem
        exact hkey clientId x ((env.v5.mem_list _ _ _).mp hmem)
      rw [hsame]
      exact env.v5.keys_nodup _
    · intro x
      rw [List.mem_map]
      constructor
      · rintro ⟨⟨clientId, y⟩, hmem, rfl⟩
        have hy := (env.v5.mem_list _ _ _).mp hmem
        rw [← v5Rels_lookup, hkey clientId y hy]
        exact hy
      · intro hx
        rw [← v5Rels_lookup] at hx
        exact ⟨(x.clientId, x), (env.v5.mem_list _ _ _).mpr hx, rfl⟩

/-!
## What is selected
-/

section Filter

variable {env : Dispatch} {thisId : Id} {topicFilter : String} {rels : FilterRelations}

theorem mem_listeners {row : String × Id × RelationOptions} :
    row ∈ env.listeners thisId rels <->
      rels.lookup row.1 = some row.2 ∧ hears thisId row.2 = true := by
  unfold listeners
  rw [List.mem_filter, env.rels.mem_list]

theorem listeners_nodup : ((env.listeners thisId rels).map Prod.fst).Nodup :=
  (env.rels.keys_nodup rels).sublist (List.filter_sublist.map Prod.fst)

theorem mem_candidates {rows : List (String × Id × RelationOptions)} {group : String}
    {m : Candidate} :
    (group, m) ∈ rows.filterMap env.candidate <->
      exists row, row ∈ rows ∧ row.2.2.sharedGroup = some group ∧
        m = { nodeId := row.2.1.nodeId, clientId := row.1, opts := row.2.2,
              isOnline := env.isOnline row.2.1.nodeId row.1 } := by
  rw [List.mem_filterMap]
  constructor
  · rintro ⟨row, hrow, hcand⟩
    rcases Option.map_eq_some_iff.mp hcand with ⟨g, hg, heq⟩
    rcases Prod.mk.inj heq with ⟨rfl, rfl⟩
    exact ⟨row, hrow, hg, rfl⟩
  · rintro ⟨row, hrow, hg, rfl⟩
    refine ⟨row, hrow, ?_⟩
    unfold candidate
    rw [hg]
    rfl

theorem lookup_groupTable (cands : List (String × Candidate)) (group : String) :
    (groupTable cands).lookup group =
      if cands.filter (fun c => c.1 = group) = [] then none
      else some ((cands.filter (fun c => c.1 = group)).map Prod.snd) := by
  unfold groupTable
  rw [Table.lookup_gather, Finmap.lookup_empty,
    Table.foldl_getD [] (fun (members : List Candidate) (c : String × Candidate) =>
      members ++ [c.2])]
  have hfold : forall (xs : List (String × Candidate)) (ms : List Candidate),
      xs.foldl (fun members c => members ++ [c.2]) ms = ms ++ xs.map Prod.snd := by
    intro xs
    induction xs with
    | nil => simp
    | cons x xs ih => simp [ih]
  rw [hfold]
  rfl

/-- The members of a group are its clients that hear the message. -/
theorem mem_members {members : List Candidate} {group : String} {m : Candidate}
    (hmembers : (groupTable ((env.listeners thisId rels).filterMap env.candidate)).lookup group =
      some members) :
    m ∈ members <->
      exists row, row ∈ env.listeners thisId rels ∧ row.2.2.sharedGroup = some group ∧
        m = { nodeId := row.2.1.nodeId, clientId := row.1, opts := row.2.2,
              isOnline := env.isOnline row.2.1.nodeId row.1 } := by
  rw [lookup_groupTable] at hmembers
  split at hmembers
  · cases hmembers
  · rw [← Option.some.inj hmembers, ← mem_candidates, List.mem_map]
    constructor
    · rintro ⟨⟨g, c⟩, hc, rfl⟩
      rcases List.mem_filter.mp hc with ⟨hmem, hg⟩
      rw [← of_decide_eq_true hg]
      exact hmem
    · intro hmem
      exact ⟨(group, m), List.mem_filter.mpr ⟨hmem, decide_eq_true rfl⟩, rfl⟩

theorem members_ne_nil {members : List Candidate} {group : String}
    {cands : List (String × Candidate)}
    (hmembers : (groupTable cands).lookup group = some members) : members ≠ [] := by
  rw [lookup_groupTable] at hmembers
  split at hmembers
  · cases hmembers
  · next hne =>
      rw [← Option.some.inj hmembers]
      simpa using hne

theorem groupTable_of_mem {cands : List (String × Candidate)} {group : String} {m : Candidate}
    (hmem : (group, m) ∈ cands) : exists members, (groupTable cands).lookup group = some members := by
  rw [lookup_groupTable, if_neg]
  · exact ⟨_, rfl⟩
  · exact List.ne_nil_of_mem (List.mem_filter.mpr ⟨hmem, decide_eq_true rfl⟩)

/-- The selection of a member of a group. -/
def memberPick (topicFilter group : String) (members : List Candidate) (m : Candidate) : Pick :=
  { nodeId := m.nodeId, topicFilter := topicFilter, clientId := m.clientId, opts := m.opts,
    group := some { group := group, isOnline := m.isOnline,
                    clientIds := members.map Candidate.clientId } }

/-- What a group's draw leads to. -/
theorem groupPick_spec (env : Dispatch) (topicFilter group : String) {members : List Candidate}
    (hne : members ≠ []) :
    exists m, env.groupPick topicFilter (group, members) =
        some (memberPick topicFilter group members m) ∧
      m ∈ members ∧ ((exists m', m' ∈ members ∧ m'.isOnline = true) -> m.isOnline = true) := by
  rcases SharedSubscription.choice_spec (env.random topicFilter group) hne with
    ⟨idx, m, hchoice, hidx, honline⟩
  refine ⟨m, ?_, List.mem_of_getElem? hidx, honline⟩
  unfold groupPick
  rw [hchoice, Option.bind_some, hidx]
  rfl

/-- The selections of a filter: its plain clients, and one draw for each group. -/
theorem mem_filterPicks {p : Pick} :
    p ∈ env.filterPicks thisId topicFilter rels <->
      (exists row, row ∈ env.listeners thisId rels ∧ row.2.2.sharedGroup = none ∧
        p = clientPick topicFilter row) ∨
      (exists group members,
        (groupTable ((env.listeners thisId rels).filterMap env.candidate)).lookup group =
          some members ∧
        env.groupPick topicFilter (group, members) = some p) := by
  unfold filterPicks
  dsimp only
  rw [List.mem_append]
  apply or_congr
  · rw [List.mem_filterMap]
    constructor
    · rintro ⟨row, hrow, hpick⟩
      unfold plainPick at hpick
      cases hg : row.2.2.sharedGroup with
      | some g =>
          rw [hg] at hpick
          cases hpick
      | none =>
          rw [hg] at hpick
          exact ⟨row, hrow, hg, (Option.some.inj hpick).symm⟩
    · rintro ⟨row, hrow, hg, rfl⟩
      refine ⟨row, hrow, ?_⟩
      unfold plainPick
      rw [hg]
  · rw [List.mem_filterMap]
    constructor
    · rintro ⟨⟨group, members⟩, hmem, hpick⟩
      exact ⟨group, members, (env.groups.mem_list _ _ _).mp hmem, hpick⟩
    · rintro ⟨group, members, hmembers, hpick⟩
      exact ⟨(group, members), (env.groups.mem_list _ _ _).mpr hmembers, hpick⟩

/-- The row of the client that a group's draw leads to. -/
theorem row_of_groupPick {p : Pick} {group : String} {members : List Candidate}
    (hmembers : (groupTable ((env.listeners thisId rels).filterMap env.candidate)).lookup group =
      some members)
    (hpick : env.groupPick topicFilter (group, members) = some p) :
    exists row, row ∈ env.listeners thisId rels ∧ row.2.2.sharedGroup = some group ∧
      p.topicFilter = topicFilter ∧ p.clientId = row.1 ∧ p.nodeId = row.2.1.nodeId ∧
      p.opts = row.2.2 ∧ p.group.map SharedGroupType.group = some group := by
  rcases groupPick_spec env topicFilter group (members_ne_nil hmembers) with ⟨m, hpick', hm, _⟩
  rw [hpick] at hpick'
  rcases (mem_members hmembers).mp hm with ⟨row, hrow, hg, heq⟩
  refine ⟨row, hrow, hg, ?_⟩
  rw [Option.some.inj hpick', heq]
  exact ⟨rfl, rfl, rfl, rfl, rfl⟩

/-- A selection stands for one client of the filter that hears the message. -/
theorem row_of_mem_filterPicks {p : Pick} (hp : p ∈ env.filterPicks thisId topicFilter rels) :
    exists row, row ∈ env.listeners thisId rels ∧
      p.topicFilter = topicFilter ∧ p.clientId = row.1 ∧ p.nodeId = row.2.1.nodeId ∧
      p.opts = row.2.2 ∧ p.group.map SharedGroupType.group = row.2.2.sharedGroup := by
  rcases mem_filterPicks.mp hp with ⟨row, hrow, hg, rfl⟩ | ⟨group, members, hmembers, hpick⟩
  · exact ⟨row, hrow, rfl, rfl, rfl, rfl, hg.symm⟩
  · rcases row_of_groupPick hmembers hpick with ⟨row, hrow, hg, hf, hc, hn, ho, hgroup⟩
    exact ⟨row, hrow, hf, hc, hn, ho, hgroup.trans hg.symm⟩

theorem row_unique {row row' : String × Id × RelationOptions}
    (hrow : row ∈ env.listeners thisId rels) (hrow' : row' ∈ env.listeners thisId rels)
    (hclient : row.1 = row'.1) : row = row' := by
  have hlookup := (mem_listeners.mp hrow).left
  rw [hclient, (mem_listeners.mp hrow').left] at hlookup
  exact Prod.ext hclient (Option.some.inj hlookup).symm

/-- Each client of a filter is selected at most once. -/
theorem filterPicks_nodup :
    ((env.filterPicks thisId topicFilter rels).map Pick.clientId).Nodup := by
  have hrows := @listeners_nodup env thisId rels
  unfold filterPicks
  dsimp only
  rw [List.map_append, List.nodup_append']
  refine ⟨?_, ?_, ?_⟩
  · rw [List.Nodup, List.pairwise_map, List.pairwise_filterMap]
    refine (List.pairwise_map.mp hrows).imp ?_
    intro row row' hne p hp p' hp'
    unfold plainPick at hp hp'
    cases hg : row.2.2.sharedGroup with
    | some g =>
        rw [hg] at hp
        cases hp
    | none =>
        cases hg' : row'.2.2.sharedGroup with
        | some g =>
            rw [hg'] at hp'
            cases hp'
        | none =>
            rw [hg] at hp
            rw [hg'] at hp'
            rw [← Option.some.inj hp, ← Option.some.inj hp']
            exact hne
  · rw [List.Nodup, List.pairwise_map, List.pairwise_filterMap]
    refine (List.pairwise_map.mp (env.groups.keys_nodup _)).imp_of_mem ?_
    intro entry entry' hentry hentry' hne p hp p' hp' hclient
    rcases row_of_groupPick ((env.groups.mem_list _ _ _).mp hentry) hp with
      ⟨row, hrow, hg, _, hc, _⟩
    rcases row_of_groupPick ((env.groups.mem_list _ _ _).mp hentry') hp' with
      ⟨row', hrow', hg', _, hc', _⟩
    rw [row_unique hrow hrow' (hc.symm.trans (hclient.trans hc')), hg'] at hg
    exact hne (Option.some.inj hg).symm
  · intro clientId hplain hshared
    rcases List.mem_map.mp hplain with ⟨p, hp, rfl⟩
    rcases List.mem_map.mp hshared with ⟨p', hp', hclient⟩
    rcases List.mem_filterMap.mp hp with ⟨row, hrow, hpick⟩
    rcases List.mem_filterMap.mp hp' with ⟨entry, hentry, hpick'⟩
    rcases row_of_groupPick ((env.groups.mem_list _ _ _).mp hentry) hpick' with
      ⟨row', hrow', hg', _, hc', _⟩
    unfold plainPick at hpick
    cases hg : row.2.2.sharedGroup with
    | some g =>
        rw [hg] at hpick
        cases hpick
    | none =>
        rw [hg] at hpick
        have hclients : row.1 = row'.1 := by
          rw [← hc', hclient, ← Option.some.inj hpick]
          rfl
        rw [row_unique hrow hrow' hclients, hg'] at hg
        cases hg

end Filter

section Router

variable {env : Dispatch} {r : DefaultRouter} {thisId : Id} {topicName : String} {topic : Topic}

/-- What the walk finds are filters that select the topic. -/
theorem filter_of_mem_iter (hr : r.Coherent) (htopic : Topic.fromStr topicName = Except.ok topic)
    {item : List Level × List Unit} (hitem : item ∈ Node.iter topic.levels [] r.topics) :
    exists f t, Topic.fromStr f = Except.ok t ∧ t.levels = item.1 ∧
      Topic.toText { levels := item.1 } = f ∧ Routes f topicName := by
  rcases item with ⟨path, found⟩
  rcases Node.mem_iter.mp hitem with ⟨node, hat, _hfound, hne, hmatch⟩
  have hholds : r.topics.holds path () = true := by
    rw [Node.holds_iff]
    rcases List.exists_mem_of_ne_nil _ hne with ⟨value, hvalue⟩
    exact ⟨node, hat, hvalue⟩
  rcases hr.named path hholds with ⟨f, t, ht, rfl⟩
  exact ⟨f, t, ht, rfl, Topic.toText_of_fromStr ht, t, topic, ht, htopic, hmatch⟩

/-- A filter of the table that selects the topic is found. -/
theorem mem_iter_of_routes (hr : r.Coherent) (htopic : Topic.fromStr topicName = Except.ok topic)
    {f : String} (hf : f ∈ r.relations) (hroutes : Routes f topicName) :
    exists item, item ∈ Node.iter topic.levels [] r.topics ∧
      Topic.toText { levels := item.1 } = f := by
  rcases hroutes with ⟨t, topic', ht, htopic', hmatch⟩
  rw [htopic] at htopic'
  rw [← Except.ok.inj htopic'] at hmatch
  rcases Node.holds_iff.mp (hr.covered f t hf ht) with ⟨node, hat, hvalue⟩
  refine ⟨(t.levels, node.values), ?_, Topic.toText_of_fromStr ht⟩
  exact Node.mem_iter.mpr ⟨node, hat, rfl, List.ne_nil_of_mem hvalue, hmatch⟩

theorem mem_picksFor {f : String} {p : Pick} :
    p ∈ env.picksFor r thisId f <->
      exists rels, r.relations.lookup f = some rels ∧ p ∈ env.filterPicks thisId f rels := by
  unfold picksFor
  cases r.relations.lookup f with
  | none => simp
  | some rels => simp

theorem filter_of_mem_picksFor {f : String} {p : Pick} (hp : p ∈ env.picksFor r thisId f) :
    p.topicFilter = f := by
  rcases mem_picksFor.mp hp with ⟨rels, _hrels, hmem⟩
  rcases row_of_mem_filterPicks hmem with ⟨_row, _hrow, hfilter, _⟩
  exact hfilter

theorem mem_picks (hr : r.Coherent) (htopic : Topic.fromStr topicName = Except.ok topic)
    {p : Pick} :
    p ∈ env.picks r thisId topic <->
      exists rels, r.relations.lookup p.topicFilter = some rels ∧
        Routes p.topicFilter topicName ∧ p ∈ env.filterPicks thisId p.topicFilter rels := by
  unfold picks
  rw [List.mem_flatMap]
  constructor
  · rintro ⟨item, hitem, hp⟩
    rcases filter_of_mem_iter hr htopic hitem with ⟨f, t, _ht, _hlevels, htext, hroutes⟩
    rw [htext] at hp
    rcases mem_picksFor.mp hp with ⟨rels, hrels, hmem⟩
    rw [filter_of_mem_picksFor hp]
    exact ⟨rels, hrels, hroutes, hmem⟩
  · rintro ⟨rels, hrels, hroutes, hp⟩
    rcases mem_iter_of_routes hr htopic (Table.mem_iff_lookup.mpr ⟨rels, hrels⟩) hroutes with
      ⟨item, hitem, htext⟩
    refine ⟨item, hitem, ?_⟩
    rw [htext]
    exact mem_picksFor.mpr ⟨rels, hrels, hp⟩

/-- Along a topic name each client is selected at most once for each filter. -/
theorem picks_nodup (hr : r.Coherent) (htopic : Topic.fromStr topicName = Except.ok topic)
    (hconcrete : Node.Concrete topic.levels) :
    ((env.picks r thisId topic).map (fun p => (p.topicFilter, p.clientId))).Nodup := by
  have hwalk := Node.iter_nodup hconcrete [] r.topics
  unfold picks
  rw [List.map_flatMap, List.nodup_flatMap]
  constructor
  · intro item _hitem
    unfold picksFor
    cases r.relations.lookup (Topic.toText { levels := item.1 }) with
    | none => exact List.nodup_nil
    | some rels =>
        refine List.Nodup.of_map Prod.snd ?_
        rw [List.map_map]
        exact filterPicks_nodup
  · refine (List.pairwise_map.mp hwalk).imp_of_mem ?_
    intro item item' hitem hitem' hne
    rcases filter_of_mem_iter hr htopic hitem with ⟨f, t, ht, hlevels, htext, _⟩
    rcases filter_of_mem_iter hr htopic hitem' with ⟨f', t', ht', hlevels', htext', _⟩
    have hfilters : f ≠ f' := by
      rintro rfl
      rw [ht] at ht'
      rw [← hlevels, ← hlevels', Except.ok.inj ht'] at hne
      exact hne rfl
    intro pair hpair hpair'
    rcases List.mem_map.mp hpair with ⟨p, hp, rfl⟩
    rcases List.mem_map.mp hpair' with ⟨p', hp', heq⟩
    rw [htext] at hp
    rw [htext'] at hp'
    rw [filter_of_mem_picksFor hp, filter_of_mem_picksFor hp'] at heq
    exact hfilters (Prod.mk.inj heq).left.symm

/-- A subscription that a message reaches. -/
structure Heard (r : DefaultRouter) (thisId : Id) (topicName f clientId : String) (id : Id)
    (opts : RelationOptions) : Prop where
  relation : r.relation f clientId = some (id, opts)
  routes : Routes f topicName
  hears : hears thisId (id, opts) = true

/-- What is selected has subscribed. -/
theorem heard_of_mem_picks (hr : r.Coherent) (htopic : Topic.fromStr topicName = Except.ok topic)
    {p : Pick} (hp : p ∈ env.picks r thisId topic) :
    exists id, Heard r thisId topicName p.topicFilter p.clientId id p.opts ∧
      id.nodeId = p.nodeId ∧ p.group.map SharedGroupType.group = p.opts.sharedGroup := by
  rcases (mem_picks hr htopic).mp hp with ⟨rels, hrels, hroutes, hmem⟩
  rcases row_of_mem_filterPicks hmem with ⟨row, hrow, _hf, hc, hn, ho, hg⟩
  rcases mem_listeners.mp hrow with ⟨hlookup, hhears⟩
  refine ⟨row.2.1, ?_, hn.symm, ?_⟩
  · rw [hc, ho]
    exact ⟨DefaultRouter.relation_eq_some.mpr ⟨rels, hrels, hlookup⟩, hroutes, hhears⟩
  · rw [hg, ho]

/-- A subscription outside shared groups is selected. -/
theorem mem_picks_of_heard (hr : r.Coherent) (htopic : Topic.fromStr topicName = Except.ok topic)
    {f clientId : String} {id : Id} {opts : RelationOptions}
    (hheard : Heard r thisId topicName f clientId id opts) (hplain : opts.sharedGroup = none) :
    clientPick f (clientId, id, opts) ∈ env.picks r thisId topic := by
  rcases DefaultRouter.relation_eq_some.mp hheard.relation with ⟨rels, hrels, hlookup⟩
  refine (mem_picks hr htopic).mpr ⟨rels, hrels, hheard.routes, ?_⟩
  refine mem_filterPicks.mpr (Or.inl ⟨(clientId, id, opts), ?_, hplain, rfl⟩)
  exact mem_listeners.mpr ⟨hlookup, hheard.hears⟩

theorem matchesTopic_ok (htopic : Topic.fromStr topicName = Except.ok topic) :
    env.matchesTopic r thisId topicName =
      Except.ok ((env.nodes.list (collectors (env.picks r thisId topic))).map
        (fun entry => (entry.1, env.subRelations entry.2))) := by
  unfold matchesTopic
  rw [htopic]

theorem mem_picksOf {ps : List Pick} {nodeId : Nat} {clientId : String} {p : Pick} :
    p ∈ picksOf ps nodeId clientId <->
      p ∈ ps ∧ p.nodeId = nodeId ∧ p.isV3 = false ∧ p.clientId = clientId := by
  unfold picksOf picksAt
  simp only [List.mem_filter, decide_eq_true_eq, Bool.not_eq_true', and_assoc]

/-- The merged row of a client, in terms of what was selected for it. -/
theorem merged_row {ps : List Pick} {nodeId : Nat} {x : SubRelation}
    (hx : (picksOf ps nodeId x.clientId).foldl (fun row p => some (merge row p)) none = some x) :
    exists p, p ∈ picksOf ps nodeId x.clientId ∧ x.topicFilter = p.topicFilter ∧
      x.opts = p.opts ∧
      x.subIds.getD [] =
        (picksOf ps nodeId x.clientId).filterMap Pick.subscriptionIdentifier := by
  cases hps : picksOf ps nodeId x.clientId with
  | nil =>
      rw [hps] at hx
      cases hx
  | cons p rest =>
      rcases @merged p rest with ⟨y, hy, _hc, hf, ho, hi⟩
      rw [hps, hy] at hx
      rw [Option.some.inj hx] at hf ho hi
      exact ⟨p, List.mem_cons_self, hf, ho, hi⟩

end Router

/-- What a client of version 5 gets: one row with all its identifiers. -/
theorem client_row (env : Dispatch) {ps : List Pick} {p : Pick} (hp : p ∈ ps)
    (hv5 : p.isV3 = false) :
    exists x, (rowsAt ((env.nodes.list (collectors ps)).map
          (fun entry => (entry.1, env.subRelations entry.2))) p.nodeId).filter
        (fun x => !x.opts.isV3 && x.clientId == p.clientId) = [x] ∧
      x.clientId = p.clientId ∧
      x.subIds.getD [] =
        (picksOf ps p.nodeId p.clientId).filterMap Pick.subscriptionIdentifier := by
  rcases rowsAt_eq env ps p.nodeId with ⟨merged, hrows, hnodup, hmerged⟩
  have hmine : p ∈ picksOf ps p.nodeId p.clientId := mem_picksOf.mpr ⟨hp, rfl, hv5, rfl⟩
  rcases List.exists_cons_of_ne_nil (List.ne_nil_of_mem hmine) with ⟨q, rest, hps⟩
  rcases @SubscriptioRelationsCollector.merged q rest with ⟨x, hx, hc, _hf, _ho, hi⟩
  have hq : q.clientId = p.clientId := by
    have hqmem : q ∈ picksOf ps p.nodeId p.clientId := by
      rw [hps]
      exact List.mem_cons_self
    exact (mem_picksOf.mp hqmem).right.right.right
  rw [hq] at hc
  have hxmem : x ∈ merged := by
    rw [hmerged, hc, hps]
    exact hx
  refine ⟨x, ?_, hc, by rw [hi, hps]⟩
  rw [hrows, List.filter_append, List.filter_eq_nil_iff.mpr, List.nil_append]
  · rw [← filter_key_eq hnodup hxmem]
    apply List.filter_congr
    intro y hy
    rcases merged_row ((hmerged y).mp hy) with ⟨py, hpy, _hf, hopts, _⟩
    have hyv5 : y.opts.isV3 = false := by
      rw [hopts]
      exact (mem_picksOf.mp hpy).right.right.left
    rw [hyv5, hc]
    rfl
  · intro y hy
    rcases List.mem_map.mp hy with ⟨py, hpy, rfl⟩
    have hyv3 : (row3 py).opts.isV3 = true := (List.mem_filter.mp hpy).right
    rw [hyv3]
    simp

theorem row3_mem_rowsAt (env : Dispatch) {ps : List Pick} {p : Pick} (hp : p ∈ ps)
    (hv3 : p.isV3 = true) :
    row3 p ∈ rowsAt ((env.nodes.list (collectors ps)).map
      (fun entry => (entry.1, env.subRelations entry.2))) p.nodeId := by
  rcases rowsAt_eq env ps p.nodeId with ⟨merged, hrows, _⟩
  rw [hrows]
  apply List.mem_append_left
  apply List.mem_map_of_mem
  exact List.mem_filter.mpr ⟨List.mem_filter.mpr ⟨hp, decide_eq_true rfl⟩, hv3⟩

/-- What a client of version 3 gets for a filter: one row. -/
theorem filter_row (env : Dispatch) {ps : List Pick}
    (hnodup : (ps.map (fun p => (p.topicFilter, p.clientId))).Nodup) {p : Pick} (hp : p ∈ ps)
    (hv3 : p.isV3 = true) :
    (rowsAt ((env.nodes.list (collectors ps)).map
          (fun entry => (entry.1, env.subRelations entry.2))) p.nodeId).filter
        (fun x => x.opts.isV3 && x.topicFilter == p.topicFilter && x.clientId == p.clientId) =
      [row3 p] := by
  rcases rowsAt_eq env ps p.nodeId with ⟨merged, hrows, _hnodup, hmerged⟩
  let mine := (picksAt ps p.nodeId).filter Pick.isV3
  have hmine : p ∈ mine :=
    List.mem_filter.mpr ⟨List.mem_filter.mpr ⟨hp, decide_eq_true rfl⟩, hv3⟩
  have hkeys : (mine.map (fun p => (p.topicFilter, p.clientId))).Nodup :=
    hnodup.sublist ((List.filter_sublist.trans List.filter_sublist).map _)
  rw [hrows, List.filter_append, List.filter_map]
  have hrest : merged.filter (fun x =>
      x.opts.isV3 && x.topicFilter == p.topicFilter && x.clientId == p.clientId) = [] := by
    rw [List.filter_eq_nil_iff]
    intro y hy
    rcases merged_row ((hmerged y).mp hy) with ⟨py, hpy, _hf, hopts, _⟩
    have hyv5 : y.opts.isV3 = false := by
      rw [hopts]
      exact (mem_picksOf.mp hpy).right.right.left
    rw [hyv5]
    simp
  rw [hrest, List.append_nil]
  have hone := filter_key_eq hkeys hmine
  have hsame : mine.filter ((fun x : SubRelation =>
      x.opts.isV3 && x.topicFilter == p.topicFilter && x.clientId == p.clientId) ∘ row3) =
        mine.filter (fun q => (q.topicFilter, q.clientId) = (p.topicFilter, p.clientId)) := by
    apply List.filter_congr
    intro q hq
    have hqv3 : (row3 q).opts.isV3 = true := (List.mem_filter.mp hq).right
    rw [Function.comp_apply, hqv3, Bool.eq_iff_iff]
    show (true && q.topicFilter == p.topicFilter && q.clientId == p.clientId) = true <-> _
    simp
  show (mine.filter _).map row3 = _
  rw [hsame, hone]
  rfl

namespace Sample

/-- A client with one subscription, alone or as the only member of a group. -/
def id : Id :=
  { nodeId := 1, clientId := "c", username := none, createTime := 0 }

def opts (sharedGroup : Option String) : RelationOptions :=
  { qos := QoS.atLeastOnce, sharedGroup := sharedGroup, v5 := none, subscriptionIdentifier := none }

def env : Dispatch :=
  { isOnline := fun _ _ => true, random := fun _ _ draw => draw, rels := Enumeration.inOrder,
    groups := Enumeration.inOrder, v5 := Enumeration.inOrder, nodes := Enumeration.inOrder }

def requests (sharedGroup : Option String) : List DefaultRouter.Request :=
  [DefaultRouter.Request.add "a/+" id (opts sharedGroup)]

def topic : Topic :=
  { levels := [Level.normal "a", Level.normal "b"] }

theorem topic_eq : Topic.fromStr "a/b" = Except.ok topic := by
  decide +kernel

theorem topic_concrete : Node.Concrete topic.levels := by
  unfold Node.Concrete topic
  decide

theorem heard (sharedGroup : Option String) :
    Heard (DefaultRouter.routerAfter (requests sharedGroup)) id "a/b" "a/+" "c" id
      (opts sharedGroup) := by
  constructor
  case relation => rfl
  case routes =>
    exact ⟨{ levels := [Level.normal "a", Level.singleWildcard] }, topic, by decide +kernel,
      topic_eq, by decide +kernel⟩
  case hears => rfl

end Sample

/-!
## After any requests
-/

section Delivery

variable (es : List DefaultRouter.Request) (env : Dispatch) (thisId : Id) {topicName : String}
  {topic : Topic}

theorem coherent_routerAfter : (DefaultRouter.routerAfter es).Coherent :=
  (DefaultRouter.routerAfter_invariant es DefaultRouter.Coherent.new DefaultRouter.Tidy.new
    DefaultRouter.relation_new).left

/-- A row is sent only for a subscription that the message reaches, to the node it was made at. -/
theorem heard_of_mem_rowsAt {r : DefaultRouter} (hr : r.Coherent)
    (htopic : Topic.fromStr topicName = Except.ok topic) {nodeId : Nat} {x : SubRelation}
    (hx : x ∈ rowsAt ((env.nodes.list (collectors (env.picks r thisId topic))).map
      (fun entry => (entry.1, env.subRelations entry.2))) nodeId) :
    exists id, Heard r thisId topicName x.topicFilter x.clientId id x.opts ∧
      id.nodeId = nodeId := by
  rcases rowsAt_eq env (env.picks r thisId topic) nodeId with ⟨merged, hrows, _, hmerged⟩
  rw [hrows] at hx
  rcases List.mem_append.mp hx with hthree | hfive
  · rcases List.mem_map.mp hthree with ⟨p, hp, rfl⟩
    have hat := (List.mem_filter.mp hp).left
    rcases List.mem_filter.mp hat with ⟨hmem, hnode⟩
    rcases heard_of_mem_picks hr htopic hmem with ⟨id, hheard, hid, _⟩
    exact ⟨id, hheard, hid.trans (of_decide_eq_true hnode)⟩
  · rcases merged_row ((hmerged x).mp hfive) with ⟨p, hp, hf, ho, _⟩
    rcases mem_picksOf.mp hp with ⟨hmem, hnode, _hv5, hc⟩
    rcases heard_of_mem_picks hr htopic hmem with ⟨id, hheard, hid, _⟩
    rw [← hc, hf, ho]
    exact ⟨id, hheard, hid.trans hnode⟩

end Delivery

end Dispatch

end Broker
end Ciqada
