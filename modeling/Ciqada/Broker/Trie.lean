import Ciqada.Broker.Router

/-!
# The topic tree of the router

Subscriptions hang in a tree whose branches are filter levels.  The walk along
the levels of a topic visits the wildcard branches and the branch of the level
itself.  What it finds is what the matching rule selects path by path.
-/

namespace Ciqada
namespace Broker

namespace Level

def isMetadata : Level -> Bool
  | metadata _ => true
  | _ => false

end Level

/-- A node with the values of the filter that ends there. -/
inductive Node (V : Type) where
  | mk (values : List V) (branches : List (Level × Node V))

namespace Node

variable {V : Type}

def values : Node V -> List V
  | mk values _ => values

def branches : Node V -> List (Level × Node V)
  | mk _ branches => branches

def empty : Node V :=
  mk [] []

def child (n : Node V) (level : Level) : Option (Node V) :=
  n.branches.lookup level

/-- Add a value at the end of a path, making the nodes on the way. -/
def insert [DecidableEq V] (value : V) : List Level -> Node V -> Node V
  | [], n => mk (if value ∈ n.values then n.values else value :: n.values) n.branches
  | level :: path, n =>
      mk n.values
        ((level, insert value path ((n.child level).getD empty)) ::
          n.branches.filter (fun branch => branch.1 != level))

/-- What is found at the end of a path. -/
def items (subPath : List Level) (values : List V) : List (List Level × List V) :=
  if values.isEmpty then [] else [(subPath, values)]

/--
The walk.  `subPath` is the path from the root to the node, which is empty at
the root only.
-/
def matched : List Level -> List Level -> Node V -> List (List Level × List V)
  | [], subPath, n =>
      ((n.child Level.multiWildcard).elim []
          (fun b => items (subPath ++ [Level.multiWildcard]) b.values)) ++
        items subPath n.values
  | t :: topic, subPath, n =>
      (if subPath.isEmpty && t.isMetadata && ((n.child Level.multiWildcard).isSome ||
          (n.child Level.singleWildcard).isSome) then []
        else
          ((n.child Level.multiWildcard).elim []
              (fun b => items (subPath ++ [Level.multiWildcard]) b.values)) ++
            ((n.child Level.singleWildcard).elim []
              (fun b => matched topic (subPath ++ [Level.singleWildcard]) b))) ++
        ((n.child t).elim [] (fun b => matched topic (subPath ++ [t]) b))

/-!
## Paths
-/

def at? : List Level -> Node V -> Option (Node V)
  | [], n => some n
  | level :: path, n => (n.child level).bind (at? path)

theorem at?_insert [DecidableEq V] (value : V) (path : List Level) (n : Node V) :
    exists found, at? path (insert value path n) = some found ∧ value ∈ found.values := by
  induction path generalizing n with
  | nil =>
      refine ⟨_, rfl, ?_⟩
      show value ∈ if value ∈ n.values then n.values else value :: n.values
      split
      · assumption
      · exact List.mem_cons_self
  | cons level path ih =>
      rcases ih ((n.child level).getD empty) with ⟨found, hat, hvalue⟩
      refine ⟨found, ?_, hvalue⟩
      have hchild : (insert value (level :: path) n).child level =
          some (insert value path ((n.child level).getD empty)) := by
        show List.lookup level ((level, _) :: _) = _
        rw [List.lookup_cons_self]
      show ((insert value (level :: path) n).child level).bind (at? path) = some found
      rw [hchild]
      exact hat

theorem mem_items {subPath path : List Level} {values found : List V} :
    (path, found) ∈ items subPath values <-> path = subPath ∧ found = values ∧ values ≠ [] := by
  unfold items
  cases values with
  | nil => simp
  | cons v vs => simp

theorem mem_elim {A B : Type} {o : Option A} {g : A -> List B} {x : B} :
    x ∈ o.elim [] g <-> exists a, o = some a ∧ x ∈ g a := by
  cases o with
  | none => simp
  | some a => simp

/-!
## The walk finds the matching paths
-/

theorem pathMatches_nil {root : Bool} {path : List Level} :
    pathMatches root path [] = true <-> path = [] ∨ path = [Level.multiWildcard] := by
  simp [pathMatches]

theorem pathMatches_cons {root : Bool} {level t : Level} {path topic : List Level} :
    pathMatches root (level :: path) (t :: topic) = true <->
      ((root && t.isMetadata) = false ∧ ((level = Level.multiWildcard ∧ path = []) ∨
        (level = Level.singleWildcard ∧ pathMatches false path topic = true))) ∨
      (level = t ∧ pathMatches false path topic = true) := by
  cases t <;> cases root <;> simp [pathMatches, Level.isMetadata, or_assoc]

/-- The wildcard branches are visited unless the topic is reserved at the root. -/
theorem mem_wildcards {subPath topic : List Level} {t : Level} {n : Node V}
    {item : List Level × List V} :
    (item ∈ if subPath.isEmpty && t.isMetadata && ((n.child Level.multiWildcard).isSome ||
          (n.child Level.singleWildcard).isSome) then []
        else
          ((n.child Level.multiWildcard).elim []
              (fun b => items (subPath ++ [Level.multiWildcard]) b.values)) ++
            ((n.child Level.singleWildcard).elim []
              (fun b => matched topic (subPath ++ [Level.singleWildcard]) b))) <->
      (subPath.isEmpty && t.isMetadata) = false ∧
        ((exists b, n.child Level.multiWildcard = some b ∧
            item ∈ items (subPath ++ [Level.multiWildcard]) b.values) ∨
          exists b, n.child Level.singleWildcard = some b ∧
            item ∈ matched topic (subPath ++ [Level.singleWildcard]) b) := by
  cases subPath.isEmpty && t.isMetadata with
  | false => simp [mem_elim]
  | true =>
      cases hmulti : n.child Level.multiWildcard with
      | some b => simp
      | none =>
          cases hsingle : n.child Level.singleWildcard with
          | some b => simp
          | none => simp

/-- Induction along the topic; each step goes one branch down. -/
theorem mem_matched {topic subPath path : List Level} {n : Node V} {found : List V} :
    (path, found) ∈ matched topic subPath n <->
      exists rest node, path = subPath ++ rest ∧ at? rest n = some node ∧
        found = node.values ∧ node.values ≠ [] ∧
        pathMatches subPath.isEmpty rest topic = true := by
  induction topic generalizing subPath n with
  | nil =>
      unfold matched
      rw [List.mem_append, mem_elim, mem_items]
      constructor
      · rintro (⟨b, hb, hitem⟩ | ⟨rfl, rfl, hne⟩)
        · rcases mem_items.mp hitem with ⟨rfl, rfl, hne⟩
          refine ⟨[Level.multiWildcard], b, rfl, ?_, rfl, hne, pathMatches_nil.mpr (Or.inr rfl)⟩
          unfold at?
          rw [hb]
          rfl
        · exact ⟨[], n, (List.append_nil _).symm, rfl, rfl, hne, pathMatches_nil.mpr (Or.inl rfl)⟩
      · rintro ⟨rest, node, rfl, hat, rfl, hne, hmatch⟩
        rcases pathMatches_nil.mp hmatch with rfl | rfl
        · right
          rw [← Option.some.inj hat] at hne ⊢
          exact ⟨List.append_nil _, rfl, hne⟩
        · left
          rcases Option.bind_eq_some_iff.mp hat with ⟨b, hb, hnode⟩
          rw [← Option.some.inj hnode] at hne ⊢
          exact ⟨b, hb, mem_items.mpr ⟨rfl, rfl, hne⟩⟩
  | cons t topic ih =>
      have hdown : forall (level : Level), (subPath ++ [level]).isEmpty = false := by
        intro level
        simp
      unfold matched
      rw [List.mem_append, mem_wildcards, mem_elim]
      constructor
      · rintro (⟨hfree, ⟨b, hb, hitem⟩ | ⟨b, hb, hitem⟩⟩ | ⟨b, hb, hitem⟩)
        · rcases mem_items.mp hitem with ⟨rfl, rfl, hne⟩
          refine ⟨[Level.multiWildcard], b, rfl, ?_, rfl, hne,
            pathMatches_cons.mpr (Or.inl ⟨hfree, Or.inl ⟨rfl, rfl⟩⟩)⟩
          unfold at?
          rw [hb]
          rfl
        · rcases ih.mp hitem with ⟨rest, node, rfl, hat, hfound, hne, hmatch⟩
          rw [hdown] at hmatch
          refine ⟨Level.singleWildcard :: rest, node, by rw [List.append_assoc]; rfl, ?_, hfound,
            hne, pathMatches_cons.mpr (Or.inl ⟨hfree, Or.inr ⟨rfl, hmatch⟩⟩)⟩
          unfold at?
          rw [hb]
          exact hat
        · rcases ih.mp hitem with ⟨rest, node, rfl, hat, hfound, hne, hmatch⟩
          rw [hdown] at hmatch
          refine ⟨t :: rest, node, by rw [List.append_assoc]; rfl, ?_, hfound, hne,
            pathMatches_cons.mpr (Or.inr ⟨rfl, hmatch⟩)⟩
          unfold at?
          rw [hb]
          exact hat
      · rintro ⟨rest, node, rfl, hat, hfound, hne, hmatch⟩
        cases rest with
        | nil => simp [pathMatches] at hmatch
        | cons level rest =>
            rcases Option.bind_eq_some_iff.mp hat with ⟨b, hb, hnode⟩
            have hitem : pathMatches false rest topic = true ->
                (subPath ++ level :: rest, found) ∈ matched topic (subPath ++ [level]) b := by
              intro hrest
              apply ih.mpr
              rw [hdown]
              exact ⟨rest, node, by rw [List.append_assoc]; rfl, hnode, hfound, hne, hrest⟩
            rcases pathMatches_cons.mp hmatch with ⟨hfree, ⟨rfl, rfl⟩ | ⟨rfl, hrest⟩⟩ | ⟨rfl, hrest⟩
            · rw [← Option.some.inj hnode] at hne hfound
              exact Or.inl ⟨hfree, Or.inl ⟨b, hb, mem_items.mpr ⟨rfl, hfound, hne⟩⟩⟩
            · exact Or.inl ⟨hfree, Or.inr ⟨b, hb, hitem hrest⟩⟩
            · exact Or.inr ⟨b, hb, hitem hrest⟩

end Node

end Broker
end Ciqada
