import Ciqada.Broker.TreeWalk
import Ciqada.Foundation.PathTree

/-!
# The tree of retained messages

Retained messages hang in a tree whose branches are topic levels, and a filter walks
it.  A level of the filter that is a branch is followed alone; otherwise a wildcard is
taken down every branch.  When the tree holds topics without wildcards, the walk lists
what the matching rule selects, in the order of the tree.
-/

namespace Ciqada
namespace Broker

open Foundation

abbrev RetainTree (V : Type) : Type :=
  PathTree Level V

namespace RetainTree

variable {V : Type}

def hits (subPath : List Level) (value : Option V) : List (List Level × V) :=
  value.toList.map (fun v => (subPath, v))

/-- A multi wildcard that comes next matches the node itself. -/
def parentHits (path subPath : List Level) (n : RetainTree V) : List (List Level × V) :=
  if path.head? = some Level.multiWildcard then hits subPath n.value else []

/-- A wildcard at the front of a filter passes over the reserved topics. -/
def passesOver (subPath : List Level) (level : Level) : Bool :=
  subPath.isEmpty && level.isMetadata

mutual

def matchedFrom (path subPath : List Level) : RetainTree V -> List (List Level × V)
  | PathTree.mk value branches =>
      match path with
      | [] => hits subPath value
      | f :: rest =>
          if (branches.lookup f).isSome then preciseMatches f rest subPath branches
          else if f = Level.singleWildcard then singleMatches rest subPath branches
          else if f = Level.multiWildcard then multiMatches (f :: rest) subPath branches
          else []

/-- The branch of the level itself. -/
def preciseMatches (f : Level) (rest subPath : List Level) :
    List (Level × RetainTree V) -> List (List Level × V)
  | [] => []
  | (level, r) :: branches =>
      if level = f then
        parentHits rest (subPath ++ [level]) r ++ matchedFrom rest (subPath ++ [level]) r
      else preciseMatches f rest subPath branches

/-- All branches, for one level. -/
def singleMatches (rest subPath : List Level) :
    List (Level × RetainTree V) -> List (List Level × V)
  | [] => []
  | (level, r) :: branches =>
      (if passesOver subPath level then []
        else parentHits rest (subPath ++ [level]) r ++ matchedFrom rest (subPath ++ [level]) r) ++
        singleMatches rest subPath branches

/-- All branches, and what is below them. -/
def multiMatches (path subPath : List Level) :
    List (Level × RetainTree V) -> List (List Level × V)
  | [] => []
  | (level, r) :: branches =>
      (if passesOver subPath level then []
        else hits (subPath ++ [level]) r.value ++
          (if r.branches.isEmpty then [] else matchedFrom path (subPath ++ [level]) r)) ++
        multiMatches path subPath branches

end

def matched (topicFilter : List Level) (n : RetainTree V) : List (List Level × V) :=
  matchedFrom topicFilter [] n

/-- A multi wildcard stands last. -/
def HashLast (path : List Level) : Prop :=
  forall pre post, path = pre ++ Level.multiWildcard :: post -> post = []

theorem HashLast.tail {f : Level} {rest : List Level} (h : HashLast (f :: rest)) :
    HashLast rest :=
  fun pre post heq => h (f :: pre) post (congrArg (List.cons f) heq)

theorem HashLast.head {rest : List Level} (h : HashLast (Level.multiWildcard :: rest)) :
    rest = [] :=
  h [] rest rfl

/-!
## The walk lists what the matching rule selects
-/

/-- The entries that a filter selects, under the path to the node. -/
def selected (path subPath : List Level) (es : List (List Level × V)) : List (List Level × V) :=
  (es.filter (fun e => pathMatches subPath.isEmpty path e.1)).map
    (fun e => (subPath ++ e.1, e.2))

theorem selected_append (path subPath : List Level) (es es' : List (List Level × V)) :
    selected path subPath (es ++ es') = selected path subPath es ++ selected path subPath es' := by
  unfold selected
  rw [List.filter_append, List.map_append]

theorem selected_none {path subPath : List Level} {es : List (List Level × V)}
    (h : forall e, e ∈ es -> pathMatches subPath.isEmpty path e.1 = false) :
    selected path subPath es = [] := by
  unfold selected
  rw [List.filter_eq_nil_iff.mpr]
  · rfl
  · intro e he
    rw [h e he]
    exact Bool.false_ne_true

/-- The entries of a branch are selected by the rest of the filter. -/
theorem selected_branch {path rest subPath : List Level} {level : Level}
    (h : forall topic, pathMatches subPath.isEmpty path (level :: topic) =
      pathMatches false rest topic) (es : List (List Level × V)) :
    selected path subPath (es.map (fun e => (level :: e.1, e.2))) =
      selected rest (subPath ++ [level]) es := by
  unfold selected
  have hempty : (subPath ++ [level]).isEmpty = false := by
    cases subPath <;> rfl
  rw [List.filter_map, List.map_map, hempty]
  have hfilter : (fun e : List Level × V => pathMatches subPath.isEmpty path e.1) ∘
      (fun e : List Level × V => (level :: e.1, e.2)) = fun e => pathMatches false rest e.1 := by
    funext e
    exact h e.1
  rw [hfilter]
  apply List.map_congr_left
  intro e _
  show (subPath ++ level :: e.1, e.2) = (subPath ++ [level] ++ e.1, e.2)
  rw [List.append_assoc]
  rfl

theorem pathMatches_precise {root : Bool} {f : Level} {rest : List Level}
    (hsingle : f ≠ Level.singleWildcard) (hmulti : f ≠ Level.multiWildcard)
    (t : Level) (topic : List Level) :
    pathMatches root (f :: rest) (t :: topic) = true <->
      f = t ∧ pathMatches false rest topic = true := by
  rw [Node.pathMatches_cons]
  constructor
  · rintro (⟨_, ⟨heq, _⟩ | ⟨heq, _⟩⟩ | h)
    · exact absurd heq hmulti
    · exact absurd heq hsingle
    · exact h
  · exact Or.inr

theorem pathMatches_single {root : Bool} {rest : List Level} {t : Level}
    (ht : t ≠ Level.singleWildcard) (topic : List Level) :
    pathMatches root (Level.singleWildcard :: rest) (t :: topic) = true <->
      (root && t.isMetadata) = false ∧ pathMatches false rest topic = true := by
  rw [Node.pathMatches_cons]
  constructor
  · rintro (⟨hfree, ⟨heq, _⟩ | ⟨_, hrest⟩⟩ | ⟨heq, _⟩)
    · cases heq
    · exact ⟨hfree, hrest⟩
    · exact absurd heq.symm ht
  · rintro ⟨hfree, hrest⟩
    exact Or.inl ⟨hfree, Or.inr ⟨rfl, hrest⟩⟩

theorem pathMatches_multi {root : Bool} {t : Level} (ht : t ≠ Level.multiWildcard)
    (topic : List Level) :
    pathMatches root [Level.multiWildcard] (t :: topic) = true <->
      (root && t.isMetadata) = false := by
  rw [Node.pathMatches_cons]
  constructor
  · rintro (⟨hfree, _⟩ | ⟨heq, _⟩)
    · exact hfree
    · exact absurd heq.symm ht
  · intro hfree
    exact Or.inl ⟨hfree, Or.inl ⟨rfl, rfl⟩⟩

/-- What is matched at a node and below it, once the way down has been followed. -/
theorem matched_below {rest subPath : List Level} {r : RetainTree V} (hlast : HashLast rest)
    (hbelow : rest ≠ [] ->
      matchedFrom rest subPath r = selected rest subPath (PathTree.branchEntries r.branches)) :
    parentHits rest subPath r ++ matchedFrom rest subPath r =
      selected rest subPath (PathTree.entries r) := by
  rcases r with ⟨value, branches⟩
  rw [PathTree.entries_mk, selected_append]
  cases rest with
  | nil =>
      have hvalue : selected [] subPath (value.toList.map (fun v => ([], v))) =
          hits subPath value := by
        unfold selected hits
        cases value with
        | none => rfl
        | some v =>
            show ([([], v)].filter _).map _ = [(subPath, v)]
            rw [List.filter_cons_of_pos (by simp [pathMatches])]
            show [(subPath ++ [], v)] = _
            rw [List.append_nil]
      have hnone : selected [] subPath (PathTree.branchEntries branches) = [] := by
        apply selected_none
        intro e he
        rcases PathTree.mem_branchEntries.mp he with ⟨k, b, path, _, hpath, _⟩
        rw [hpath]
        simp [pathMatches]
      rw [hvalue, hnone, List.append_nil]
      unfold matchedFrom
      rfl
  | cons f rest =>
      rw [hbelow (List.cons_ne_nil _ _)]
      congr 1
      unfold parentHits selected hits
      cases value with
      | none => exact ite_self _
      | some v =>
          by_cases hf : f = Level.multiWildcard
          · rw [hf] at hlast ⊢
            rw [hlast.head, if_pos List.head?_cons]
            show _ = ([([], v)].filter _).map _
            rw [List.filter_cons_of_pos (by simp [pathMatches])]
            show [(subPath, v)] = [(subPath ++ [], v)]
            rw [List.append_nil]
          · rw [List.head?_cons, if_neg (fun h => hf (Option.some.inj h))]
            show _ = ([([], v)].filter _).map _
            rw [List.filter_cons_of_neg]
            · rfl
            · rw [Node.pathMatches_nil]
              rintro (h | h)
              · cases h
              · exact hf (List.cons.inj h).left

/-- The walk below a node lists the entries that the rest of the filter selects. -/
def Walks (r : RetainTree V) : Prop :=
  forall rest subPath, HashLast rest ->
    parentHits rest subPath r ++ matchedFrom rest subPath r =
      selected rest subPath (PathTree.entries r)

/-- No entry of a branch is selected when none of its topics is matched. -/
theorem selected_branch_none {path subPath : List Level} {level : Level}
    (h : forall topic, pathMatches subPath.isEmpty path (level :: topic) = false)
    (es : List (List Level × V)) :
    selected path subPath (es.map (fun e => (level :: e.1, e.2))) = [] := by
  apply selected_none
  intro e he
  rcases List.mem_map.mp he with ⟨e', _, rfl⟩
  exact h e'.1

section Branches

variable {rest subPath : List Level} {branches : List (Level × RetainTree V)}

/-- No topic below other branches is matched by a filter for one branch. -/
theorem selected_other {f : Level} (hsingle : f ≠ Level.singleWildcard)
    (hmulti : f ≠ Level.multiWildcard) (hother : f ∉ branches.map Prod.fst) :
    selected (f :: rest) subPath (PathTree.branchEntries branches) = [] := by
  apply selected_none
  intro e he
  rcases PathTree.mem_branchEntries.mp he with ⟨level, b, path, hb, hpath, _⟩
  rw [hpath, Bool.eq_false_iff]
  intro hmatch
  rw [(pathMatches_precise hsingle hmulti level path).mp hmatch |>.left] at hother
  exact hother (List.mem_map.mpr ⟨(level, b), hb, rfl⟩)

theorem preciseMatches_eq {f : Level} (hsingle : f ≠ Level.singleWildcard)
    (hmulti : f ≠ Level.multiWildcard) (hlast : HashLast (f :: rest))
    (hkeys : (branches.map Prod.fst).Nodup)
    (hwalks : forall branch, branch ∈ branches -> Walks branch.2) :
    preciseMatches f rest subPath branches =
      selected (f :: rest) subPath (PathTree.branchEntries branches) := by
  induction branches with
  | nil =>
      unfold preciseMatches
      rfl
  | cons branch branches ih =>
      rcases branch with ⟨level, r⟩
      rcases List.nodup_cons.mp hkeys with ⟨hfresh, hrest⟩
      unfold preciseMatches
      rw [PathTree.branchEntries_cons, selected_append]
      by_cases hlevel : level = f
      · have hdown : forall topic, pathMatches subPath.isEmpty (f :: rest) (level :: topic) =
            pathMatches false rest topic := by
          intro topic
          rw [Bool.eq_iff_iff, pathMatches_precise hsingle hmulti]
          constructor
          · exact And.right
          · intro h
            exact ⟨hlevel.symm, h⟩
        have hnone : selected (f :: rest) subPath (PathTree.branchEntries branches) = [] := by
          rw [← hlevel]
          exact selected_other (hlevel ▸ hsingle) (hlevel ▸ hmulti) hfresh
        rw [if_pos hlevel, selected_branch hdown, hnone, List.append_nil]
        exact hwalks (level, r) List.mem_cons_self rest _ hlast.tail
      · have hnone : forall topic,
            pathMatches subPath.isEmpty (f :: rest) (level :: topic) = false := by
          intro topic
          rw [Bool.eq_false_iff]
          intro hmatch
          exact hlevel ((pathMatches_precise hsingle hmulti level topic).mp hmatch).left.symm
        rw [if_neg hlevel, selected_branch_none hnone, List.nil_append]
        exact ih hrest (fun branch hbranch => hwalks branch (List.mem_cons_of_mem _ hbranch))

theorem singleMatches_eq (hlast : HashLast (Level.singleWildcard :: rest))
    (hlevels : forall branch, branch ∈ branches -> branch.1 ≠ Level.singleWildcard)
    (hwalks : forall branch, branch ∈ branches -> Walks branch.2) :
    singleMatches rest subPath branches =
      selected (Level.singleWildcard :: rest) subPath (PathTree.branchEntries branches) := by
  induction branches with
  | nil =>
      unfold singleMatches
      rfl
  | cons branch branches ih =>
      rcases branch with ⟨level, r⟩
      have hlevel := hlevels (level, r) List.mem_cons_self
      unfold singleMatches
      rw [PathTree.branchEntries_cons, selected_append,
        ih (fun branch hbranch => hlevels branch (List.mem_cons_of_mem _ hbranch))
          (fun branch hbranch => hwalks branch (List.mem_cons_of_mem _ hbranch))]
      congr 1
      unfold passesOver
      cases hover : subPath.isEmpty && level.isMetadata with
      | true =>
          rw [if_pos rfl, selected_branch_none]
          intro topic
          rw [Bool.eq_false_iff, ne_eq, pathMatches_single hlevel, hover]
          exact fun h => Bool.noConfusion h.left
      | false =>
          rw [if_neg Bool.false_ne_true]
          have hdown : forall topic, pathMatches subPath.isEmpty (Level.singleWildcard :: rest)
              (level :: topic) = pathMatches false rest topic := by
            intro topic
            rw [Bool.eq_iff_iff, pathMatches_single hlevel]
            constructor
            · exact And.right
            · intro h
              exact ⟨hover, h⟩
          rw [selected_branch hdown]
          exact hwalks (level, r) List.mem_cons_self rest _ hlast.tail

theorem hashLast_hash : HashLast [Level.multiWildcard] := by
  intro pre post heq
  cases pre with
  | nil => exact (List.cons.inj heq).right.symm
  | cons f pre => exact absurd (List.cons.inj heq).right (by simp)

theorem pathMatches_hash (topic : List Level) :
    pathMatches false [Level.multiWildcard] topic = true := by
  cases topic with
  | nil => exact Node.pathMatches_nil.mpr (Or.inr rfl)
  | cons t topic => exact Node.pathMatches_cons.mpr (Or.inl ⟨rfl, Or.inl ⟨rfl, rfl⟩⟩)

theorem multiMatches_eq
    (hlevels : forall branch, branch ∈ branches -> branch.1 ≠ Level.multiWildcard)
    (hwalks : forall branch, branch ∈ branches -> Walks branch.2) :
    multiMatches [Level.multiWildcard] subPath branches =
      selected [Level.multiWildcard] subPath (PathTree.branchEntries branches) := by
  induction branches with
  | nil =>
      unfold multiMatches
      rfl
  | cons branch branches ih =>
      rcases branch with ⟨level, r⟩
      have hlevel := hlevels (level, r) List.mem_cons_self
      unfold multiMatches
      rw [PathTree.branchEntries_cons, selected_append,
        ih (fun branch hbranch => hlevels branch (List.mem_cons_of_mem _ hbranch))
          (fun branch hbranch => hwalks branch (List.mem_cons_of_mem _ hbranch))]
      congr 1
      unfold passesOver
      cases hover : subPath.isEmpty && level.isMetadata with
      | true =>
          rw [if_pos rfl, selected_branch_none]
          intro topic
          rw [Bool.eq_false_iff, ne_eq, pathMatches_multi hlevel, hover]
          exact fun h => Bool.noConfusion h
      | false =>
          rw [if_neg Bool.false_ne_true]
          have hdown : forall topic, pathMatches subPath.isEmpty [Level.multiWildcard]
              (level :: topic) = pathMatches false [Level.multiWildcard] topic := by
            intro topic
            rw [pathMatches_hash]
            exact (pathMatches_multi hlevel topic).mpr hover
          rw [selected_branch hdown, ← hwalks (level, r) List.mem_cons_self
            [Level.multiWildcard] _ hashLast_hash]
          rcases r with ⟨value, below⟩
          unfold parentHits
          rw [if_pos List.head?_cons]
          congr 1
          cases below with
          | nil =>
              rw [if_pos (show (PathTree.mk value ([] : List (Level × RetainTree V))).branches.isEmpty =
                true from rfl)]
              unfold matchedFrom
              rfl
          | cons b below => rw [if_neg (by simp [PathTree.branches])]

end Branches

/-- The walk from a node, for a filter that goes on. -/
theorem matchedFrom_eq {n : RetainTree V} (hn : PathTree.Canonical n)
    (hconcrete : forall path v, (path, v) ∈ PathTree.entries n -> Node.Concrete path)
    {path : List Level} (hlast : HashLast path) (hne : path ≠ []) (subPath : List Level) :
    matchedFrom path subPath n =
      selected path subPath (PathTree.branchEntries n.branches) := by
  induction hn generalizing path subPath with
  | @mk value branches hkeys hbelow hfertile ih =>
      have hentry : forall branch, branch ∈ branches -> forall path v,
          (path, v) ∈ PathTree.entries branch.2 -> Node.Concrete (branch.1 :: path) := by
        intro branch hbranch path v hmem
        exact hconcrete (branch.1 :: path) v
          (PathTree.mem_entries_cons.mpr ⟨branch.2, hbranch, hmem⟩)
      have hlevels : forall branch, branch ∈ branches ->
          branch.1 ≠ Level.singleWildcard ∧ branch.1 ≠ Level.multiWildcard := by
        intro branch hbranch
        rcases (hbelow branch hbranch).exists_entry (hfertile branch hbranch) with ⟨entry, hentry'⟩
        exact hentry branch hbranch entry.1 entry.2 hentry' branch.1 List.mem_cons_self
      have hwalks : forall branch, branch ∈ branches -> Walks branch.2 := by
        intro branch hbranch rest subPath' hrest
        apply matched_below hrest
        intro hgoes
        apply ih branch hbranch
        · intro path v hmem level hlevel
          exact hentry branch hbranch path v hmem level (List.mem_cons_of_mem _ hlevel)
        · exact hrest
        · exact hgoes
      cases path with
      | nil => exact absurd rfl hne
      | cons f rest =>
          show matchedFrom (f :: rest) subPath (PathTree.mk value branches) =
            selected (f :: rest) subPath (PathTree.branchEntries branches)
          unfold matchedFrom
          dsimp only
          cases hlookup : branches.lookup f with
          | some r =>
              rw [Option.isSome_some, if_pos rfl]
              have hmem : (f, r) ∈ branches :=
                PathTree.mem_of_child (n := PathTree.mk value branches) hlookup
              have hf := hlevels (f, r) hmem
              exact preciseMatches_eq hf.left hf.right hlast hkeys hwalks
          | none =>
              rw [Option.isSome_none, if_neg Bool.false_ne_true]
              by_cases hsingle : f = Level.singleWildcard
              · rw [if_pos hsingle]
                rw [hsingle] at hlast ⊢
                exact singleMatches_eq hlast (fun branch hbranch => (hlevels branch hbranch).left)
                  hwalks
              · rw [if_neg hsingle]
                by_cases hmulti : f = Level.multiWildcard
                · rw [if_pos hmulti]
                  rw [hmulti] at hlast ⊢
                  rw [hlast.head]
                  exact multiMatches_eq (fun branch hbranch => (hlevels branch hbranch).right)
                    hwalks
                · rw [if_neg hmulti]
                  symm
                  apply selected_other hsingle hmulti
                  intro hmem
                  rcases List.mem_map.mp hmem with ⟨branch, hbranch, rfl⟩
                  exact absurd (List.lookup_eq_none_iff.mp hlookup branch hbranch) (by simp)

end RetainTree

end Broker
end Ciqada
