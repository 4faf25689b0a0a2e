import Mathlib.Data.Finset.Card
import Mathlib.Data.Finset.Union
import Ciqada.Broker.Trie

/-!
# Updates of the topic tree

Removing a value takes away the branches that end empty on the way back, so that
the tree holds no node that no value needs.  What the tree holds after any number
of insertions and removals is the plain set of paths with their values, and its
sizes are read off that set.
-/

namespace Ciqada
namespace Broker
namespace Node

variable {V : Type}

/-- No value ends at the node and no branch starts there. -/
def isBarren (n : Node V) : Bool :=
  n.values.isEmpty && n.branches.isEmpty

def setChild (n : Node V) (level : Level) (b : Node V) : Node V :=
  mk n.values ((level, b) :: n.branches.filter (fun branch => branch.1 != level))

def dropChild (n : Node V) (level : Level) : Node V :=
  mk n.values (n.branches.filter (fun branch => branch.1 != level))

/-- Take a value from the end of a path; the answer says whether it was there. -/
def remove [DecidableEq V] (value : V) : List Level -> Node V -> Node V × Bool
  | [], n => (mk (n.values.erase value) n.branches, decide (value ∈ n.values))
  | level :: path, n =>
      match n.child level with
      | none => (n, false)
      | some b =>
          let (b, res) := remove value path b
          (if b.isBarren then n.dropChild level else n.setChild level b, res)

mutual

def valuesSize : Node V -> Nat
  | mk values branches => values.length + valuesSizes branches

def valuesSizes : List (Level × Node V) -> Nat
  | [] => 0
  | (_, b) :: rest => valuesSize b + valuesSizes rest

end

mutual

def nodesSize : Node V -> Nat
  | mk _ branches => branches.length + nodesSizes branches

def nodesSizes : List (Level × Node V) -> Nat
  | [] => 0
  | (_, b) :: rest => nodesSize b + nodesSizes rest

end

/-- The value ends at the path. -/
def holds [DecidableEq V] (n : Node V) (path : List Level) (value : V) : Bool :=
  (at? path n).elim false (fun m => decide (value ∈ m.values))

/-!
## Branches
-/

@[simp] theorem child_mk (values : List V) (branches : List (Level × Node V)) (level : Level) :
    (mk values branches).child level = branches.lookup level :=
  rfl

theorem lookup_filter_ne {branches : List (Level × Node V)} {level level' : Level}
    (hne : level' ≠ level) :
    (branches.filter (fun branch => branch.1 != level)).lookup level' =
      branches.lookup level' := by
  induction branches with
  | nil => rfl
  | cons branch branches ih =>
      rcases branch with ⟨l, b⟩
      by_cases hl : l = level
      · rw [List.filter_cons_of_neg (by simp [hl]), ih, List.lookup_cons, hl,
          beq_false_of_ne hne]
      · rw [List.filter_cons_of_pos (by simp [hl]), List.lookup_cons, List.lookup_cons, ih]

theorem lookup_filter_self (branches : List (Level × Node V)) (level : Level) :
    (branches.filter (fun branch => branch.1 != level)).lookup level = none := by
  rw [List.lookup_eq_none_iff]
  intro branch hbranch
  have hne : branch.1 ≠ level := bne_iff_ne.mp (List.mem_filter.mp hbranch).right
  exact bne_iff_ne.mpr hne.symm

theorem child_setChild (n b : Node V) (level level' : Level) :
    (n.setChild level b).child level' = if level' = level then some b else n.child level' := by
  show List.lookup level' ((level, b) :: _) = _
  rw [List.lookup_cons]
  by_cases h : level' = level
  · rw [if_pos h, h, beq_self_eq_true]
  · rw [if_neg h, beq_false_of_ne h]
    exact lookup_filter_ne h

theorem child_dropChild (n : Node V) (level level' : Level) :
    (n.dropChild level).child level' = if level' = level then none else n.child level' := by
  show List.lookup level' (n.branches.filter _) = _
  by_cases h : level' = level
  · rw [if_pos h, h, lookup_filter_self]
  · rw [if_neg h]
    exact lookup_filter_ne h

theorem mem_of_child {n b : Node V} {level : Level} (h : n.child level = some b) :
    (level, b) ∈ n.branches := by
  unfold child at h
  generalize n.branches = branches at h
  induction branches with
  | nil => cases h
  | cons branch branches ih =>
      rcases branch with ⟨l, c⟩
      rw [List.lookup_cons] at h
      by_cases hl : level = l
      · rw [hl, beq_self_eq_true] at h
        rw [hl, Option.some.inj h]
        exact List.mem_cons_self
      · rw [beq_false_of_ne hl] at h
        exact List.mem_cons_of_mem _ (ih h)

theorem child_of_mem {n b : Node V} {level : Level} (hkeys : (n.branches.map Prod.fst).Nodup)
    (h : (level, b) ∈ n.branches) : n.child level = some b := by
  unfold child
  generalize n.branches = branches at h hkeys
  induction branches with
  | nil => cases h
  | cons branch branches ih =>
      rcases branch with ⟨l, c⟩
      rcases List.nodup_cons.mp hkeys with ⟨hfresh, hrest⟩
      rw [List.lookup_cons]
      rcases List.mem_cons.mp h with heq | htail
      · rcases Prod.mk.inj heq with ⟨rfl, rfl⟩
        rw [beq_self_eq_true]
      · have hne : level ≠ l := by
          intro hl
          exact hfresh (List.mem_map.mpr ⟨(level, b), htail, hl⟩)
        rw [beq_false_of_ne hne]
        exact ih htail hrest

/-!
## Canonical trees
-/

/-- A tree without repeated entries and without branches that end empty. -/
inductive Canonical : Node V -> Prop where
  | mk {values : List V} {branches : List (Level × Node V)} :
      values.Nodup ->
      (branches.map Prod.fst).Nodup ->
      (forall branch, branch ∈ branches -> Canonical branch.2) ->
      (forall branch, branch ∈ branches -> branch.2.isBarren = false) ->
      Canonical (mk values branches)

namespace Canonical

variable {n b : Node V} {level : Level}

theorem values_nodup (hn : Canonical n) : n.values.Nodup := by
  cases hn
  assumption

theorem keys_nodup (hn : Canonical n) : (n.branches.map Prod.fst).Nodup := by
  cases hn
  assumption

theorem of_mem (hn : Canonical n) (hb : (level, b) ∈ n.branches) : Canonical b := by
  cases hn with
  | mk _ _ hbelow _ => exact hbelow (level, b) hb

theorem fertile (hn : Canonical n) (hb : (level, b) ∈ n.branches) : b.isBarren = false := by
  cases hn with
  | mk _ _ _ hfertile => exact hfertile (level, b) hb

theorem of_child (hn : Canonical n) (hb : n.child level = some b) : Canonical b :=
  hn.of_mem (mem_of_child hb)

theorem of_at? {path : List Level} {m : Node V} (hn : Canonical n)
    (hm : at? path n = some m) : Canonical m := by
  induction path generalizing n with
  | nil =>
      rw [← Option.some.inj hm]
      exact hn
  | cons level path ih =>
      rcases Option.bind_eq_some_iff.mp hm with ⟨b, hb, hrest⟩
      exact ih (hn.of_child hb) hrest

theorem empty : Canonical (Node.empty : Node V) :=
  Canonical.mk List.nodup_nil List.nodup_nil (fun _ h => nomatch h) (fun _ h => nomatch h)

/-- The branches that are left after one is taken out. -/
theorem dropChild (hn : Canonical n) (level : Level) : Canonical (n.dropChild level) := by
  cases hn with
  | @mk values branches hvalues hkeys hbelow hfertile =>
      refine Canonical.mk hvalues ?_ ?_ ?_
      · exact hkeys.sublist (List.filter_sublist.map Prod.fst)
      · intro branch hbranch
        exact hbelow branch (List.mem_filter.mp hbranch).left
      · intro branch hbranch
        exact hfertile branch (List.mem_filter.mp hbranch).left

theorem setChild (hn : Canonical n) (level : Level) (hb : Canonical b)
    (hfertile : b.isBarren = false) : Canonical (n.setChild level b) := by
  have hrest := hn.dropChild level
  unfold Node.dropChild at hrest
  cases hrest with
  | mk hvalues hkeys hbelow hfertile' =>
      refine Canonical.mk hvalues ?_ ?_ ?_
      · rw [List.map_cons, List.nodup_cons]
        refine ⟨?_, hkeys⟩
        intro hmem
        rcases List.mem_map.mp hmem with ⟨branch, hbranch, heq⟩
        exact bne_iff_ne.mp (List.mem_filter.mp hbranch).right heq
      · exact List.forall_mem_cons.mpr ⟨hb, hbelow⟩
      · exact List.forall_mem_cons.mpr ⟨hfertile, hfertile'⟩

theorem getD_child (hn : Canonical n) (level : Level) :
    Canonical ((n.child level).getD Node.empty) := by
  cases hb : n.child level with
  | none => exact Canonical.empty
  | some b => exact hn.of_child hb

variable [DecidableEq V]

theorem insert (hn : Canonical n) (value : V) (path : List Level) :
    Canonical (n.insert value path) ∧ (n.insert value path).isBarren = false := by
  induction path generalizing n with
  | nil =>
      cases hn with
      | @mk values branches hvalues hkeys hbelow hfertile =>
          show Canonical (Node.mk (if value ∈ values then values else value :: values) branches) ∧
            ((if value ∈ values then values else value :: values).isEmpty &&
              branches.isEmpty) = false
          by_cases hmem : value ∈ values
          · rw [if_pos hmem]
            refine ⟨Canonical.mk hvalues hkeys hbelow hfertile, ?_⟩
            rw [List.isEmpty_eq_false_iff.mpr (List.ne_nil_of_mem hmem), Bool.false_and]
          · rw [if_neg hmem]
            exact ⟨Canonical.mk (List.nodup_cons.mpr ⟨hmem, hvalues⟩) hkeys hbelow hfertile, rfl⟩
  | cons level path ih =>
      have hb := ih (hn.getD_child level)
      refine ⟨hn.setChild level hb.left hb.right, ?_⟩
      show (n.values.isEmpty && false) = false
      rw [Bool.and_false]

theorem remove (hn : Canonical n) (value : V) (path : List Level) :
    Canonical (n.remove value path).1 := by
  induction path generalizing n with
  | nil =>
      cases hn with
      | @mk values branches hvalues hkeys hbelow hfertile =>
          exact Canonical.mk (hvalues.erase value) hkeys hbelow hfertile
  | cons level path ih =>
      unfold Node.remove
      cases hb : n.child level with
      | none => exact hn
      | some b =>
          dsimp only
          cases hbarren : (b.remove value path).1.isBarren with
          | true => exact hn.dropChild level
          | false => exact hn.setChild level (ih (hn.of_child hb)) hbarren

end Canonical

/-!
## What a tree holds
-/

section Holds

variable [DecidableEq V]

theorem holds_nil (n : Node V) (value : V) : n.holds [] value = decide (value ∈ n.values) :=
  rfl

theorem holds_cons (n : Node V) (level : Level) (path : List Level) (value : V) :
    n.holds (level :: path) value =
      (n.child level).elim false (fun b => b.holds path value) := by
  show ((n.child level).bind (at? path)).elim false _ = _
  cases n.child level <;> rfl

theorem holds_iff {n : Node V} {path : List Level} {value : V} :
    n.holds path value = true <->
      exists m, at? path n = some m ∧ value ∈ m.values := by
  unfold holds
  cases at? path n with
  | none => simp
  | some m => simp

theorem holds_empty (path : List Level) (value : V) :
    (empty : Node V).holds path value = false := by
  cases path <;> rfl

theorem holds_of_isBarren {n : Node V} (hbarren : n.isBarren = true) (path : List Level)
    (value : V) : n.holds path value = false := by
  cases n with
  | mk values branches =>
      rcases Bool.and_eq_true_iff.mp hbarren with ⟨hvalues, hbranches⟩
      rw [List.isEmpty_iff] at hvalues hbranches
      change values = [] at hvalues
      change branches = [] at hbranches
      rw [hvalues, hbranches]
      exact holds_empty path value

theorem holds_getD_child (n : Node V) (level : Level) (path : List Level) (value : V) :
    ((n.child level).getD empty).holds path value = n.holds (level :: path) value := by
  rw [holds_cons]
  cases n.child level with
  | none => exact holds_empty path value
  | some b => rfl

theorem holds_insert (n : Node V) (value value' : V) (path path' : List Level) :
    (n.insert value path).holds path' value' =
      (decide (path' = path ∧ value' = value) || n.holds path' value') := by
  induction path generalizing n path' with
  | nil =>
      cases path' with
      | nil =>
          show decide (value' ∈ if value ∈ n.values then n.values else value :: n.values) = _
          rw [holds_nil, Bool.eq_iff_iff, Bool.or_eq_true]
          simp only [decide_eq_true_eq]
          by_cases hmem : value ∈ n.values
          · rw [if_pos hmem]
            constructor
            · exact Or.inr
            · rintro (⟨_, rfl⟩ | hold)
              · exact hmem
              · exact hold
          · rw [if_neg hmem, List.mem_cons]
            simp
      | cons level' path' =>
          rw [holds_cons, holds_cons]
          simp [insert]
          rfl
  | cons level path ih =>
      cases path' with
      | nil =>
          have hvalues : (insert value (level :: path) n).values = n.values := rfl
          rw [holds_nil, holds_nil, hvalues]
          simp
      | cons level' path' =>
          rw [holds_cons]
          show ((n.setChild level (insert value path ((n.child level).getD empty))).child level').elim
            _ _ = _
          rw [child_setChild]
          by_cases hl : level' = level
          · rw [if_pos hl, hl]
            show holds _ path' value' = _
            rw [ih, holds_getD_child]
            simp
          · rw [if_neg hl, ← holds_cons]
            simp [hl]

/-- Removing a value tells whether it was there and takes away that value only. -/
theorem holds_remove {n : Node V} (hn : Canonical n) (value value' : V)
    (path path' : List Level) :
    (n.remove value path).1.holds path' value' =
      (n.holds path' value' && !decide (path' = path ∧ value' = value)) := by
  induction path generalizing n path' with
  | nil =>
      cases path' with
      | nil =>
          show decide (value' ∈ n.values.erase value) = _
          rw [holds_nil, Bool.eq_iff_iff, Bool.and_eq_true, Bool.not_eq_true']
          simp only [decide_eq_true_eq, decide_eq_false_iff_not]
          rw [hn.values_nodup.mem_erase_iff]
          constructor
          · intro h
            exact ⟨h.right, fun heq => h.left heq.right⟩
          · intro h
            exact ⟨fun heq => h.right ⟨trivial, heq⟩, h.left⟩
      | cons level' path' =>
          rw [holds_cons, holds_cons]
          simp [remove]
          rfl
  | cons level path ih =>
      unfold remove
      cases hb : n.child level with
      | none =>
          dsimp only
          by_cases heq : path' = level :: path ∧ value' = value
          · rw [heq.left, holds_cons, hb]
            rfl
          · rw [decide_eq_false heq, Bool.not_false, Bool.and_true]
      | some b =>
          dsimp only
          cases path' with
          | nil =>
              have hvalues : (if (b.remove value path).1.isBarren then n.dropChild level
                  else n.setChild level (b.remove value path).1).values = n.values := by
                split <;> rfl
              rw [holds_nil, holds_nil, hvalues]
              simp
          | cons level' path' =>
              have hih := ih (hn.of_child hb) path'
              by_cases hl : level' = level
              · rw [hl, holds_cons n, hb]
                show _ = (b.holds path' value' && _)
                have hsame : decide (level :: path' = level :: path ∧ value' = value) =
                    decide (path' = path ∧ value' = value) := by
                  simp
                rw [hsame, ← hih]
                cases hbarren : (b.remove value path).1.isBarren with
                | true =>
                    rw [if_pos rfl, holds_cons, child_dropChild, if_pos rfl,
                      holds_of_isBarren hbarren]
                    rfl
                | false =>
                    rw [if_neg Bool.false_ne_true, holds_cons, child_setChild, if_pos rfl]
                    rfl
              · have hother : (if (b.remove value path).1.isBarren then n.dropChild level
                    else n.setChild level (b.remove value path).1).child level' =
                      n.child level' := by
                  split
                  · rw [child_dropChild, if_neg hl]
                  · rw [child_setChild, if_neg hl]
                rw [holds_cons, holds_cons, hother]
                simp [hl]

theorem remove_answer (n : Node V) (value : V) (path : List Level) :
    (n.remove value path).2 = n.holds path value := by
  induction path generalizing n with
  | nil => rfl
  | cons level path ih =>
      unfold remove
      rw [holds_cons]
      cases n.child level with
      | none => rfl
      | some b => exact ih b

end Holds

/-!
## Listing a tree
-/

mutual

/-- The values with their paths. -/
def entries : Node V -> List (List Level × V)
  | mk values branches => values.map (fun value => ([], value)) ++ branchEntries branches

def branchEntries : List (Level × Node V) -> List (List Level × V)
  | [] => []
  | (level, b) :: rest =>
      (entries b).map (fun entry => (level :: entry.1, entry.2)) ++ branchEntries rest

end

mutual

/-- The paths to the nodes below the root. -/
def paths : Node V -> List (List Level)
  | mk _ branches => branchPaths branches

def branchPaths : List (Level × Node V) -> List (List Level)
  | [] => []
  | (level, b) :: rest => [level] :: (paths b).map (List.cons level) ++ branchPaths rest

end

theorem entries_mk (values : List V) (branches : List (Level × Node V)) :
    entries (mk values branches) =
      values.map (fun value => ([], value)) ++ branchEntries branches := by
  rw [entries]

mutual

theorem length_entries : forall n : Node V, (entries n).length = valuesSize n
  | mk values branches => by
      unfold entries valuesSize
      rw [List.length_append, List.length_map, length_branchEntries branches]

theorem length_branchEntries :
    forall branches : List (Level × Node V), (branchEntries branches).length = valuesSizes branches
  | [] => rfl
  | (level, b) :: rest => by
      unfold branchEntries valuesSizes
      rw [List.length_append, List.length_map, length_entries b, length_branchEntries rest]

end

mutual

theorem length_paths : forall n : Node V, (paths n).length = nodesSize n
  | mk _ branches => by
      unfold paths nodesSize
      exact length_branchPaths branches

theorem length_branchPaths :
    forall branches : List (Level × Node V),
      (branchPaths branches).length = branches.length + nodesSizes branches
  | [] => rfl
  | (level, b) :: rest => by
      unfold branchPaths nodesSizes
      rw [List.length_append, List.length_cons, List.length_map, length_paths b,
        length_branchPaths rest, List.length_cons]
      omega

end

theorem mem_branchEntries {branches : List (Level × Node V)} {entry : List Level × V} :
    entry ∈ branchEntries branches <->
      exists level b rest, (level, b) ∈ branches ∧ entry.1 = level :: rest ∧
        (rest, entry.2) ∈ entries b := by
  induction branches with
  | nil => simp [branchEntries]
  | cons branch branches ih =>
      rcases branch with ⟨l, c⟩
      unfold branchEntries
      rw [List.mem_append, ih, List.mem_map]
      constructor
      · rintro (⟨⟨path, value⟩, hmem, rfl⟩ | ⟨level, b, rest, hb, hpath, hmem⟩)
        · exact ⟨l, c, path, List.mem_cons_self, rfl, hmem⟩
        · exact ⟨level, b, rest, List.mem_cons_of_mem _ hb, hpath, hmem⟩
      · rintro ⟨level, b, rest, hb, hpath, hmem⟩
        rcases List.mem_cons.mp hb with heq | htail
        · rcases Prod.mk.inj heq with ⟨rfl, rfl⟩
          exact Or.inl ⟨(rest, entry.2), hmem, Prod.ext hpath.symm rfl⟩
        · exact Or.inr ⟨level, b, rest, htail, hpath, hmem⟩

theorem mem_branchPaths {branches : List (Level × Node V)} {path : List Level} :
    path ∈ branchPaths branches <->
      exists level b rest, (level, b) ∈ branches ∧ path = level :: rest ∧
        (rest = [] ∨ rest ∈ paths b) := by
  induction branches with
  | nil => simp [branchPaths]
  | cons branch branches ih =>
      rcases branch with ⟨l, c⟩
      unfold branchPaths
      rw [List.mem_append, List.mem_cons, ih, List.mem_map]
      constructor
      · rintro ((rfl | ⟨rest, hrest, rfl⟩) | ⟨level, b, rest, hb, hpath, hrest⟩)
        · exact ⟨l, c, [], List.mem_cons_self, rfl, Or.inl rfl⟩
        · exact ⟨l, c, rest, List.mem_cons_self, rfl, Or.inr hrest⟩
        · exact ⟨level, b, rest, List.mem_cons_of_mem _ hb, hpath, hrest⟩
      · rintro ⟨level, b, rest, hb, rfl, hrest⟩
        rcases List.mem_cons.mp hb with heq | htail
        · rcases Prod.mk.inj heq with ⟨rfl, rfl⟩
          rcases hrest with rfl | hrest
          · exact Or.inl (Or.inl rfl)
          · exact Or.inl (Or.inr ⟨rest, hrest, rfl⟩)
        · exact Or.inr ⟨level, b, rest, htail, rfl, hrest⟩

/-- The listing of a canonical tree is what it holds. -/
theorem Canonical.mem_entries [DecidableEq V] {n : Node V} (hn : Canonical n)
    {path : List Level} {value : V} :
    (path, value) ∈ entries n <-> n.holds path value = true := by
  induction path generalizing n with
  | nil =>
      cases n with
      | mk values branches =>
          rw [entries_mk, List.mem_append, mem_branchEntries, holds_nil, decide_eq_true_iff]
          constructor
          · rintro (hmem | ⟨level, b, rest, _hb, hpath, _hmem⟩)
            · rcases List.mem_map.mp hmem with ⟨v, hv, heq⟩
              rw [← (Prod.mk.inj heq).right]
              exact hv
            · cases hpath
          · intro hmem
            exact Or.inl (List.mem_map.mpr ⟨value, hmem, rfl⟩)
  | cons level path ih =>
      rw [holds_cons]
      have hentries : (level :: path, value) ∈ entries n <->
          exists b, (level, b) ∈ n.branches ∧ (path, value) ∈ entries b := by
        cases n with
        | mk values branches =>
            rw [entries_mk, List.mem_append, mem_branchEntries]
            constructor
            · rintro (hmem | ⟨l, b, rest, hb, hpath, hmem⟩)
              · rcases List.mem_map.mp hmem with ⟨v, _hv, heq⟩
                cases (Prod.mk.inj heq).left
              · rcases List.cons.inj hpath with ⟨rfl, rfl⟩
                exact ⟨b, hb, hmem⟩
            · rintro ⟨b, hb, hmem⟩
              exact Or.inr ⟨level, b, path, hb, rfl, hmem⟩
      rw [hentries]
      constructor
      · rintro ⟨b, hb, hmem⟩
        rw [child_of_mem hn.keys_nodup hb]
        exact (ih (hn.of_mem hb)).mp hmem
      · intro hholds
        cases hb : n.child level with
        | none =>
            rw [hb] at hholds
            cases hholds
        | some b =>
            rw [hb] at hholds
            exact ⟨b, mem_of_child hb, (ih (hn.of_child hb)).mpr hholds⟩

/-- Every node of a canonical tree leads to a value. -/
theorem Canonical.exists_entry {n : Node V} (hn : Canonical n) (hfertile : n.isBarren = false) :
    exists entry, entry ∈ entries n := by
  induction hn with
  | @mk values branches _hvalues _hkeys _hbelow hbranches ih =>
      cases values with
      | cons value values => exact ⟨([], value), List.mem_append_left _ List.mem_cons_self⟩
      | nil =>
          cases branches with
          | nil => cases hfertile
          | cons branch branches =>
              rcases ih branch List.mem_cons_self (hbranches branch List.mem_cons_self) with
                ⟨entry, hentry⟩
              refine ⟨(branch.1 :: entry.1, entry.2), ?_⟩
              exact List.mem_append_right _ (mem_branchEntries.mpr
                ⟨branch.1, branch.2, entry.1, List.mem_cons_self, rfl, hentry⟩)

theorem Canonical.entries_nodup {n : Node V} (hn : Canonical n) : (entries n).Nodup := by
  induction hn with
  | @mk values branches hvalues hkeys _hbelow _hbranches ih =>
      rw [entries_mk, List.nodup_append']
      refine ⟨hvalues.map (fun v w h => (Prod.mk.inj h).right), ?_, ?_⟩
      · clear hvalues _hbelow _hbranches
        induction branches with
        | nil => exact List.nodup_nil
        | cons branch branches ihs =>
            rcases branch with ⟨level, b⟩
            rcases List.nodup_cons.mp hkeys with ⟨hfresh, hrest⟩
            unfold branchEntries
            rw [List.nodup_append']
            refine ⟨(ih (level, b) List.mem_cons_self).map ?_, ihs hrest
              (fun branch hbranch => ih branch (List.mem_cons_of_mem _ hbranch)), ?_⟩
            · rintro ⟨p, v⟩ ⟨q, w⟩ h
              rcases Prod.mk.inj h with ⟨hpath, hvalue⟩
              exact Prod.ext (List.cons.inj hpath).right hvalue
            · intro entry hleft hright
              rcases List.mem_map.mp hleft with ⟨e, _he, rfl⟩
              rcases mem_branchEntries.mp hright with ⟨l, c, rest, hc, hpath, _hmem⟩
              rw [(List.cons.inj hpath).left] at hfresh
              exact hfresh (List.mem_map.mpr ⟨(l, c), hc, rfl⟩)
      · intro entry hleft hright
        rcases List.mem_map.mp hleft with ⟨v, _hv, rfl⟩
        rcases mem_branchEntries.mp hright with ⟨l, c, rest, _hc, hpath, _hmem⟩
        cases hpath

theorem Canonical.paths_nodup {n : Node V} (hn : Canonical n) : (paths n).Nodup := by
  induction hn with
  | @mk values branches _hvalues hkeys _hbelow _hbranches ih =>
      unfold paths
      clear _hvalues _hbelow _hbranches
      induction branches with
      | nil => exact List.nodup_nil
      | cons branch branches ihs =>
          rcases branch with ⟨level, b⟩
          rcases List.nodup_cons.mp hkeys with ⟨hfresh, hrest⟩
          unfold branchPaths
          rw [List.nodup_append', List.nodup_cons]
          refine ⟨⟨?_, (ih (level, b) List.mem_cons_self).map
            (fun p q h => (List.cons.inj h).right)⟩, ihs hrest
              (fun branch hbranch => ih branch (List.mem_cons_of_mem _ hbranch)), ?_⟩
          · intro hmem
            rcases List.mem_map.mp hmem with ⟨rest, hrest', heq⟩
            rw [(List.cons.inj heq).right] at hrest'
            cases b with
            | mk vs bs =>
                rcases mem_branchPaths.mp hrest' with ⟨l, c, r, _hc, hpath, _⟩
                cases hpath
          · intro path hleft hright
            rcases mem_branchPaths.mp hright with ⟨l, c, rest, hc, rfl, _hrest⟩
            have hlevel : level = l := by
              rcases List.mem_cons.mp hleft with heq | hmem
              · exact (List.cons.inj heq).left.symm
              · rcases List.mem_map.mp hmem with ⟨r, _hr, heq⟩
                exact (List.cons.inj heq).left
            rw [hlevel] at hfresh
            exact hfresh (List.mem_map.mpr ⟨(l, c), hc, rfl⟩)

/-- The nodes below the root are the beginnings of the paths that hold a value. -/
theorem Canonical.mem_paths {n : Node V} (hn : Canonical n) {path : List Level} :
    path ∈ paths n <->
      path ≠ [] ∧ exists entry, entry ∈ entries n ∧ path <+: entry.1 := by
  induction path generalizing n with
  | nil =>
      constructor
      · intro hmem
        cases n with
        | mk values branches =>
            rcases mem_branchPaths.mp hmem with ⟨level, b, rest, _hb, hpath, _⟩
            cases hpath
      · intro h
        exact absurd rfl h.left
  | cons level path ih =>
      cases hn with
      | @mk values branches hvalues hkeys hbelow hfertile =>
          unfold paths
          rw [mem_branchPaths]
          constructor
          · rintro ⟨l, b, rest, hb, hpath, hrest⟩
            rcases List.cons.inj hpath with ⟨rfl, rfl⟩
            refine ⟨List.cons_ne_nil _ _, ?_⟩
            have hentry : exists entry, entry ∈ entries b ∧ path <+: entry.1 := by
              rcases hrest with rfl | hmem
              · rcases (hbelow _ hb).exists_entry (hfertile _ hb) with ⟨entry, hentry⟩
                exact ⟨entry, hentry, List.nil_prefix⟩
              · exact ((ih (hbelow _ hb)).mp hmem).right
            rcases hentry with ⟨entry, hmem, hfront⟩
            refine ⟨(level :: entry.1, entry.2), ?_, List.cons_prefix_cons.mpr ⟨rfl, hfront⟩⟩
            exact List.mem_append_right _ (mem_branchEntries.mpr
              ⟨level, b, entry.1, hb, rfl, hmem⟩)
          · rintro ⟨_hne, entry, hmem, hfront⟩
            rw [entries_mk] at hmem
            rcases List.mem_append.mp hmem with hvalue | hbranch
            · rcases List.mem_map.mp hvalue with ⟨v, _hv, rfl⟩
              exact absurd hfront (by simp)
            · rcases mem_branchEntries.mp hbranch with ⟨l, b, rest, hb, hpath, hentry⟩
              rw [hpath] at hfront
              rcases List.cons_prefix_cons.mp hfront with ⟨rfl, hrest⟩
              refine ⟨level, b, path, hb, rfl, ?_⟩
              by_cases hnil : path = []
              · exact Or.inl hnil
              · exact Or.inr ((ih (hbelow _ hb)).mpr ⟨hnil, (rest, entry.2), hentry, hrest⟩)

/-!
## Any sequence of updates
-/

section Updates

variable [DecidableEq V]

theorem Canonical.valuesSize_eq {n : Node V} (hn : Canonical n) :
    valuesSize n = (entries n).toFinset.card := by
  rw [List.toFinset_card_of_nodup hn.entries_nodup, length_entries]

theorem Canonical.nodesSize_eq {n : Node V} (hn : Canonical n) :
    nodesSize n =
      ((entries n).toFinset.biUnion (fun entry => entry.1.inits.toFinset.erase [])).card := by
  rw [← length_paths, ← List.toFinset_card_of_nodup hn.paths_nodup]
  congr 1
  ext path
  rw [List.mem_toFinset, hn.mem_paths, Finset.mem_biUnion]
  simp only [List.mem_toFinset, Finset.mem_erase, List.mem_inits]
  constructor
  · rintro ⟨hne, entry, hentry, hfront⟩
    exact ⟨entry, hentry, hne, hfront⟩
  · rintro ⟨entry, hentry, hne, hfront⟩
    exact ⟨hne, entry, hentry, hfront⟩

inductive Update (V : Type) where
  | insert (path : List Level) (value : V)
  | remove (path : List Level) (value : V)

def update (n : Node V) : Update V -> Node V
  | Update.insert path value => n.insert value path
  | Update.remove path value => (n.remove value path).1

/-- The plain set that the updates describe. -/
def record (live : Finset (List Level × V)) : Update V -> Finset (List Level × V)
  | Update.insert path value => Insert.insert (path, value) live
  | Update.remove path value => live.erase (path, value)

def treeAfter (es : List (Update V)) : Node V :=
  es.foldl update empty

def liveAfter (es : List (Update V)) : Finset (List Level × V) :=
  es.foldl record ∅

theorem update_exact {n : Node V} {live : Finset (List Level × V)} (hn : Canonical n)
    (hlive : forall path value, n.holds path value = true <-> (path, value) ∈ live)
    (e : Update V) :
    Canonical (n.update e) ∧
      forall path value, (n.update e).holds path value = true <->
        (path, value) ∈ record live e := by
  cases e with
  | insert path value =>
      refine ⟨(hn.insert value path).left, ?_⟩
      intro path' value'
      show (insert value path n).holds path' value' = true <-> _
      rw [holds_insert, Bool.or_eq_true, hlive, decide_eq_true_iff]
      show _ <-> (path', value') ∈ Insert.insert (path, value) live
      rw [Finset.mem_insert, Prod.mk.injEq]
  | remove path value =>
      refine ⟨hn.remove value path, ?_⟩
      intro path' value'
      show (n.remove value path).1.holds path' value' = true <-> _
      rw [holds_remove hn, Bool.and_eq_true, hlive, Bool.not_eq_true', decide_eq_false_iff_not]
      show _ <-> (path', value') ∈ live.erase (path, value)
      rw [Finset.mem_erase, ne_eq, Prod.mk.injEq, and_comm]

theorem updates_exact (es : List (Update V)) {n : Node V} {live : Finset (List Level × V)}
    (hn : Canonical n)
    (hlive : forall path value, n.holds path value = true <-> (path, value) ∈ live) :
    Canonical (es.foldl update n) ∧
      forall path value, (es.foldl update n).holds path value = true <->
        (path, value) ∈ es.foldl record live := by
  induction es generalizing n live with
  | nil => exact ⟨hn, hlive⟩
  | cons e es ih =>
      have hstep := update_exact hn hlive e
      exact ih hstep.left hstep.right

/--
After any insertions and removals the tree holds the plain set of live values, a
removal tells whether the value was live, and the sizes count the live values and
the beginnings of their paths: no node outlives the values below it.
-/
theorem tree_exact (es : List (Update V)) :
    (forall path value,
      (treeAfter es).holds path value = true <-> (path, value) ∈ liveAfter es) ∧
    (forall path value,
      ((treeAfter es).remove value path).2 = true <-> (path, value) ∈ liveAfter es) ∧
    (treeAfter es).valuesSize = (liveAfter es).card ∧
    (treeAfter es).nodesSize =
      ((liveAfter es).biUnion (fun entry => entry.1.inits.toFinset.erase [])).card := by
  have hempty : forall (path : List Level) (value : V),
      (empty : Node V).holds path value = true <->
        (path, value) ∈ (∅ : Finset (List Level × V)) := by
    intro path value
    rw [holds_empty]
    simp
  have hafter := updates_exact es Canonical.empty hempty
  have hcanonical : Canonical (treeAfter es) := hafter.left
  have hholds : forall path value,
      (treeAfter es).holds path value = true <-> (path, value) ∈ liveAfter es := hafter.right
  have hset : (entries (treeAfter es)).toFinset = liveAfter es := by
    ext entry
    rw [List.mem_toFinset, hcanonical.mem_entries, hholds]
  refine ⟨hholds, ?_, ?_, ?_⟩
  · intro path value
    rw [remove_answer, hholds]
  · rw [hcanonical.valuesSize_eq, hset]
  · rw [hcanonical.nodesSize_eq, hset]

end Updates

end Node

end Broker
end Ciqada
