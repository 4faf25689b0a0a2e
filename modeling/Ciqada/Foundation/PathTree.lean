import Mathlib.Data.Finset.Card
import Mathlib.Data.List.Nodup
import Mathlib.Tactic.Common

/-!
# Trees of paths

A tree keeps at most one value for every path.  Values are entered, taken out one by
one, or sifted all at once; branches that end empty are cut off on the way back.  A
canonical tree is a plain partial map from paths to values.
-/

namespace Ciqada
namespace Foundation

universe u v

inductive PathTree (K : Type u) (V : Type v) where
  | mk (value : Option V) (branches : List (K × PathTree K V))

namespace PathTree

variable {K : Type u} {V : Type v}

def value : PathTree K V -> Option V
  | mk value _ => value

def branches : PathTree K V -> List (K × PathTree K V)
  | mk _ branches => branches

def empty : PathTree K V :=
  mk none []

/-- No value ends at the node and no branch starts there. -/
def isBarren (n : PathTree K V) : Bool :=
  n.value.isNone && n.branches.isEmpty

/-- Drop the value of a node if it fails the test, and count it. -/
def sift (keep : V -> Bool) (removeds : Nat) (n : PathTree K V) : PathTree K V × Nat :=
  match n.value with
  | none => (n, removeds)
  | some v => if keep v then (n, removeds) else (mk none n.branches, removeds + 1)

mutual

/-- Sift the values below a node, unless the limit has been reached before. -/
def retain (keep : V -> Bool) (limit removeds : Nat) : PathTree K V -> PathTree K V × Nat
  | mk value branches =>
      if limit ≤ removeds then (mk value branches, removeds)
      else
        let (branches, removeds) := retainBranches keep limit removeds branches
        (mk value branches, removeds)

def retainBranches (keep : V -> Bool) (limit removeds : Nat) :
    List (K × PathTree K V) -> List (K × PathTree K V) × Nat
  | [] => ([], removeds)
  | (k, b) :: rest =>
      let (b, removeds) := retain keep limit removeds b
      let (b, removeds) := sift keep removeds b
      let (rest, removeds) := retainBranches keep limit removeds rest
      (if b.isBarren then rest else (k, b) :: rest, removeds)

end

mutual

def valuesSize : PathTree K V -> Nat
  | mk value branches => valuesSizes branches + if value.isSome then 1 else 0

def valuesSizes : List (K × PathTree K V) -> Nat
  | [] => 0
  | (_, b) :: rest => valuesSize b + valuesSizes rest

end

mutual

/-- The values with their paths. -/
def entries : PathTree K V -> List (List K × V)
  | mk value branches => value.toList.map (fun v => ([], v)) ++ branchEntries branches

def branchEntries : List (K × PathTree K V) -> List (List K × V)
  | [] => []
  | (k, b) :: rest =>
      (entries b).map (fun entry => (k :: entry.1, entry.2)) ++ branchEntries rest

end

/-- A tree with one branch for a key and without branches that end empty. -/
inductive Canonical : PathTree K V -> Prop where
  | mk {value : Option V} {branches : List (K × PathTree K V)} :
      (branches.map Prod.fst).Nodup ->
      (forall branch, branch ∈ branches -> Canonical branch.2) ->
      (forall branch, branch ∈ branches -> branch.2.isBarren = false) ->
      Canonical (mk value branches)

section Updates

variable [DecidableEq K]

def child (n : PathTree K V) (k : K) : Option (PathTree K V) :=
  n.branches.lookup k

def setChild (n : PathTree K V) (k : K) (b : PathTree K V) : PathTree K V :=
  mk n.value ((k, b) :: n.branches.filter (fun branch => branch.1 != k))

def dropChild (n : PathTree K V) (k : K) : PathTree K V :=
  mk n.value (n.branches.filter (fun branch => branch.1 != k))

/-- Put a value at the end of a path, in place of the one that is there. -/
def insert (v : V) : List K -> PathTree K V -> PathTree K V
  | [], n => mk (some v) n.branches
  | k :: path, n => n.setChild k (insert v path ((n.child k).getD empty))

/-- Take the value from the end of a path. -/
def remove : List K -> PathTree K V -> PathTree K V × Option V
  | [], n => (mk none n.branches, n.value)
  | k :: path, n =>
      match n.child k with
      | none => (n, none)
      | some b =>
          let (b, res) := remove path b
          (if b.isBarren then n.dropChild k else n.setChild k b, res)

def find? : List K -> PathTree K V -> Option V
  | [], n => n.value
  | k :: path, n => (n.child k).bind (find? path)

end Updates

/-!
## Listing
-/

theorem entries_mk (value : Option V) (branches : List (K × PathTree K V)) :
    entries (mk value branches) =
      value.toList.map (fun v => ([], v)) ++ branchEntries branches := by
  rw [entries]

theorem branchEntries_cons (k : K) (b : PathTree K V) (rest : List (K × PathTree K V)) :
    branchEntries ((k, b) :: rest) =
      (entries b).map (fun entry => (k :: entry.1, entry.2)) ++ branchEntries rest := by
  rw [branchEntries]

mutual

theorem length_entries : forall n : PathTree K V, (entries n).length = valuesSize n
  | mk value branches => by
      unfold entries valuesSize
      rw [List.length_append, List.length_map, length_branchEntries branches]
      cases value with
      | none => exact Nat.add_comm _ _
      | some _ => exact Nat.add_comm _ _

theorem length_branchEntries :
    forall branches : List (K × PathTree K V),
      (branchEntries branches).length = valuesSizes branches
  | [] => rfl
  | (k, b) :: rest => by
      unfold branchEntries valuesSizes
      rw [List.length_append, List.length_map, length_entries b, length_branchEntries rest]

end

theorem mem_branchEntries {branches : List (K × PathTree K V)} {entry : List K × V} :
    entry ∈ branchEntries branches <->
      exists k b rest, (k, b) ∈ branches ∧ entry.1 = k :: rest ∧
        (rest, entry.2) ∈ entries b := by
  induction branches with
  | nil => simp [branchEntries]
  | cons branch branches ih =>
      rcases branch with ⟨l, c⟩
      rw [branchEntries_cons, List.mem_append, ih, List.mem_map]
      constructor
      · rintro (⟨⟨path, v⟩, hmem, rfl⟩ | ⟨k, b, rest, hb, hpath, hmem⟩)
        · exact ⟨l, c, path, List.mem_cons_self, rfl, hmem⟩
        · exact ⟨k, b, rest, List.mem_cons_of_mem _ hb, hpath, hmem⟩
      · rintro ⟨k, b, rest, hb, hpath, hmem⟩
        rcases List.mem_cons.mp hb with heq | htail
        · rcases Prod.mk.inj heq with ⟨rfl, rfl⟩
          exact Or.inl ⟨(rest, entry.2), hmem, Prod.ext hpath.symm rfl⟩
        · exact Or.inr ⟨k, b, rest, htail, hpath, hmem⟩

theorem mem_entries_nil {n : PathTree K V} {v : V} : ([], v) ∈ entries n <-> n.value = some v := by
  cases n with
  | mk value branches =>
      rw [entries_mk, List.mem_append, mem_branchEntries]
      constructor
      · rintro (hmem | ⟨k, b, rest, _hb, hpath, _hmem⟩)
        · rcases List.mem_map.mp hmem with ⟨w, hw, heq⟩
          rw [← (Prod.mk.inj heq).right]
          exact Option.mem_toList.mp hw
        · cases hpath
      · intro hvalue
        have hmem : value = some v := hvalue
        exact Or.inl (List.mem_map.mpr ⟨v, Option.mem_toList.mpr hmem, rfl⟩)

theorem mem_entries_cons {n : PathTree K V} {k : K} {path : List K} {v : V} :
    (k :: path, v) ∈ entries n <-> exists b, (k, b) ∈ n.branches ∧ (path, v) ∈ entries b := by
  cases n with
  | mk value branches =>
      rw [entries_mk, List.mem_append, mem_branchEntries]
      constructor
      · rintro (hmem | ⟨l, b, rest, hb, hpath, hmem⟩)
        · rcases List.mem_map.mp hmem with ⟨w, _hw, heq⟩
          cases (Prod.mk.inj heq).left
        · rcases List.cons.inj hpath with ⟨rfl, rfl⟩
          exact ⟨b, hb, hmem⟩
      · rintro ⟨b, hb, hmem⟩
        exact Or.inr ⟨k, b, path, hb, rfl, hmem⟩

theorem entries_of_isBarren {n : PathTree K V} (h : n.isBarren = true) : entries n = [] := by
  cases n with
  | mk value branches =>
      rcases Bool.and_eq_true_iff.mp h with ⟨hvalue, hbranches⟩
      change value.isNone = true at hvalue
      change branches.isEmpty = true at hbranches
      rw [Option.isNone_iff_eq_none.mp hvalue, List.isEmpty_iff.mp hbranches]
      rfl

namespace Canonical

variable {n b : PathTree K V} {k : K}

theorem keys_nodup (hn : Canonical n) : (n.branches.map Prod.fst).Nodup := by
  cases hn
  assumption

theorem of_mem (hn : Canonical n) (hb : (k, b) ∈ n.branches) : Canonical b := by
  cases hn with
  | mk _ hbelow _ => exact hbelow (k, b) hb

theorem fertile (hn : Canonical n) (hb : (k, b) ∈ n.branches) : b.isBarren = false := by
  cases hn with
  | mk _ _ hfertile => exact hfertile (k, b) hb

theorem empty : Canonical (PathTree.empty : PathTree K V) :=
  Canonical.mk List.nodup_nil (fun _ h => absurd h List.not_mem_nil)
    (fun _ h => absurd h List.not_mem_nil)

theorem entries_nodup (hn : Canonical n) : ((entries n).map Prod.fst).Nodup := by
  induction hn with
  | @mk value branches hkeys _hbelow _hfertile ih =>
      rw [entries_mk, List.map_append, List.nodup_append']
      refine ⟨?_, ?_, ?_⟩
      · cases value with
        | none => exact List.nodup_nil
        | some v => exact List.nodup_singleton _
      · clear _hbelow _hfertile
        induction branches with
        | nil => exact List.nodup_nil
        | cons branch branches ihs =>
            rcases branch with ⟨l, c⟩
            rcases List.nodup_cons.mp hkeys with ⟨hfresh, hrest⟩
            rw [branchEntries_cons, List.map_append, List.nodup_append', List.map_map]
            refine ⟨?_, ihs hrest
              (fun branch hbranch => ih branch (List.mem_cons_of_mem _ hbranch)), ?_⟩
            · have hc := ih (l, c) List.mem_cons_self
              have hmap := hc.map (fun p q h => (List.cons.inj h).right : Function.Injective (List.cons l))
              rw [List.map_map] at hmap
              exact hmap
            · intro path hleft hright
              rcases List.mem_map.mp hleft with ⟨entry, _hentry, rfl⟩
              rcases List.mem_map.mp hright with ⟨entry', hentry', heq⟩
              rcases mem_branchEntries.mp hentry' with ⟨k, b, rest, hb, hpath, _hmem⟩
              rw [hpath] at heq
              rw [← (List.cons.inj heq).left] at hfresh
              exact hfresh (List.mem_map.mpr ⟨(k, b), hb, rfl⟩)
      · intro path hleft hright
        rcases List.mem_map.mp hleft with ⟨entry, hentry, rfl⟩
        rcases List.mem_map.mp hentry with ⟨v, _hv, rfl⟩
        rcases List.mem_map.mp hright with ⟨entry', hentry', heq⟩
        rcases mem_branchEntries.mp hentry' with ⟨k, b, rest, _hb, hpath, _hmem⟩
        rw [hpath] at heq
        cases heq

/-- Every node leads to a value. -/
theorem exists_entry (hn : Canonical n) (hfertile : n.isBarren = false) :
    exists entry, entry ∈ entries n := by
  induction hn with
  | @mk value branches _hkeys _hbelow hbranches ih =>
      cases value with
      | some v => exact ⟨([], v), mem_entries_nil.mpr rfl⟩
      | none =>
          cases branches with
          | nil => cases hfertile
          | cons branch branches =>
              rcases ih branch List.mem_cons_self (hbranches branch List.mem_cons_self) with
                ⟨entry, hentry⟩
              exact ⟨(branch.1 :: entry.1, entry.2),
                mem_entries_cons.mpr ⟨branch.2, List.mem_cons_self, hentry⟩⟩

end Canonical

/-!
## Sifting
-/

section Sifting

variable {keep : V -> Bool} {limit : Nat}

theorem sift_le (removeds : Nat) (n : PathTree K V) : removeds ≤ (sift keep removeds n).2 := by
  unfold sift
  cases n.value with
  | none => exact Nat.le_refl _
  | some v =>
      dsimp only
      split
      · exact Nat.le_refl _
      · exact Nat.le_succ _

mutual

theorem retain_le : forall (n : PathTree K V) (removeds : Nat),
    removeds ≤ (retain keep limit removeds n).2
  | mk value branches, removeds => by
      unfold retain
      split
      · exact Nat.le_refl _
      · exact retainBranches_le branches removeds

theorem retainBranches_le : forall (branches : List (K × PathTree K V)) (removeds : Nat),
    removeds ≤ (retainBranches keep limit removeds branches).2
  | [], removeds => by
      unfold retainBranches
      exact Nat.le_refl _
  | (k, b) :: rest, removeds => by
      unfold retainBranches
      exact Nat.le_trans (retain_le b removeds)
        (Nat.le_trans (sift_le _ _) (retainBranches_le rest _))

end

theorem sift_none (removeds : Nat) (branches : List (K × PathTree K V)) :
    sift keep removeds (mk none branches) = (mk none branches, removeds) :=
  rfl

theorem sift_some (removeds : Nat) (v : V) (branches : List (K × PathTree K V)) :
    sift keep removeds (mk (some v) branches) =
      if keep v then (mk (some v) branches, removeds) else (mk none branches, removeds + 1) :=
  rfl

theorem sift_bound (removeds : Nat) (n : PathTree K V) :
    (sift keep removeds n).2 ≤ removeds + if n.value.isSome then 1 else 0 := by
  rcases n with ⟨value, branches⟩
  cases value with
  | none => exact Nat.le_refl _
  | some v =>
      rw [sift_some]
      split
      · exact Nat.le_succ _
      · exact Nat.le_refl _

theorem retain_value (removeds : Nat) (n : PathTree K V) :
    (retain keep limit removeds n).1.value = n.value := by
  rcases n with ⟨value, branches⟩
  unfold retain
  split
  · rfl
  · rfl

mutual

/-- No more values are counted than there are. -/
theorem retain_bound : forall (n : PathTree K V) (removeds : Nat),
    (retain keep limit removeds n).2 ≤ removeds + valuesSizes n.branches
  | mk value branches, removeds => by
      unfold retain
      split
      · exact Nat.le_add_right _ _
      · exact retainBranches_bound branches removeds

theorem retainBranches_bound : forall (branches : List (K × PathTree K V)) (removeds : Nat),
    (retainBranches keep limit removeds branches).2 ≤ removeds + valuesSizes branches
  | [], removeds => by
      unfold retainBranches
      exact Nat.le_add_right _ _
  | (k, b) :: rest, removeds => by
      unfold retainBranches valuesSizes
      dsimp only
      have hbelow := retain_bound b removeds
      have hsift := @sift_bound K V keep (retain keep limit removeds b).2
        (retain keep limit removeds b).1
      have hrest := retainBranches_bound rest
        (sift keep (retain keep limit removeds b).2 (retain keep limit removeds b).1).2
      rw [retain_value] at hsift
      have hsize : valuesSize b = valuesSizes b.branches + if b.value.isSome then 1 else 0 := by
        rcases b with ⟨value, branches⟩
        unfold valuesSize
        rfl
      omega

end

/-- What is left and counted when the values below a node were sifted before. -/
theorem sift_spec {n m : PathTree K V} {removeds counted : Nat} (hvalue : m.value = n.value)
    (hentries : branchEntries m.branches =
      (branchEntries n.branches).filter (fun e => keep e.2))
    (hcount : counted + (branchEntries m.branches).length =
      removeds + (branchEntries n.branches).length) :
    entries (sift keep counted m).1 = (entries n).filter (fun e => keep e.2) ∧
      (sift keep counted m).2 + (entries (sift keep counted m).1).length =
        removeds + (entries n).length := by
  rcases n with ⟨value, branches⟩
  rcases m with ⟨value', branches'⟩
  change value' = value at hvalue
  change branchEntries branches' = (branchEntries branches).filter (fun e => keep e.2) at hentries
  change counted + (branchEntries branches').length =
    removeds + (branchEntries branches).length at hcount
  rw [hvalue]
  cases value with
  | none =>
      rw [sift_none, entries_mk]
      exact ⟨hentries, hcount⟩
  | some v =>
      rw [sift_some]
      cases hkeep : keep v with
      | true =>
          rw [if_pos rfl]
          dsimp only
          rw [entries_mk, entries_mk, List.filter_append, ← hentries, List.length_append,
            List.length_append]
          refine ⟨?_, ?_⟩
          · show _ = List.filter _ [([], v)] ++ _
            rw [List.filter_cons_of_pos (by simpa using hkeep)]
            rfl
          · show counted + (1 + _) = removeds + (1 + _)
            omega
      | false =>
          rw [if_neg Bool.false_ne_true]
          dsimp only
          rw [entries_mk, entries_mk, List.filter_append, ← hentries, List.length_append,
            List.length_append]
          refine ⟨?_, ?_⟩
          · show branchEntries branches' = List.filter _ [([], v)] ++ _
            rw [List.filter_cons_of_neg (by simpa using hkeep)]
            rfl
          · show counted + 1 + (0 + _) = removeds + (1 + _)
            omega

theorem map_cons_filter (k : K) (es : List (List K × V)) :
    (es.filter (fun e => keep e.2)).map (fun e => (k :: e.1, e.2)) =
      (es.map (fun e => (k :: e.1, e.2))).filter (fun e => keep e.2) := by
  rw [List.filter_map]
  rfl

mutual

theorem retain_spec : forall (n : PathTree K V) (removeds : Nat),
    (retain keep limit removeds n).2 < limit ->
      (retain keep limit removeds n).1.value = n.value ∧
        branchEntries (retain keep limit removeds n).1.branches =
          (branchEntries n.branches).filter (fun e => keep e.2) ∧
        (retain keep limit removeds n).2 +
            (branchEntries (retain keep limit removeds n).1.branches).length =
          removeds + (branchEntries n.branches).length
  | mk value branches, removeds => by
      intro hlimit
      have hle : removeds < limit := Nat.lt_of_le_of_lt (retain_le (mk value branches) removeds) hlimit
      unfold retain at hlimit ⊢
      rw [if_neg (Nat.not_le.mpr hle)] at hlimit ⊢
      exact ⟨rfl, retainBranches_spec branches removeds hlimit⟩

theorem retainBranches_spec : forall (branches : List (K × PathTree K V)) (removeds : Nat),
    (retainBranches keep limit removeds branches).2 < limit ->
      branchEntries (retainBranches keep limit removeds branches).1 =
          (branchEntries branches).filter (fun e => keep e.2) ∧
        (retainBranches keep limit removeds branches).2 +
            (branchEntries (retainBranches keep limit removeds branches).1).length =
          removeds + (branchEntries branches).length
  | [], removeds => by
      intro _
      unfold retainBranches
      exact ⟨rfl, rfl⟩
  | (k, b) :: rest, removeds => by
      intro hlimit
      unfold retainBranches at hlimit ⊢
      dsimp only at hlimit ⊢
      have hsift := Nat.lt_of_le_of_lt (retainBranches_le rest _) hlimit
      have hbelow := Nat.lt_of_le_of_lt (sift_le _ _) hsift
      rcases retain_spec b removeds hbelow with ⟨hvalue, hentries, hcount⟩
      rcases sift_spec hvalue hentries hcount with ⟨hkept, hcounted⟩
      rcases retainBranches_spec rest _ hlimit with ⟨hlater, hnumber⟩
      generalize sift keep (retain keep limit removeds b).2 (retain keep limit removeds b).1 =
        sifted at hkept hcounted hlater hnumber hlimit ⊢
      have hfiltered : branchEntries (if sifted.1.isBarren = true then
            (retainBranches keep limit sifted.2 rest).1
          else (k, sifted.1) :: (retainBranches keep limit sifted.2 rest).1) =
          (entries sifted.1).map (fun e => (k :: e.1, e.2)) ++
            branchEntries (retainBranches keep limit sifted.2 rest).1 := by
        cases hbarren : sifted.1.isBarren with
        | true =>
            rw [if_pos rfl, entries_of_isBarren hbarren]
            rfl
        | false => rw [if_neg Bool.false_ne_true, branchEntries_cons]
      rw [hfiltered, branchEntries_cons, List.filter_append, hlater, hkept, map_cons_filter]
      refine ⟨rfl, ?_⟩
      rw [hlater] at hnumber
      rw [hkept] at hcounted
      rw [List.length_append, List.length_append, ← map_cons_filter, List.length_map,
        List.length_map]
      omega

end

theorem Canonical.sift {n : PathTree K V} (hn : Canonical n) (removeds : Nat) :
    Canonical (n.sift keep removeds).1 := by
  cases hn with
  | @mk value branches hkeys hbelow hfertile =>
      unfold PathTree.sift
      cases value with
      | none => exact Canonical.mk hkeys hbelow hfertile
      | some v =>
          dsimp only [PathTree.value]
          split
          · exact Canonical.mk hkeys hbelow hfertile
          · exact Canonical.mk hkeys hbelow hfertile

mutual

theorem Canonical.retain : forall (n : PathTree K V) (removeds : Nat), Canonical n ->
    Canonical (n.retain keep limit removeds).1
  | PathTree.mk value branches, removeds => by
      intro hn
      unfold PathTree.retain
      split
      · exact hn
      · cases hn with
        | mk hkeys hbelow hfertile =>
            have hkept := Canonical.retainBranches branches removeds hbelow
            refine Canonical.mk (hkeys.sublist hkept.left) ?_ ?_
            · intro branch hbranch
              exact (hkept.right branch hbranch).left
            · intro branch hbranch
              exact (hkept.right branch hbranch).right

theorem Canonical.retainBranches : forall (branches : List (K × PathTree K V)) (removeds : Nat),
    (forall branch, branch ∈ branches -> Canonical branch.2) ->
      List.Sublist ((PathTree.retainBranches keep limit removeds branches).1.map Prod.fst)
          (branches.map Prod.fst) ∧
        forall branch, branch ∈ (PathTree.retainBranches keep limit removeds branches).1 ->
          Canonical branch.2 ∧ branch.2.isBarren = false
  | [], removeds => by
      intro _
      unfold PathTree.retainBranches
      exact ⟨List.Sublist.refl _, fun branch hbranch => absurd hbranch List.not_mem_nil⟩
  | (k, b) :: rest, removeds => by
      intro hbelow
      unfold PathTree.retainBranches
      dsimp only
      have hb := Canonical.retain b removeds (hbelow (k, b) List.mem_cons_self)
      have hsifted := @Canonical.sift K V keep _ hb (PathTree.retain keep limit removeds b).2
      generalize PathTree.sift keep (PathTree.retain keep limit removeds b).2
        (PathTree.retain keep limit removeds b).1 = sifted at hsifted ⊢
      have hrest := Canonical.retainBranches rest sifted.2
        (fun branch hbranch => hbelow branch (List.mem_cons_of_mem _ hbranch))
      cases hbarren : sifted.1.isBarren with
      | true =>
          rw [if_pos rfl]
          exact ⟨hrest.left.cons k, hrest.right⟩
      | false =>
          rw [if_neg Bool.false_ne_true]
          refine ⟨hrest.left.cons_cons k, ?_⟩
          intro branch hbranch
          rcases List.mem_cons.mp hbranch with rfl | hlater
          · exact ⟨hsifted, hbarren⟩
          · exact hrest.right branch hlater

end

end Sifting

/-!
## Entering and taking out
-/

section Updates

variable [DecidableEq K] {n b : PathTree K V} {k k' : K}

theorem lookup_filter_ne {branches : List (K × PathTree K V)} (hne : k' ≠ k) :
    (branches.filter (fun branch => branch.1 != k)).lookup k' = branches.lookup k' := by
  induction branches with
  | nil => rfl
  | cons branch branches ih =>
      rcases branch with ⟨l, c⟩
      by_cases hl : l = k
      · rw [List.filter_cons_of_neg (by simp [hl]), ih, List.lookup_cons, hl,
          beq_false_of_ne hne]
      · rw [List.filter_cons_of_pos (by simp [hl]), List.lookup_cons, List.lookup_cons, ih]

theorem child_setChild (n b : PathTree K V) (k k' : K) :
    (n.setChild k b).child k' = if k' = k then some b else n.child k' := by
  show List.lookup k' ((k, b) :: _) = _
  rw [List.lookup_cons]
  by_cases h : k' = k
  · rw [if_pos h, h, beq_self_eq_true]
  · rw [if_neg h, beq_false_of_ne h]
    exact lookup_filter_ne h

theorem child_dropChild (n : PathTree K V) (k k' : K) :
    (n.dropChild k).child k' = if k' = k then none else n.child k' := by
  show List.lookup k' (n.branches.filter _) = _
  by_cases h : k' = k
  · rw [if_pos h, h, List.lookup_eq_none_iff]
    intro branch hbranch
    have hne : branch.1 ≠ k := bne_iff_ne.mp (List.mem_filter.mp hbranch).right
    exact bne_iff_ne.mpr hne.symm
  · rw [if_neg h]
    exact lookup_filter_ne h

theorem mem_of_child (h : n.child k = some b) : (k, b) ∈ n.branches := by
  unfold child at h
  generalize n.branches = branches at h
  induction branches with
  | nil => cases h
  | cons branch branches ih =>
      rcases branch with ⟨l, c⟩
      rw [List.lookup_cons] at h
      by_cases hl : k = l
      · rw [hl, beq_self_eq_true] at h
        rw [hl, Option.some.inj h]
        exact List.mem_cons_self
      · rw [beq_false_of_ne hl] at h
        exact List.mem_cons_of_mem _ (ih h)

theorem Canonical.child_of_mem (hn : Canonical n) (h : (k, b) ∈ n.branches) :
    n.child k = some b := by
  have hkeys := hn.keys_nodup
  unfold child
  generalize n.branches = branches at h hkeys
  induction branches with
  | nil => cases h
  | cons branch branches ih =>
      rcases branch with ⟨l, c⟩
      rcases List.nodup_cons.mp hkeys with ⟨hfresh, hrest⟩
      rw [List.lookup_cons]
      rcases List.mem_cons.mp h with heq | htail
      · rcases Prod.mk.inj heq with ⟨rfl, rfl⟩
        rw [beq_self_eq_true]
      · have hne : k ≠ l := by
          intro hl
          exact hfresh (List.mem_map.mpr ⟨(k, b), htail, hl⟩)
        rw [beq_false_of_ne hne]
        exact ih htail hrest

theorem find?_cons (k : K) (path : List K) (n : PathTree K V) :
    find? (k :: path) n = (n.child k).bind (find? path) :=
  rfl

theorem find?_empty (path : List K) : find? path (empty : PathTree K V) = none := by
  cases path <;> rfl

theorem find?_of_isBarren (h : n.isBarren = true) (path : List K) : find? path n = none := by
  cases n with
  | mk value branches =>
      rcases Bool.and_eq_true_iff.mp h with ⟨hvalue, hbranches⟩
      change value.isNone = true at hvalue
      change branches.isEmpty = true at hbranches
      rw [Option.isNone_iff_eq_none.mp hvalue, List.isEmpty_iff.mp hbranches]
      exact find?_empty path

theorem find?_getD_child (n : PathTree K V) (k : K) (path : List K) :
    find? path ((n.child k).getD empty) = find? (k :: path) n := by
  rw [find?_cons]
  cases n.child k with
  | none => exact find?_empty path
  | some b => rfl

/-- The listing of a canonical tree is what is found in it. -/
theorem Canonical.mem_entries (hn : Canonical n) {path : List K} {v : V} :
    (path, v) ∈ entries n <-> find? path n = some v := by
  induction path generalizing n with
  | nil => exact mem_entries_nil
  | cons k path ih =>
      rw [mem_entries_cons, find?_cons, Option.bind_eq_some_iff]
      constructor
      · rintro ⟨b, hb, hmem⟩
        exact ⟨b, hn.child_of_mem hb, (ih (hn.of_mem hb)).mp hmem⟩
      · rintro ⟨b, hb, hfind⟩
        have hmem := mem_of_child hb
        exact ⟨b, hmem, (ih (hn.of_mem hmem)).mpr hfind⟩

theorem find?_insert (v : V) (path path' : List K) (n : PathTree K V) :
    find? path' (insert v path n) = if path' = path then some v else find? path' n := by
  induction path generalizing n path' with
  | nil =>
      cases path' with
      | nil => rfl
      | cons k' path' =>
          rw [if_neg (List.cons_ne_nil _ _)]
          rfl
  | cons k path ih =>
      cases path' with
      | nil =>
          rw [if_neg (List.cons_ne_nil _ _).symm]
          rfl
      | cons k' path' =>
          rw [find?_cons]
          show ((n.setChild k (insert v path ((n.child k).getD empty))).child k').bind _ = _
          rw [child_setChild]
          by_cases hk : k' = k
          · rw [if_pos hk, hk]
            show find? path' _ = _
            rw [ih, find?_getD_child]
            by_cases hpath : path' = path
            · rw [if_pos hpath, if_pos (by rw [hpath])]
            · rw [if_neg hpath, if_neg (fun h => hpath (List.cons.inj h).right)]
          · rw [if_neg hk, if_neg (fun h => hk (List.cons.inj h).left)]
            rfl

theorem remove_answer (path : List K) (n : PathTree K V) : (n.remove path).2 = find? path n := by
  induction path generalizing n with
  | nil => rfl
  | cons k path ih =>
      unfold remove
      rw [find?_cons]
      cases n.child k with
      | none => rfl
      | some b => exact ih b

theorem find?_remove (path path' : List K) (n : PathTree K V) :
    find? path' (n.remove path).1 = if path' = path then none else find? path' n := by
  induction path generalizing n path' with
  | nil =>
      cases path' with
      | nil => rfl
      | cons k' path' =>
          rw [if_neg (List.cons_ne_nil _ _)]
          rfl
  | cons k path ih =>
      unfold remove
      cases hb : n.child k with
      | none =>
          dsimp only
          split
          · rw [‹path' = _›, find?_cons, hb]
            rfl
          · rfl
      | some b =>
          dsimp only
          cases path' with
          | nil =>
              rw [if_neg (List.cons_ne_nil _ _).symm]
              split
              · rfl
              · rfl
          | cons k' path' =>
              by_cases hk : k' = k
              · have hbelow : find? (k' :: path') (if (b.remove path).1.isBarren = true then
                    n.dropChild k else n.setChild k (b.remove path).1) =
                      find? path' (b.remove path).1 := by
                  rw [find?_cons, hk]
                  cases hbarren : (b.remove path).1.isBarren with
                  | true =>
                      rw [if_pos rfl, child_dropChild, if_pos rfl, find?_of_isBarren hbarren]
                      rfl
                  | false =>
                      rw [if_neg Bool.false_ne_true, child_setChild, if_pos rfl]
                      rfl
                rw [hbelow, ih, hk, find?_cons, hb]
                by_cases hpath : path' = path
                · rw [if_pos hpath, if_pos (by rw [hpath])]
                · rw [if_neg hpath, if_neg (fun h => hpath (List.cons.inj h).right)]
                  rfl
              · have hother : (if (b.remove path).1.isBarren = true then n.dropChild k
                    else n.setChild k (b.remove path).1).child k' = n.child k' := by
                  split
                  · rw [child_dropChild, if_neg hk]
                  · rw [child_setChild, if_neg hk]
                rw [find?_cons, hother, if_neg (fun h => hk (List.cons.inj h).left)]
                rfl

namespace Canonical

theorem dropChild (hn : Canonical n) (k : K) : Canonical (n.dropChild k) := by
  cases hn with
  | @mk value branches hkeys hbelow hfertile =>
      refine Canonical.mk (hkeys.sublist (List.filter_sublist.map Prod.fst)) ?_ ?_
      · intro branch hbranch
        exact hbelow branch (List.mem_filter.mp hbranch).left
      · intro branch hbranch
        exact hfertile branch (List.mem_filter.mp hbranch).left

theorem setChild (hn : Canonical n) (k : K) (hb : Canonical b) (hfertile : b.isBarren = false) :
    Canonical (n.setChild k b) := by
  have hrest := hn.dropChild k
  unfold PathTree.dropChild at hrest
  cases hrest with
  | mk hkeys hbelow hfertile' =>
      refine Canonical.mk ?_ (List.forall_mem_cons.mpr ⟨hb, hbelow⟩)
        (List.forall_mem_cons.mpr ⟨hfertile, hfertile'⟩)
      rw [List.map_cons, List.nodup_cons]
      refine ⟨?_, hkeys⟩
      intro hmem
      rcases List.mem_map.mp hmem with ⟨branch, hbranch, heq⟩
      exact bne_iff_ne.mp (List.mem_filter.mp hbranch).right heq

theorem of_child (hn : Canonical n) (hb : n.child k = some b) : Canonical b :=
  hn.of_mem (mem_of_child hb)

theorem getD_child (hn : Canonical n) (k : K) :
    Canonical ((n.child k).getD PathTree.empty) := by
  cases hb : n.child k with
  | none => exact Canonical.empty
  | some b => exact hn.of_child hb

theorem insert (hn : Canonical n) (v : V) (path : List K) :
    Canonical (n.insert v path) ∧ (n.insert v path).isBarren = false := by
  induction path generalizing n with
  | nil =>
      cases hn with
      | mk hkeys hbelow hfertile => exact ⟨Canonical.mk hkeys hbelow hfertile, rfl⟩
  | cons k path ih =>
      have hb := ih (hn.getD_child k)
      refine ⟨hn.setChild k hb.left hb.right, ?_⟩
      show (n.value.isNone && false) = false
      rw [Bool.and_false]

theorem remove (hn : Canonical n) (path : List K) : Canonical (n.remove path).1 := by
  induction path generalizing n with
  | nil =>
      cases hn with
      | mk hkeys hbelow hfertile => exact Canonical.mk hkeys hbelow hfertile
  | cons k path ih =>
      unfold PathTree.remove
      cases hb : n.child k with
      | none => exact hn
      | some b =>
          dsimp only
          cases hbarren : (b.remove path).1.isBarren with
          | true => exact hn.dropChild k
          | false => exact hn.setChild k (ih (hn.of_child hb)) hbarren

/-!
The paths that hold a value.
-/

theorem mem_paths (hn : Canonical n) {path : List K} :
    path ∈ ((entries n).map Prod.fst).toFinset <-> (find? path n).isSome = true := by
  rw [List.mem_toFinset, List.mem_map, Option.isSome_iff_exists]
  constructor
  · rintro ⟨entry, hentry, rfl⟩
    exact ⟨entry.2, hn.mem_entries.mp hentry⟩
  · rintro ⟨v, hv⟩
    exact ⟨(path, v), hn.mem_entries.mpr hv, rfl⟩

theorem card_paths (hn : Canonical n) :
    ((entries n).map Prod.fst).toFinset.card = valuesSize n := by
  rw [List.toFinset_card_of_nodup hn.entries_nodup, List.length_map, length_entries]

theorem valuesSize_insert (hn : Canonical n) (v : V) (path : List K) :
    (n.insert v path).valuesSize =
      n.valuesSize + if (find? path n).isSome then 0 else 1 := by
  have hpaths : ((entries (n.insert v path)).map Prod.fst).toFinset =
      Insert.insert path ((entries n).map Prod.fst).toFinset := by
    ext q
    rw [(hn.insert v path).left.mem_paths, Finset.mem_insert, hn.mem_paths, find?_insert]
    by_cases hq : q = path
    · rw [if_pos hq]
      exact ⟨fun _ => Or.inl hq, fun _ => rfl⟩
    · rw [if_neg hq, or_iff_right hq]
  rw [← (hn.insert v path).left.card_paths, hpaths, ← hn.card_paths]
  cases hfind : (find? path n).isSome with
  | true =>
      rw [Finset.insert_eq_of_mem (hn.mem_paths.mpr hfind)]
      rfl
  | false =>
      rw [Finset.card_insert_of_notMem]
      · rfl
      · rw [hn.mem_paths, hfind]
        exact Bool.false_ne_true

theorem valuesSize_remove (hn : Canonical n) (path : List K) :
    (n.remove path).1.valuesSize + (if (find? path n).isSome then 1 else 0) = n.valuesSize := by
  have hpaths : ((entries (n.remove path).1).map Prod.fst).toFinset =
      (((entries n).map Prod.fst).toFinset).erase path := by
    ext q
    rw [(hn.remove path).mem_paths, Finset.mem_erase, hn.mem_paths, find?_remove]
    by_cases hq : q = path
    · rw [if_pos hq]
      constructor
      · intro h
        cases h
      · intro h
        exact absurd hq h.left
    · rw [if_neg hq, and_iff_right hq]
  rw [← (hn.remove path).card_paths, hpaths, ← hn.card_paths]
  cases hfind : (find? path n).isSome with
  | true => exact Finset.card_erase_add_one (hn.mem_paths.mpr hfind)
  | false =>
      rw [Finset.erase_eq_of_notMem]
      · rfl
      · rw [hn.mem_paths, hfind]
        exact Bool.false_ne_true

end Canonical

/-- Sifting keeps the values below the root that pass the test, and counts the others. -/
theorem Canonical.retain_exact {keep : V -> Bool} {limit : Nat} (hn : Canonical n)
    (hsize : n.valuesSize < limit) :
    Canonical (n.retain keep limit 0).1 ∧
      (n.retain keep limit 0).1.valuesSize + (n.retain keep limit 0).2 = n.valuesSize ∧
      forall k path, find? (k :: path) (n.retain keep limit 0).1 =
        (find? (k :: path) n).filter keep := by
  have hcanonical := @Canonical.retain K V keep limit n 0 hn
  have hsizes : forall m : PathTree K V,
      m.valuesSize = (branchEntries m.branches).length + if m.value.isSome then 1 else 0 := by
    rintro ⟨value, branches⟩
    rw [length_branchEntries]
    unfold valuesSize
    rfl
  have hlimit : (n.retain keep limit 0).2 < limit := by
    have hbound := @retain_bound K V keep limit n 0
    rw [← length_branchEntries] at hbound
    have hall := hsizes n
    omega
  rcases retain_spec n 0 hlimit with ⟨hvalue, hentries, hcount⟩
  refine ⟨hcanonical, ?_, ?_⟩
  · rw [hsizes, hsizes n, hvalue]
    omega
  · intro k path
    have hmem : forall m : PathTree K V, forall v,
        (k :: path, v) ∈ entries m <-> (k :: path, v) ∈ branchEntries m.branches := by
      rintro m v
      rw [mem_entries_cons, mem_branchEntries]
      constructor
      · rintro ⟨c, hc, hv⟩
        exact ⟨k, c, path, hc, rfl, hv⟩
      · rintro ⟨l, c, rest, hc, hpath, hv⟩
        rcases List.cons.inj hpath with ⟨rfl, rfl⟩
        exact ⟨c, hc, hv⟩
    apply Option.ext
    intro v
    rw [← hcanonical.mem_entries, hmem, hentries, List.mem_filter, ← hmem, hn.mem_entries,
      Option.filter_eq_some_iff]

end Updates

end PathTree

end Foundation
end Ciqada
