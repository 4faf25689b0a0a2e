import Mathlib.Algebra.BigOperators.Group.Finset.Basic
import Mathlib.Algebra.Order.BigOperators.Group.Finset
import Mathlib.Algebra.Ring.Nat
import Mathlib.Data.List.Sort
import Ciqada.Foundation.Table

/-!
# Rows of a table

Writing and erasing lists of rows, reading a table row by row in key order, and
the total weight of the rows.
-/

namespace Ciqada
namespace Foundation

universe u v

/-!
## Finite sets in order
-/

/-- The elements of a finite set in increasing order, by a sort that evaluates. -/
def ascending {Id : Type} [LinearOrder Id] (s : Finset Id) : List Id :=
  Quot.liftOn s.val (fun xs => xs.insertionSort (fun a b => a ≤ b)) (by
    intro xs ys hperm
    have hsorted : (xs.insertionSort (fun a b => a ≤ b)).Perm
        (ys.insertionSort (fun a b => a ≤ b)) :=
      ((List.perm_insertionSort _ xs).trans hperm).trans (List.perm_insertionSort _ ys).symm
    exact hsorted.eq_of_pairwise' (List.pairwise_insertionSort _ xs)
      (List.pairwise_insertionSort _ ys))

section Ascending

variable {Id : Type} [LinearOrder Id] {s : Finset Id}

theorem coe_ascending (s : Finset Id) : (ascending s : Multiset Id) = s.val := by
  unfold ascending
  induction s.val using Quot.inductionOn with
  | h xs => exact Multiset.coe_eq_coe.mpr (List.perm_insertionSort _ xs)

theorem mem_ascending {x : Id} : x ∈ ascending s <-> x ∈ s := by
  rw [← Multiset.mem_coe, coe_ascending, Finset.mem_val]

theorem nodup_ascending (s : Finset Id) : (ascending s).Nodup := by
  rw [← Multiset.coe_nodup, coe_ascending]
  exact s.nodup

end Ascending

namespace Table

variable {Key : Type u} {Row : Type v} [DecidableEq Key]

/-!
## Writing and erasing lists
-/

/-- Write rows given with their keys, one after another. -/
def writeRows (t : Table Key Row) (rows : List (Key × Row)) : Table Key Row :=
  rows.foldl (fun acc row => acc.insert row.1 row.2) t

theorem lookup_writeRows_of_not_mem {rows : List (Key × Row)} {k : Key}
    (t : Table Key Row) (hk : k ∉ rows.map Prod.fst) :
    (writeRows t rows).lookup k = t.lookup k := by
  induction rows generalizing t with
  | nil => rfl
  | cons row rows ih =>
      rw [List.map_cons, List.mem_cons, not_or] at hk
      show (writeRows (t.insert row.1 row.2) rows).lookup k = t.lookup k
      rw [ih _ hk.right, lookup_insert_if, if_neg hk.left]

theorem lookup_writeRows_of_mem {rows : List (Key × Row)} {k : Key} {row : Row}
    (t : Table Key Row) (hnodup : (rows.map Prod.fst).Nodup) (hrow : (k, row) ∈ rows) :
    (writeRows t rows).lookup k = some row := by
  induction rows generalizing t with
  | nil => cases hrow
  | cons first rows ih =>
      rw [List.map_cons, List.nodup_cons] at hnodup
      show (writeRows (t.insert first.1 first.2) rows).lookup k = some row
      rcases List.mem_cons.mp hrow with heq | htail
      · rw [← heq] at hnodup ⊢
        rw [lookup_writeRows_of_not_mem _ hnodup.left, lookup_insert_if, if_pos rfl]
      · exact ih _ hnodup.right htail

def eraseKeys (t : Table Key Row) (ks : List Key) : Table Key Row :=
  ks.foldl (fun acc k => acc.erase k) t

theorem lookup_eraseKeys (t : Table Key Row) (ks : List Key) (k : Key) :
    (eraseKeys t ks).lookup k = if k ∈ ks then none else t.lookup k := by
  induction ks generalizing t with
  | nil => rfl
  | cons first ks ih =>
      show (eraseKeys (t.erase first) ks).lookup k = _
      rw [ih, lookup_erase_if]
      by_cases htail : k ∈ ks
      · rw [if_pos htail, if_pos (List.mem_cons_of_mem first htail)]
      · rw [if_neg htail]
        by_cases hfirst : k = first
        · rw [if_pos hfirst, if_pos (by rw [hfirst]; exact List.mem_cons_self)]
        · rw [if_neg hfirst, if_neg]
          intro hmem
          rcases List.mem_cons.mp hmem with heq | hin
          · exact hfirst heq
          · exact htail hin

/-!
## Reading a table row by row
-/

/-- The rows in key order. -/
def rows {Id : Type} [LinearOrder Id] (t : Table Id Row) : List (Id × Row) :=
  (ascending t.keys).filterMap (fun k => (t.lookup k).map (fun row => (k, row)))

section Rows

variable {Id : Type} [LinearOrder Id] {t : Table Id Row}

theorem mem_rows {k : Id} {row : Row} : (k, row) ∈ rows t <-> t.lookup k = some row := by
  unfold rows
  rw [List.mem_filterMap]
  constructor
  · rintro ⟨k', _hk', hrow⟩
    rcases Option.map_eq_some_iff.mp hrow with ⟨row', hlookup, heq⟩
    rw [← (Prod.mk.inj heq).left, ← (Prod.mk.inj heq).right]
    exact hlookup
  · intro hlookup
    refine ⟨k, ?_, ?_⟩
    · rw [mem_ascending, Finmap.mem_keys]
      exact Finmap.mem_of_lookup_eq_some hlookup
    · rw [hlookup]
      rfl

theorem nodup_rows : ((rows t).map Prod.fst).Nodup := by
  unfold rows
  rw [List.map_filterMap]
  refine List.Nodup.filterMap ?_ (nodup_ascending t.keys)
  intro a a' b hb hb'
  simp only [Option.mem_def, Option.map_map, Option.map_eq_some_iff, Function.comp_apply]
    at hb hb'
  rcases hb with ⟨_, _, heq⟩
  rcases hb' with ⟨_, _, heq'⟩
  rw [heq, heq']

end Rows

/-!
## The weight of a table
-/

/-- The weight of one key: that of its row, or nothing. -/
def weight (size : Row -> Nat) (t : Table Key Row) (k : Key) : Nat :=
  (t.lookup k).elim 0 size

/-- The weights of all rows together. -/
def total (size : Row -> Nat) (t : Table Key Row) : Nat :=
  ∑ k ∈ t.keys, weight size t k

section Total

variable {size : Row -> Nat} {t t' : Table Key Row}

theorem weight_of_lookup {k : Key} {row : Row} (h : t.lookup k = some row) :
    weight size t k = size row := by
  unfold weight
  rw [h]
  rfl

/-- The keys of a table, listed without repetition, give its size and weight. -/
theorem total_of_list {ks : List Key} (hnodup : ks.Nodup) (hks : forall k, k ∈ ks <-> k ∈ t) :
    t.keys.card = ks.length ∧ total size t = (ks.map (weight size t)).sum := by
  have hkeys : t.keys = ks.toFinset := by
    ext k
    rw [Finmap.mem_keys, List.mem_toFinset, hks]
  unfold total
  rw [hkeys, List.toFinset_card_of_nodup hnodup, List.sum_toFinset _ hnodup]
  exact ⟨rfl, rfl⟩

/-- A table that keeps only some of the rows weighs no more. -/
theorem total_le_of_sub (hsub : forall k row, t'.lookup k = some row -> t.lookup k = some row) :
    total size t' ≤ total size t := by
  have hkeys : t'.keys ⊆ t.keys := by
    intro k hk
    rcases Finmap.mem_iff.mp (Finmap.mem_keys.mp hk) with ⟨row, hrow⟩
    exact Finmap.mem_keys.mpr (Finmap.mem_of_lookup_eq_some (hsub k row hrow))
  have hweights : total size t' = ∑ k ∈ t'.keys, weight size t k := by
    apply Finset.sum_congr rfl
    intro k hk
    rcases Finmap.mem_iff.mp (Finmap.mem_keys.mp hk) with ⟨row, hrow⟩
    rw [weight_of_lookup hrow, weight_of_lookup (hsub k row hrow)]
  rw [hweights]
  exact Finset.sum_le_sum_of_subset hkeys

theorem total_erase {k : Key} {row : Row} (h : t.lookup k = some row) :
    total size (t.erase k) + size row = total size t := by
  have hmem : k ∈ t.keys := Finmap.mem_keys.mpr (Finmap.mem_of_lookup_eq_some h)
  have hrest : total size (t.erase k) = ∑ x ∈ t.keys.erase k, weight size t x := by
    unfold total
    rw [Finmap.keys_erase]
    apply Finset.sum_congr rfl
    intro x hx
    unfold weight
    rw [lookup_erase_if, if_neg (Finset.ne_of_mem_erase hx)]
  have hweight : weight size t k = size row := weight_of_lookup h
  rw [hrest, ← hweight]
  exact Finset.sum_erase_add _ _ hmem

theorem erase_insert_of_not_mem {k : Key} (row : Row) (h : k ∉ t) :
    (t.insert k row).erase k = t := by
  apply Finmap.ext_lookup
  intro k'
  rw [lookup_erase_if, lookup_insert_if]
  by_cases hk : k' = k
  · rw [if_pos hk, hk, Finmap.lookup_eq_none.mpr h]
  · rw [if_neg hk, if_neg hk]

theorem total_insert {k : Key} (row : Row) (h : k ∉ t) :
    total size (t.insert k row) = total size t + size row := by
  have hback := @total_erase _ _ _ size (t.insert k row) k row (Finmap.lookup_insert t)
  rw [erase_insert_of_not_mem row h] at hback
  exact hback.symm

theorem erase_insert (k : Key) (row : Row) : (t.insert k row).erase k = t.erase k := by
  apply Finmap.ext_lookup
  intro k'
  rw [lookup_erase_if, lookup_erase_if, lookup_insert_if]
  by_cases hk : k' = k
  · rw [if_pos hk, if_pos hk]
  · rw [if_neg hk, if_neg hk, if_neg hk]

/-- Replacing a row exchanges its weight. -/
theorem total_replace {k : Key} {old : Row} (row : Row) (h : t.lookup k = some old) :
    total size (t.insert k row) + size old = total size t + size row := by
  have hnew := @total_erase _ _ _ size (t.insert k row) k row (Finmap.lookup_insert t)
  have hold := @total_erase _ _ _ size t k old h
  rw [erase_insert] at hnew
  omega

end Total

end Table

end Foundation
end Ciqada
