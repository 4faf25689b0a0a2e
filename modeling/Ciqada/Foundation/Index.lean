import Mathlib.Data.Finset.Basic
import Ciqada.Foundation.Table

/-!
# Inverted indexes

An index holds for each key the set of entries that carry it, and no empty set.
Entries are added and dropped one by one.
-/

namespace Ciqada
namespace Foundation

universe u v

/-- The entries of each key. -/
abbrev Index (Key : Type u) (Entry : Type v) : Type (max u v) :=
  Table Key (Finset Entry)

namespace Index

variable {Key : Type u} {Entry : Type v} [DecidableEq Key]

def entriesOf (i : Index Key Entry) (k : Key) : Finset Entry :=
  (i.lookup k).getD ∅

/-- No key is kept without an entry. -/
def NoEmpty (i : Index Key Entry) : Prop :=
  forall k xs, i.lookup k = some xs -> xs.Nonempty

/-- An index without empty sets is determined by its entries. -/
theorem ext_of_noEmpty {i j : Index Key Entry} (hi : NoEmpty i) (hj : NoEmpty j)
    (h : forall k x, x ∈ entriesOf i k <-> x ∈ entriesOf j k) : i = j := by
  have hentries : forall k, entriesOf i k = entriesOf j k := by
    intro k
    ext x
    exact h k x
  apply Finmap.ext_lookup
  intro k
  have hk := hentries k
  unfold entriesOf at hk
  cases hik : i.lookup k with
  | none =>
      cases hjk : j.lookup k with
      | none => rfl
      | some ys =>
          rw [hik, hjk] at hk
          exact absurd hk.symm (Finset.nonempty_iff_ne_empty.mp (hj k ys hjk))
  | some xs =>
      cases hjk : j.lookup k with
      | none =>
          rw [hik, hjk] at hk
          exact absurd hk (Finset.nonempty_iff_ne_empty.mp (hi k xs hik))
      | some ys =>
          rw [hik, hjk] at hk
          exact congrArg some hk

/-!
## Adding and dropping entries
-/

variable [DecidableEq Entry]

def add (i : Index Key Entry) (k : Key) (x : Entry) : Index Key Entry :=
  i.insert k (insert x (entriesOf i k))

/-- Drop an entry, and its key when no other entry carries it. -/
def drop (i : Index Key Entry) (k : Key) (x : Entry) : Index Key Entry :=
  match i.lookup k with
  | some xs => if xs.erase x = ∅ then i.erase k else i.insert k (xs.erase x)
  | none => i

theorem mem_add {i : Index Key Entry} {k k' : Key} {x y : Entry} :
    y ∈ entriesOf (add i k x) k' <-> (k' = k ∧ y = x) ∨ y ∈ entriesOf i k' := by
  unfold add
  by_cases hk : k' = k
  · have hentries : entriesOf (i.insert k (insert x (entriesOf i k))) k' =
        insert x (entriesOf i k) := by
      unfold entriesOf
      rw [hk, Finmap.lookup_insert]
      rfl
    rw [hentries, Finset.mem_insert, hk]
    simp
  · have hentries : entriesOf (i.insert k (insert x (entriesOf i k))) k' = entriesOf i k' := by
      unfold entriesOf
      rw [Finmap.lookup_insert_of_ne i hk]
    rw [hentries]
    simp [hk]

theorem noEmpty_add {i : Index Key Entry} (hi : NoEmpty i) (k : Key) (x : Entry) :
    NoEmpty (add i k x) := by
  intro k' xs h
  unfold add at h
  rw [Table.lookup_insert_if] at h
  split at h
  · rw [← Option.some.inj h]
    exact Finset.insert_nonempty x _
  · exact hi k' xs h

theorem entriesOf_drop_self (i : Index Key Entry) (k : Key) (x : Entry) :
    entriesOf (drop i k x) k = (entriesOf i k).erase x := by
  unfold drop
  cases hlookup : i.lookup k with
  | none =>
      have hempty : entriesOf i k = ∅ := by
        unfold entriesOf
        rw [hlookup]
        rfl
      dsimp only
      rw [hempty]
      rfl
  | some xs =>
      have hentries : entriesOf i k = xs := by
        unfold entriesOf
        rw [hlookup]
        rfl
      dsimp only
      rw [hentries]
      split
      · rename_i hempty
        unfold entriesOf
        rw [Finmap.lookup_erase, hempty]
        rfl
      · unfold entriesOf
        rw [Finmap.lookup_insert]
        rfl

theorem lookup_drop_of_ne (i : Index Key Entry) {k k' : Key} (hk : k' ≠ k) (x : Entry) :
    (drop i k x).lookup k' = i.lookup k' := by
  unfold drop
  split
  · split
    · exact Finmap.lookup_erase_ne hk
    · exact Finmap.lookup_insert_of_ne i hk
  · rfl

theorem mem_drop {i : Index Key Entry} {k k' : Key} {x y : Entry} :
    y ∈ entriesOf (drop i k x) k' <-> ¬ (k' = k ∧ y = x) ∧ y ∈ entriesOf i k' := by
  by_cases hk : k' = k
  · rw [hk, entriesOf_drop_self, Finset.mem_erase]
    simp
  · have hentries : entriesOf (drop i k x) k' = entriesOf i k' := by
      unfold entriesOf
      rw [lookup_drop_of_ne i hk]
    rw [hentries]
    simp [hk]

theorem noEmpty_drop {i : Index Key Entry} (hi : NoEmpty i) (k : Key) (x : Entry) :
    NoEmpty (drop i k x) := by
  intro k' xs h
  by_cases hk : k' = k
  · rw [hk] at h
    unfold drop at h
    split at h
    · rename_i ys _hys
      split at h
      · rw [Finmap.lookup_erase] at h
        cases h
      · rename_i hne
        rw [Finmap.lookup_insert] at h
        rw [← Option.some.inj h]
        exact Finset.nonempty_iff_ne_empty.mpr hne
    · exact hi k xs h
  · rw [lookup_drop_of_ne i hk] at h
    exact hi k' xs h

end Index

end Foundation
end Ciqada
