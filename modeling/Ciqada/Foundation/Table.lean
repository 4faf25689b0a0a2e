import Mathlib.Data.Finmap

/-!
# Tables

A table is a finite map from keys to rows.  This module states how inserting,
erasing and writing a list of rows act on a lookup, which is all the
development uses to compare tables.
-/

namespace Ciqada
namespace Foundation

universe u v

/-- A finite table of rows by key. -/
abbrev Table (Key : Type u) (Row : Type v) : Type (max u v) :=
  Finmap (fun _ : Key => Row)

namespace Table

variable {Key : Type u} {Row : Type v} [DecidableEq Key]

theorem lookup_insert_if (t : Table Key Row) (k k' : Key) (row : Row) :
    (t.insert k row).lookup k' = if k' = k then some row else t.lookup k' := by
  by_cases hk : k' = k
  · subst hk
    simp
  · rw [Finmap.lookup_insert_of_ne t hk, if_neg hk]

theorem lookup_erase_if (t : Table Key Row) (k k' : Key) :
    (t.erase k).lookup k' = if k' = k then none else t.lookup k' := by
  by_cases hk : k' = k
  · subst hk
    simp
  · rw [Finmap.lookup_erase_ne hk, if_neg hk]

/-- Write the rows of a list one after another under their own keys. -/
def insertAll (key : Row -> Key) (t : Table Key Row) (rows : List Row) :
    Table Key Row :=
  rows.foldl (fun acc row => acc.insert (key row) row) t

@[simp] theorem insertAll_nil (key : Row -> Key) (t : Table Key Row) :
    insertAll key t [] = t := rfl

@[simp] theorem insertAll_cons (key : Row -> Key) (t : Table Key Row)
    (row : Row) (rows : List Row) :
    insertAll key t (row :: rows) = insertAll key (t.insert (key row) row) rows :=
  rfl

/-- A key that no row of the list carries keeps its row. -/
theorem lookup_insertAll_of_not_mem {key : Row -> Key} {rows : List Row} {k : Key}
    (t : Table Key Row) (hk : forall row, row ∈ rows -> key row ≠ k) :
    (insertAll key t rows).lookup k = t.lookup k := by
  induction rows generalizing t with
  | nil => rfl
  | cons row rows ih =>
      rw [insertAll_cons, ih (t.insert (key row) row)
        (fun r hr => hk r (List.mem_cons_of_mem row hr)), lookup_insert_if,
        if_neg (fun h => hk row List.mem_cons_self h.symm)]

/--
A key that some row carries ends with a row of the list: the last one written
under it.
-/
theorem lookup_insertAll_of_mem {key : Row -> Key} {rows : List Row} {k : Key}
    (t : Table Key Row) (hk : exists row, row ∈ rows ∧ key row = k) :
    exists row, row ∈ rows ∧ key row = k ∧
      (insertAll key t rows).lookup k = some row := by
  induction rows generalizing t with
  | nil =>
      rcases hk with ⟨row, hrow, _⟩
      cases hrow
  | cons row rows ih =>
      rw [insertAll_cons]
      by_cases hlater : exists r, r ∈ rows ∧ key r = k
      · rcases ih (t.insert (key row) row) hlater with ⟨r, hr, hrk, hlookup⟩
        exact ⟨r, List.mem_cons_of_mem row hr, hrk, hlookup⟩
      · have hrow : key row = k := by
          rcases hk with ⟨r, hr, hrk⟩
          rcases List.mem_cons.mp hr with heq | htail
          · rw [← heq]
            exact hrk
          · exact absurd ⟨r, htail, hrk⟩ hlater
        refine ⟨row, List.mem_cons_self, hrow, ?_⟩
        rw [lookup_insertAll_of_not_mem _ (fun r hr hrk => hlater ⟨r, hr, hrk⟩),
          lookup_insert_if, if_pos hrow.symm]

/-- Either the list leaves the key alone or it decides its row. -/
theorem lookup_insertAll_cases (key : Row -> Key) (t : Table Key Row)
    (rows : List Row) (k : Key) :
    (insertAll key t rows).lookup k = t.lookup k ∨
      exists row, row ∈ rows ∧ key row = k ∧
        (insertAll key t rows).lookup k = some row := by
  by_cases hk : exists row, row ∈ rows ∧ key row = k
  · exact Or.inr (lookup_insertAll_of_mem t hk)
  · exact Or.inl (lookup_insertAll_of_not_mem t
      (fun row hrow hrk => hk ⟨row, hrow, hrk⟩))

/-!
## Rows stored under their own key
-/

/-- Every row lies under the key it carries. -/
def Keyed (key : Row -> Key) (t : Table Key Row) : Prop :=
  forall k row, t.lookup k = some row -> key row = k

theorem keyed_empty (key : Row -> Key) : Keyed key (∅ : Table Key Row) := by
  intro k row h
  rw [Finmap.lookup_empty] at h
  cases h

theorem keyed_insert {key : Row -> Key} {t : Table Key Row} (ht : Keyed key t) (row : Row) :
    Keyed key (t.insert (key row) row) := by
  intro k row' h
  rw [lookup_insert_if] at h
  by_cases hk : k = key row
  · rw [if_pos hk] at h
    rw [← Option.some.inj h, hk]
  · rw [if_neg hk] at h
    exact ht k row' h

theorem keyed_erase {key : Row -> Key} {t : Table Key Row} (ht : Keyed key t) (k : Key) :
    Keyed key (t.erase k) := by
  intro k' row h
  rw [lookup_erase_if] at h
  by_cases hk : k' = k
  · rw [if_pos hk] at h
    cases h
  · rw [if_neg hk] at h
    exact ht k' row h

theorem keyed_insertAll {key : Row -> Key} {t : Table Key Row} (ht : Keyed key t)
    (rows : List Row) : Keyed key (insertAll key t rows) := by
  induction rows generalizing t with
  | nil => exact ht
  | cons row rows ih => exact ih (keyed_insert ht row)

end Table

end Foundation
end Ciqada
