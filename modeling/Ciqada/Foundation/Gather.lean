import Ciqada.Foundation.Rows

/-!
# Sizes of tables and ways through them

The number of rows follows insertions and erasures, members of a list are worked
into the rows of their keys, and going through a table visits every row once, in
an order that the table does not fix.
-/

namespace Ciqada
namespace Foundation

universe u v

namespace Table

variable {Key : Type u} {Row : Type v} [DecidableEq Key]

def size (t : Table Key Row) : Nat :=
  t.keys.card

theorem mem_iff_lookup {t : Table Key Row} {k : Key} :
    k ∈ t <-> exists row, t.lookup k = some row := by
  rw [← Finmap.lookup_isSome, Option.isSome_iff_exists]

theorem keys_insert (t : Table Key Row) (k : Key) (row : Row) :
    (t.insert k row).keys = insert k t.keys := by
  ext k'
  rw [Finmap.mem_keys, Finmap.mem_insert, Finset.mem_insert, Finmap.mem_keys]

theorem size_insert_of_mem {t : Table Key Row} {k : Key} (hk : k ∈ t) (row : Row) :
    size (t.insert k row) = size t := by
  unfold size
  rw [keys_insert, Finset.insert_eq_of_mem (Finmap.mem_keys.mpr hk)]

theorem size_insert_of_not_mem {t : Table Key Row} {k : Key} (hk : k ∉ t) (row : Row) :
    size (t.insert k row) = size t + 1 := by
  unfold size
  rw [keys_insert, Finset.card_insert_of_notMem (fun h => hk (Finmap.mem_keys.mp h))]

theorem size_erase_of_mem {t : Table Key Row} {k : Key} (hk : k ∈ t) :
    size (t.erase k) + 1 = size t := by
  unfold size
  rw [Finmap.keys_erase]
  exact Finset.card_erase_add_one (Finmap.mem_keys.mpr hk)

theorem size_eq_zero {t : Table Key Row} : size t = 0 <-> forall k, t.lookup k = none := by
  unfold size
  rw [Finset.card_eq_zero, Finset.eq_empty_iff_forall_notMem]
  constructor
  · intro h k
    rw [Finmap.lookup_eq_none]
    exact fun hk => h k (Finmap.mem_keys.mpr hk)
  · intro h k hk
    exact Finmap.lookup_eq_none.mp (h k) (Finmap.mem_keys.mp hk)

/-- Inserting a row replaces the weight its key had. -/
theorem total_insert_weight (w : Row -> Nat) (t : Table Key Row) (k : Key) (row : Row) :
    total w (t.insert k row) + weight w t k = total w t + w row := by
  cases h : t.lookup k with
  | none =>
      have hweight : weight w t k = 0 := by
        unfold weight
        rw [h]
        rfl
      rw [hweight, total_insert row (Finmap.lookup_eq_none.mp h), Nat.add_zero]
  | some old => rw [weight_of_lookup h, total_replace row h]

/-!
## Gathering rows
-/

/-- Work the members of a list into the rows of their keys, one after another. -/
def gather {Item : Type*} (key : Item -> Key) (add : Option Row -> Item -> Row)
    (t : Table Key Row) (xs : List Item) : Table Key Row :=
  xs.foldl (fun t x => t.insert (key x) (add (t.lookup (key x)) x)) t

/-- A row has seen the members with its key, in their order. -/
theorem lookup_gather {Item : Type*} (key : Item -> Key) (add : Option Row -> Item -> Row)
    (t : Table Key Row) (xs : List Item) (k : Key) :
    (gather key add t xs).lookup k =
      (xs.filter (fun x => key x = k)).foldl (fun row x => some (add row x)) (t.lookup k) := by
  induction xs generalizing t with
  | nil => rfl
  | cons x xs ih =>
      show (gather key add (t.insert (key x) (add (t.lookup (key x)) x)) xs).lookup k = _
      rw [ih, lookup_insert_if]
      by_cases hk : key x = k
      · rw [if_pos hk.symm, List.filter_cons_of_pos (by simpa using hk), List.foldl_cons, hk]
      · rw [if_neg (fun h => hk h.symm), List.filter_cons_of_neg (by simpa using hk)]

theorem lookup_gather_isSome {Item : Type*} (key : Item -> Key)
    (add : Option Row -> Item -> Row) (xs : List Item) (k : Key) :
    ((gather key add ∅ xs).lookup k).isSome = true <-> exists x, x ∈ xs ∧ key x = k := by
  have hsome : forall (ys : List Item) (row : Option Row),
      (ys.foldl (fun row x => some (add row x)) row).isSome = true <->
        row.isSome = true ∨ ys ≠ [] := by
    intro ys
    induction ys with
    | nil => simp
    | cons y ys ih =>
        intro row
        rw [List.foldl_cons, ih]
        simp
  rw [lookup_gather, hsome, Finmap.lookup_empty]
  constructor
  · rintro (hfalse | hne)
    · cases hfalse
    · rcases List.exists_mem_of_ne_nil _ hne with ⟨x, hx⟩
      rcases List.mem_filter.mp hx with ⟨hmem, hkey⟩
      exact ⟨x, hmem, of_decide_eq_true hkey⟩
  · rintro ⟨x, hmem, hkey⟩
    exact Or.inr (List.ne_nil_of_mem (List.mem_filter.mpr ⟨hmem, decide_eq_true hkey⟩))

/-- Folding from an absent row starts from the empty one. -/
theorem foldl_getD {Item : Type*} (empty : Row) (add : Row -> Item -> Row) (xs : List Item)
    (row : Option Row) :
    xs.foldl (fun row x => some (add (row.getD empty) x)) row =
      if xs = [] then row else some (xs.foldl add (row.getD empty)) := by
  induction xs generalizing row with
  | nil => rfl
  | cons x xs ih =>
      rw [List.foldl_cons, ih, if_neg (List.cons_ne_nil x xs)]
      by_cases hxs : xs = []
      · rw [if_pos hxs, hxs]
        rfl
      · rw [if_neg hxs]
        rfl

end Table

/-- Where a key does not repeat, it picks out one member. -/
theorem filter_key_eq {Item : Type u} {Key : Type v} [DecidableEq Key] {key : Item -> Key}
    {xs : List Item} (hkeys : (xs.map key).Nodup) {x : Item} (hx : x ∈ xs) :
    xs.filter (fun y => key y = key x) = [x] := by
  induction xs with
  | nil => cases hx
  | cons y ys ih =>
      rcases List.nodup_cons.mp hkeys with ⟨hfresh, hrest⟩
      rcases List.mem_cons.mp hx with heq | htail
      · rw [heq, List.filter_cons_of_pos (by simp), List.filter_eq_nil_iff.mpr]
        intro z hz hkey
        exact hfresh (List.mem_map.mpr ⟨z, hz, of_decide_eq_true hkey⟩)
      · rw [List.filter_cons_of_neg, ih hrest htail]
        intro hkey
        exact hfresh (List.mem_map.mpr ⟨x, htail, (of_decide_eq_true hkey).symm⟩)

/-- A way through the tables of a type. -/
structure Enumeration (Key : Type u) (Row : Type v) [DecidableEq Key] where
  list : Table Key Row -> List (Key × Row)
  mem_list : forall (t : Table Key Row) (k : Key) (row : Row),
    (k, row) ∈ list t <-> t.lookup k = some row
  keys_nodup : forall t : Table Key Row, ((list t).map Prod.fst).Nodup

namespace Enumeration

variable {Key : Type u} {Row : Type v} [DecidableEq Key]

theorem nodup (e : Enumeration Key Row) (t : Table Key Row) : (e.list t).Nodup :=
  (e.keys_nodup t).of_map

/-- A table is what its listing writes. -/
theorem writeRows (e : Enumeration Key Row) (t : Table Key Row) :
    Table.writeRows ∅ (e.list t) = t := by
  apply Finmap.ext_lookup
  intro k
  cases hk : t.lookup k with
  | none =>
      rw [Table.lookup_writeRows_of_not_mem, Finmap.lookup_empty]
      intro hmem
      rcases List.mem_map.mp hmem with ⟨⟨k', row⟩, hrow, rfl⟩
      rw [(e.mem_list t k' row).mp hrow] at hk
      cases hk
  | some row =>
      exact Table.lookup_writeRows_of_mem ∅ (e.keys_nodup t) ((e.mem_list t k row).mpr hk)

theorem mem_rows_of {Id : Type} [LinearOrder Id] (d : DecidableEq Id) (t : Table Id Row)
    (k : Id) (row : Row) : (k, row) ∈ Table.rows t <-> t.lookup k = some row := by
  have hd : d = LinearOrder.toDecidableEq := Subsingleton.elim _ _
  subst hd
  exact Table.mem_rows

/-- The rows in key order. -/
def inOrder {Id : Type} [DecidableEq Id] [LinearOrder Id] : Enumeration Id Row :=
  { list := Table.rows
    mem_list := mem_rows_of _
    keys_nodup := fun _ => Table.nodup_rows }

end Enumeration

end Foundation
end Ciqada
