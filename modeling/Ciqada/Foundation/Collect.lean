import Mathlib.Data.List.Forall2

/-!
# Collecting results over a list

Two ways to run a partial function over a list: stop at the first failure, or
skip the failures.  The two give the same answers exactly when both functions
answer alike on every element.
-/

namespace Ciqada
namespace Foundation

universe u v w

variable {A : Type u} {B C : Type v} {E : Type w}

section Collect

variable {f : A -> Except E B} {xs : List A} {ys : List B}

theorem mapM_cons_ok_iff {x : A} :
    (x :: xs).mapM f = Except.ok ys <->
      exists y rest, f x = Except.ok y ∧ xs.mapM f = Except.ok rest ∧ ys = y :: rest := by
  rw [List.mapM_cons]
  cases hx : f x with
  | error e => simp [bind, Except.bind]
  | ok y =>
      cases hrest : xs.mapM f with
      | error e => simp [bind, Except.bind]
      | ok rest => simp [bind, Except.bind, pure, Except.pure, eq_comm]

/-- A run without failure is a run that answers element by element. -/
theorem mapM_ok_iff : xs.mapM f = Except.ok ys <->
    List.Forall₂ (fun x y => f x = Except.ok y) xs ys := by
  induction xs generalizing ys with
  | nil => simp [pure, Except.pure, eq_comm]
  | cons x xs ih =>
      rw [mapM_cons_ok_iff, List.forall₂_cons_left_iff]
      constructor
      · intro h
        rcases h with ⟨y, rest, hx, hrest, heq⟩
        exact ⟨y, rest, hx, ih.mp hrest, heq⟩
      · intro h
        rcases h with ⟨y, rest, hx, hrest, heq⟩
        exact ⟨y, rest, hx, ih.mpr hrest, heq⟩

theorem exists_mapM_ok_iff :
    (exists ys, xs.mapM f = Except.ok ys) <-> forall x, x ∈ xs -> exists y, f x = Except.ok y := by
  induction xs with
  | nil => simp [pure, Except.pure]
  | cons x xs ih =>
      rw [List.forall_mem_cons, ← ih]
      constructor
      · intro h
        rcases h with ⟨ys, hrun⟩
        rcases mapM_cons_ok_iff.mp hrun with ⟨y, rest, hx, hrest, _⟩
        exact ⟨⟨y, hx⟩, rest, hrest⟩
      · intro h
        rcases h with ⟨⟨y, hx⟩, rest, hrest⟩
        exact ⟨y :: rest, mapM_cons_ok_iff.mpr ⟨y, rest, hx, hrest, rfl⟩⟩

theorem exists_of_mem_mapM (h : xs.mapM f = Except.ok ys) {y : B} (hy : y ∈ ys) :
    exists x, x ∈ xs ∧ f x = Except.ok y := by
  induction xs generalizing ys with
  | nil =>
      rw [mapM_ok_iff, List.forall₂_nil_left_iff] at h
      rw [h] at hy
      cases hy
  | cons x xs ih =>
      rcases mapM_cons_ok_iff.mp h with ⟨y', rest, hx, hrest, heq⟩
      rw [heq] at hy
      rcases List.mem_cons.mp hy with hhead | htail
      · exact ⟨x, List.mem_cons_self, by rw [hx, hhead]⟩
      · rcases ih hrest htail with ⟨x', hx', hf⟩
        exact ⟨x', List.mem_cons_of_mem x hx', hf⟩

/--
Skipping the failures keeps one answer per element only if there are none, so
both runs agree exactly when they agree on every element.
-/
theorem mapM_eq_filterMap_iff {g : A -> Option C} {k : B -> C} :
    (exists ys, xs.mapM f = Except.ok ys ∧ ys.map k = xs.filterMap g) <->
      forall x, x ∈ xs -> exists y, f x = Except.ok y ∧ g x = some (k y) := by
  induction xs with
  | nil => simp [pure, Except.pure]
  | cons x xs ih =>
      rw [List.forall_mem_cons, ← ih]
      constructor
      · intro h
        rcases h with ⟨ys, hrun, heq⟩
        rcases mapM_cons_ok_iff.mp hrun with ⟨y, rest, hx, hrest, hys⟩
        rw [hys, List.map_cons] at heq
        cases hg : g x with
        | none =>
            -- A skipped element leaves fewer answers than elements.
            rw [List.filterMap_cons_none hg] at heq
            have hlen := congrArg List.length heq
            have hle := List.length_filterMap_le g xs
            have hsame := (mapM_ok_iff.mp hrest).length_eq
            simp only [List.length_cons, List.length_map] at hlen
            omega
        | some c =>
            rw [List.filterMap_cons_some hg, List.cons.injEq] at heq
            exact ⟨⟨y, hx, by rw [heq.left]⟩, rest, hrest, heq.right⟩
      · intro h
        rcases h with ⟨⟨y, hx, hg⟩, rest, hrest, heq⟩
        refine ⟨y :: rest, mapM_cons_ok_iff.mpr ⟨y, rest, hx, hrest, rfl⟩, ?_⟩
        rw [List.filterMap_cons_some hg, List.map_cons, heq]

end Collect

end Foundation
end Ciqada
