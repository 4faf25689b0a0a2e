import Mathlib.Data.List.Infix

/-!
# Trimming the front of a list

Elements are dropped from the front until what is left is acceptable.  The rest
is the longest acceptable suffix, so what was dropped is the shortest prefix
that had to go.
-/

namespace Ciqada
namespace Foundation

universe u

variable {A : Type u}

/-- What is left when the front is dropped until the rest is acceptable. -/
def trim (ok : List A -> Prop) [DecidablePred ok] : List A -> List A
  | [] => []
  | x :: xs => if ok (x :: xs) then x :: xs else trim ok xs

section Trim

variable {ok : List A -> Prop} [DecidablePred ok] {xs ys : List A}

theorem trim_of_ok (h : ok xs) : trim ok xs = xs := by
  cases xs with
  | nil => rfl
  | cons x xs => exact if_pos h

theorem trim_cons_of_not {x : A} (h : ¬ ok (x :: xs)) : trim ok (x :: xs) = trim ok xs :=
  if_neg h

/-- Induction over the rounds: stop at an acceptable list, or drop its first element. -/
theorem trim_induction {P : List A -> Prop} (hnil : P []) (hstop : forall xs, ok xs -> P xs)
    (hdrop : forall x xs, ¬ ok (x :: xs) -> P xs -> P (x :: xs)) (xs : List A) : P xs := by
  induction xs with
  | nil => exact hnil
  | cons x xs ih =>
      by_cases h : ok (x :: xs)
      · exact hstop (x :: xs) h
      · exact hdrop x xs h ih

theorem trim_suffix (ok : List A -> Prop) [DecidablePred ok] (xs : List A) :
    trim ok xs <:+ xs := by
  induction xs using @trim_induction A ok with
  | hnil => exact List.suffix_refl []
  | hstop xs h => rw [trim_of_ok h]
  | hdrop x xs h ih =>
      rw [trim_cons_of_not h]
      exact ih.trans (List.suffix_cons x xs)

theorem ok_trim (hnil : ok []) (xs : List A) : ok (trim ok xs) := by
  induction xs using @trim_induction A ok with
  | hnil => exact hnil
  | hstop xs h =>
      rw [trim_of_ok h]
      exact h
  | hdrop x xs h ih =>
      rw [trim_cons_of_not h]
      exact ih

/-- Every acceptable suffix is part of what is left. -/
theorem suffix_trim_of_ok (hsuffix : ys <:+ xs) (hok : ok ys) : ys <:+ trim ok xs := by
  induction xs using @trim_induction A ok with
  | hnil => exact hsuffix
  | hstop xs h =>
      rw [trim_of_ok h]
      exact hsuffix
  | hdrop x xs h ih =>
      rw [trim_cons_of_not h]
      rcases List.suffix_cons_iff.mp hsuffix with heq | htail
      · rw [heq] at hok
        exact absurd hok h
      · exact ih htail

/-- Only what is acceptable among the suffixes matters. -/
theorem trim_congr {ok' : List A -> Prop} [DecidablePred ok']
    (h : forall ys, ys <:+ xs -> (ok ys <-> ok' ys)) : trim ok xs = trim ok' xs := by
  induction xs using @trim_induction A ok with
  | hnil => rfl
  | hstop xs hok => rw [trim_of_ok hok, trim_of_ok ((h xs (List.suffix_refl xs)).mp hok)]
  | hdrop x xs hok ih =>
      have hok' : ¬ ok' (x :: xs) := fun hx => hok ((h _ (List.suffix_refl _)).mpr hx)
      rw [trim_cons_of_not hok, trim_cons_of_not hok']
      apply ih
      intro ys hys
      exact h ys (hys.trans (List.suffix_cons x xs))

end Trim

end Foundation
end Ciqada
