import Mathlib.Data.Finset.Basic

/-!
# Turns

Exchanges of several keys are opened and closed in turn.  A log of turns says which
exchanges are open; a set that follows the log has exactly these, and if only keys
outside the set are opened, no exchange is opened twice without being closed.
-/

namespace Ciqada
namespace Foundation

universe u

inductive Turn (Key : Type u) where
  | opened (k : Key)
  | closed (k : Key)
  deriving DecidableEq

namespace Turn

variable {Key : Type u} {log : List (Turn Key)} {k k' : Key}

/-- The keys that are opened, in order. -/
def openings (log : List (Turn Key)) : List Key :=
  log.filterMap (fun turn =>
    match turn with
    | opened k => some k
    | closed _ => none)

/-- The exchange of a key has been opened and not closed since. -/
def Open (log : List (Turn Key)) (k : Key) : Prop :=
  exists pre post, log = pre ++ opened k :: post ∧ closed k ∉ post

/-- Between two openings of a key it is closed. -/
def Alternates (log : List (Turn Key)) : Prop :=
  forall k pre mid post, log = pre ++ opened k :: (mid ++ opened k :: post) -> closed k ∈ mid

/-- A list that ends in an element is split before the element or somewhere before. -/
theorem append_cons_eq_snoc {α : Type*} {pre post xs : List α} {x y : α}
    (h : xs ++ [y] = pre ++ x :: post) :
    (post = [] ∧ x = y ∧ pre = xs) ∨ exists rest, post = rest ++ [y] ∧ xs = pre ++ x :: rest := by
  rcases List.eq_nil_or_concat post with rfl | ⟨rest, last, rfl⟩
  · have hsame := List.append_inj' h rfl
    exact Or.inl ⟨rfl, (List.cons.inj hsame.right).left.symm, hsame.left.symm⟩
  · rw [List.concat_eq_append, ← List.cons_append, ← List.append_assoc] at h
    rw [List.concat_eq_append]
    have hsame := List.append_inj' h rfl
    rw [(List.cons.inj hsame.right).left]
    exact Or.inr ⟨rest, rfl, hsame.left⟩

theorem open_snoc_opened : Open (log ++ [opened k]) k' <-> k' = k ∨ Open log k' := by
  constructor
  · rintro ⟨pre, post, heq, hpost⟩
    rcases append_cons_eq_snoc heq with ⟨_, hlast, _⟩ | ⟨rest, rfl, hlog⟩
    · exact Or.inl (opened.inj hlast)
    · exact Or.inr ⟨pre, rest, hlog, fun h => hpost (List.mem_append_left _ h)⟩
  · rintro (rfl | ⟨pre, post, rfl, hpost⟩)
    · exact ⟨log, [], rfl, List.not_mem_nil⟩
    · refine ⟨pre, post ++ [opened k], List.append_assoc pre _ _, ?_⟩
      intro h
      rcases List.mem_append.mp h with hin | hlast
      · exact hpost hin
      · cases List.mem_singleton.mp hlast

theorem open_snoc_closed : Open (log ++ [closed k]) k' <-> k' ≠ k ∧ Open log k' := by
  constructor
  · rintro ⟨pre, post, heq, hpost⟩
    rcases append_cons_eq_snoc heq with ⟨_, hlast, _⟩ | ⟨rest, rfl, hlog⟩
    · cases hlast
    · refine ⟨?_, pre, rest, hlog, fun h => hpost (List.mem_append_left _ h)⟩
      rintro rfl
      exact hpost (List.mem_append_right _ List.mem_cons_self)
  · rintro ⟨hne, pre, post, rfl, hpost⟩
    refine ⟨pre, post ++ [closed k], List.append_assoc pre _ _, ?_⟩
    intro h
    rcases List.mem_append.mp h with hin | hlast
    · exact hpost hin
    · exact hne (closed.inj (List.mem_singleton.mp hlast))

theorem Alternates.snoc_closed (h : Alternates log) (k : Key) : Alternates (log ++ [closed k]) := by
  intro k' pre mid post heq
  rcases append_cons_eq_snoc heq with ⟨hnil, _, _⟩ | ⟨rest, hrest, hlog⟩
  · exact absurd hnil (by simp)
  · rcases append_cons_eq_snoc hrest.symm with ⟨_, hlast, _⟩ | ⟨rest', _, rfl⟩
    · cases hlast
    · exact h k' pre mid rest' hlog

theorem Alternates.snoc_opened (h : Alternates log) (hk : ¬ Open log k) :
    Alternates (log ++ [opened k]) := by
  intro k' pre mid post heq
  rcases append_cons_eq_snoc heq with ⟨hnil, _, _⟩ | ⟨rest, hrest, hlog⟩
  · exact absurd hnil (by simp)
  · rcases append_cons_eq_snoc hrest.symm with ⟨_, hlast, rfl⟩ | ⟨rest', _, rfl⟩
    · by_contra hmid
      rw [opened.inj hlast] at hlog hmid
      exact hk ⟨pre, mid, hlog, hmid⟩
    · exact h k' pre mid rest' hlog

/-- A set that has the open exchanges of a log, none of which was opened twice. -/
structure Tracks (log : List (Turn Key)) (keys : Finset Key) : Prop where
  mem_iff : forall k, k ∈ keys <-> Open log k
  alternates : Alternates log

variable {keys : Finset Key}

theorem tracks_nil : Tracks ([] : List (Turn Key)) ∅ := by
  constructor
  case mem_iff =>
    intro k
    constructor
    · intro h
      exact absurd h (Finset.notMem_empty k)
    · rintro ⟨pre, post, heq, _⟩
      exact absurd heq (by simp)
  case alternates =>
    intro k pre mid post heq
    exact absurd heq (by simp)

variable [DecidableEq Key]

theorem Tracks.opened (h : Tracks log keys) (hk : k ∉ keys) :
    Tracks (log ++ [Turn.opened k]) (insert k keys) := by
  constructor
  case mem_iff =>
    intro k'
    rw [Finset.mem_insert, open_snoc_opened, h.mem_iff]
  case alternates => exact h.alternates.snoc_opened (fun hopen => hk ((h.mem_iff k).mpr hopen))

theorem Tracks.closed (h : Tracks log keys) (k : Key) :
    Tracks (log ++ [Turn.closed k]) (keys.erase k) := by
  constructor
  case mem_iff =>
    intro k'
    rw [Finset.mem_erase, open_snoc_closed, h.mem_iff]
  case alternates => exact h.alternates.snoc_closed k

end Turn

end Foundation
end Ciqada
