import Ciqada.Mqtt.Levels

/-!
# Topic matching of the message store

Stored messages are replayed by comparing topic and filter segment by segment.
-/

namespace Ciqada
namespace Store

open Mqtt

/-- The matching loop over the segments of the filter and of the topic. -/
def matchSegments : List String -> List String -> Bool
  | [], [] => true
  | [], _ :: _ => false
  | f :: fs, ts =>
      if f = "#" then true
      else
        match ts with
        | [] => false
        | t :: ts => if f = "+" ∨ f = t then matchSegments fs ts else false

def topicMatches (topic filter : String) : Bool :=
  matchSegments (levels filter) (levels topic)

def hasWildcard (filter : String) : Bool :=
  filter.toList.any (fun c => c == '+' || c == '#')

/-!
## Filters without wildcards
-/

/-- Segments without wildcards match only themselves. -/
theorem matchSegments_literal {fs ts : List String}
    (hliteral : forall f, f ∈ fs -> f ≠ "+" ∧ f ≠ "#") :
    matchSegments fs ts = true <-> ts = fs := by
  induction fs generalizing ts with
  | nil =>
      cases ts with
      | nil => simp [matchSegments]
      | cons t ts => simp [matchSegments]
  | cons f fs ih =>
      rcases hliteral f List.mem_cons_self with ⟨hplus, hhash⟩
      cases ts with
      | nil => simp [matchSegments, hhash]
      | cons t ts =>
          unfold matchSegments
          rw [if_neg hhash]
          dsimp only
          rw [List.cons_eq_cons]
          by_cases heq : f = t
          · rw [if_pos (Or.inr heq), ih (fun g hg => hliteral g (List.mem_cons_of_mem f hg))]
            simp [heq]
          · rw [if_neg (by simp [hplus, heq])]
            simp [Ne.symm heq]

/-- The exact lookup and the matcher agree on filters without wildcards. -/
theorem topicMatches_of_literal {topic filter : String} (h : hasWildcard filter = false) :
    topicMatches topic filter = true <-> topic = filter := by
  have hliteral : forall f, f ∈ levels filter -> f ≠ "+" ∧ f ≠ "#" := by
    intro f hf
    exact ne_wildcard_of_literal (hasWildcardChar_level h hf)
  unfold topicMatches
  rw [matchSegments_literal hliteral]
  constructor
  · intro heq
    exact levels_injective heq
  · intro heq
    rw [heq]

end Store
end Ciqada
