import Mathlib.Data.List.Infix
import Mathlib.Tactic.Common

/-!
# MQTT topic levels and filters

Topic names and topic filters are texts cut into levels at the slash.  This
module states the MQTT reading of them: which texts are filters, and which
topic names a filter matches.
-/

namespace Ciqada
namespace Mqtt

/-- The levels of a topic name or filter, cut at every slash. -/
def levels (s : String) : List String :=
  (s.toList.splitOn '/').map String.ofList

/-- The level belongs to the reserved name space of the server. -/
def isMetadata (level : String) : Bool :=
  level.toList.head? == some '$'

/-- The level contains a wildcard character. -/
def hasWildcardChar (level : String) : Bool :=
  level.toList.any (fun c => c == '+' || c == '#')

/-- A wildcard stands alone in its level. -/
def levelWellFormed (level : String) : Bool :=
  level == "+" || level == "#" || !hasWildcardChar level

/-- The levels form a filter: wildcards stand alone and the hash comes last. -/
def filterWellFormed : List String -> Bool
  | [] => false
  | [level] => levelWellFormed level
  | level :: rest => level != "#" && levelWellFormed level && filterWellFormed rest

/-- A text that MQTT accepts as a topic filter. -/
def ValidFilter (f : String) : Prop :=
  f ≠ "" ∧ filterWellFormed (levels f) = true

/-- A text that MQTT accepts as a topic name. -/
def ValidTopic (t : String) : Prop :=
  t ≠ "" ∧ hasWildcardChar t = false

/-- Level by level matching of filter levels against topic levels. -/
def matchLevels : List String -> List String -> Bool
  | [], [] => true
  | [], _ :: _ => false
  | f :: fs, ts =>
      if f = "#" then fs.isEmpty
      else
        match ts with
        | [] => false
        | t :: ts => (f == "+" || f == t) && matchLevels fs ts

/--
The MQTT matching rule: levels are matched one by one, and a filter that starts
with a wildcard does not match a topic in the reserved name space.
-/
def filterMatches (f t : String) : Bool :=
  let wildcardFirst := match levels f with
    | first :: _ => first == "+" || first == "#"
    | [] => false
  let reserved := match levels t with
    | first :: _ => isMetadata first
    | [] => false
  !(wildcardFirst && reserved) && matchLevels (levels f) (levels t)

/-!
## Cutting and joining
-/

theorem toList_append_slash (s t : String) :
    (s ++ "/" ++ t).toList = s.toList ++ '/' :: t.toList := by
  have hslash : "/".toList = ['/'] := by decide
  simp [String.toList_append, hslash]

theorem levels_append_slash (s t : String) :
    levels (s ++ "/" ++ t) = levels s ++ levels t := by
  unfold levels
  rw [toList_append_slash, List.splitOn_append_cons_self, List.map_append]

/-- The number of cuts in a text. -/
def slashes (s : String) : Nat :=
  s.toList.count '/'

theorem slashes_append_slash (s t : String) :
    slashes (s ++ "/" ++ t) = slashes s + 1 + slashes t := by
  unfold slashes
  rw [toList_append_slash, List.count_append, List.count_cons_self]
  omega

theorem levels_of_no_slash {s : String} (hs : '/' ∉ s.toList) : levels s = [s] := by
  unfold levels
  rw [List.splitOn_eq_singleton hs]
  simp

theorem levels_injective {s t : String} (h : levels s = levels t) : s = t := by
  unfold levels at h
  have hpieces := (List.map_injective_iff.mpr (fun _ _ heq => String.ofList_injective heq)) h
  have hjoin := congrArg (List.intercalate ['/']) hpieces
  rw [List.intercalate_splitOn, List.intercalate_splitOn] at hjoin
  exact String.toList_injective hjoin

theorem mem_of_mem_splitOn {sep c : Char} {cs piece : List Char}
    (hpiece : piece ∈ cs.splitOn sep) (hc : c ∈ piece) : c ∈ cs := by
  induction cs generalizing piece with
  | nil =>
      rw [List.splitOn_nil, List.mem_singleton] at hpiece
      rw [hpiece] at hc
      cases hc
  | cons x xs ih =>
      rw [List.splitOn_cons_eq_if_modifyHead] at hpiece
      split at hpiece
      · rcases List.mem_cons.mp hpiece with hhead | htail
        · rw [hhead] at hc
          cases hc
        · exact List.mem_cons_of_mem x (ih htail hc)
      · cases hsplit : xs.splitOn sep with
        | nil => exact absurd hsplit (List.splitOn_ne_nil sep xs)
        | cons first rest =>
            rw [hsplit, List.modifyHead_cons] at hpiece
            rcases List.mem_cons.mp hpiece with hhead | htail
            · rw [hhead] at hc
              rcases List.mem_cons.mp hc with hx | hfirst
              · rw [hx]
                exact List.mem_cons_self
              · exact List.mem_cons_of_mem x
                  (ih (by rw [hsplit]; exact List.mem_cons_self) hfirst)
            · exact List.mem_cons_of_mem x
                (ih (by rw [hsplit]; exact List.mem_cons_of_mem first htail) hc)

/-- The characters of a level are characters of the text. -/
theorem mem_of_mem_levels {s level : String} (hlevel : level ∈ levels s) {c : Char}
    (hc : c ∈ level.toList) : c ∈ s.toList := by
  unfold levels at hlevel
  rcases List.mem_map.mp hlevel with ⟨piece, hpiece, heq⟩
  rw [← heq, String.toList_ofList] at hc
  exact mem_of_mem_splitOn hpiece hc

theorem hasWildcardChar_level {s level : String} (hs : hasWildcardChar s = false)
    (hlevel : level ∈ levels s) : hasWildcardChar level = false := by
  unfold hasWildcardChar at hs ⊢
  rw [List.any_eq_false] at hs ⊢
  intro c hc
  exact hs c (mem_of_mem_levels hlevel hc)

/-!
## Literal levels at the front of a filter
-/

theorem ne_wildcard_of_literal {level : String} (hliteral : hasWildcardChar level = false) :
    level ≠ "+" ∧ level ≠ "#" := by
  constructor
  · intro h
    rw [h] at hliteral
    revert hliteral
    decide
  · intro h
    rw [h] at hliteral
    revert hliteral
    decide

/-- Literal front levels of a filter are the front levels of what it matches. -/
theorem prefix_of_matchLevels {ls fs ts : List String}
    (hliteral : forall level, level ∈ ls -> hasWildcardChar level = false)
    (hfront : ls <+: fs) (hmatch : matchLevels fs ts = true) : ls <+: ts := by
  induction ls generalizing fs ts with
  | nil => exact List.nil_prefix
  | cons level ls ih =>
      rcases ne_wildcard_of_literal (hliteral level List.mem_cons_self) with ⟨hplus, hhash⟩
      cases fs with
      | nil => exact absurd hfront (by simp)
      | cons f fs =>
          rcases List.cons_prefix_cons.mp hfront with ⟨hf, hrest⟩
          subst hf
          cases ts with
          | nil => simp [matchLevels, hhash] at hmatch
          | cons t ts =>
              unfold matchLevels at hmatch
              rw [if_neg hhash] at hmatch
              simp only [Bool.and_eq_true, Bool.or_eq_true, beq_iff_eq, hplus,
                false_or] at hmatch
              rw [← hmatch.left]
              exact List.cons_prefix_cons.mpr
                ⟨rfl, ih (fun l hl => hliteral l (List.mem_cons_of_mem level hl)) hrest
                  hmatch.right⟩

theorem matchLevels_of_filterMatches {f t : String} (hmatch : filterMatches f t = true) :
    matchLevels (levels f) (levels t) = true := by
  unfold filterMatches at hmatch
  simp only [Bool.and_eq_true] at hmatch
  exact hmatch.right

/-- A literal second level of a valid filter is the second level of what it matches. -/
theorem second_of_matchLevels {first second : String} {rest ts : List String}
    (hfirst : first ≠ "#") (hsecond : hasWildcardChar second = false)
    (hmatch : matchLevels (first :: second :: rest) ts = true) :
    exists t ts', ts = t :: second :: ts' := by
  rcases ne_wildcard_of_literal hsecond with ⟨hplus, hhash⟩
  cases ts with
  | nil => simp [matchLevels, hfirst] at hmatch
  | cons t ts =>
      unfold matchLevels at hmatch
      rw [if_neg hfirst] at hmatch
      simp only [Bool.and_eq_true] at hmatch
      have htail := hmatch.right
      cases ts with
      | nil => simp [matchLevels, hhash] at htail
      | cons t' ts =>
          unfold matchLevels at htail
          rw [if_neg hhash] at htail
          simp only [Bool.and_eq_true, Bool.or_eq_true, beq_iff_eq, hplus, false_or] at htail
          exact ⟨t, ts, by rw [htail.left]⟩

end Mqtt
end Ciqada
