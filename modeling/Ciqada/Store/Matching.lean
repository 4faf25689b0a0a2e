import Ciqada.Broker.Trie
import Ciqada.Store.TopicMatch

/-!
# Replay matching and live routing

The router follows the MQTT rule along its tree.  Replay compares segments only,
so it differs from the rule on topics of the reserved name space and filters
that start with a wildcard.
-/

namespace Ciqada
namespace Store

open Mqtt Broker

/-- The first filter level is a wildcard. -/
def wildcardHead : List String -> Bool
  | first :: _ => first == "+" || first == "#"
  | [] => false

/-- The first topic level is in the reserved name space. -/
def reservedHead : List String -> Bool
  | first :: _ => isMetadata first
  | [] => false

theorem filterMatches_eq (filter topic : String) :
    filterMatches filter topic =
      (!(wildcardHead (levels filter) && reservedHead (levels topic)) &&
        matchLevels (levels filter) (levels topic)) := by
  unfold filterMatches wildcardHead reservedHead
  rfl

/-!
## Replay matches level by level
-/

/-- The hash of a filter comes last, so answering at once loses nothing. -/
theorem matchSegments_eq {fs ts : List String} (h : filterWellFormed fs = true ∨ fs = []) :
    matchSegments fs ts = matchLevels fs ts := by
  induction fs generalizing ts with
  | nil =>
      cases ts with
      | nil => rfl
      | cons t ts => rfl
  | cons f fs ih =>
      have hrest : filterWellFormed fs = true ∨ fs = [] := by
        cases fs with
        | nil => exact Or.inr rfl
        | cons g fs =>
            rcases h with h | h
            · simp only [filterWellFormed, Bool.and_eq_true] at h
              exact Or.inl h.right
            · cases h
      have hlast : f = "#" -> fs = [] := by
        intro hf
        cases fs with
        | nil => rfl
        | cons g fs =>
            rcases h with h | h
            · simp [filterWellFormed, hf] at h
            · cases h
      unfold matchSegments matchLevels
      by_cases hf : f = "#"
      · rw [if_pos hf, if_pos hf, hlast hf]
        rfl
      · rw [if_neg hf, if_neg hf]
        cases ts with
        | nil => rfl
        | cons t ts =>
            dsimp only
            rw [ih hrest]
            by_cases hseg : f = "+" ∨ f = t
            · rw [if_pos hseg]
              have htrue : (f == "+" || f == t) = true := by simpa using hseg
              rw [htrue]
              rfl
            · rw [if_neg hseg]
              have hfalse : (f == "+" || f == t) = false := by simpa using hseg
              rw [hfalse]
              rfl

theorem topicMatches_eq {topic filter : String} (h : ValidFilter filter) :
    topicMatches topic filter = matchLevels (levels filter) (levels topic) :=
  matchSegments_eq (Or.inl h.right)

/-!
## The router follows the rule
-/

/-- The pattern level of a filter level. -/
def patternLevel (s : String) : Level :=
  if s = "+" then Level.singleWildcard
  else if s = "#" then Level.multiWildcard
  else literalLevel s

theorem patternLevel_of_fromStr {s : String} {level : Level}
    (h : Level.fromStr s = Except.ok level) : level = patternLevel s := by
  unfold Level.fromStr at h
  unfold patternLevel literalLevel
  by_cases hplus : s = "+"
  · rw [if_pos hplus] at h ⊢
    exact (Except.ok.inj h).symm
  · rw [if_neg hplus] at h ⊢
    by_cases hhash : s = "#"
    · rw [if_pos hhash] at h ⊢
      exact (Except.ok.inj h).symm
    · rw [if_neg hhash] at h ⊢
      by_cases hempty : s = ""
      · rw [if_pos hempty] at h ⊢
        exact (Except.ok.inj h).symm
      · rw [if_neg hempty] at h ⊢
        split at h
        · cases h
        · cases hmeta : isMetadata s with
          | true =>
              rw [hmeta] at h
              exact (Except.ok.inj h).symm
          | false =>
              rw [hmeta] at h
              exact (Except.ok.inj h).symm

theorem map_patternLevel_of_mapM {ss : List String} {ls : List Level}
    (h : ss.mapM Level.fromStr = Except.ok ls) : ls = ss.map patternLevel := by
  induction ss generalizing ls with
  | nil => exact (Except.ok.inj h).symm
  | cons s ss ih =>
      rw [List.mapM_cons] at h
      cases hlevel : Level.fromStr s with
      | error e =>
          rw [hlevel] at h
          cases h
      | ok level =>
          cases hrest : ss.mapM Level.fromStr with
          | error e =>
              rw [hlevel, hrest] at h
              cases h
          | ok rest =>
              rw [hlevel, hrest] at h
              rw [← Except.ok.inj h, List.map_cons, ← patternLevel_of_fromStr hlevel, ← ih hrest]

theorem levels_of_fromStr {s : String} {t : Topic} (h : Topic.fromStr s = Except.ok t) :
    t.levels = (levels s).map patternLevel := by
  unfold Topic.fromStr at h
  split at h
  · cases h
  · rename_i ls hls
    split at h
    · rw [← Except.ok.inj h]
      exact map_patternLevel_of_mapM hls
    · cases h

theorem patternLevel_literal {s : String} (h : hasWildcardChar s = false) :
    patternLevel s = literalLevel s := by
  rcases ne_wildcard_of_literal h with ⟨hplus, hhash⟩
  unfold patternLevel
  rw [if_neg hplus, if_neg hhash]

theorem literalLevel_ne_wildcard (s : String) :
    literalLevel s ≠ Level.singleWildcard ∧ literalLevel s ≠ Level.multiWildcard := by
  unfold literalLevel
  split
  · exact ⟨Level.noConfusion, Level.noConfusion⟩
  · split
    · exact ⟨Level.noConfusion, Level.noConfusion⟩
    · exact ⟨Level.noConfusion, Level.noConfusion⟩

theorem literalLevel_injective {s t : String} (h : literalLevel s = literalLevel t) : s = t := by
  unfold literalLevel at h
  by_cases hs : s = ""
  · by_cases ht : t = ""
    · rw [hs, ht]
    · rw [if_pos hs, if_neg ht] at h
      split at h <;> cases h
  · by_cases ht : t = ""
    · rw [if_neg hs, if_pos ht] at h
      split at h <;> cases h
    · rw [if_neg hs, if_neg ht] at h
      split at h
      · split at h
        · exact Level.metadata.inj h
        · cases h
      · split at h
        · cases h
        · exact Level.normal.inj h

theorem isMetadata_literalLevel (s : String) : (literalLevel s).isMetadata = isMetadata s := by
  unfold literalLevel
  by_cases hempty : s = ""
  · rw [if_pos hempty, hempty]
    decide
  · rw [if_neg hempty]
    cases isMetadata s with
    | true => rfl
    | false => rfl

theorem patternLevel_eq_single {s : String} :
    patternLevel s = Level.singleWildcard <-> s = "+" := by
  unfold patternLevel
  constructor
  · intro h
    split at h
    · assumption
    · split at h
      · cases h
      · exact absurd h (literalLevel_ne_wildcard s).left
  · intro h
    rw [if_pos h]

theorem patternLevel_eq_multi {s : String} :
    patternLevel s = Level.multiWildcard <-> s = "#" := by
  unfold patternLevel
  constructor
  · intro h
    split at h
    · cases h
    · split at h
      · assumption
      · exact absurd h (literalLevel_ne_wildcard s).right
  · intro h
    rw [h]
    rfl

theorem patternLevel_eq_literal {s t : String} (ht : hasWildcardChar t = false) :
    patternLevel s = patternLevel t <-> s = t := by
  constructor
  · intro h
    rw [patternLevel_literal ht] at h
    unfold patternLevel at h
    split at h
    · exact absurd h.symm (literalLevel_ne_wildcard t).left
    · split at h
      · exact absurd h.symm (literalLevel_ne_wildcard t).right
      · exact literalLevel_injective h
  · intro h
    rw [h]

/-- One path of the tree is matched as the rule says; the induction is along the topic. -/
theorem pathMatches_levels {root : Bool} {fs ts : List String}
    (hts : forall t, t ∈ ts -> hasWildcardChar t = false) :
    pathMatches root (fs.map patternLevel) (ts.map patternLevel) = true <->
      (root && reservedHead ts && wildcardHead fs) = false ∧ matchLevels fs ts = true := by
  induction ts generalizing root fs with
  | nil =>
      rw [List.map_nil, Node.pathMatches_nil]
      cases fs with
      | nil => simp [reservedHead, matchLevels]
      | cons f fs => simp [reservedHead, matchLevels, patternLevel_eq_multi]
  | cons t ts ih =>
      have ht := hts t List.mem_cons_self
      rcases ne_wildcard_of_literal ht with ⟨hplus, hhash⟩
      have hrest : forall rest : List String, pathMatches false (rest.map patternLevel)
          (ts.map patternLevel) = true <-> matchLevels rest ts = true := by
        intro rest
        rw [ih (fun t' ht' => hts t' (List.mem_cons_of_mem t ht'))]
        simp
      cases fs with
      | nil => simp [pathMatches, matchLevels]
      | cons f fs =>
          rw [List.map_cons, List.map_cons, Node.pathMatches_cons, hrest,
            patternLevel_eq_multi, patternLevel_eq_single, patternLevel_eq_literal ht,
            patternLevel_literal ht, isMetadata_literalLevel, List.map_eq_nil_iff]
          have hcons : matchLevels (f :: fs) (t :: ts) =
              if f = "#" then fs.isEmpty else (f == "+" || f == t) && matchLevels fs ts := by
            rw [matchLevels]
          rw [hcons]
          unfold reservedHead wildcardHead
          by_cases hf : f = "#"
          · rw [if_pos hf, hf]
            simp [Ne.symm hhash]
          · rw [if_neg hf]
            by_cases hf' : f = "+"
            · rw [hf']
              simp [Ne.symm hplus]
            · simp [hf, hf']

/-!
## Where they agree
-/

/--
Replay matching is the MQTT rule unless the topic is in the reserved name space,
the filter starts with a wildcard, and the levels match one by one.  The rule is
what the walk through the router's tree follows: it finds the values at a filter
if and only if the filter matches the topic.
-/
theorem replay_matching_iff {topic filter : String} (htopic : hasWildcardChar topic = false)
    (hfilter : ValidFilter filter) :
    ((topicMatches topic filter = true <-> filterMatches filter topic = true) <->
      ¬ (reservedHead (levels topic) = true ∧ wildcardHead (levels filter) = true ∧
        matchLevels (levels filter) (levels topic) = true)) ∧
    forall t f, Topic.fromStr topic = Except.ok t -> Topic.fromStr filter = Except.ok f ->
      forall {V : Type} (n found : Node V), Node.at? f.levels n = some found ->
        found.values ≠ [] ->
        ((f.levels, found.values) ∈ Node.matched t.levels [] n <->
          filterMatches filter topic = true) := by
  constructor
  · rw [topicMatches_eq hfilter, filterMatches_eq]
    cases reservedHead (levels topic) <;> cases wildcardHead (levels filter) <;>
      cases matchLevels (levels filter) (levels topic) <;> simp
  · intro t f ht hf V n found hat hne
    have hlevels : forall level, level ∈ levels topic -> hasWildcardChar level = false :=
      fun level hlevel => hasWildcardChar_level htopic hlevel
    have hpath : pathMatches true f.levels t.levels = true <->
        filterMatches filter topic = true := by
      rw [levels_of_fromStr ht, levels_of_fromStr hf, pathMatches_levels hlevels,
        filterMatches_eq]
      cases reservedHead (levels topic) <;> cases wildcardHead (levels filter) <;> simp
    rw [Node.mem_matched, ← hpath]
    constructor
    · rintro ⟨rest, node, hrest, _, _, _, hmatch⟩
      rw [List.nil_append] at hrest
      rw [hrest]
      exact hmatch
    · intro hmatch
      exact ⟨f.levels, found, rfl, hat, rfl, hne, hmatch⟩

theorem replay_matching_iff_parent :
    hasWildcardChar "a/b" = false ∧ ValidFilter "a/b/#" ∧
      (topicMatches "a/b" "a/b/#" = true <-> filterMatches "a/b/#" "a/b" = true) ∧
      topicMatches "a/b" "a/b/#" = true := by
  have hfilter : ValidFilter "a/b/#" := ⟨by decide +kernel, by decide +kernel⟩
  have h := replay_matching_iff (by decide +kernel : hasWildcardChar "a/b" = false) hfilter
  refine ⟨by decide +kernel, hfilter, h.left.mpr ?_, by decide +kernel⟩
  rintro ⟨hreserved, _, _⟩
  exact absurd hreserved (by decide +kernel)

/-- A filter that starts with a wildcard replays the topics of the server. -/
theorem replay_matching_fails :
    ¬ forall topic filter, hasWildcardChar topic = false -> ValidFilter filter ->
      (topicMatches topic filter = true <-> filterMatches filter topic = true) := by
  intro h
  have hfilter : ValidFilter "#" := ⟨by decide +kernel, by decide +kernel⟩
  have hrule := (h "$SYS/uptime" "#" (by decide +kernel) hfilter).mp (by decide +kernel)
  exact absurd hrule (by decide +kernel)

end Store
end Ciqada
