import Ciqada.Broker.Acl

/-!
# The filter text of a rule

A rule stands for one filter text, which its own check accepts.  The text is
the configured one with the marker taken off and the placeholders filled in,
and none of these steps removes a slash.
-/

namespace Ciqada
namespace Broker

open Mqtt

namespace Acl

/-- The filter text that a rule topic stands for. -/
def RuleTopic.toText (t : RuleTopic) : String :=
  match t.eqTopicFilter with
  | some text => text
  | none =>
      match t.topicFilter with
      | some topic => topic.toText
      | none => ""

/-- The text a rule is made from: the marker taken off and the placeholders filled in. -/
def ruleText (topicCfg : String) (ci : ConnectInfo) : Except RuleError String :=
  replaces ((stripEqMarker topicCfg).getD topicCfg) ci

/-- A rule stands for its text; without the marker the text must parse. -/
theorem tryFrom_toText_iff {text x : String} {ci : ConnectInfo} (hne : text ≠ "") :
    (exists topic, RuleTopic.tryFrom text ci = Except.ok topic ∧ topic.toText = x) <->
      ruleText text ci = Except.ok x ∧
        ((stripEqMarker text).isSome = true ∨ exists t, Topic.fromStr x = Except.ok t) := by
  have hempty : text.isEmpty = false := by
    simpa [String.isEmpty_iff] using hne
  unfold RuleTopic.tryFrom ruleText
  rw [hempty]
  cases hstrip : stripEqMarker text with
  | some stripped =>
      cases hrep : replaces stripped ci with
      | error e => simp [hrep]
      | ok text' => simp [hrep, RuleTopic.toText]
  | none =>
      cases hrep : replaces text ci with
      | error e => simp [hrep]
      | ok text' =>
          cases hparse : Topic.fromStr text' with
          | error e =>
              simp only [hrep, hparse, Option.getD_none, Option.isSome_none, Except.ok.injEq,
                Bool.false_eq_true, false_or, if_false, reduceCtorEq, false_and, exists_false,
                false_iff, not_and, not_exists]
              intro heq t ht
              rw [heq, ht] at hparse
              cases hparse
          | ok t =>
              simp only [hrep, hparse, Option.getD_none, Option.isSome_none, Except.ok.injEq,
                Bool.false_eq_true, false_or, if_false, exists_eq_left', RuleTopic.toText,
                Topic.toText_of_fromStr hparse]
              constructor
              · intro heq
                exact ⟨heq, t, by rw [← heq, hparse]⟩
              · intro h
                exact h.left

/-- A rule accepts the filter it stands for. -/
theorem isMatch_toText {text : String} {ci : ConnectInfo} {topic : RuleTopic}
    (h : RuleTopic.tryFrom text ci = Except.ok topic) : topic.isMatch topic.toText = true := by
  unfold RuleTopic.tryFrom at h
  cases hstrip : stripEqMarker text with
  | some stripped =>
      cases hrep : replaces stripped ci with
      | error e => simp [hstrip, hrep] at h
      | ok text' =>
          simp only [hstrip, hrep, Except.ok.injEq] at h
          rw [← h]
          simp [RuleTopic.isMatch, RuleTopic.toText]
  | none =>
      rw [hstrip] at h
      dsimp only at h
      split at h
      · cases h
      · cases hrep : replaces text ci with
        | error e => simp [hrep] at h
        | ok text' =>
            cases hparse : Topic.fromStr text' with
            | error e => simp [hrep, hparse] at h
            | ok t =>
                simp only [hrep, hparse, Except.ok.injEq] at h
                rw [← h]
                simp only [RuleTopic.isMatch, RuleTopic.toText, Topic.toText_of_fromStr hparse]
                exact Topic.matchesStr_self hparse

/-!
Filling in placeholders never removes a slash, since a placeholder has none.
-/

theorem count_replaceChars {pat new : List Char} (hne : pat ≠ []) (hpat : '/' ∉ pat)
    (skip : Nat) (cs : List Char) :
    (cs.drop skip).count '/' ≤ (replaceChars pat new skip cs).count '/' := by
  induction cs generalizing skip with
  | nil => simp [replaceChars]
  | cons c cs ih =>
      cases skip with
      | succ skip => simpa [replaceChars] using ih skip
      | zero =>
          unfold replaceChars
          rw [List.drop_zero]
          split
          · next hfront =>
            rcases List.isPrefixOf_iff_prefix.mp hfront with ⟨rest, hrest⟩
            have hdrop : cs.drop (pat.length - 1) = rest := by
              have hpos := List.length_pos_iff.mpr hne
              have htail : cs.drop (pat.length - 1) = (c :: cs).drop pat.length := by
                rw [← Nat.sub_add_cancel hpos, List.drop_succ_cons, Nat.add_sub_cancel]
              rw [htail, ← hrest, List.drop_left]
            calc (c :: cs).count '/'
                = rest.count '/' := by
                  rw [← hrest, List.count_append, List.count_eq_zero.mpr hpat, Nat.zero_add]
              _ ≤ (replaceChars pat new (pat.length - 1) cs).count '/' := by
                  rw [← hdrop]
                  exact ih (pat.length - 1)
              _ ≤ (new ++ replaceChars pat new (pat.length - 1) cs).count '/' := by
                  rw [List.count_append]
                  exact Nat.le_add_left _ _
          · have hih := ih 0
            rw [List.drop_zero] at hih
            rw [List.count_cons, List.count_cons]
            omega

theorem slashes_replace (s new : String) {pat : String} (hne : pat.toList ≠ [])
    (hpat : '/' ∉ pat.toList) :
    slashes s ≤ slashes (replace s pat new) := by
  have hcount := @count_replaceChars pat.toList new.toList hne hpat 0 s.toList
  unfold slashes replace
  rwa [String.toList_ofList]

theorem slashes_replaces {text x : String} {ci : ConnectInfo}
    (h : replaces text ci = Except.ok x) : slashes text ≤ slashes x := by
  have husername : forall s new : String,
      slashes s ≤ slashes (replace s placeholderUsername new) :=
    fun s new => slashes_replace s new (by decide) (by decide)
  have hclientid : forall s new : String,
      slashes s ≤ slashes (replace s placeholderClientid new) :=
    fun s new => slashes_replace s new (by decide) (by decide)
  unfold replaces at h
  split at h
  · split at h
    · rw [← Except.ok.inj h]
      exact (husername _ _).trans (hclientid _ _)
    · cases h
  · split at h
    · rw [← Except.ok.inj h]
      exact husername _ _
    · cases h
  · rw [← Except.ok.inj h]
    exact hclientid _ _
  · rw [Except.ok.inj h]

theorem slashes_stripEqMarker {text stripped : String}
    (h : stripEqMarker text = some stripped) : slashes stripped = slashes text := by
  unfold stripEqMarker at h
  split at h
  · next hfront =>
    rcases List.isPrefixOf_iff_prefix.mp hfront with ⟨rest, hrest⟩
    have hlen : eqMarker.length = eqMarker.toList.length := by decide
    have hmark : eqMarker.toList.count '/' = 0 := by decide
    unfold slashes
    rw [← Option.some.inj h, String.toList_ofList, ← hrest, hlen, List.drop_left,
      List.count_append, hmark, Nat.zero_add]
  · cases h

theorem slashes_ruleText {text x : String} {ci : ConnectInfo}
    (h : ruleText text ci = Except.ok x) : slashes text ≤ slashes x := by
  have hle := slashes_replaces h
  cases hstrip : stripEqMarker text with
  | none => rwa [hstrip] at hle
  | some stripped =>
      rw [hstrip, Option.getD_some, slashes_stripEqMarker hstrip] at hle
      exact hle

end Acl

end Broker
end Ciqada
