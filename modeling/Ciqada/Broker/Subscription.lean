import Mathlib.Data.List.TakeWhile
import Ciqada.Broker.Types
import Ciqada.Mqtt.Levels

/-!
# Parsing subscription requests

A requested filter may carry a prefix for a shared group, a subscriber limit or
exclusive use.  Parsing separates the prefix from the filter proper.
-/

namespace Ciqada
namespace Broker

open Mqtt

/-- Cut a text at its first slash. -/
def splitOnce (s : String) : String × Option String :=
  match s.toList.span (fun c => c != '/') with
  | (front, _ :: rest) => (String.ofList front, some (String.ofList rest))
  | (front, []) => (String.ofList front, none)

/-- The second and third parts of a text cut into at most three. -/
def splitRest : Option String -> Option String × Option String
  | none => (none, none)
  | some rest => (some (splitOnce rest).1, (splitOnce rest).2)

/-- Remove a repeated prefix; `fuel` bounds the number of removals. -/
def trimStartMatches (pat : List Char) : Nat -> List Char -> List Char
  | 0, cs => cs
  | fuel + 1, cs =>
      if pat.isPrefixOf cs then trimStartMatches pat fuel (cs.drop pat.length) else cs

/-- Decimal digits with an optional plus sign, within the machine range. -/
def parseUsize (s : String) : Option Nat :=
  let digits := match s.toList with
    | '+' :: rest => rest
    | cs => cs
  if digits.isEmpty || !digits.all Char.isDigit then none
  else
    let value := digits.foldl (fun acc c => 10 * acc + (c.toNat - '0'.toNat)) 0
    if value < UInt64.size then some value else none

inductive FilterError where
  | illegal (topicFilter : String)
  | sharedDisabled (topicFilter : String)
  | limitDisabled (topicFilter : String)
  deriving DecidableEq

/-- The filter proper with its shared group and subscriber limit. -/
structure ParsedFilter where
  topicFilter : String
  sharedGroup : Option String
  limitSubs : Option Nat
  deriving DecidableEq

namespace ParsedFilter

def plain (topicFilter : String) : ParsedFilter :=
  { topicFilter := topicFilter, sharedGroup := none, limitSubs := none }

end ParsedFilter

def parseShared (topicFilter : String) (sharedSubscription : Bool) :
    Option String × Option String -> Except FilterError ParsedFilter
  | (some group, some tf) =>
      if sharedSubscription then
        Except.ok { topicFilter := tf, sharedGroup := some group, limitSubs := none }
      else Except.error (FilterError.sharedDisabled topicFilter)
  | _ =>
      if sharedSubscription then Except.error (FilterError.illegal topicFilter)
      else Except.error (FilterError.sharedDisabled topicFilter)

def parseLimited (topicFilter : String) (limitSubscription : Bool) :
    Option String × Option String -> Except FilterError ParsedFilter
  | (some limit, some tf) =>
      if limitSubscription then
        match parseUsize limit with
        | some limit =>
            Except.ok { topicFilter := tf, sharedGroup := none, limitSubs := some limit }
        | none => Except.error (FilterError.illegal topicFilter)
      else Except.error (FilterError.limitDisabled topicFilter)
  | _ =>
      if limitSubscription then Except.error (FilterError.illegal topicFilter)
      else Except.error (FilterError.limitDisabled topicFilter)

def parseExclusive (topicFilter : String) (limitSubscription : Bool) :
    Except FilterError ParsedFilter :=
  if limitSubscription then
    let chars := topicFilter.toList
    Except.ok
      { topicFilter := String.ofList (trimStartMatches "$exclusive/".toList chars.length chars)
        sharedGroup := none
        limitSubs := some 1 }
  else Except.error (FilterError.limitDisabled topicFilter)

/-- The text is cut at its first two slashes and the first part is the prefix. -/
def parsePrefixed (topicFilter : String) (sharedSubscription limitSubscription : Bool) :
    Except FilterError ParsedFilter :=
  let first := (splitOnce topicFilter).1
  let rest := splitRest (splitOnce topicFilter).2
  if first = "$share" then parseShared topicFilter sharedSubscription rest
  else if first = "$limit" then parseLimited topicFilter limitSubscription rest
  else if first = "$exclusive" then parseExclusive topicFilter limitSubscription
  else Except.ok (ParsedFilter.plain topicFilter)

def parseTopicFilter (topicFilter : String)
    (sharedSubscription limitSubscription : Bool) : Except FilterError ParsedFilter :=
  let parsed :=
    if sharedSubscription || limitSubscription then
      parsePrefixed topicFilter sharedSubscription limitSubscription
    else Except.ok (ParsedFilter.plain topicFilter)
  match parsed with
  | Except.error e => Except.error e
  | Except.ok p =>
      if p.topicFilter.isEmpty then Except.error (FilterError.illegal topicFilter)
      else Except.ok p

namespace Subscribe

/-- The request for a filter text, as both protocol versions build it. -/
def fromText (topicFilter : String) (qos : QoS)
    (sharedSubscription limitSubscription : Bool) : Except FilterError Subscribe :=
  match parseTopicFilter topicFilter sharedSubscription limitSubscription with
  | Except.error e => Except.error e
  | Except.ok p =>
      Except.ok
        { topicFilter := p.topicFilter, qos := qos, sharedGroup := p.sharedGroup,
          limitSubs := p.limitSubs }

end Subscribe

/-!
## The two plain forms of a request

A filter outside the reserved name space is taken as it stands, and a shared
request is reduced to its filter.
-/

theorem span_append_slash {front : List Char} (hfront : '/' ∉ front) (rest : List Char) :
    (front ++ '/' :: rest).span (fun c => c != '/') = (front, '/' :: rest) := by
  have hne : forall c, c ∈ front -> (c != '/') = true := by
    intro c hc
    simp only [bne_iff_ne, ne_eq]
    intro hslash
    exact hfront (hslash ▸ hc)
  rw [List.span_eq_takeWhile_dropWhile, List.takeWhile_append_of_pos hne,
    List.dropWhile_append_of_pos hne]
  simp

theorem splitOnce_append_slash {s : String} (hs : '/' ∉ s.toList) (t : String) :
    splitOnce (s ++ "/" ++ t) = (s, some t) := by
  unfold splitOnce
  rw [toList_append_slash, span_append_slash hs]
  simp

theorem splitOnce_of_no_slash {s : String} (hs : '/' ∉ s.toList) :
    splitOnce s = (s, none) := by
  have hne : forall c, c ∈ s.toList -> (c != '/') = true := by
    intro c hc
    simp only [bne_iff_ne, ne_eq]
    intro hslash
    exact hs (hslash ▸ hc)
  have hspan : s.toList.span (fun c => c != '/') = (s.toList, []) := by
    rw [List.span_eq_takeWhile_dropWhile, List.takeWhile_eq_self_iff.mpr hne,
      List.dropWhile_eq_nil_iff.mpr hne]
  unfold splitOnce
  rw [hspan]
  simp

theorem exists_split_of_slash {s : String} (hs : '/' ∈ s.toList) :
    exists front rest, '/' ∉ front.toList ∧ s = front ++ "/" ++ rest := by
  rcases List.eq_append_cons_of_mem hs with ⟨front, rest, hchars, hfront⟩
  refine ⟨String.ofList front, String.ofList rest, by simpa using hfront, ?_⟩
  apply String.toList_inj.mp
  rw [toList_append_slash, String.toList_ofList, String.toList_ofList, hchars]

theorem splitOnce_fst_mem_levels (s : String) : (splitOnce s).1 ∈ levels s := by
  by_cases hs : '/' ∈ s.toList
  · rcases exists_split_of_slash hs with ⟨front, rest, hfront, heq⟩
    rw [heq, splitOnce_append_slash hfront, levels_append_slash, levels_of_no_slash hfront]
    simp
  · rw [splitOnce_of_no_slash hs, levels_of_no_slash hs]
    simp

/-- No level of the text lies in the reserved name space. -/
def PlainLevels (s : String) : Prop :=
  forall level, level ∈ levels s -> isMetadata level = false

/-- The first parts that make a request a special one. -/
def specialFronts : List String :=
  ["$share", "$limit", "$exclusive"]

theorem parseTopicFilter_ordinary {f : String} (hne : f ≠ "")
    (hfront : (splitOnce f).1 ∉ specialFronts)
    (sharedSubscription limitSubscription : Bool) :
    parseTopicFilter f sharedSubscription limitSubscription =
      Except.ok (ParsedFilter.plain f) := by
  have hparse : parsePrefixed f sharedSubscription limitSubscription =
      Except.ok (ParsedFilter.plain f) := by
    simp only [specialFronts, List.mem_cons, List.not_mem_nil, or_false, not_or] at hfront
    unfold parsePrefixed
    simp only [hfront.left, hfront.right.left, hfront.right.right, if_false]
  have hempty : (ParsedFilter.plain f).topicFilter.isEmpty = false := by
    simpa [ParsedFilter.plain, String.isEmpty_iff] using hne
  unfold parseTopicFilter
  simp [hparse, hempty]

theorem not_special_of_plainLevels {f : String} (hplain : PlainLevels f) :
    (splitOnce f).1 ∉ specialFronts := by
  intro hspecial
  have hreserved : forall front, front ∈ specialFronts -> isMetadata front = true := by decide
  have hfirst := hplain _ (splitOnce_fst_mem_levels f)
  rw [hreserved _ hspecial] at hfirst
  cases hfirst

theorem parseTopicFilter_plain {f : String} (hne : f ≠ "") (hplain : PlainLevels f)
    (sharedSubscription limitSubscription : Bool) :
    parseTopicFilter f sharedSubscription limitSubscription =
      Except.ok (ParsedFilter.plain f) :=
  parseTopicFilter_ordinary hne (not_special_of_plainLevels hplain) sharedSubscription
    limitSubscription

theorem parsePrefixed_share {f group : String} (hgroup : '/' ∉ group.toList)
    (limitSubscription : Bool) :
    parsePrefixed ("$share" ++ "/" ++ (group ++ "/" ++ f)) true limitSubscription =
      Except.ok { topicFilter := f, sharedGroup := some group, limitSubs := none } := by
  have hshare : '/' ∉ "$share".toList := by decide
  unfold parsePrefixed
  rw [splitOnce_append_slash hshare]
  simp only [splitRest, splitOnce_append_slash hgroup, if_true, parseShared]

theorem parseTopicFilter_share {f group : String} (hne : f ≠ "")
    (hgroup : '/' ∉ group.toList) (limitSubscription : Bool) :
    parseTopicFilter ("$share" ++ "/" ++ (group ++ "/" ++ f)) true limitSubscription =
      Except.ok { topicFilter := f, sharedGroup := some group, limitSubs := none } := by
  have hempty : f.isEmpty = false := by
    simpa [String.isEmpty_iff] using hne
  unfold parseTopicFilter
  rw [parsePrefixed_share hgroup]
  simp only [Bool.true_or, if_true, hempty, Bool.false_eq_true, if_false]

/-!
## Special requests

A special request with a slash loses at least its first part, so the filter
that is left has fewer slashes than the request.
-/

theorem slashes_of_splitOnce {s t : String} (h : (splitOnce s).2 = some t) :
    slashes t < slashes s := by
  by_cases hs : '/' ∈ s.toList
  · rcases exists_split_of_slash hs with ⟨front, rest, hfront, heq⟩
    rw [heq, splitOnce_append_slash hfront] at h
    rw [← Option.some.inj h, heq, slashes_append_slash]
    omega
  · rw [splitOnce_of_no_slash hs] at h
    cases h

theorem slashes_of_splitRest {s group t : String}
    (h : splitRest (splitOnce s).2 = (some group, some t)) : slashes t < slashes s := by
  cases hrest : (splitOnce s).2 with
  | none =>
      rw [hrest] at h
      cases h
  | some rest =>
      rw [hrest] at h
      have htail : (splitOnce rest).2 = some t := (Prod.mk.inj h).right
      exact (slashes_of_splitOnce htail).trans (slashes_of_splitOnce hrest)

theorem count_trimStartMatches (pat : List Char) (fuel : Nat) (cs : List Char) :
    (trimStartMatches pat fuel cs).count '/' ≤ cs.count '/' := by
  induction fuel generalizing cs with
  | zero => exact le_refl _
  | succ fuel ih =>
      unfold trimStartMatches
      split
      · exact (ih _).trans ((List.drop_sublist _ _).count_le _)
      · exact le_refl _

theorem slashes_of_exclusive {s : String} (hs : '/' ∈ s.toList)
    (hfront : (splitOnce s).1 = "$exclusive") :
    (trimStartMatches "$exclusive/".toList s.toList.length s.toList).count '/' < slashes s := by
  rcases exists_split_of_slash hs with ⟨front, rest, hslash, heq⟩
  rw [heq, splitOnce_append_slash hslash] at hfront
  have hchars : s.toList = "$exclusive/".toList ++ rest.toList := by
    have hname : front = "$exclusive" := hfront
    rw [heq, hname, toList_append_slash]
    rfl
  cases hlen : s.toList.length with
  | zero =>
      rw [List.length_eq_zero_iff.mp hlen] at hs
      cases hs
  | succ fuel =>
      have hstep : trimStartMatches "$exclusive/".toList (fuel + 1) s.toList =
          trimStartMatches "$exclusive/".toList fuel rest.toList := by
        rw [trimStartMatches, hchars, if_pos (by simp), List.drop_left]
      have htrim := count_trimStartMatches "$exclusive/".toList fuel rest.toList
      have hmark : "$exclusive/".toList.count '/' = 1 := by decide
      unfold slashes
      rw [hstep, hchars, List.count_append, hmark]
      omega

theorem parseShared_ok {f : String} {sharedSubscription : Bool}
    {rest : Option String × Option String} {p : ParsedFilter}
    (h : parseShared f sharedSubscription rest = Except.ok p) :
    exists group, rest = (some group, some p.topicFilter) := by
  unfold parseShared at h
  split at h
  · next group tf =>
    split at h
    · rw [← Except.ok.inj h]
      exact ⟨group, rfl⟩
    · cases h
  · split at h <;> cases h

theorem parseLimited_ok {f : String} {limitSubscription : Bool}
    {rest : Option String × Option String} {p : ParsedFilter}
    (h : parseLimited f limitSubscription rest = Except.ok p) :
    exists limit, rest = (some limit, some p.topicFilter) := by
  unfold parseLimited at h
  split at h
  · next limit tf =>
    split at h
    · split at h
      · rw [← Except.ok.inj h]
        exact ⟨limit, rfl⟩
      · cases h
    · cases h
  · split at h <;> cases h

theorem parseExclusive_ok {f : String} {limitSubscription : Bool} {p : ParsedFilter}
    (h : parseExclusive f limitSubscription = Except.ok p) :
    p.topicFilter.toList = trimStartMatches "$exclusive/".toList f.toList.length f.toList := by
  unfold parseExclusive at h
  split at h
  · rw [← Except.ok.inj h, String.toList_ofList]
  · cases h

/-- What is left of a special request has fewer slashes. -/
theorem slashes_of_special {f : String} (hs : '/' ∈ f.toList)
    (hfront : (splitOnce f).1 ∈ specialFronts) {sharedSubscription limitSubscription : Bool}
    {p : ParsedFilter}
    (h : parsePrefixed f sharedSubscription limitSubscription = Except.ok p) :
    slashes p.topicFilter < slashes f := by
  unfold parsePrefixed at h
  simp only [specialFronts, List.mem_cons, List.not_mem_nil, or_false] at hfront
  rcases hfront with hshare | hlimit | hexclusive
  · rw [hshare] at h
    rcases parseShared_ok h with ⟨group, hrest⟩
    exact slashes_of_splitRest hrest
  · rw [hlimit] at h
    rcases parseLimited_ok h with ⟨limit, hrest⟩
    exact slashes_of_splitRest hrest
  · have htrim := slashes_of_exclusive hs hexclusive
    rw [hexclusive] at h
    rwa [← parseExclusive_ok h] at htrim

/-- An accepted request stands for its own text, or it was special and lost slashes. -/
theorem topicFilter_of_parseTopicFilter {f : String} (hs : '/' ∈ f.toList) {p : ParsedFilter}
    (h : parseTopicFilter f true true = Except.ok p) :
    p.topicFilter = f ∧ (splitOnce f).1 ∉ specialFronts ∨
      slashes p.topicFilter < slashes f := by
  have hparse : parsePrefixed f true true = Except.ok p := by
    unfold parseTopicFilter at h
    simp only [Bool.true_or, if_true] at h
    cases hprefixed : parsePrefixed f true true with
    | error e => simp [hprefixed] at h
    | ok q =>
        rw [hprefixed] at h
        dsimp only at h
        split at h
        · cases h
        · rw [Except.ok.inj h]
  by_cases hfront : (splitOnce f).1 ∈ specialFronts
  · exact Or.inr (slashes_of_special hs hfront hparse)
  · have hne : f ≠ "" := by
      intro hempty
      rw [hempty] at hs
      revert hs
      decide
    rw [parseTopicFilter_ordinary hne hfront] at h
    rw [← Except.ok.inj h]
    exact Or.inl ⟨rfl, hfront⟩

end Broker
end Ciqada
