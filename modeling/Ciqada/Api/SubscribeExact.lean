import Ciqada.Api.AuthInfo
import Ciqada.Broker.Subscription

/-!
# What an ordinary user may subscribe to

The check matches the rule patterns against the requested filter read as a
topic.  For literal prefixes the outcome is exactly that the filter's own front
levels are allowed, and every topic the filter matches is then allowed too.
-/

namespace Ciqada
namespace Api

open Broker Mqtt

/-- The second level is the user id, or an allowed prefix stands in front. -/
def AllowedText (record : UserRecord) (acl : AclConfig) (s : String) : Prop :=
  (exists first rest, levels s = first :: record.userid :: rest) ∨
    (exists p, p ∈ acl.fanoutPrefixes ∧ levels p <+: levels s) ∨
      (record.admin = true ∧ exists p, p ∈ acl.adminPrefixes ∧ levels p <+: levels s)

/--
A prefix that stands for itself: no wildcard, no placeholder, and not the rule
marker for exact texts.
-/
structure LiteralPrefix (p : String) : Prop where
  noWildcard : hasWildcardChar p = false
  noUsername : Acl.contains p Acl.placeholderUsername = false
  noClientid : Acl.contains p Acl.placeholderClientid = false
  noMarker : Acl.eqMarker.toList.isPrefixOf p.toList = false

/-!
## Rule texts without placeholders
-/

theorem disjoint_of_all {pat back : List Char}
    (h : pat.all (fun c => !back.contains c) = true) {c : Char} (hc : c ∈ pat) : c ∉ back := by
  have hnot := List.all_eq_true.mp h c hc
  simpa using hnot

/-- A pattern that shares no character with the appended text lies in front of it. -/
theorem infix_of_infix_append {pat front back : List Char} (hne : pat ≠ [])
    (hdisjoint : forall c, c ∈ pat -> c ∉ back) (h : pat <:+: front ++ back) :
    pat <:+: front := by
  rcases List.infix_append_iff.mp h with hfront | hback | hsplit
  · exact hfront
  · cases pat with
    | nil => exact absurd rfl hne
    | cons c cs =>
        exact absurd (hback.mem List.mem_cons_self) (hdisjoint c List.mem_cons_self)
  · rcases hsplit with ⟨l₁, l₂, heq, hsuffix, hstart⟩
    cases l₂ with
    | nil =>
        rw [heq, List.append_nil]
        exact hsuffix.isInfix
    | cons c cs =>
        have hmem : c ∈ pat := by
          rw [heq]
          exact List.mem_append_right _ List.mem_cons_self
        exact absurd (hstart.mem List.mem_cons_self) (hdisjoint c hmem)

theorem append_hash (p : String) : p ++ "/#" = p ++ "/" ++ "#" := by
  rw [String.append_assoc]
  rfl

theorem slash_mem_append_hash (p : String) : '/' ∈ (p ++ "/#").toList := by
  rw [String.toList_append]
  exact List.mem_append_right _ (by decide)

theorem ne_empty_of_slash {text : String} (hs : '/' ∈ text.toList) : text ≠ "" := by
  intro hempty
  rw [hempty] at hs
  revert hs
  decide

theorem contains_append_hash {p pat : String} (hne : pat.toList ≠ [])
    (hdisjoint : forall c, c ∈ pat.toList -> c ∉ "/#".toList)
    (h : Acl.contains p pat = false) : Acl.contains (p ++ "/#") pat = false := by
  unfold Acl.contains at h ⊢
  rw [decide_eq_false_iff_not] at h ⊢
  intro hwithin
  rw [String.toList_append] at hwithin
  exact h (infix_of_infix_append hne hdisjoint hwithin)

theorem prefix_of_prefix_append {pat front back : List Char}
    (hdisjoint : forall c, c ∈ pat -> c ∉ back) (h : pat <+: front ++ back) :
    pat <+: front := by
  rcases h with ⟨t, ht⟩
  rcases List.append_eq_append_iff.mp ht with hshort | hlong
  · rcases hshort with ⟨rest, hfront, _⟩
    exact ⟨rest, hfront.symm⟩
  · rcases hlong with ⟨rest, hpat, hback⟩
    cases rest with
    | nil =>
        rw [hpat, List.append_nil]
    | cons c cs =>
        have hmem : c ∈ pat := by
          rw [hpat]
          exact List.mem_append_right _ List.mem_cons_self
        have hin : c ∈ back := by
          rw [hback]
          exact List.mem_append_left _ List.mem_cons_self
        exact absurd hin (hdisjoint c hmem)

theorem marker_append_hash {p : String}
    (h : Acl.eqMarker.toList.isPrefixOf p.toList = false) :
    Acl.eqMarker.toList.isPrefixOf (p ++ "/#").toList = false := by
  rw [Bool.eq_false_iff] at h ⊢
  intro hmarker
  apply h
  rw [List.isPrefixOf_iff_prefix] at hmarker ⊢
  rw [String.toList_append] at hmarker
  exact prefix_of_prefix_append (fun _ hc => disjoint_of_all (by decide) hc) hmarker

theorem replaces_of_plain {text : String} {ci : ConnectInfo}
    (husername : Acl.contains text Acl.placeholderUsername = false)
    (hclientid : Acl.contains text Acl.placeholderClientid = false) :
    Acl.replaces text ci = Except.ok text := by
  unfold Acl.replaces
  rw [husername, hclientid]

/-- A rule text without marker and placeholders is parsed as it stands. -/
theorem tryFrom_of_plain {text : String} {ci : ConnectInfo}
    (hmarker : Acl.eqMarker.toList.isPrefixOf text.toList = false) (hne : text ≠ "")
    (husername : Acl.contains text Acl.placeholderUsername = false)
    (hclientid : Acl.contains text Acl.placeholderClientid = false) (f : String) :
    (exists topic, Acl.RuleTopic.tryFrom text ci = Except.ok topic ∧
        topic.isMatch f = true) <->
      exists t, Topic.fromStr text = Except.ok t ∧ t.matchesStr f = true := by
  have hstrip : Acl.stripEqMarker text = none := by
    unfold Acl.stripEqMarker
    rw [hmarker]
    rfl
  have hempty : text.isEmpty = false := by
    simpa [String.isEmpty_iff] using hne
  unfold Acl.RuleTopic.tryFrom
  rw [hstrip, hempty, replaces_of_plain husername hclientid]
  dsimp only
  cases hparse : Topic.fromStr text with
  | error e => simp
  | ok t =>
      constructor
      · intro h
        rcases h with ⟨topic, htopic, hmatch⟩
        refine ⟨t, rfl, ?_⟩
        rw [← Except.ok.inj htopic] at hmatch
        exact hmatch
      · intro h
        rcases h with ⟨t', ht', hmatch⟩
        refine ⟨_, rfl, ?_⟩
        rw [Except.ok.inj ht']
        exact hmatch

/-!
## The two kinds of rule
-/

theorem ruleMatches_literal {p f : String} (hp : LiteralPrefix p) (hf : PlainLevels f)
    (ci : ConnectInfo) :
    (exists topic, Acl.RuleTopic.tryFrom (p ++ "/#") ci = Except.ok topic ∧
        topic.isMatch f = true) <-> levels p <+: levels f := by
  have hne := ne_empty_of_slash (slash_mem_append_hash p)
  rw [tryFrom_of_plain (marker_append_hash hp.noMarker) hne
    (contains_append_hash (by decide) (fun _ hc => disjoint_of_all (by decide) hc)
      hp.noUsername)
    (contains_append_hash (by decide) (fun _ hc => disjoint_of_all (by decide) hc)
      hp.noClientid), append_hash]
  exact Topic.fromStr_literal_hash hp.noWildcard hf

/-- A valid segment has none of the characters that mean something in a rule. -/
theorem validSegment_chars {s : String} (hs : validSegment s = true) {c : Char}
    (hc : c ∈ s.toList) : c ≠ '/' ∧ c ≠ '+' ∧ c ≠ '#' ∧ c ≠ '$' := by
  unfold validSegment at hs
  simp only [Bool.and_eq_true, List.all_eq_true] at hs
  have hclass := hs.right c hc
  refine ⟨?_, ?_, ?_, ?_⟩ <;>
    · intro heq
      rw [heq] at hclass
      revert hclass
      decide

theorem validSegment_level {s : String} (hs : validSegment s = true) :
    levels s = [s] ∧ hasWildcardChar s = false ∧ isMetadata s = false ∧ s ≠ "" := by
  refine ⟨?_, ?_, ?_, ?_⟩
  · apply levels_of_no_slash
    intro hmem
    exact (validSegment_chars hs hmem).left rfl
  · unfold hasWildcardChar
    rw [List.any_eq_false]
    intro c hc
    have hchars := validSegment_chars hs hc
    simp [hchars.right.left, hchars.right.right.left]
  · unfold isMetadata
    cases hlist : s.toList with
    | nil => rfl
    | cons c cs =>
        have hc : c ∈ s.toList := by
          rw [hlist]
          exact List.mem_cons_self
        have hdollar := (validSegment_chars hs hc).right.right.right
        simpa using hdollar
  · intro hempty
    rw [hempty] at hs
    revert hs
    decide

/-- A text without the dollar sign contains no placeholder. -/
theorem contains_of_no_dollar {s pat : String} (hs : '$' ∉ s.toList)
    (hpat : '$' ∈ pat.toList) : Acl.contains s pat = false := by
  unfold Acl.contains
  rw [decide_eq_false_iff_not]
  intro hwithin
  exact hs (hwithin.mem hpat)

theorem toList_userid (userid : String) :
    ("+/" ++ userid).toList = '+' :: '/' :: userid.toList := by
  simp [String.toList_append]

theorem dollar_not_mem_userid {userid : String} (hid : validSegment userid = true) :
    '$' ∉ ("+/" ++ userid).toList := by
  rw [toList_userid]
  simp only [List.mem_cons, not_or]
  refine ⟨by decide, by decide, ?_⟩
  intro hmem
  exact (validSegment_chars hid hmem).right.right.right rfl

theorem levels_userid {userid : String} (hlevel : levels userid = [userid]) :
    levels ("+/" ++ userid ++ "/#") = ["+", userid, "#"] := by
  have htext : "+/" ++ userid ++ "/#" = "+" ++ "/" ++ (userid ++ "/" ++ "#") := by
    apply String.toList_inj.mp
    simp [String.toList_append]
  have hplus : levels "+" = ["+"] := levels_of_no_slash (by decide)
  have hhash : levels "#" = ["#"] := levels_of_no_slash (by decide)
  rw [htext, levels_append_slash, levels_append_slash, hplus, hhash, hlevel]
  rfl

theorem fromStr_userid {userid : String} (hid : validSegment userid = true) :
    Topic.fromStr ("+/" ++ userid ++ "/#") =
      Except.ok { levels := [Level.singleWildcard, literalLevel userid,
        Level.multiWildcard] } := by
  rcases validSegment_level hid with ⟨hlevel, hliteral, hplain, hnonempty⟩
  have hnormal : literalLevel userid = Level.normal userid := by
    unfold literalLevel
    rw [if_neg hnonempty, hplain]
    rfl
  have hmapM : ["+", userid, "#"].mapM Level.fromStr =
      Except.ok [Level.singleWildcard, literalLevel userid, Level.multiWildcard] := by
    rw [List.mapM_cons, List.mapM_cons, fromStr_literal hliteral]
    rfl
  have hvalid : Topic.isValid { levels := [Level.singleWildcard, literalLevel userid,
      Level.multiWildcard] } = true := by
    simp [Topic.isValid, hnormal, Level.isValid, hplain, hliteral, Topic.placed]
  unfold Topic.fromStr
  rw [levels_userid hlevel, hmapM]
  dsimp only
  rw [if_pos hvalid]

theorem matchTexts_userid (userid : String) {fs : List String}
    (hfs : forall level, level ∈ fs -> isMetadata level = false) :
    matchTexts [Level.singleWildcard, literalLevel userid, Level.multiWildcard] fs = true <->
      exists first rest, fs = first :: userid :: rest := by
  cases fs with
  | nil => simp [matchTexts, matchRest]
  | cons first fs =>
      have hfirst := hfs first List.mem_cons_self
      have hrest := @matchTexts_literal [userid] fs
        (fun level hl => hfs level (List.mem_cons_of_mem first hl))
      have hstep : matchTexts [Level.singleWildcard, literalLevel userid,
          Level.multiWildcard] (first :: fs) =
            matchTexts ([userid].map literalLevel ++ [Level.multiWildcard]) fs := by
        simp [matchTexts, matchLevel, hfirst]
      rw [hstep, hrest]
      constructor
      · intro h
        rcases h with ⟨rest, heq⟩
        exact ⟨first, rest, by rw [← heq]; rfl⟩
      · intro h
        rcases h with ⟨first', rest, heq⟩
        rw [(List.cons.inj heq).right]
        exact ⟨rest, rfl⟩

theorem ruleMatches_userid {userid f : String} (hid : validSegment userid = true)
    (hf : PlainLevels f) (ci : ConnectInfo) :
    (exists topic, Acl.RuleTopic.tryFrom ("+/" ++ userid ++ "/#") ci = Except.ok topic ∧
        topic.isMatch f = true) <->
      exists first rest, levels f = first :: userid :: rest := by
  have hdollar : '$' ∉ ("+/" ++ userid ++ "/#").toList := by
    rw [String.toList_append, List.mem_append, not_or]
    exact ⟨dollar_not_mem_userid hid, by decide⟩
  have hmarker : Acl.eqMarker.toList.isPrefixOf ("+/" ++ userid ++ "/#").toList = false := by
    apply marker_append_hash
    rw [toList_userid]
    rfl
  have hne := ne_empty_of_slash (slash_mem_append_hash ("+/" ++ userid))
  rw [tryFrom_of_plain hmarker hne (contains_of_no_dollar hdollar (by decide))
    (contains_of_no_dollar hdollar (by decide)), fromStr_userid hid]
  constructor
  · intro h
    rcases h with ⟨t, ht, hmatch⟩
    rw [← Except.ok.inj ht] at hmatch
    exact (matchTexts_userid userid hf).mp hmatch
  · intro h
    exact ⟨_, rfl, (matchTexts_userid userid hf).mpr h⟩

/-!
## The rule list
-/

theorem textMatches_append {ci : ConnectInfo} {xs ys : List String} {f : String} :
    TextMatches ci (xs ++ ys) f <-> TextMatches ci xs f ∨ TextMatches ci ys f := by
  unfold TextMatches
  constructor
  · intro h
    rcases h with ⟨text, topic, htext, hrule⟩
    rcases List.mem_append.mp htext with hx | hy
    · exact Or.inl ⟨text, topic, hx, hrule⟩
    · exact Or.inr ⟨text, topic, hy, hrule⟩
  · intro h
    rcases h with hx | hy
    · rcases hx with ⟨text, topic, htext, hrule⟩
      exact ⟨text, topic, List.mem_append_left _ htext, hrule⟩
    · rcases hy with ⟨text, topic, htext, hrule⟩
      exact ⟨text, topic, List.mem_append_right _ htext, hrule⟩

theorem textMatches_prefixes {ci : ConnectInfo} {prefixes : List String} {f : String}
    (hprefixes : forall p, p ∈ prefixes -> LiteralPrefix p) (hf : PlainLevels f) :
    TextMatches ci (prefixes.map (fun p => p ++ "/#")) f <->
      exists p, p ∈ prefixes ∧ levels p <+: levels f := by
  constructor
  · intro h
    rcases h with ⟨text, topic, htext, htry, hmatch⟩
    rcases List.mem_map.mp htext with ⟨p, hp, heq⟩
    rw [← heq] at htry
    exact ⟨p, hp, (ruleMatches_literal (hprefixes p hp) hf ci).mp ⟨topic, htry, hmatch⟩⟩
  · intro h
    rcases h with ⟨p, hp, hfront⟩
    rcases (ruleMatches_literal (hprefixes p hp) hf ci).mpr hfront with ⟨topic, htry, hmatch⟩
    exact ⟨p ++ "/#", topic, List.mem_map.mpr ⟨p, hp, rfl⟩, htry, hmatch⟩

theorem textMatches_subscribeFilters {record : UserRecord} {acl : AclConfig}
    {ci : ConnectInfo} {f : String} (hid : validSegment record.userid = true)
    (hfanout : forall p, p ∈ acl.fanoutPrefixes -> LiteralPrefix p)
    (hadmin : forall p, p ∈ acl.adminPrefixes -> LiteralPrefix p) (hf : PlainLevels f) :
    TextMatches ci (subscribeFilters record acl) f <-> AllowedText record acl f := by
  have huserid : TextMatches ci ["+/" ++ record.userid ++ "/#"] f <->
      exists first rest, levels f = first :: record.userid :: rest := by
    rw [← ruleMatches_userid hid hf ci]
    unfold TextMatches
    simp
  unfold subscribeFilters AllowedText
  rw [textMatches_append, textMatches_append, huserid, textMatches_prefixes hfanout hf,
    or_assoc]
  cases record.admin with
  | true => simp [textMatches_prefixes hadmin hf]
  | false => simp [TextMatches]

/-- A topic that an allowed filter matches is itself allowed. -/
theorem allowedText_of_matches {record : UserRecord} {acl : AclConfig} {f t : String}
    (hid : validSegment record.userid = true)
    (hfanout : forall p, p ∈ acl.fanoutPrefixes -> LiteralPrefix p)
    (hadmin : forall p, p ∈ acl.adminPrefixes -> LiteralPrefix p)
    (hvalid : ValidFilter f) (hallowed : AllowedText record acl f)
    (hmatch : filterMatches f t = true) : AllowedText record acl t := by
  have hlevels := matchLevels_of_filterMatches hmatch
  rcases hallowed with huserid | hfan | hadm
  · rcases huserid with ⟨first, rest, heq⟩
    left
    have hfirst : first ≠ "#" := by
      intro hhash
      have hwell := hvalid.right
      rw [heq, hhash] at hwell
      revert hwell
      simp [filterWellFormed]
    rw [heq] at hlevels
    exact second_of_matchLevels hfirst (validSegment_level hid).right.left hlevels
  · rcases hfan with ⟨p, hp, hfront⟩
    right
    left
    refine ⟨p, hp, prefix_of_matchLevels ?_ hfront hlevels⟩
    intro level hlevel
    exact hasWildcardChar_level (hfanout p hp).noWildcard hlevel
  · rcases hadm with ⟨hisAdmin, p, hp, hfront⟩
    right
    right
    refine ⟨hisAdmin, p, hp, prefix_of_matchLevels ?_ hfront hlevels⟩
    intro level hlevel
    exact hasWildcardChar_level (hadmin p hp).noWildcard hlevel

/-- The texts that ask for a filter: the filter itself or a shared request for it. -/
def Requests (text f : String) : Prop :=
  text = f ∨ exists group, '/' ∉ group.toList ∧ text = "$share" ++ "/" ++ (group ++ "/" ++ f)

theorem fromText_of_requests {text f : String} (htext : Requests text f)
    (hvalid : ValidFilter f) (hf : PlainLevels f) (qos : QoS) (limitSubscription : Bool) :
    exists req, Subscribe.fromText text qos true limitSubscription = Except.ok req ∧
      req.topicFilter = f := by
  unfold Subscribe.fromText
  rcases htext with hplain | hshared
  · rw [hplain, parseTopicFilter_plain hvalid.left hf]
    exact ⟨_, rfl, rfl⟩
  · rcases hshared with ⟨group, hgroup, heq⟩
    rw [heq, parseTopicFilter_share hvalid.left hgroup]
    exact ⟨_, rfl, rfl⟩

/--
For a filter outside the reserved name space the check accepts exactly the
allowed filters, however the filter is requested, and an accepted filter
matches only allowed topics.
-/
theorem subscribe_exact {record : UserRecord} {acl : AclConfig} (ci : ConnectInfo)
    (hordinary : record.superuser = false) (hid : validSegment record.userid = true)
    (henabled : acl.enabled = true)
    (hfanout : forall p, p ∈ acl.fanoutPrefixes -> LiteralPrefix p)
    (hadmin : forall p, p ∈ acl.adminPrefixes -> LiteralPrefix p)
    {f text : String} (hvalid : ValidFilter f) (hf : PlainLevels f)
    (htext : Requests text f) (qos : QoS) (limitSubscription : Bool) :
    exists req, Subscribe.fromText text qos true limitSubscription = Except.ok req ∧
      ((clientSubscribeCheckAcl acl (some (buildAuthInfo record acl ci)) req).success.isSome =
          true <-> AllowedText record acl f) ∧
      ((clientSubscribeCheckAcl acl (some (buildAuthInfo record acl ci)) req).success.isSome =
          true -> forall t, ValidTopic t -> filterMatches f t = true ->
            AllowedText record acl t) := by
  rcases fromText_of_requests htext hvalid hf qos limitSubscription with ⟨req, hreq, hfilter⟩
  have hexact : (clientSubscribeCheckAcl acl (some (buildAuthInfo record acl ci))
      req).success.isSome = true <-> AllowedText record acl f := by
    rw [clientSubscribeCheckAcl_build henabled hordinary, hfilter]
    exact textMatches_subscribeFilters hid hfanout hadmin hf
  refine ⟨req, hreq, hexact, ?_⟩
  intro haccept t _ hmatch
  exact allowedText_of_matches hid hfanout hadmin hvalid (hexact.mp haccept) hmatch

namespace Sample

def bob : UserRecord :=
  { username := "bob", userid := "b1", passwordHash := "", superuser := false,
    admin := false }

def bobLogin : ConnectInfo :=
  ConnectInfo.v3 { nodeId := 1, clientId := "c2", username := some "bob", createTime := 0 }
    { cleanSession := true, username := some "bob", password := none, lastWill := none }

/-- The default configuration with one fan-out prefix of the given text. -/
def fanoutOnly (p : String) : AclConfig :=
  { AclConfig.default with fanoutPrefixes := [p], adminPrefixes := [] }

theorem literalPrefix_fanout : LiteralPrefix "fanout" :=
  { noWildcard := by decide, noUsername := by decide, noClientid := by decide,
    noMarker := by decide }

end Sample

/-- A shared request for `chat/b1/#` is accepted, and so are its topics. -/
theorem subscribe_exact_shared :
    exists req, Subscribe.fromText "$share/g/chat/b1/#" QoS.atLeastOnce true false =
        Except.ok req ∧
      (clientSubscribeCheckAcl (Sample.fanoutOnly "fanout")
        (some (buildAuthInfo Sample.bob (Sample.fanoutOnly "fanout") Sample.bobLogin))
          req).success.isSome = true ∧
      AllowedText Sample.bob (Sample.fanoutOnly "fanout") "chat/b1/x" := by
  have hlevels : levels "chat/b1/#" = ["chat", "b1", "#"] := by decide
  have hprefixes : forall p, p ∈ (Sample.fanoutOnly "fanout").fanoutPrefixes ->
      LiteralPrefix p := by
    intro p hp
    rw [List.mem_singleton.mp hp]
    exact Sample.literalPrefix_fanout
  have hadmin : forall p, p ∈ (Sample.fanoutOnly "fanout").adminPrefixes ->
      LiteralPrefix p := by
    intro p hp
    cases hp
  have hvalid : ValidFilter "chat/b1/#" := ⟨by decide, by rw [hlevels]; decide⟩
  have hplain : PlainLevels "chat/b1/#" := by
    unfold PlainLevels
    rw [hlevels]
    decide
  have htext : Requests "$share/g/chat/b1/#" "chat/b1/#" :=
    Or.inr ⟨"g", by decide, by decide⟩
  have hid : validSegment Sample.bob.userid = true := by decide
  have hordinary : Sample.bob.superuser = false := rfl
  have henabled : (Sample.fanoutOnly "fanout").enabled = true := rfl
  rcases subscribe_exact Sample.bobLogin hordinary hid henabled hprefixes hadmin hvalid hplain
    htext QoS.atLeastOnce false with ⟨req, hreq, hexact, htopics⟩
  have haccept := hexact.mpr (Or.inl ⟨"chat", ["#"], hlevels⟩)
  exact ⟨req, hreq, haccept,
    htopics haccept "chat/b1/x" ⟨by decide, by decide⟩ (by decide)⟩

/--
A prefix that starts with the marker is a rule for one exact text, so a filter
is accepted that no prefix stands in front of.  With the access list off every
filter is accepted.
-/
theorem subscribe_exact_fails :
    (hasWildcardChar "eq fanout" = false ∧
      Acl.contains "eq fanout" Acl.placeholderUsername = false ∧
      Acl.contains "eq fanout" Acl.placeholderClientid = false ∧
      ValidFilter "fanout/#" ∧ PlainLevels "fanout/#" ∧
      validSegment Sample.bob.userid = true ∧ Sample.bob.superuser = false ∧
      (exists req, Subscribe.fromText "fanout/#" QoS.atMostOnce true false = Except.ok req ∧
        (clientSubscribeCheckAcl (Sample.fanoutOnly "eq fanout")
          (some (buildAuthInfo Sample.bob (Sample.fanoutOnly "eq fanout") Sample.bobLogin))
            req).success.isSome = true) ∧
      ¬ AllowedText Sample.bob (Sample.fanoutOnly "eq fanout") "fanout/#") ∧
    ((exists req, Subscribe.fromText "secret" QoS.atMostOnce true false = Except.ok req ∧
        (clientSubscribeCheckAcl { Sample.fanoutOnly "fanout" with enabled := false }
          (some (buildAuthInfo Sample.bob { Sample.fanoutOnly "fanout" with enabled := false }
            Sample.bobLogin)) req).success.isSome = true) ∧
      ¬ AllowedText Sample.bob { Sample.fanoutOnly "fanout" with enabled := false } "secret") := by
  have hfanout : levels "fanout/#" = ["fanout", "#"] := by decide
  have hsecret : levels "secret" = ["secret"] := by decide
  refine ⟨⟨by decide, by decide, by decide, ⟨by decide, by decide⟩, ?_, by decide, rfl,
    ⟨_, rfl, by decide⟩, ?_⟩, ⟨_, rfl, by decide⟩, ?_⟩
  · unfold PlainLevels
    rw [hfanout]
    decide
  · unfold AllowedText
    rw [hfanout]
    simp [Sample.bob, Sample.fanoutOnly]
    decide
  · unfold AllowedText
    rw [hsecret]
    simp [Sample.bob, Sample.fanoutOnly]
    decide

end Api
end Ciqada
