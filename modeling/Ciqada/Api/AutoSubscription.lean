import Ciqada.Api.SubscribeExact
import Ciqada.Api.UserStore
import Ciqada.Broker.RuleText

/-!
# Automatic subscriptions and the subscribe rules

The server can subscribe every connecting user to the filters its rules allow.
Both lists start from the same texts, but a rule text has its marker taken off
and its placeholders filled in, and is skipped when it does not parse, while a
subscription text is read for the special prefixes and stops at an error.  The
two agree exactly when every prefix in use reads back as it was written.
-/

namespace Ciqada
namespace Broker

namespace QoS

def tryFrom : Nat -> Option QoS
  | 0 => some atMostOnce
  | 1 => some atLeastOnce
  | 2 => some exactlyOnce
  | _ => none

end QoS

end Broker

namespace Api

open Broker Mqtt Foundation

structure FanoutConfig where
  qos : UInt8
  deriving DecidableEq

namespace FanoutConfig

def default : FanoutConfig :=
  { qos := 1 }

end FanoutConfig

structure UseridAutoSubscription where
  qos : QoS
  fanoutPrefixes : List String
  adminPrefixes : List String
  deriving DecidableEq

namespace UseridAutoSubscription

def new (fanout : FanoutConfig) (acl : AclConfig) : UseridAutoSubscription :=
  { qos := (QoS.tryFrom (min fanout.qos 2).toNat).getD QoS.atLeastOnce
    fanoutPrefixes := acl.fanoutPrefixes
    adminPrefixes := acl.adminPrefixes }

def subscription (a : UseridAutoSubscription) (filter : String) :
    Except FilterError Subscribe :=
  Subscribe.fromText filter a.qos true true

def filters (a : UseridAutoSubscription) (record : UserRecord) : List String :=
  ["+/" ++ record.userid ++ "/#"] ++ a.fanoutPrefixes.map (fun p => p ++ "/#") ++
    (if record.admin then a.adminPrefixes.map (fun p => p ++ "/#") else [])

/-- A user that cannot be looked up gets nothing; one bad filter fails the whole list. -/
def subscribes (a : UseridAutoSubscription) (f : Faults) (db : RedbStore) (id : Id) :
    Except FilterError (List Subscribe) :=
  match id.username with
  | none => Except.ok []
  | some username =>
      if f Call.getUser then Except.ok []
      else
        match db.getUser username with
        | none => Except.ok []
        | some record => (a.filters record).mapM a.subscription

end UseridAutoSubscription

/-!
## Agreement
-/

/-- The filters of the subscribe rules, in the order the rules stand. -/
def subscribeRuleFilters (a : Acl.AuthInfo) : List String :=
  (a.rules.filter (fun r => r.action == Acl.Action.subscribe)).map (fun r => r.topic.toText)

/-- The subscriptions are those of the rules, and the user's own check takes each of them. -/
structure AgreesWith (record : UserRecord) (acl : AclConfig) (ci : ConnectInfo)
    (subs : List Subscribe) : Prop where
  exact : subs.map Subscribe.topicFilter = subscribeRuleFilters (buildAuthInfo record acl ci)
  accepted : forall sub, sub ∈ subs ->
    (clientSubscribeCheckAcl acl (some (buildAuthInfo record acl ci)) sub).success.isSome = true

/-- The prefixes from which the texts of a user are made. -/
def usedPrefixes (record : UserRecord) (acl : AclConfig) : List String :=
  acl.fanoutPrefixes ++ (if record.admin then acl.adminPrefixes else [])

/--
The prefix asks for no special subscription, the marker and the placeholders
leave its text as it is, and without the marker the text parses.
-/
structure ReadsBack (ci : ConnectInfo) (p : String) : Prop where
  ordinary : (splitOnce p).1 ∉ specialFronts
  unchanged : Acl.ruleText (p ++ "/#") ci = Except.ok (p ++ "/#")
  parses : Acl.eqMarker.toList.isPrefixOf p.toList = true ∨
    (forall level, level ∈ levels p -> level = "+" ∨ hasWildcardChar level = false) ∧
      forall level, level ∈ (levels p).tail -> isMetadata level = false

/-!
## One text
-/

/-- The filter of the rule that a text becomes, if it becomes one. -/
def ruleFilter (ci : ConnectInfo) (text : String) : Option String :=
  (Acl.RuleTopic.tryFrom text ci).toOption.map Acl.RuleTopic.toText

theorem ruleFilter_eq_some_iff {ci : ConnectInfo} {text x : String} :
    ruleFilter ci text = some x <->
      exists topic, Acl.RuleTopic.tryFrom text ci = Except.ok topic ∧ topic.toText = x := by
  unfold ruleFilter
  cases Acl.RuleTopic.tryFrom text ci with
  | error e => simp [Except.toOption]
  | ok topic => simp [Except.toOption]

theorem fromText_ok_iff {text : String} {qos : QoS} {sub : Subscribe} :
    Subscribe.fromText text qos true true = Except.ok sub <->
      exists p, parseTopicFilter text true true = Except.ok p ∧
        sub = { topicFilter := p.topicFilter, qos := qos, sharedGroup := p.sharedGroup,
                limitSubs := p.limitSubs } := by
  unfold Subscribe.fromText
  cases parseTopicFilter text true true with
  | error e => simp
  | ok p => simp [eq_comm]

/-- A text is subscribed as its own rule exactly when it is ordinary and its rule keeps it. -/
theorem text_agrees_iff {ci : ConnectInfo} {text : String} (hs : '/' ∈ text.toList)
    (qos : QoS) :
    (exists sub, Subscribe.fromText text qos true true = Except.ok sub ∧
        ruleFilter ci text = some sub.topicFilter) <->
      (splitOnce text).1 ∉ specialFronts ∧ ruleFilter ci text = some text := by
  have hne := ne_empty_of_slash hs
  constructor
  · intro h
    rcases h with ⟨sub, hsub, hrule⟩
    rcases fromText_ok_iff.mp hsub with ⟨p, hp, heq⟩
    have hfilter : sub.topicFilter = p.topicFilter := by rw [heq]
    rw [hfilter] at hrule
    rcases topicFilter_of_parseTopicFilter hs hp with hself | hfewer
    · rw [hself.left] at hrule
      exact ⟨hself.right, hrule⟩
    · -- The rule keeps every slash, a special subscription has lost one.
      have htext := ((Acl.tryFrom_toText_iff hne).mp (ruleFilter_eq_some_iff.mp hrule)).left
      exact absurd (Acl.slashes_ruleText htext) (Nat.not_le.mpr hfewer)
  · intro h
    rcases h with ⟨hfront, hrule⟩
    exact ⟨_, fromText_ok_iff.mpr ⟨_, parseTopicFilter_ordinary hne hfront true true, rfl⟩,
      hrule⟩

/-!
## The texts of a user
-/

theorem splitOnce_append_hash (p : String) : (splitOnce (p ++ "/#")).1 = (splitOnce p).1 := by
  by_cases hs : '/' ∈ p.toList
  · rcases exists_split_of_slash hs with ⟨front, rest, hfront, heq⟩
    have hlong : p ++ "/#" = front ++ "/" ++ (rest ++ "/#") := by
      rw [heq, String.append_assoc]
    rw [hlong, heq, splitOnce_append_slash hfront, splitOnce_append_slash hfront]
  · rw [append_hash, splitOnce_append_slash hs, splitOnce_of_no_slash hs]

theorem levels_append_hash (p : String) : levels (p ++ "/#") = levels p ++ ["#"] := by
  have hhash : levels "#" = ["#"] := levels_of_no_slash (by decide)
  rw [append_hash, levels_append_slash, hhash]

theorem marker_append_hash_iff (p : String) :
    (Acl.stripEqMarker (p ++ "/#")).isSome = true <->
      Acl.eqMarker.toList.isPrefixOf p.toList = true := by
  have hstrip : (Acl.stripEqMarker (p ++ "/#")).isSome =
      Acl.eqMarker.toList.isPrefixOf (p ++ "/#").toList := by
    unfold Acl.stripEqMarker
    cases Acl.eqMarker.toList.isPrefixOf (p ++ "/#").toList <;> rfl
  rw [hstrip]
  constructor
  · intro h
    rw [← Bool.not_eq_false]
    intro hnot
    rw [marker_append_hash hnot] at h
    cases h
  · intro h
    rw [List.isPrefixOf_iff_prefix] at h ⊢
    rw [String.toList_append]
    exact h.trans (List.prefix_append _ _)

theorem levelWellFormed_inner_iff (level : String) :
    levelWellFormed level = true ∧ level ≠ "#" <->
      level = "+" ∨ hasWildcardChar level = false := by
  unfold levelWellFormed
  by_cases hplus : level = "+"
  · simp [hplus]
  · by_cases hhash : level = "#"
    · rw [hhash]
      decide
    · simp [hplus, hhash]

/-- A prefix with its hash parses when its wildcards stand alone. -/
theorem fromStr_append_hash_iff (p : String) :
    (exists t, Topic.fromStr (p ++ "/#") = Except.ok t) <->
      (forall level, level ∈ levels p -> level = "+" ∨ hasWildcardChar level = false) ∧
        forall level, level ∈ (levels p).tail -> isMetadata level = false := by
  have hne := Topic.levels_ne_nil p
  rw [Topic.fromStr_isOk_iff, levels_append_hash, Topic.filterWellFormed_iff,
    List.dropLast_concat, List.tail_append_of_ne_nil hne]
  simp only [List.forall_mem_append, List.forall_mem_singleton, ← levelWellFormed_inner_iff]
  constructor
  · intro h
    refine ⟨?_, h.right.left⟩
    intro level hlevel
    exact ⟨h.left.right.left.left level hlevel, h.left.right.right level hlevel⟩
  · intro h
    refine ⟨⟨List.append_ne_nil_of_left_ne_nil hne _, ⟨?_, by decide⟩, ?_⟩, h.right, by decide⟩
    · intro level hlevel
      exact (h.left level hlevel).left
    · intro level hlevel
      exact (h.left level hlevel).right

/-- A prefix is subscribed as the rule it becomes exactly when it reads back. -/
theorem prefix_agrees_iff (ci : ConnectInfo) (p : String) (qos : QoS) :
    (exists sub, Subscribe.fromText (p ++ "/#") qos true true = Except.ok sub ∧
        ruleFilter ci (p ++ "/#") = some sub.topicFilter) <-> ReadsBack ci p := by
  have hs := slash_mem_append_hash p
  rw [text_agrees_iff hs, splitOnce_append_hash, ruleFilter_eq_some_iff,
    Acl.tryFrom_toText_iff (ne_empty_of_slash hs), marker_append_hash_iff,
    fromStr_append_hash_iff]
  constructor
  · intro h
    exact { ordinary := h.left, unchanged := h.right.left, parses := h.right.right }
  · intro h
    exact ⟨h.ordinary, h.unchanged, h.parses⟩

/-- A prefix without marker, placeholders and reserved levels reads back. -/
theorem readsBack_of_plain {p : String} (ci : ConnectInfo)
    (hmarker : Acl.eqMarker.toList.isPrefixOf p.toList = false)
    (husername : Acl.contains p Acl.placeholderUsername = false)
    (hclientid : Acl.contains p Acl.placeholderClientid = false)
    (hwild : forall level, level ∈ levels p -> level = "+" ∨ hasWildcardChar level = false)
    (hplain : PlainLevels p) : ReadsBack ci p := by
  have hstrip : Acl.stripEqMarker (p ++ "/#") = none := by
    unfold Acl.stripEqMarker
    rw [marker_append_hash hmarker]
    rfl
  have hunchanged : Acl.ruleText (p ++ "/#") ci = Except.ok (p ++ "/#") := by
    unfold Acl.ruleText
    rw [hstrip, Option.getD_none]
    exact replaces_of_plain
      (contains_append_hash (by decide) (fun _ hc => disjoint_of_all (by decide) hc) husername)
      (contains_append_hash (by decide) (fun _ hc => disjoint_of_all (by decide) hc) hclientid)
  exact
    { ordinary := not_special_of_plainLevels hplain
      unchanged := hunchanged
      parses := Or.inr ⟨hwild, fun level hlevel => hplain level (List.mem_of_mem_tail hlevel)⟩ }

theorem readsBack_of_literal {p : String} (ci : ConnectInfo) (hp : LiteralPrefix p)
    (hplain : PlainLevels p) : ReadsBack ci p :=
  readsBack_of_plain ci hp.noMarker hp.noUsername hp.noClientid
    (fun _ hlevel => Or.inr (hasWildcardChar_level hp.noWildcard hlevel)) hplain

theorem readsBack_userid {userid : String} (hid : validSegment userid = true)
    (ci : ConnectInfo) : ReadsBack ci ("+/" ++ userid) := by
  rcases validSegment_level hid with ⟨hlevel, hliteral, hmeta, _⟩
  have hlevels : levels ("+/" ++ userid) = ["+", userid] := by
    have hplus : levels "+" = ["+"] := levels_of_no_slash (by decide)
    have htext : "+/" ++ userid = "+" ++ "/" ++ userid := rfl
    rw [htext, levels_append_slash, hplus, hlevel]
    rfl
  have hdollar := dollar_not_mem_userid hid
  apply readsBack_of_plain ci
  · rw [toList_userid]
    rfl
  · exact contains_of_no_dollar hdollar (by decide)
  · exact contains_of_no_dollar hdollar (by decide)
  · rw [hlevels]
    intro level hmem
    rcases List.mem_cons.mp hmem with hplus | hrest
    · exact Or.inl hplus
    · rw [List.mem_singleton.mp hrest]
      exact Or.inr hliteral
  · unfold PlainLevels
    rw [hlevels]
    intro level hmem
    rcases List.mem_cons.mp hmem with hplus | hrest
    · rw [hplus]
      decide
    · rw [List.mem_singleton.mp hrest]
      exact hmeta

/-!
## The two lists
-/

theorem subscribeFilters_eq (record : UserRecord) (acl : AclConfig) :
    subscribeFilters record acl =
      (("+/" ++ record.userid) :: usedPrefixes record acl).map (fun p => p ++ "/#") := by
  unfold subscribeFilters usedPrefixes
  cases record.admin <;> simp

theorem filters_new (fanout : FanoutConfig) (record : UserRecord) (acl : AclConfig) :
    (UseridAutoSubscription.new fanout acl).filters record = subscribeFilters record acl := rfl

theorem map_toText_rulesOf (action : Acl.Action) (ci : ConnectInfo) (texts : List String) :
    (rulesOf action ci texts).map (fun r => r.topic.toText) =
      texts.filterMap (ruleFilter ci) := by
  unfold rulesOf
  rw [List.map_filterMap]
  congr 1
  funext text
  unfold ruleFilter
  cases Acl.RuleTopic.tryFrom text ci <;> rfl

/-- The filters of the rules are those of the texts that become rules. -/
theorem subscribeRuleFilters_build {record : UserRecord} (hordinary : record.superuser = false)
    (acl : AclConfig) (ci : ConnectInfo) :
    subscribeRuleFilters (buildAuthInfo record acl ci) =
      (subscribeFilters record acl).filterMap (ruleFilter ci) := by
  have hrules : (buildAuthInfo record acl ci).rules =
      rulesOf Acl.Action.subscribe ci (subscribeFilters record acl) ++
        rulesOf Acl.Action.publish ci (acl.publishTopics.map (fun t => "eq " ++ t)) := by
    unfold buildAuthInfo
    rw [hordinary]
    rfl
  have hkeep : forall r, r ∈ rulesOf Acl.Action.subscribe ci (subscribeFilters record acl) ->
      (r.action == Acl.Action.subscribe) = true := by
    intro r hr
    rcases mem_rulesOf.mp hr with ⟨_, _, _, _, hrule⟩
    rw [hrule]
    rfl
  have hdrop : forall r,
      r ∈ rulesOf Acl.Action.publish ci (acl.publishTopics.map (fun t => "eq " ++ t)) ->
        ¬ (r.action == Acl.Action.subscribe) = true := by
    intro r hr
    rcases mem_rulesOf.mp hr with ⟨_, _, _, _, hrule⟩
    rw [hrule]
    exact Bool.false_ne_true
  unfold subscribeRuleFilters
  rw [hrules, List.filter_append, List.filter_eq_self.mpr hkeep,
    List.filter_eq_nil_iff.mpr hdrop, List.append_nil, map_toText_rulesOf]

/-- The check takes the filter of every rule. -/
theorem accepted_of_ruleFilter {record : UserRecord} {acl : AclConfig} {ci : ConnectInfo}
    (hordinary : record.superuser = false) {text : String} {sub : Subscribe}
    (htext : text ∈ subscribeFilters record acl)
    (hrule : ruleFilter ci text = some sub.topicFilter) :
    (clientSubscribeCheckAcl acl (some (buildAuthInfo record acl ci)) sub).success.isSome =
      true := by
  cases henabled : acl.enabled with
  | false => simp [clientSubscribeCheckAcl, henabled]
  | true =>
      rw [clientSubscribeCheckAcl_build henabled hordinary]
      rcases ruleFilter_eq_some_iff.mp hrule with ⟨topic, htopic, hfilter⟩
      refine ⟨text, topic, htext, htopic, ?_⟩
      rw [← hfilter]
      exact Acl.isMatch_toText htopic

section Agreement

variable {record : UserRecord} {acl : AclConfig} {ci : ConnectInfo}

theorem subscribes_of_stored (fanout : FanoutConfig) {f : Faults} {db : RedbStore} {id : Id}
    (huser : id.username = some record.username) (hlookup : f Call.getUser = false)
    (hstored : db.getUser record.username = some record) :
    (UseridAutoSubscription.new fanout acl).subscribes f db id =
      (subscribeFilters record acl).mapM
        (UseridAutoSubscription.new fanout acl).subscription := by
  unfold UseridAutoSubscription.subscribes
  rw [huser]
  dsimp only
  rw [hlookup, hstored, ← filters_new fanout record acl]
  rfl

/--
Whatever the configuration, a user is subscribed to exactly the filters of its
own rules, each of which its check takes, if and only if every prefix in use
reads back for the connection.
-/
theorem auto_subscription_agrees_iff (fanout : FanoutConfig) {f : Faults} {db : RedbStore}
    (hordinary : record.superuser = false) (hid : validSegment record.userid = true)
    (huser : ci.id.username = some record.username) (hlookup : f Call.getUser = false)
    (hstored : db.getUser record.username = some record) :
    (exists subs, (UseridAutoSubscription.new fanout acl).subscribes f db ci.id =
        Except.ok subs ∧ AgreesWith record acl ci subs) <->
      forall p, p ∈ usedPrefixes record acl -> ReadsBack ci p := by
  have hboth : (exists subs, (subscribeFilters record acl).mapM
        (UseridAutoSubscription.new fanout acl).subscription = Except.ok subs ∧
          subs.map Subscribe.topicFilter =
            (subscribeFilters record acl).filterMap (ruleFilter ci)) <->
      forall p, p ∈ usedPrefixes record acl -> ReadsBack ci p := by
    rw [mapM_eq_filterMap_iff, subscribeFilters_eq, List.forall_mem_map, List.forall_mem_cons]
    constructor
    · intro h p hp
      exact (prefix_agrees_iff ci p _).mp (h.right p hp)
    · intro h
      refine ⟨(prefix_agrees_iff ci _ _).mpr (readsBack_userid hid ci), ?_⟩
      intro p hp
      exact (prefix_agrees_iff ci p _).mpr (h p hp)
  rw [subscribes_of_stored fanout huser hlookup hstored, ← hboth]
  constructor
  · intro h
    rcases h with ⟨subs, hsubs, hagrees⟩
    refine ⟨subs, hsubs, ?_⟩
    rw [hagrees.exact, subscribeRuleFilters_build hordinary]
  · intro h
    rcases h with ⟨subs, hsubs, hexact⟩
    refine ⟨subs, hsubs, { exact := ?_, accepted := ?_ }⟩
    · rw [hexact, subscribeRuleFilters_build hordinary]
    · intro sub hsub
      rcases exists_of_mem_mapM hsubs hsub with ⟨text, htext, hsubscription⟩
      rcases mapM_eq_filterMap_iff.mp ⟨subs, hsubs, hexact⟩ text htext with
        ⟨sub', hsub', hrule⟩
      have heq : sub' = sub := by
        rw [hsub'] at hsubscription
        exact Except.ok.inj hsubscription
      rw [heq] at hrule
      exact accepted_of_ruleFilter hordinary htext hrule

end Agreement

namespace Sample

def root : UserRecord :=
  { bob with username := "root", userid := "r1", admin := true }

def rootLogin : ConnectInfo :=
  ConnectInfo.v5 { nodeId := 1, clientId := "c3", username := some "root", createTime := 0 }
    { cleanStart := true, sessionExpiryIntervalSecs := 0, username := some "root",
      password := none, lastWill := none }

def users : RedbStore :=
  (RedbStore.empty.upsertUser bob.toNewUser).upsertUser root.toNewUser

end Sample

/-- The default configuration subscribes an administrator to its three filters. -/
theorem auto_subscription_agrees_iff_admin :
    exists subs, (UseridAutoSubscription.new FanoutConfig.default AclConfig.default).subscribes
        noFaults Sample.users Sample.rootLogin.id = Except.ok subs ∧
      AgreesWith Sample.root AclConfig.default Sample.rootLogin subs := by
  apply (auto_subscription_agrees_iff FanoutConfig.default rfl (by decide) rfl rfl
    (by decide)).mpr
  have hused : usedPrefixes Sample.root AclConfig.default = ["fanout", "adminfanout"] := rfl
  have hplain : forall p, p ∈ ["fanout", "adminfanout"] ->
      forall level, level ∈ levels p -> isMetadata level = false := by decide
  rw [hused]
  intro p hp
  refine readsBack_of_literal Sample.rootLogin ?_ (hplain p hp)
  simp only [List.mem_cons, List.not_mem_nil, or_false] at hp
  rcases hp with hfanout | hadmin
  · rw [hfanout]
    exact Sample.literalPrefix_fanout
  · rw [hadmin]
    exact { noWildcard := by decide, noUsername := by decide, noClientid := by decide,
            noMarker := by decide }

/--
A placeholder is filled in for the rule and kept in the subscription, which the
user's check then refuses; a prefix for shared groups fails every subscription.
-/
theorem auto_subscription_agrees_fails :
    (Sample.bob.superuser = false ∧ validSegment Sample.bob.userid = true ∧
      Sample.bobLogin.id.username = some Sample.bob.username ∧
      Sample.users.getUser Sample.bob.username = some Sample.bob) ∧
    (exists subs, (UseridAutoSubscription.new FanoutConfig.default
          (Sample.fanoutOnly "users/${username}")).subscribes noFaults Sample.users
            Sample.bobLogin.id = Except.ok subs ∧
        subs.map Subscribe.topicFilter = ["+/b1/#", "users/${username}/#"] ∧
        subscribeRuleFilters (buildAuthInfo Sample.bob (Sample.fanoutOnly "users/${username}")
          Sample.bobLogin) = ["+/b1/#", "users/bob/#"] ∧
        (exists sub, sub ∈ subs ∧
          (clientSubscribeCheckAcl (Sample.fanoutOnly "users/${username}")
            (some (buildAuthInfo Sample.bob (Sample.fanoutOnly "users/${username}")
              Sample.bobLogin)) sub).success.isSome = false) ∧
        ¬ AgreesWith Sample.bob (Sample.fanoutOnly "users/${username}") Sample.bobLogin subs) ∧
    (UseridAutoSubscription.new FanoutConfig.default (Sample.fanoutOnly "$share")).subscribes
      noFaults Sample.users Sample.bobLogin.id =
        Except.error (FilterError.illegal "$share/#") := by
  have hbob : Sample.users.getUser Sample.bob.username = some Sample.bob := by decide
  have hrun := @subscribes_of_stored Sample.bob (Sample.fanoutOnly "users/${username}")
    FanoutConfig.default noFaults Sample.users Sample.bobLogin.id rfl rfl hbob
  have hshare := @subscribes_of_stored Sample.bob (Sample.fanoutOnly "$share")
    FanoutConfig.default noFaults Sample.users Sample.bobLogin.id rfl rfl hbob
  rw [hrun, hshare]
  refine ⟨⟨rfl, by decide, rfl, hbob⟩, ⟨_, rfl, by decide, by decide, ?_, ?_⟩, by decide⟩
  · exact ⟨_, List.mem_cons_of_mem _ List.mem_cons_self, by decide⟩
  · intro hagrees
    exact absurd hagrees.exact (by decide)

end Api
end Ciqada
