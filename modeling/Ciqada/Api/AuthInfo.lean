import Ciqada.Broker.Acl

/-!
# User records and the rules built from them

A record of the user table names the topic segment of the user and two flags.
When a connection is accepted, the record and the access configuration are
turned into the rule list that the session carries.
-/

namespace Ciqada
namespace Api

open Broker

structure UserRecord where
  username : String
  userid : String
  passwordHash : String
  superuser : Bool
  admin : Bool
  deriving DecidableEq

structure NewUser where
  username : String
  userid : String
  passwordHash : String
  superuser : Bool
  admin : Bool
  deriving DecidableEq

def UserRecord.toNewUser (r : UserRecord) : NewUser :=
  { username := r.username, userid := r.userid, passwordHash := r.passwordHash,
    superuser := r.superuser, admin := r.admin }

def NewUser.toRecord (u : NewUser) : UserRecord :=
  { username := u.username, userid := u.userid, passwordHash := u.passwordHash,
    superuser := u.superuser, admin := u.admin }

@[simp] theorem toRecord_toNewUser (r : UserRecord) : r.toNewUser.toRecord = r := rfl

structure AclConfig where
  enabled : Bool
  publishTopics : List String
  fanoutPrefixes : List String
  adminPrefixes : List String
  deriving DecidableEq

namespace AclConfig

def default : AclConfig :=
  { enabled := true
    publishTopics := ["chatsync", "updates"]
    fanoutPrefixes := ["fanout"]
    adminPrefixes := ["adminfanout"] }

end AclConfig

def isAsciiAlphanumeric (c : Char) : Bool :=
  ('a' ≤ c && c ≤ 'z') || ('A' ≤ c && c ≤ 'Z') || ('0' ≤ c && c ≤ '9')

def isAsciiGraphic (c : Char) : Bool :=
  '!' ≤ c && c ≤ '~'

def validSegment (s : String) : Bool :=
  !s.isEmpty && decide (s.utf8ByteSize ≤ 64) &&
    s.toList.all (fun c => isAsciiAlphanumeric c || c == '_' || c == '-')

def validUsername (s : String) : Bool :=
  !s.isEmpty && decide (s.utf8ByteSize ≤ 128) && s.toList.all isAsciiGraphic

/-!
## Building the rule list

Texts that do not parse as rule topics are skipped.
-/

/-- One allowing rule for each text that parses. -/
def rulesOf (action : Acl.Action) (ci : ConnectInfo) (texts : List String) :
    List Acl.Rule :=
  texts.filterMap fun text =>
    match Acl.RuleTopic.tryFrom text ci with
    | Except.ok topic =>
        some { permission := Acl.Permission.allow, action := action, qos := none,
               retain := none, topic := topic }
    | Except.error _ => none

def subscribeFilters (record : UserRecord) (acl : AclConfig) : List String :=
  ["+/" ++ record.userid ++ "/#"] ++ acl.fanoutPrefixes.map (fun p => p ++ "/#") ++
    (if record.admin then acl.adminPrefixes.map (fun p => p ++ "/#") else [])

def buildAuthInfo (record : UserRecord) (acl : AclConfig) (ci : ConnectInfo) :
    Acl.AuthInfo :=
  if record.superuser then
    { superuser := true, expireAt := none, rules := [] }
  else
    { superuser := false
      expireAt := none
      rules :=
        rulesOf Acl.Action.subscribe ci (subscribeFilters record acl) ++
          rulesOf Acl.Action.publish ci (acl.publishTopics.map (fun t => "eq " ++ t)) }

/-!
## The check hooks

The broker asks these hooks before it takes a subscription or a message.  With
the access list off everything passes; a session without rules is refused.
-/

def clientSubscribeCheckAcl (acl : AclConfig) (authInfo : Option Acl.AuthInfo)
    (subscribe : Subscribe) : SubscribeAckReason :=
  if !acl.enabled then SubscribeAckReason.newSuccess subscribe.qos
  else
    match authInfo.bind (fun a => a.subscribeAcl subscribe) with
    | some res => res
    | none => SubscribeAckReason.notAuthorized

def messagePublishCheckAcl (acl : AclConfig) (authInfo : Option Acl.AuthInfo)
    (publish : Publish) : PublishAclResult :=
  if !acl.enabled then PublishAclResult.allow
  else
    match authInfo.bind (fun a => a.publishAcl publish true) with
    | some res => res
    | none => PublishAclResult.rejected true

/-!
## What a rule list accepts
-/

theorem mem_rulesOf {action : Acl.Action} {ci : ConnectInfo} {texts : List String}
    {r : Acl.Rule} :
    r ∈ rulesOf action ci texts <->
      exists text topic, text ∈ texts ∧ Acl.RuleTopic.tryFrom text ci = Except.ok topic ∧
        r = { permission := Acl.Permission.allow, action := action, qos := none,
              retain := none, topic := topic } := by
  unfold rulesOf
  rw [List.mem_filterMap]
  constructor
  · rintro ⟨text, htext, hrule⟩
    cases htopic : Acl.RuleTopic.tryFrom text ci with
    | error e => simp [htopic] at hrule
    | ok topic =>
        rw [htopic] at hrule
        exact ⟨text, topic, htext, htopic, (Option.some.inj hrule).symm⟩
  · rintro ⟨text, topic, htext, htopic, hrule⟩
    refine ⟨text, htext, ?_⟩
    rw [htopic, hrule]

theorem buildAuthInfo_allowOnly (record : UserRecord) (acl : AclConfig)
    (ci : ConnectInfo) : Acl.AllowOnly (buildAuthInfo record acl ci).rules := by
  intro r hr
  unfold buildAuthInfo at hr
  split at hr
  · cases hr
  · rcases List.mem_append.mp hr with h | h <;>
      · rcases mem_rulesOf.mp h with ⟨_, _, _, _, hrule⟩
        rw [hrule]

/-- Some text of the list parses to a rule topic that matches. -/
def TextMatches (ci : ConnectInfo) (texts : List String) (s : String) : Prop :=
  exists text topic, text ∈ texts ∧ Acl.RuleTopic.tryFrom text ci = Except.ok topic ∧
    topic.isMatch s = true

theorem any_subscribeHit_rulesOf (ci : ConnectInfo) (texts : List String)
    (subscribe : Subscribe) :
    (rulesOf Acl.Action.subscribe ci texts).any (fun r => r.subscribeHit subscribe) = true <->
      TextMatches ci texts subscribe.topicFilter := by
  rw [List.any_eq_true]
  constructor
  · rintro ⟨r, hr, hhit⟩
    rcases mem_rulesOf.mp hr with ⟨text, topic, htext, htopic, hrule⟩
    refine ⟨text, topic, htext, htopic, ?_⟩
    rw [hrule] at hhit
    simpa [Acl.Rule.subscribeHit, Acl.Rule.qosHit] using hhit
  · rintro ⟨text, topic, htext, htopic, hmatch⟩
    refine ⟨_, mem_rulesOf.mpr ⟨text, topic, htext, htopic, rfl⟩, ?_⟩
    simpa [Acl.Rule.subscribeHit, Acl.Rule.qosHit] using hmatch

theorem any_publishHit_rulesOf (ci : ConnectInfo) (texts : List String)
    (publish : Publish) :
    (rulesOf Acl.Action.publish ci texts).any (fun r => r.publishAllowHit publish) = true <->
      TextMatches ci texts publish.topic := by
  rw [List.any_eq_true]
  constructor
  · rintro ⟨r, hr, hhit⟩
    rcases mem_rulesOf.mp hr with ⟨text, topic, htext, htopic, hrule⟩
    refine ⟨text, topic, htext, htopic, ?_⟩
    rw [hrule] at hhit
    simpa [Acl.Rule.publishAllowHit, Acl.Rule.publishHit, Acl.Rule.qosHit] using hhit
  · rintro ⟨text, topic, htext, htopic, hmatch⟩
    refine ⟨_, mem_rulesOf.mpr ⟨text, topic, htext, htopic, rfl⟩, ?_⟩
    simpa [Acl.Rule.publishAllowHit, Acl.Rule.publishHit, Acl.Rule.qosHit] using hmatch

theorem any_subscribeHit_publishRules (ci : ConnectInfo) (texts : List String)
    (subscribe : Subscribe) :
    (rulesOf Acl.Action.publish ci texts).any (fun r => r.subscribeHit subscribe) = false := by
  rw [List.any_eq_false]
  intro r hr
  rcases mem_rulesOf.mp hr with ⟨_, _, _, _, hrule⟩
  rw [hrule]
  simp [Acl.Rule.subscribeHit]

theorem any_publishHit_subscribeRules (ci : ConnectInfo) (texts : List String)
    (publish : Publish) :
    (rulesOf Acl.Action.subscribe ci texts).any (fun r => r.publishAllowHit publish) =
      false := by
  rw [List.any_eq_false]
  intro r hr
  rcases mem_rulesOf.mp hr with ⟨_, _, _, _, hrule⟩
  rw [hrule]
  simp [Acl.Rule.publishAllowHit, Acl.Rule.publishHit]

section Checks

variable {record : UserRecord} {acl : AclConfig} {ci : ConnectInfo}

/-- The subscribe check of an ordinary user asks the subscribe texts only. -/
theorem clientSubscribeCheckAcl_build (henabled : acl.enabled = true)
    (hordinary : record.superuser = false) (subscribe : Subscribe) :
    (clientSubscribeCheckAcl acl (some (buildAuthInfo record acl ci)) subscribe).success.isSome =
        true <->
      TextMatches ci (subscribeFilters record acl) subscribe.topicFilter := by
  have hrules := Acl.subscribeRules_allowOnly (buildAuthInfo_allowOnly record acl ci) subscribe
  have hsuper : (buildAuthInfo record acl ci).superuser = false := by
    simp [buildAuthInfo, hordinary]
  have hany : (buildAuthInfo record acl ci).rules.any (fun r => r.subscribeHit subscribe) =
      (rulesOf Acl.Action.subscribe ci (subscribeFilters record acl)).any
        (fun r => r.subscribeHit subscribe) := by
    simp [buildAuthInfo, hordinary, any_subscribeHit_publishRules]
  rw [hany] at hrules
  rw [← any_subscribeHit_rulesOf]
  cases hhit : (rulesOf Acl.Action.subscribe ci (subscribeFilters record acl)).any
      (fun r => r.subscribeHit subscribe) with
  | false =>
      rw [hhit] at hrules
      simp [clientSubscribeCheckAcl, henabled, Acl.AuthInfo.subscribeAcl, hsuper, hrules,
        SubscribeAckReason.success]
  | true =>
      rw [hhit] at hrules
      simp [clientSubscribeCheckAcl, henabled, Acl.AuthInfo.subscribeAcl, hsuper, hrules]

/-- The publish check of an ordinary user asks the publish texts only. -/
theorem messagePublishCheckAcl_build (henabled : acl.enabled = true)
    (hordinary : record.superuser = false) (publish : Publish) :
    messagePublishCheckAcl acl (some (buildAuthInfo record acl ci)) publish =
        PublishAclResult.allow <->
      TextMatches ci (acl.publishTopics.map (fun t => "eq " ++ t)) publish.topic := by
  have hrules := Acl.publishRules_allowOnly (buildAuthInfo_allowOnly record acl ci) publish true
  have hsuper : (buildAuthInfo record acl ci).superuser = false := by
    simp [buildAuthInfo, hordinary]
  have hany : (buildAuthInfo record acl ci).rules.any (fun r => r.publishAllowHit publish) =
      (rulesOf Acl.Action.publish ci (acl.publishTopics.map (fun t => "eq " ++ t))).any
        (fun r => r.publishAllowHit publish) := by
    simp [buildAuthInfo, hordinary, any_publishHit_subscribeRules]
  rw [hany] at hrules
  rw [← any_publishHit_rulesOf]
  cases hhit : (rulesOf Acl.Action.publish ci (acl.publishTopics.map (fun t => "eq " ++ t))).any
      (fun r => r.publishAllowHit publish) with
  | false =>
      rw [hhit] at hrules
      simp [messagePublishCheckAcl, henabled, Acl.AuthInfo.publishAcl, hsuper, hrules]
  | true =>
      rw [hhit] at hrules
      simp [messagePublishCheckAcl, henabled, Acl.AuthInfo.publishAcl, hsuper, hrules]

end Checks

end Api
end Ciqada
