import Ciqada.Broker.Types
import Ciqada.Broker.Topic

/-!
# Access rules of the broker

An authenticated session carries a list of rules.  A rule names an action, a
permission and a topic; the topic is either one exact text or a pattern.  Rule
texts may contain placeholders for the user name and the client id, which are
substituted when the rule is built for a connection.
-/

namespace Ciqada
namespace Broker

namespace Acl

/-!
## Placeholders

Substring search and replacement follow the standard library: occurrences are
found from the left and do not overlap.
-/

def placeholderUsername : String := "${username}"

def placeholderClientid : String := "${clientid}"

def contains (s pat : String) : Bool :=
  decide (pat.toList <:+: s.toList)

/-- `skip` counts the characters of a match that are still to be dropped. -/
def replaceChars (pat new : List Char) : Nat -> List Char -> List Char
  | _, [] => []
  | skip + 1, _ :: cs => replaceChars pat new skip cs
  | 0, c :: cs =>
      if pat.isPrefixOf (c :: cs) then new ++ replaceChars pat new (pat.length - 1) cs
      else c :: replaceChars pat new 0 cs

def replace (s pat new : String) : String :=
  String.ofList (replaceChars pat.toList new.toList 0 s.toList)

inductive RuleError where
  | config (message : String)
  | topic (e : TopicError)
  deriving DecidableEq

def replaces (topicCfg : String) (ci : ConnectInfo) : Except RuleError String :=
  match contains topicCfg placeholderUsername, contains topicCfg placeholderClientid with
  | true, true =>
      match ci.username with
      | some username =>
          Except.ok (replace (replace topicCfg placeholderUsername username)
            placeholderClientid ci.clientId)
      | none => Except.error (RuleError.config "username does not exist")
  | true, false =>
      match ci.username with
      | some username => Except.ok (replace topicCfg placeholderUsername username)
      | none => Except.error (RuleError.config "username does not exist")
  | false, true => Except.ok (replace topicCfg placeholderClientid ci.clientId)
  | false, false => Except.ok topicCfg

/-!
## Rule topics

A rule text that starts with the marker `eq ` is compared as a whole; any other
text is parsed as a pattern.
-/

def eqMarker : String := "eq "

def stripEqMarker (s : String) : Option String :=
  if eqMarker.toList.isPrefixOf s.toList then
    some (String.ofList (s.toList.drop eqMarker.length))
  else none

structure RuleTopic where
  eqTopicFilter : Option String
  topicFilter : Option Topic
  deriving DecidableEq

namespace RuleTopic

def isMatch (t : RuleTopic) (topic : String) : Bool :=
  match t.eqTopicFilter with
  | some eqTopicFilter => eqTopicFilter == topic
  | none =>
      match t.topicFilter with
      | some topicFilter => topicFilter.matchesStr topic
      | none => false

def tryFrom (topicCfg : String) (ci : ConnectInfo) : Except RuleError RuleTopic :=
  match stripEqMarker topicCfg with
  | some stripped =>
      match replaces stripped ci with
      | Except.error e => Except.error e
      | Except.ok text => Except.ok { eqTopicFilter := some text, topicFilter := none }
  | none =>
      if topicCfg.isEmpty then
        Except.error (RuleError.config
          "ACL Rule config error, topic config is \"\"")
      else
        match replaces topicCfg ci with
        | Except.error e => Except.error e
        | Except.ok text =>
            match Topic.fromStr text with
            | Except.error e => Except.error (RuleError.topic e)
            | Except.ok t => Except.ok { eqTopicFilter := none, topicFilter := some t }

end RuleTopic

/-!
## Rules and their evaluation
-/

inductive Permission where
  | allow
  | deny
  deriving DecidableEq

inductive Action where
  | all
  | publish
  | subscribe
  deriving DecidableEq

structure Rule where
  permission : Permission
  action : Action
  qos : Option (List QoS)
  retain : Option Bool
  topic : RuleTopic
  deriving DecidableEq

namespace Rule

def qosHit (r : Rule) (qos : QoS) : Bool :=
  match r.qos with
  | some allowed => allowed.contains qos
  | none => true

def subscribeHit (r : Rule) (subscribe : Subscribe) : Bool :=
  (r.action == Action.subscribe || r.action == Action.all) &&
    r.qosHit subscribe.qos && r.topic.isMatch subscribe.topicFilter

def publishHit (r : Rule) (publish : Publish) : Bool :=
  (r.action == Action.publish || r.action == Action.all) &&
    r.qosHit publish.qos && r.topic.isMatch publish.topic

def publishAllowHit (r : Rule) (publish : Publish) : Bool :=
  match r.retain with
  | some retain => if !retain && publish.retain then false else r.publishHit publish
  | none => r.publishHit publish

def publishDenyHit (r : Rule) (publish : Publish) : Bool :=
  match r.retain with
  | some retain => if retain != publish.retain then false else r.publishHit publish
  | none => r.publishHit publish

end Rule

structure AuthInfo where
  superuser : Bool
  expireAt : Option Nat
  rules : List Rule
  deriving DecidableEq

namespace AuthInfo

/-- The first rule that hits decides. -/
def subscribeRules (subscribe : Subscribe) : List Rule -> Option SubscribeAckReason
  | [] => none
  | r :: rest =>
      if r.subscribeHit subscribe then
        match r.permission with
        | Permission.allow => some (SubscribeAckReason.newSuccess subscribe.qos)
        | Permission.deny => some SubscribeAckReason.notAuthorized
      else subscribeRules subscribe rest

def subscribeAcl (a : AuthInfo) (subscribe : Subscribe) : Option SubscribeAckReason :=
  if a.superuser then some (SubscribeAckReason.newSuccess subscribe.qos)
  else subscribeRules subscribe a.rules

def publishRules (publish : Publish) (disconnect : Bool) :
    List Rule -> Option PublishAclResult
  | [] => none
  | r :: rest =>
      match r.permission with
      | Permission.allow =>
          if r.publishAllowHit publish then some PublishAclResult.allow
          else publishRules publish disconnect rest
      | Permission.deny =>
          if r.publishDenyHit publish then some (PublishAclResult.rejected disconnect)
          else publishRules publish disconnect rest

def publishAcl (a : AuthInfo) (publish : Publish) (disconnect : Bool) :
    Option PublishAclResult :=
  if a.superuser then some PublishAclResult.allow
  else publishRules publish disconnect a.rules

end AuthInfo

/-!
## Rule lists that only allow

The rules this server installs all allow, so evaluation asks whether some rule
of the right kind hits.
-/

def AllowOnly (rules : List Rule) : Prop :=
  forall r, r ∈ rules -> r.permission = Permission.allow

theorem subscribeRules_allowOnly {rules : List Rule} (hallow : AllowOnly rules)
    (subscribe : Subscribe) :
    AuthInfo.subscribeRules subscribe rules =
      if rules.any (fun r => r.subscribeHit subscribe) then
        some (SubscribeAckReason.newSuccess subscribe.qos)
      else none := by
  induction rules with
  | nil => rfl
  | cons r rest ih =>
      have hr : r.permission = Permission.allow := hallow r List.mem_cons_self
      have hrest : AllowOnly rest :=
        fun q hq => hallow q (List.mem_cons_of_mem r hq)
      cases hhit : r.subscribeHit subscribe with
      | true => simp [AuthInfo.subscribeRules, hhit, hr]
      | false => simp [AuthInfo.subscribeRules, hhit, ih hrest]

theorem publishRules_allowOnly {rules : List Rule} (hallow : AllowOnly rules)
    (publish : Publish) (disconnect : Bool) :
    AuthInfo.publishRules publish disconnect rules =
      if rules.any (fun r => r.publishAllowHit publish) then
        some PublishAclResult.allow
      else none := by
  induction rules with
  | nil => rfl
  | cons r rest ih =>
      have hr : r.permission = Permission.allow := hallow r List.mem_cons_self
      have hrest : AllowOnly rest :=
        fun q hq => hallow q (List.mem_cons_of_mem r hq)
      cases hhit : r.publishAllowHit publish with
      | true => simp [AuthInfo.publishRules, hhit, hr]
      | false => simp [AuthInfo.publishRules, hhit, hr, ih hrest]

end Acl

end Broker
end Ciqada
