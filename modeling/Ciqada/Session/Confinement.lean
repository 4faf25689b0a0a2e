import Ciqada.Foundation.Run
import Ciqada.Api.Consistency
import Ciqada.Session.State

/-!
# Which topics a session publishes to

Messages reach routing from the publish path, where the rules are asked, and
from the last will, where they are not.  A session therefore stays within the
allowed topics in every run exactly when its will does.
-/

namespace Ciqada
namespace Session

open Foundation Broker Api

/-- Every message handed to routing is for an allowed topic. -/
def Confined (topics : List String) (s : SessionState) : Prop :=
  forall m, m ∈ s.forwarded -> m.2.topic ∈ topics

/-- Where a forwarded message may come from. -/
def Sanctioned (acl : AclConfig) (inner : Inner) (p : Publish) : Prop :=
  SessionState.messagePublishCheck acl inner p = PublishAclResult.allow ∨
    exists lw now, inner.connectInfo.lastWill = some lw ∧ p = Publish.ofLastWill now lw

/-- One state follows another: the connection is the same and messages were added. -/
structure Extends (acl : AclConfig) (s t : SessionState) : Prop where
  inner : t.inner = s.inner
  forwarded : exists ms, t.forwarded = s.forwarded ++ ms ∧
    forall m, m ∈ ms -> Sanctioned acl s.inner m.2

namespace Extends

variable {acl : AclConfig} {s t r : SessionState}

/-- Nothing was handed to routing. -/
theorem of_same (hinner : t.inner = s.inner) (hforwarded : t.forwarded = s.forwarded) :
    Extends acl s t := by
  refine ⟨hinner, [], ?_, ?_⟩
  · rw [hforwarded, List.append_nil]
  · intro m hm
    cases hm

theorem refl (s : SessionState) : Extends acl s s :=
  of_same rfl rfl

theorem trans (hst : Extends acl s t) (htr : Extends acl t r) : Extends acl s r := by
  rcases hst.forwarded with ⟨ms, hms, hfirst⟩
  rcases htr.forwarded with ⟨ns, hns, hsecond⟩
  refine ⟨htr.inner.trans hst.inner, ms ++ ns, ?_, ?_⟩
  · rw [hns, hms, List.append_assoc]
  · intro m hm
    rcases List.mem_append.mp hm with hleft | hright
    · exact hfirst m hleft
    · rw [← hst.inner]
      exact hsecond m hright

theorem forwards {p : Publish} (sender : From) (hp : Sanctioned acl s.inner p) :
    Extends acl s (s.forwards sender p) := by
  refine ⟨rfl, [(sender, p)], rfl, ?_⟩
  intro m hm
  rw [List.mem_singleton.mp hm]
  exact hp

end Extends

/-!
## Every function adds only sanctioned messages
-/

section Steps

variable {acl : AclConfig} {s t : SessionState}

theorem extends_resolveTopic {p q : Publish}
    (h : SessionState.resolveTopic s p = Except.ok (t, q)) : Extends acl s t := by
  unfold SessionState.resolveTopic at h
  split at h
  · cases h
    exact Extends.refl _
  · split at h
    · cases h
    · cases h
      exact Extends.of_same rfl rfl

theorem extends_publish (p : Publish) : Extends acl s (SessionState.publish acl s p).1 := by
  unfold SessionState.publish
  cases hresolve : SessionState.resolveTopic s p with
  | error e => exact Extends.refl s
  | ok resolved =>
      rcases resolved with ⟨t, q⟩
      have hresolved : Extends acl s t := extends_resolveTopic hresolve
      dsimp only
      split
      · rename_i hallow
        exact hresolved.trans (Extends.forwards _ (Or.inl hallow))
      · exact hresolved
      · exact hresolved

theorem extends_takeBack (fresh : Bool) (pid : Nat) :
    Extends acl s (SessionState.takeBack fresh s pid) := by
  cases fresh with
  | true => exact Extends.of_same rfl rfl
  | false => exact Extends.refl s

theorem extends_publishAtLeastOnce (p : Publish) (pid : Nat) (sent : Bool) :
    Extends acl s (SessionState.publishAtLeastOnce acl s p pid sent).1 := by
  unfold SessionState.publishAtLeastOnce
  split
  · exact Extends.refl s
  · rename_i w fresh _hadd
    have hwindow : Extends acl s { s with inInflight := w } := Extends.of_same rfl rfl
    have hpublish := hwindow.trans (extends_publish p)
    split
    · rename_i hres
      rw [hres] at hpublish
      exact hpublish.trans (extends_takeBack fresh pid)
    · rename_i hres
      rw [hres] at hpublish
      exact hpublish.trans (extends_takeBack fresh pid)

theorem extends_publishExactlyOnce (p : Publish) (pid : Nat) (sent : Bool) :
    Extends acl s (SessionState.publishExactlyOnce acl s p pid sent).1 := by
  have hpublish : Extends acl s (SessionState.publish acl s p).1 := extends_publish p
  unfold SessionState.publishExactlyOnce
  split
  · rename_i hres
    rw [hres] at hpublish
    exact hpublish
  · rename_i hres
    rw [hres] at hpublish
    exact hpublish
  · rename_i published hres
    rw [hres] at hpublish
    split
    · exact hpublish
    · rename_i w fresh _hadd
      have hwindow : Extends acl s { published with inInflight := w } :=
        hpublish.trans (Extends.of_same rfl rfl)
      exact hwindow.trans (extends_takeBack _ pid)

theorem extends_publishAtMostOnce (p : Publish) :
    Extends acl s (SessionState.publishAtMostOnce acl s p).1 := by
  have hpublish : Extends acl s (SessionState.publish acl s p).1 := extends_publish p
  unfold SessionState.publishAtMostOnce
  split
  · rename_i hres
    rw [hres] at hpublish
    exact hpublish
  · rename_i hres
    rw [hres] at hpublish
    exact hpublish

theorem extends_processPublish (p : Publish) (sent : Bool) :
    Extends acl s (SessionState.processPublish acl s p sent).1 := by
  unfold SessionState.processPublish
  split
  · exact extends_publishAtLeastOnce _ _ sent
  · exact extends_publishExactlyOnce _ _ sent
  · exact extends_publishAtMostOnce _
  · exact Extends.refl s

theorem extends_processMqttMessage (now : Nat) (sent : Bool) (pkt : Packet) :
    Extends acl s (SessionState.processMqttMessage acl s now sent pkt).1 := by
  cases pkt with
  | publish p => exact extends_processPublish _ sent
  | publishRelease pid => exact Extends.of_same rfl rfl
  | publishAck => exact Extends.refl s
  | publishReceived => exact Extends.refl s
  | publishComplete => exact Extends.refl s
  | subscribe accepted => cases accepted <;> exact Extends.refl s
  | unsubscribe accepted => cases accepted <;> exact Extends.refl s
  | pingRequest => exact Extends.refl s
  | disconnect d => exact Extends.of_same rfl rfl
  | auth => exact Extends.refl s
  | unimplemented => exact Extends.refl s

theorem extends_processLastWill (now : Nat) : Extends acl s (s.processLastWill now) := by
  unfold SessionState.processLastWill
  split
  · rename_i lw hlw
    exact Extends.forwards _ (Or.inr ⟨lw, now, hlw, rfl⟩)
  · exact Extends.refl s

theorem extends_settleLastWill (now : Nat) : Extends acl s (s.settleLastWill now).1 := by
  unfold SessionState.settleLastWill
  split
  · split
    · exact extends_processLastWill now
    · exact Extends.refl s
  · exact Extends.refl s

theorem extends_finish (now : Nat) : Extends acl s (s.finish now) := by
  have hsettled : Extends acl s (s.settleLastWill now).1 := extends_settleLastWill now
  unfold SessionState.finish
  dsimp only
  split <;> exact hsettled.trans (Extends.of_same rfl rfl)

theorem extends_proceed (now : Nat) {res : SessionState × Except Reason Unit}
    (hres : Extends acl s res.1) : Extends acl s (SessionState.proceed now res) := by
  rcases res with ⟨t, outcome⟩
  cases outcome with
  | ok _ => exact hres
  | error e => exact hres.trans (extends_finish now)

theorem extends_onlineStep {now : Nat} {e : Event}
    (hstep : s.onlineStep acl now e = some t) : Extends acl s t := by
  cases e with
  | packet pkt sent =>
      rw [← Option.some.inj hstep]
      exact extends_proceed now (extends_processMqttMessage now sent pkt)
  | kick senderClosed cleanStart isAdmin =>
      cases senderClosed with
      | true =>
          rw [← Option.some.inj hstep]
          exact Extends.refl s
      | false =>
          have hkick : Extends acl s (s.kick cleanStart isAdmin) := Extends.of_same rfl rfl
          rw [← Option.some.inj hstep]
          exact hkick.trans (extends_finish now)
  | closed =>
      rw [← Option.some.inj hstep]
      exact extends_finish now
  | willDelayElapsed => cases hstep
  | sessionExpired => cases hstep

theorem extends_offlineStep {now since expiry : Nat} {willDelay : Option Nat} {e : Event}
    (hstep : s.offlineStep now since willDelay expiry e = some t) : Extends acl s t := by
  have hwill : Extends acl s (s.processLastWill now) := extends_processLastWill now
  cases e with
  | packet pkt sent => cases hstep
  | kick senderClosed cleanStart isAdmin =>
      cases senderClosed with
      | true =>
          rw [← Option.some.inj hstep]
          exact Extends.refl s
      | false =>
          rw [← Option.some.inj hstep]
          exact Extends.of_same rfl rfl
  | closed =>
      rw [← Option.some.inj hstep]
      exact Extends.of_same rfl rfl
  | willDelayElapsed =>
      cases willDelay with
      | none => cases hstep
      | some delay =>
          unfold SessionState.offlineStep at hstep
          dsimp only at hstep
          split at hstep
          · rw [← Option.some.inj hstep]
            exact hwill.trans (Extends.of_same rfl rfl)
          · cases hstep
  | sessionExpired =>
      unfold SessionState.offlineStep at hstep
      dsimp only at hstep
      split at hstep
      · rw [← Option.some.inj hstep]
        cases willDelay with
        | none => exact Extends.of_same rfl rfl
        | some delay => exact hwill.trans (Extends.of_same rfl rfl)
      · cases hstep

theorem extends_step {e : Timed} (hstep : s.step acl e = some t) : Extends acl s t := by
  unfold SessionState.step at hstep
  split at hstep
  · exact extends_onlineStep hstep
  · exact extends_offlineStep hstep
  · cases hstep

/-- A run adds only sanctioned messages. -/
theorem extends_run {es : List Timed} (hrun : Run (SessionState.step acl) Always s es t) :
    Extends acl s t :=
  hrun.invariant (Extends.refl s) (fun _ _ _ hinv _ hstep => hinv.trans (extends_step hstep))

end Steps

/-!
## What the publish check lets through
-/

/-- The allowed topics are compared as they stand. -/
def PlainTopics (topics : List String) : Prop :=
  forall t, t ∈ topics -> Acl.contains t Acl.placeholderUsername = false ∧
    Acl.contains t Acl.placeholderClientid = false

theorem stripEqMarker_marked (t : String) : Acl.stripEqMarker ("eq " ++ t) = some t := by
  have hlist : ("eq " ++ t).toList = Acl.eqMarker.toList ++ t.toList := by
    rw [String.toList_append]
    rfl
  have hmarked : Acl.eqMarker.toList.isPrefixOf (Acl.eqMarker.toList ++ t.toList) = true := by
    rw [List.isPrefixOf_iff_prefix]
    exact List.prefix_append _ _
  have hlength : Acl.eqMarker.length = Acl.eqMarker.toList.length := by
    rw [String.length_toList]
  unfold Acl.stripEqMarker
  rw [hlist, if_pos hmarked, hlength, List.drop_left, String.ofList_toList]

theorem textMatches_marked {ci : ConnectInfo} {topics : List String} {topic : String}
    (hplain : PlainTopics topics)
    (hmatch : TextMatches ci (topics.map (fun t => "eq " ++ t)) topic) : topic ∈ topics := by
  rcases hmatch with ⟨text, rule, htext, htry, hrule⟩
  rcases List.mem_map.mp htext with ⟨t, ht, heq⟩
  have hreplaces : Acl.replaces t ci = Except.ok t := by
    unfold Acl.replaces
    rw [(hplain t ht).left, (hplain t ht).right]
  unfold Acl.RuleTopic.tryFrom at htry
  rw [← heq, stripEqMarker_marked t] at htry
  simp only [hreplaces] at htry
  rw [← Except.ok.inj htry] at hrule
  have htopic : t = topic := by simpa [Acl.RuleTopic.isMatch] using hrule
  rw [← htopic]
  exact ht

/-- The session of an ordinary user with the rules built from the user's record. -/
structure OrdinarySession (acl : AclConfig) (inner : Inner) : Prop where
  superuser : inner.superuser = false
  rules : exists record : UserRecord, record.superuser = false ∧
    inner.authInfo = some (buildAuthInfo record acl inner.connectInfo)

theorem mem_of_messagePublishCheck {acl : AclConfig} {inner : Inner} {p : Publish}
    (henabled : acl.enabled = true) (hplain : PlainTopics acl.publishTopics)
    (hordinary : OrdinarySession acl inner)
    (hallow : SessionState.messagePublishCheck acl inner p = PublishAclResult.allow) :
    p.topic ∈ acl.publishTopics := by
  rcases hordinary.rules with ⟨record, hrecord, hinfo⟩
  unfold SessionState.messagePublishCheck at hallow
  rw [hordinary.superuser, hinfo] at hallow
  exact textMatches_marked hplain
    ((messagePublishCheckAcl_build henabled hrecord p).mp hallow)

/-!
## A run that sends the will
-/

theorem processLastWill_sends {s : SessionState} {lw : LastWill} (now : Nat)
    (hlw : s.inner.connectInfo.lastWill = some lw) :
    exists m, m ∈ (s.processLastWill now).forwarded ∧ m.2.topic = lw.topic := by
  refine ⟨({ typ := FromType.lastWill, id := s.id }, Publish.ofLastWill now lw), ?_,
    Publish.ofLastWill_topic now lw⟩
  unfold SessionState.processLastWill
  rw [hlw]
  exact List.mem_append_right _ List.mem_cons_self

/-- The session ends at once and, if it lives on offline, expires. -/
def abandoned (inner : Inner) : List Timed :=
  let s := SessionState.new inner
  let closed : Timed := { now := 0, event := Event.closed }
  if s.cleanSession || s.willDelayInterval.isNone then [closed]
  else
    [closed, { now := Fitter.sessionExpiryInterval inner.listenCfg inner.connectInfo none
               event := Event.sessionExpired }]

theorem abandoned_sends (acl : AclConfig) {inner : Inner} {lw : LastWill}
    (hlw : inner.connectInfo.lastWill = some lw) :
    exists t, Run (SessionState.step acl) Always (SessionState.new inner) (abandoned inner) t ∧
      exists m, m ∈ t.forwarded ∧ m.2.topic = lw.topic := by
  have henable : SessionState.lastWillEnable (SessionState.new inner).flags
      (SessionState.new inner).cleanSession = true := rfl
  have hkicked : (SessionState.new inner).flags.kicked = false := rfl
  unfold abandoned
  dsimp only
  split
  · rename_i hnow
    refine ⟨(SessionState.new inner).finish 0, Run.cons trivial rfl (Run.nil _), ?_⟩
    have hforwarded : ((SessionState.new inner).finish 0).forwarded =
        ((SessionState.new inner).processLastWill 0).forwarded := by
      unfold SessionState.finish SessionState.settleLastWill
      rw [henable, if_pos rfl, if_pos hnow]
      dsimp only
      split <;> rfl
    rw [hforwarded]
    exact processLastWill_sends 0 hlw
  · rename_i hlater
    have hclean : (SessionState.new inner).cleanSession = false := by
      cases hclean : (SessionState.new inner).cleanSession with
      | true => simp [hclean] at hlater
      | false => rfl
    have hdelay : (SessionState.new inner).willDelayInterval.isSome = true := by
      cases hdelay : (SessionState.new inner).willDelayInterval with
      | none => simp [hdelay] at hlater
      | some delay => rfl
    have hfinish : (SessionState.new inner).finish 0 =
        { SessionState.new inner with
          phase := Phase.offline 0 (SessionState.new inner).willDelayInterval
            (Fitter.sessionExpiryInterval inner.listenCfg inner.connectInfo none) } := by
      unfold SessionState.finish SessionState.settleLastWill
      rw [henable, if_pos rfl, if_neg hlater, hkicked, hclean]
      rfl
    have hexpire : SessionState.step acl ((SessionState.new inner).finish 0)
        { now := Fitter.sessionExpiryInterval inner.listenCfg inner.connectInfo none
          event := Event.sessionExpired } =
        some { ((SessionState.new inner).finish 0).processLastWill
          (Fitter.sessionExpiryInterval inner.listenCfg inner.connectInfo none) with
            phase := Phase.terminated } := by
      unfold SessionState.step
      rw [hfinish]
      dsimp only
      unfold SessionState.offlineStep
      dsimp only
      rw [if_pos (by omega), hdelay, if_pos rfl]
    refine ⟨_, Run.cons trivial rfl (Run.cons trivial hexpire (Run.nil _)), ?_⟩
    rw [hfinish]
    exact processLastWill_sends _ hlw

/-!
## Accepted connections
-/

/-- The session that the handshake opens for an accepted connection. -/
def accepted (cfg : ListenerConfig) (ci : ConnectInfo) (superuser : Bool)
    (authInfo : Option Acl.AuthInfo) : Inner :=
  { connectInfo := ci, superuser := superuser, authInfo := authInfo, listenCfg := cfg }

theorem ordinarySession_of_authenticate {c : Crypto} {f : Faults} {app : AppState}
    {ci : ConnectInfo} {authInfo : Option Acl.AuthInfo} (cfg : ListenerConfig)
    (hauth : (app.authenticate c f ci).2 = AuthResult.allow false authInfo) :
    OrdinarySession app.acl (accepted cfg ci false authInfo) := by
  refine ⟨rfl, ?_⟩
  unfold AppState.authenticate at hauth
  split at hauth
  · cases hauth
  · split at hauth
    · cases hauth
    · rename_i username password _hcredentials
      split at hauth
      · cases hauth
      · cases hauth
      · rename_i found record hlookup
        have hacl : found.acl = app.acl := by
          have hkeeps := @lookupUser_acl app f username
          rw [hlookup] at hkeeps
          exact hkeeps
        have hchecked := @checkPassword_acl c found f record username password
        cases hverdict : found.checkPassword c f record username password with
        | mk checked ok =>
            rw [hverdict] at hauth hchecked
            cases ok with
            | false => cases hauth
            | true =>
                injection hauth with hsuperuser hinfo
                refine ⟨record, hsuperuser, ?_⟩
                dsimp only at hchecked
                rw [hchecked, hacl] at hinfo
                exact hinfo.symm

/--
Whatever an ordinary user's session does, it stays within the allowed topics
exactly when the last will of its connect packet, if there is one, names an
allowed topic.
-/
theorem confined_iff_will {c : Crypto} {f : Faults} {app : AppState} {ci : ConnectInfo}
    {authInfo : Option Acl.AuthInfo} (cfg : ListenerConfig)
    (henabled : app.acl.enabled = true) (hplain : PlainTopics app.acl.publishTopics)
    (hauth : (app.authenticate c f ci).2 = AuthResult.allow false authInfo) :
    (forall es t, Run (SessionState.step app.acl) Always
        (SessionState.new (accepted cfg ci false authInfo)) es t ->
          Confined app.acl.publishTopics t) <->
      forall lw, ci.lastWill = some lw -> lw.topic ∈ app.acl.publishTopics := by
  have hordinary := ordinarySession_of_authenticate cfg hauth
  constructor
  · intro hconfined lw hlw
    rcases abandoned_sends app.acl (show
      (accepted cfg ci false authInfo).connectInfo.lastWill = some lw from hlw) with
        ⟨t, hrun, m, hm, htopic⟩
    rw [← htopic]
    exact hconfined _ t hrun m hm
  · intro hwill es t hrun m hm
    rcases (extends_run hrun).forwarded with ⟨ms, hforwarded, hsanctioned⟩
    rw [hforwarded] at hm
    rcases hsanctioned m hm with hallow | hlast
    · exact mem_of_messagePublishCheck henabled hplain hordinary hallow
    · rcases hlast with ⟨lw, now, hlw, hp⟩
      rw [hp, Publish.ofLastWill_topic]
      exact hwill lw hlw

namespace Sample

def will (topic : String) : LastWillV3 :=
  { topic := topic, retain := false, qos := QoS.atMostOnce, message := [] }

/-- A login of the sample user with a last will for the given topic. -/
def loginWithWill (topic : String) : ConnectInfo :=
  ConnectInfo.v3 { nodeId := 1, clientId := "c1", username := some "alice", createTime := 0 }
    { cleanSession := true, username := some "alice", password := some (asBytes "one"),
      lastWill := some (will topic) }

def app : AppState :=
  Api.Sample.after [Api.Sample.create "one"]

def rules (topic : String) : Acl.AuthInfo :=
  buildAuthInfo (Api.Sample.aliceRecord "one") AclConfig.default (loginWithWill topic)

theorem plainTopics_default : PlainTopics AclConfig.default.publishTopics := by
  unfold PlainTopics
  decide

end Sample

/-- With a will for an allowed topic the session is confined. -/
theorem confined_iff_will_allowed :
    (Sample.app.authenticate Crypto.transparent noFaults
        (Sample.loginWithWill "updates")).2 =
          AuthResult.allow false (some (Sample.rules "updates")) ∧
      forall es t, Run (SessionState.step AclConfig.default) Always
        (SessionState.new (accepted Sample.cfg (Sample.loginWithWill "updates") false
          (some (Sample.rules "updates")))) es t ->
            Confined AclConfig.default.publishTopics t := by
  have hauth : (Sample.app.authenticate Crypto.transparent noFaults
      (Sample.loginWithWill "updates")).2 =
        AuthResult.allow false (some (Sample.rules "updates")) := by decide +kernel
  refine ⟨hauth, ?_⟩
  have hacl : Sample.app.acl = AclConfig.default := by decide +kernel
  have henabled : Sample.app.acl.enabled = true := by
    rw [hacl]
    rfl
  have hplain : PlainTopics Sample.app.acl.publishTopics := by
    rw [hacl]
    exact Sample.plainTopics_default
  have hiff := confined_iff_will Sample.cfg henabled hplain hauth
  rw [hacl] at hiff
  apply hiff.mpr
  intro lw hlw
  rw [← Option.some.inj hlw]
  decide

/-- A user who may not publish to `secret` does so by closing the connection. -/
theorem confined_fails :
    (Sample.app.authenticate Crypto.transparent noFaults
        (Sample.loginWithWill "secret")).2 =
          AuthResult.allow false (some (Sample.rules "secret")) ∧
    Sample.app.acl = AclConfig.default ∧ AclConfig.default.enabled = true ∧
    PlainTopics AclConfig.default.publishTopics ∧
    exists t, Run (SessionState.step AclConfig.default) Always
        (SessionState.new (accepted Sample.cfg (Sample.loginWithWill "secret") false
          (some (Sample.rules "secret")))) [{ now := 0, event := Event.closed }] t ∧
      ¬ Confined AclConfig.default.publishTopics t := by
  refine ⟨by decide +kernel, by decide +kernel, rfl, Sample.plainTopics_default, _,
    Run.cons trivial rfl (Run.nil _), ?_⟩
  intro hconfined
  have htopic := hconfined ({ typ := FromType.lastWill, id := (Sample.loginWithWill "secret").id },
    Publish.ofLastWill 0 (LastWill.v3 (Sample.will "secret"))) List.mem_cons_self
  revert htopic
  decide

end Session
end Ciqada
