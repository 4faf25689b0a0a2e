import Ciqada.Foundation.Run
import Ciqada.Foundation.Turns
import Ciqada.Session.Confinement

/-!
# Messages from a client that are to arrive exactly once

A client that sends a message exactly once opens an exchange under a packet id and
closes it when it releases the id.  The window of the session has the open exchanges,
but a message is entered there only after it has been handed on.
-/

namespace Ciqada
namespace Session

open Broker Api Foundation

/-- A message that the check lets through is handed on. -/
def accepts (acl : AclConfig) (s : SessionState) (p : Publish) : Bool :=
  match (SessionState.publish acl s p).2 with
  | Except.ok accepted => accepted
  | Except.error _ => false

/-- The exchange that a packet opens or closes. -/
def turns (acl : AclConfig) (s : SessionState) (e : Timed) : List (Turn Nat) :=
  match e.event with
  | Event.packet (Packet.publishRelease packetId) _ => [Turn.closed packetId]
  | Event.packet (Packet.publish p) _ =>
      if p.qos = QoS.exactlyOnce ∧
          accepts acl s { p with createTime := some (e.now : Int) } = true then
        p.packetId.toList.map Turn.opened
      else []
  | _ => []

/-- The packet ids of the messages that were handed on to arrive exactly once. -/
def forwardedIds (s : SessionState) : List Nat :=
  (s.forwarded.filter (fun m => m.2.qos = QoS.exactlyOnce)).filterMap (fun m => m.2.packetId)

section Steps

variable {acl : AclConfig} {s t : SessionState}

/-- The parts of a session that no message changes on its way through the check. -/
structure Beside (s t : SessionState) : Prop where
  inner : t.inner = s.inner
  inInflight : t.inInflight = s.inInflight
  phase : t.phase = s.phase

theorem resolveTopic_beside {p q : Publish}
    (h : SessionState.resolveTopic s p = Except.ok (t, q)) :
    Beside s t ∧ t.forwarded = s.forwarded ∧ q.qos = p.qos ∧ q.packetId = p.packetId := by
  unfold SessionState.resolveTopic at h
  split at h
  · cases h
    exact ⟨⟨rfl, rfl, rfl⟩, rfl, rfl, rfl⟩
  · split at h
    · cases h
    · cases h
      exact ⟨⟨rfl, rfl, rfl⟩, rfl, rfl, rfl⟩

/-- A message is handed on exactly when the answer is that it was accepted. -/
theorem publish_beside (acl : AclConfig) (s : SessionState) (p : Publish) :
    Beside s (SessionState.publish acl s p).1 ∧
      (accepts acl s p = true -> (SessionState.publish acl s p).2 = Except.ok true ∧
        exists m : From × Publish,
          (SessionState.publish acl s p).1.forwarded = s.forwarded ++ [m] ∧
            m.2.qos = p.qos ∧ m.2.packetId = p.packetId) ∧
      (accepts acl s p = false -> (SessionState.publish acl s p).2 ≠ Except.ok true ∧
        (SessionState.publish acl s p).1.forwarded = s.forwarded) := by
  unfold accepts SessionState.publish
  cases hresolve : SessionState.resolveTopic s p with
  | error e => exact ⟨⟨rfl, rfl, rfl⟩, fun h => absurd h (by simp), fun _ => ⟨by simp, rfl⟩⟩
  | ok resolved =>
      rcases resolved with ⟨t, q⟩
      rcases resolveTopic_beside hresolve with ⟨hbeside, hforwarded, hqos, hpid⟩
      dsimp only
      cases SessionState.messagePublishCheck acl t.inner q with
      | allow =>
          refine ⟨⟨hbeside.inner, hbeside.inInflight, hbeside.phase⟩, ?_, fun h => absurd h (by simp)⟩
          intro _
          exact ⟨rfl, _, congrArg (fun ms => ms ++ _) hforwarded, hqos, hpid⟩
      | rejected disconnect =>
          cases disconnect with
          | true => exact ⟨hbeside, fun h => absurd h (by simp), fun _ => ⟨by simp, hforwarded⟩⟩
          | false => exact ⟨hbeside, fun h => absurd h (by simp), fun _ => ⟨by simp, hforwarded⟩⟩

theorem forwardedIds_snoc {m : From × Publish}
    (h : t.forwarded = s.forwarded ++ [m]) :
    forwardedIds t = forwardedIds s ++
      if m.2.qos = QoS.exactlyOnce then m.2.packetId.toList else [] := by
  unfold forwardedIds
  rw [h, List.filter_append, List.filterMap_append]
  congr 1
  by_cases hqos : m.2.qos = QoS.exactlyOnce
  · rw [if_pos hqos, List.filter_cons_of_pos (by simpa using hqos)]
    rw [List.filter_nil, List.filterMap_cons]
    cases m.2.packetId <;> rfl
  · rw [if_neg hqos, List.filter_cons_of_neg (by simpa using hqos)]
    rfl

theorem add_ok {w w' : InInflight} {packetId : Nat} {qos : QoS} {fresh : Bool}
    (h : w.add packetId qos = Except.ok (w', fresh)) :
    w.cached.card < w.maxInflight ∧
      ((fresh = true ∧ packetId ∉ w.cached ∧
          w' = { w with cached := insert packetId w.cached }) ∨
        (fresh = false ∧ qos ≠ QoS.exactlyOnce ∧ w' = w)) := by
  unfold InInflight.add at h
  split at h
  · cases h
  · refine ⟨by omega, ?_⟩
    split at h
    · cases h
      exact Or.inl ⟨rfl, ‹_›, rfl⟩
    · split at h
      · cases h
      · cases h
        exact Or.inr ⟨rfl, ‹_›, rfl⟩

theorem written_ok {sent : Bool} {r : SessionState} {u : Unit}
    (h : SessionState.written sent r = (t, Except.ok u)) : sent = true ∧ t = r := by
  unfold SessionState.written at h
  cases sent with
  | true => exact ⟨rfl, (Prod.mk.inj h).left.symm⟩
  | false => cases (Prod.mk.inj h).right

/-- What a step that stays online does to the window and to the messages handed on. -/
inductive Moved (s t : SessionState) : List (Turn Nat) -> Prop where
  | same (hwindow : t.inInflight = s.inInflight) (hids : forwardedIds t = forwardedIds s) :
      Moved s t []
  | opened (packetId : Nat) (hnew : packetId ∉ s.inInflight.cached)
      (hroom : s.inInflight.cached.card < s.inInflight.maxInflight)
      (hwindow : t.inInflight =
        { s.inInflight with cached := insert packetId s.inInflight.cached })
      (hids : forwardedIds t = forwardedIds s ++ [packetId]) :
      Moved s t [Turn.opened packetId]
  | closed (packetId : Nat) (hwindow : t.inInflight = s.inInflight.remove packetId)
      (hids : forwardedIds t = forwardedIds s) :
      Moved s t [Turn.closed packetId]

theorem forwardedIds_publish (acl : AclConfig) (s : SessionState) {p : Publish}
    (hqos : p.qos ≠ QoS.exactlyOnce) :
    forwardedIds (SessionState.publish acl s p).1 = forwardedIds s := by
  rcases publish_beside acl s p with ⟨_, haccepted, hrefused⟩
  cases hcase : accepts acl s p with
  | true =>
      rcases (haccepted hcase).right with ⟨m, hm, hmqos, _⟩
      rw [forwardedIds_snoc hm, if_neg (by rw [hmqos]; exact hqos), List.append_nil]
  | false =>
      unfold forwardedIds
      rw [(hrefused hcase).right]

theorem forwardedIds_of_forwarded (h : t.forwarded = s.forwarded) :
    forwardedIds t = forwardedIds s := by
  unfold forwardedIds
  rw [h]

/-- The entry of a message that is to arrive at least once does not outlast it. -/
theorem moved_publishAtLeastOnce {p : Publish} {packetId : Nat} {sent : Bool} {u : Unit}
    (hqos : p.qos ≠ QoS.exactlyOnce)
    (h : SessionState.publishAtLeastOnce acl s p packetId sent = (t, Except.ok u)) :
    Moved s t [] := by
  unfold SessionState.publishAtLeastOnce at h
  cases hadd : s.inInflight.add packetId QoS.atLeastOnce with
  | error e =>
      rw [hadd] at h
      cases (Prod.mk.inj h).right
  | ok added =>
      rcases added with ⟨w, fresh⟩
      rw [hadd] at h
      dsimp only at h
      have hbeside := (publish_beside acl { s with inInflight := w } p).left
      have hids := forwardedIds_publish acl { s with inInflight := w } hqos
      cases hpublish : SessionState.publish acl { s with inInflight := w } p with
      | mk r answer =>
          rw [hpublish] at h hbeside hids
          cases answer with
          | error e => cases (Prod.mk.inj h).right
          | ok accepted =>
              have hr : t = SessionState.takeBack fresh r packetId := (written_ok h).right
              have hwindow : r.inInflight = w := hbeside.inInflight
              rw [hr]
              rcases (add_ok hadd).right with ⟨rfl, hnew, hw⟩ | ⟨rfl, _, hw⟩
              · apply Moved.same
                · show r.inInflight.remove packetId = s.inInflight
                  rw [hwindow, hw]
                  unfold InInflight.remove
                  rw [Finset.erase_insert hnew]
                · exact hids
              · apply Moved.same
                · show r.inInflight = s.inInflight
                  rw [hwindow, hw]
                · exact hids

/-- A message that is to arrive exactly once is handed on under an id that was not open. -/
theorem moved_publishExactlyOnce {p : Publish} {packetId : Nat} {sent : Bool} {u : Unit}
    (hqos : p.qos = QoS.exactlyOnce) (hpid : p.packetId = some packetId)
    (h : SessionState.publishExactlyOnce acl s p packetId sent = (t, Except.ok u)) :
    Moved s t (if accepts acl s p = true then [Turn.opened packetId] else []) := by
  rcases publish_beside acl s p with ⟨hbeside, haccepted, hrefused⟩
  unfold SessionState.publishExactlyOnce at h
  cases hcase : accepts acl s p with
  | false =>
      rw [if_neg Bool.false_ne_true]
      rcases hrefused hcase with ⟨hanswer, hforwarded⟩
      cases hpublish : SessionState.publish acl s p with
      | mk r answer =>
          rw [hpublish] at h hbeside hanswer hforwarded
          cases answer with
          | error e => cases (Prod.mk.inj h).right
          | ok accepted =>
              cases accepted with
              | true => exact absurd rfl hanswer
              | false =>
                  rw [(written_ok h).right]
                  exact Moved.same hbeside.inInflight (forwardedIds_of_forwarded hforwarded)
  | true =>
      rw [if_pos rfl]
      rcases haccepted hcase with ⟨hanswer, m, hm, hmqos, hmpid⟩
      cases hpublish : SessionState.publish acl s p with
      | mk r answer =>
          rw [hpublish] at h hbeside hanswer hm
          have hanswered : answer = Except.ok true := hanswer
          have hwindow : r.inInflight = s.inInflight := hbeside.inInflight
          rw [hanswered] at h
          dsimp only at h
          cases hadd : r.inInflight.add packetId QoS.exactlyOnce with
          | error e =>
              rw [hadd] at h
              cases (Prod.mk.inj h).right
          | ok added =>
              rcases added with ⟨w, fresh⟩
              rw [hadd] at h
              rcases written_ok h with ⟨rfl, ht⟩
              rw [hwindow] at hadd
              rcases add_ok hadd with ⟨hroom, ⟨rfl, hnew, hw⟩ | ⟨_, hnot, _⟩⟩
              · rw [ht]
                apply Moved.opened packetId hnew hroom hw
                have hids := forwardedIds_snoc (t := r) hm
                rw [if_pos (hmqos.trans hqos), hmpid, hpid] at hids
                exact hids
              · exact absurd rfl hnot

theorem moved_publishAtMostOnce {p : Publish} {u : Unit} (hqos : p.qos ≠ QoS.exactlyOnce)
    (h : SessionState.publishAtMostOnce acl s p = (t, Except.ok u)) : Moved s t [] := by
  unfold SessionState.publishAtMostOnce at h
  have hbeside := (publish_beside acl s p).left
  have hids := forwardedIds_publish acl s hqos
  cases hpublish : SessionState.publish acl s p with
  | mk r answer =>
      rw [hpublish] at h hbeside hids
      cases answer with
      | error e => cases (Prod.mk.inj h).right
      | ok accepted =>
          rw [← (Prod.mk.inj h).left]
          exact Moved.same hbeside.inInflight hids

theorem moved_processPublish {p : Publish} {sent : Bool} {u : Unit}
    (h : SessionState.processPublish acl s p sent = (t, Except.ok u)) :
    Moved s t (if p.qos = QoS.exactlyOnce ∧ accepts acl s p = true then
      p.packetId.toList.map Turn.opened else []) := by
  unfold SessionState.processPublish at h
  cases hqos : p.qos with
  | atMostOnce =>
      rw [hqos] at h
      rw [if_neg (fun hboth => by cases hboth.left)]
      exact moved_publishAtMostOnce (by rw [hqos]; decide) h
  | atLeastOnce =>
      rw [hqos] at h
      rw [if_neg (fun hboth => by cases hboth.left)]
      cases hpid : p.packetId with
      | none =>
          rw [hpid] at h
          cases (Prod.mk.inj h).right
      | some packetId =>
          rw [hpid] at h
          exact moved_publishAtLeastOnce (by rw [hqos]; decide) h
  | exactlyOnce =>
      rw [hqos] at h
      cases hpid : p.packetId with
      | none =>
          rw [hpid] at h
          cases (Prod.mk.inj h).right
      | some packetId =>
          rw [hpid] at h
          have hmoved := moved_publishExactlyOnce hqos hpid h
          by_cases haccepts : accepts acl s p = true
          · rw [if_pos haccepts] at hmoved
            rw [if_pos ⟨rfl, haccepts⟩]
            exact hmoved
          · rw [if_neg haccepts] at hmoved
            rw [if_neg (fun hboth => haccepts hboth.right)]
            exact hmoved

/-- A packet that the session stays online for. -/
theorem moved_packet {now : Nat} {sent : Bool} {pkt : Packet} {u : Unit}
    (h : SessionState.processMqttMessage acl s now sent pkt = (t, Except.ok u)) :
    Moved s t (turns acl s { now := now, event := Event.packet pkt sent }) := by
  cases pkt with
  | publish p => exact moved_processPublish h
  | publishRelease packetId =>
      rw [(written_ok h).right]
      exact Moved.closed packetId rfl rfl
  | publishAck =>
      rw [← (Prod.mk.inj h).left]
      exact Moved.same rfl rfl
  | publishReceived =>
      rw [(written_ok h).right]
      exact Moved.same rfl rfl
  | publishComplete =>
      rw [← (Prod.mk.inj h).left]
      exact Moved.same rfl rfl
  | subscribe accepted =>
      cases accepted with
      | true =>
          rw [(written_ok h).right]
          exact Moved.same rfl rfl
      | false => cases (Prod.mk.inj h).right
  | unsubscribe accepted =>
      cases accepted with
      | true =>
          rw [(written_ok h).right]
          exact Moved.same rfl rfl
      | false => cases (Prod.mk.inj h).right
  | pingRequest =>
      rw [(written_ok h).right]
      exact Moved.same rfl rfl
  | disconnect d =>
      rw [← (Prod.mk.inj h).left]
      exact Moved.same rfl rfl
  | auth =>
      rw [(written_ok h).right]
      exact Moved.same rfl rfl
  | unimplemented => cases (Prod.mk.inj h).right

theorem finish_phase (s : SessionState) (now : Nat) : (s.finish now).phase ≠ Phase.online := by
  unfold SessionState.finish
  dsimp only
  split
  · exact fun h => Phase.noConfusion h
  · exact fun h => Phase.noConfusion h

/-- A session that is online was online before. -/
theorem step_online {e : Timed} (hstep : s.step acl e = some t) (honline : t.phase = Phase.online) :
    s.phase = Phase.online ∧ s.onlineStep acl e.now e.event = some t := by
  unfold SessionState.step at hstep
  cases hphase : s.phase with
  | online =>
      rw [hphase] at hstep
      exact ⟨rfl, hstep⟩
  | terminated =>
      rw [hphase] at hstep
      cases hstep
  | offline since willDelay expiry =>
      exfalso
      rw [hphase] at hstep
      dsimp only at hstep
      unfold SessionState.offlineStep at hstep
      split at hstep
      · cases hstep
      · split at hstep
        · rw [← Option.some.inj hstep, hphase] at honline
          cases honline
        · rw [← Option.some.inj hstep] at honline
          cases honline
      · rw [← Option.some.inj hstep] at honline
        cases honline
      · split at hstep
        · split at hstep
          · rw [← Option.some.inj hstep] at honline
            cases honline
          · cases hstep
        · cases hstep
      · split at hstep
        · rw [← Option.some.inj hstep] at honline
          cases honline
        · cases hstep

theorem moved_step {e : Timed} (hstep : s.step acl e = some t)
    (honline : t.phase = Phase.online) : Moved s t (turns acl s e) := by
  rcases e with ⟨now, event⟩
  have honlineStep := (step_online hstep honline).right
  cases event with
  | packet pkt sent =>
      unfold SessionState.onlineStep at honlineStep
      dsimp only at honlineStep
      cases hprocess : SessionState.processMqttMessage acl s now sent pkt with
      | mk r answer =>
          rw [hprocess] at honlineStep
          cases answer with
          | error e =>
              exfalso
              rw [← Option.some.inj honlineStep] at honline
              exact finish_phase r now honline
          | ok u =>
              rw [← Option.some.inj honlineStep]
              exact moved_packet hprocess
  | kick senderClosed cleanStart isAdmin =>
      cases senderClosed with
      | true =>
          rw [← Option.some.inj honlineStep]
          exact Moved.same rfl rfl
      | false =>
          exfalso
          rw [← Option.some.inj honlineStep] at honline
          exact finish_phase _ now honline
  | closed =>
      exfalso
      rw [← Option.some.inj honlineStep] at honline
      exact finish_phase _ now honline
  | willDelayElapsed => cases honlineStep
  | sessionExpired => cases honlineStep

end Steps

/-!
## Runs
-/

/-- The window of an online session has the exchanges that the turns so far left open. -/
structure Exchanging (limit : Nat) (log : List (Turn Nat)) (s : SessionState) : Prop where
  limit_eq : s.inInflight.maxInflight = limit
  card_le : s.inInflight.cached.card ≤ limit
  tracks : Turn.Tracks log s.inInflight.cached
  ids : forwardedIds s = Turn.openings log

section Runs

variable {acl : AclConfig} {s t : SessionState} {limit : Nat} {log : List (Turn Nat)}

theorem exchanging_new (inner : Inner) :
    Exchanging inner.listenCfg.maxInflight [] (SessionState.new inner) := by
  constructor
  case limit_eq => rfl
  case card_le => exact Nat.zero_le _
  case tracks => exact Turn.tracks_nil
  case ids => rfl

theorem openings_append (log log' : List (Turn Nat)) :
    Turn.openings (log ++ log') = Turn.openings log ++ Turn.openings log' :=
  List.filterMap_append

theorem Exchanging.moved (h : Exchanging limit log s) {steps : List (Turn Nat)}
    (hmoved : Moved s t steps) : Exchanging limit (log ++ steps) t := by
  have hlimit := h.limit_eq
  have hcard := h.card_le
  cases hmoved with
  | same hwindow hids =>
      rw [List.append_nil]
      exact ⟨hwindow ▸ h.limit_eq, hwindow ▸ h.card_le, hwindow ▸ h.tracks, hids.trans h.ids⟩
  | opened packetId hnew hroom hwindow hids =>
      constructor
      case limit_eq =>
        rw [hwindow]
        exact h.limit_eq
      case card_le =>
        rw [hwindow]
        dsimp only
        rw [Finset.card_insert_of_notMem hnew]
        omega
      case tracks =>
        rw [hwindow]
        exact h.tracks.opened hnew
      case ids =>
        rw [hids, openings_append, h.ids]
        rfl
  | closed packetId hwindow hids =>
      constructor
      case limit_eq =>
        rw [hwindow]
        exact h.limit_eq
      case card_le =>
        rw [hwindow]
        exact (Finset.card_erase_le).trans h.card_le
      case tracks =>
        rw [hwindow]
        exact h.tracks.closed packetId
      case ids =>
        rw [hids, openings_append, h.ids]
        exact (List.append_nil _).symm

/-- A run that ends online was online all the time. -/
theorem run_online {es : List Timed} (hrun : Run (SessionState.step acl) Always s es t)
    (honline : t.phase = Phase.online) : s.phase = Phase.online := by
  induction hrun with
  | nil r => exact honline
  | cons _ hstep _ ih => exact (step_online hstep (ih honline)).left

theorem Exchanging.run (h : Exchanging limit log s) {es : List Timed}
    (hrun : Run (SessionState.step acl) Always s es t) (honline : t.phase = Phase.online) :
    Exchanging limit (log ++ collect (SessionState.step acl) (turns acl) s es) t := by
  induction hrun generalizing log with
  | nil r =>
      unfold collect
      rw [List.append_nil]
      exact h
  | @cons r u v e es _ hstep hrest ih =>
      have hu := run_online hrest honline
      rw [collect_cons es hstep, ← List.append_assoc]
      exact ih (h.moved (moved_step hstep hu)) honline

/-- What becomes of a message that is to arrive exactly once and is let through. -/
theorem publishExactlyOnce_accepted {p : Publish} {packetId : Nat}
    (hqos : p.qos = QoS.exactlyOnce) (hpid : p.packetId = some packetId)
    (haccepts : accepts acl s p = true) (sent : Bool) :
    (exists m : From × Publish,
      (SessionState.publishExactlyOnce acl s p packetId sent).1.forwarded = s.forwarded ++ [m] ∧
        m.2.qos = QoS.exactlyOnce ∧ m.2.packetId = some packetId) ∧
    (SessionState.publishExactlyOnce acl s p packetId sent).1.phase = s.phase ∧
    ((SessionState.publishExactlyOnce acl s p packetId sent).2.isOk = true <->
      sent = true ∧ packetId ∉ s.inInflight.cached ∧
        s.inInflight.cached.card < s.inInflight.maxInflight) := by
  rcases publish_beside acl s p with ⟨hbeside, haccepted, _⟩
  rcases haccepted haccepts with ⟨hanswer, m, hm, hmqos, hmpid⟩
  unfold SessionState.publishExactlyOnce
  cases hpublish : SessionState.publish acl s p with
  | mk r answer =>
      rw [hpublish] at hbeside hanswer hm
      have hanswered : answer = Except.ok true := hanswer
      have hwindow : r.inInflight = s.inInflight := hbeside.inInflight
      have hphase : r.phase = s.phase := hbeside.phase
      have hsent : exists m : From × Publish, r.forwarded = s.forwarded ++ [m] ∧
          m.2.qos = QoS.exactlyOnce ∧ m.2.packetId = some packetId :=
        ⟨m, hm, hmqos.trans hqos, hmpid.trans hpid⟩
      rw [hanswered]
      dsimp only
      unfold InInflight.add
      rw [hwindow]
      by_cases hfull : s.inInflight.maxInflight ≤ s.inInflight.cached.card
      · rw [if_pos hfull]
        refine ⟨hsent, hphase, ?_⟩
        constructor
        · intro h
          cases h
        · intro h
          omega
      · rw [if_neg hfull]
        by_cases hnew : packetId ∉ s.inInflight.cached
        · rw [if_pos hnew]
          cases sent with
          | true =>
              refine ⟨hsent, hphase, ?_⟩
              constructor
              · intro _
                exact ⟨rfl, hnew, by omega⟩
              · intro _
                rfl
          | false =>
              refine ⟨hsent, hphase, ?_⟩
              constructor
              · intro h
                cases h
              · intro h
                cases h.left
        · rw [if_neg hnew, if_pos rfl]
          refine ⟨hsent, hphase, ?_⟩
          constructor
          · intro h
            cases h
          · intro h
            exact absurd h.right.left hnew

end Runs

namespace Sample

/-- A connection of a superuser. -/
def superuser : Inner :=
  { connectInfo :=
      ConnectInfo.v3 { nodeId := 1, clientId := "c", username := none, createTime := 0 }
        { cleanSession := true, username := none, password := none, lastWill := none }
    superuser := true, authInfo := none, listenCfg := cfg }

/-- A message that is to arrive exactly once. -/
def once : Publish :=
  { dup := false, retain := false, qos := QoS.exactlyOnce, topic := "a", packetId := some 7,
    payload := [], topicAlias := none, messageExpiryInterval := none, createTime := none }

end Sample

end Session
end Ciqada
