import Ciqada.Foundation.Run
import Ciqada.Foundation.Table
import Ciqada.Session.Shared

/-!
# Isolation of users across takeovers

A session of an ordinary user should see only what the user's own rules accept.
Subscriptions are checked when they are made, but a takeover enters the old
session's subscriptions and messages again without asking the rules of the new
user.  Isolation therefore holds in the runs in which every connect finds
nothing left behind that the new user's rules would refuse.
-/

namespace Ciqada
namespace Session

open Foundation Broker Api Store

/-- A request for a filter with no options. -/
def plainRequest (topicFilter : String) : Subscribe :=
  { topicFilter := topicFilter, qos := QoS.atMostOnce, sharedGroup := none, limitSubs := none }

/-- The rules built for the user's connection accept the filter. -/
def Accepts (acl : AclConfig) (user : UserRecord) (ci : ConnectInfo) (topicFilter : String) :
    Prop :=
  exists reason, (buildAuthInfo user acl ci).subscribeAcl (plainRequest topicFilter) =
    some reason ∧ reason.success.isSome = true

/-- The filter selects the topic, in routing or in replay. -/
def Selects (topicFilter topic : String) : Prop :=
  Routes topicFilter topic ∨ topicMatches topic topicFilter = true

/-- Some accepted filter selects the topic. -/
def Entitled (accepts : String -> Prop) (topic : String) : Prop :=
  exists f, accepts f ∧ Selects f topic

/-- What is handed over fits; a finished exchange is not sent again. -/
structure InfoFits (accepts : String -> Prop) (info : OfflineInfo) : Prop where
  subscriptions : forall sub, sub ∈ info.subscriptions -> accepts sub.1
  offlineMessages : forall m, m ∈ info.offlineMessages -> Entitled accepts m.2.topic
  inflightMessages : forall m, m ∈ info.inflightMessages ->
    m.status ≠ MomentStatus.unComplete -> Entitled accepts m.publish.topic

def MessageFits (accepts : String -> Prop) : Message -> Prop
  | Message.forward _ m => Entitled accepts m.topic
  | Message.sendRerelease m => Entitled accepts m.publish.topic
  | Message.subscribes _ => True
  | Message.sessionStateTransfer info _ => InfoFits accepts info

/-- The session belongs to the user, and all it holds or has delivered fits. -/
structure Fits (user : UserRecord) (ci : ConnectInfo) (accepts : String -> Prop) (p : Peer) :
    Prop where
  user : p.user = user
  connectInfo : p.connectInfo = ci
  subscriptions : forall sub, sub ∈ p.subscriptions -> accepts sub.1
  deliverQueue : forall m, m ∈ p.deliverQueue -> Entitled accepts m.2.topic
  outInflight : forall m, m ∈ p.outInflight -> Entitled accepts m.publish.topic
  delivered : forall m, m ∈ p.delivered -> Entitled accepts m.topic
  inbox : forall m, m ∈ p.inbox -> MessageFits accepts m

/-!
## Operations on one session
-/

namespace Fits

variable {user : UserRecord} {ci : ConnectInfo} {accepts : String -> Prop} {p : Peer}

theorem new (user : UserRecord) (ci : ConnectInfo) {inbox : List Message}
    (hinbox : forall m, m ∈ inbox -> MessageFits accepts m) :
    Fits user ci accepts (Peer.new user ci inbox) := by
  refine ⟨rfl, rfl, ?_, ?_, ?_, ?_, hinbox⟩ <;>
    · intro m hm
      cases hm

theorem push (h : Fits user ci accepts p) {m : Message} (hm : MessageFits accepts m) :
    Fits user ci accepts { p with inbox := p.inbox ++ [m] } := by
  refine ⟨h.user, h.connectInfo, h.subscriptions, h.deliverQueue, h.outInflight, h.delivered, ?_⟩
  intro x hx
  rcases List.mem_append.mp hx with hold | hnew
  · exact h.inbox x hold
  · rw [List.mem_singleton.mp hnew]
    exact hm

theorem forward (h : Fits user ci accepts p) (sender : From) {m : Publish}
    (hm : Entitled accepts m.topic) : Fits user ci accepts (p.forward sender m) :=
  h.push hm

theorem subscriptionsAdd (h : Fits user ci accepts p) {f : String} (hf : accepts f)
    (opts : SubscriptionOptions) : Fits user ci accepts (p.subscriptionsAdd f opts) := by
  refine ⟨h.user, h.connectInfo, ?_, h.deliverQueue, h.outInflight, h.delivered, h.inbox⟩
  intro sub hsub
  rcases List.mem_append.mp hsub with hold | hnew
  · exact h.subscriptions sub (List.mem_filter.mp hold).left
  · rw [List.mem_singleton.mp hnew]
    exact hf

theorem subscriptionsRemove (h : Fits user ci accepts p) (f : String) :
    Fits user ci accepts (p.subscriptionsRemove f) := by
  refine ⟨h.user, h.connectInfo, ?_, h.deliverQueue, h.outInflight, h.delivered, h.inbox⟩
  intro sub hsub
  exact h.subscriptions sub (List.mem_filter.mp hsub).left

theorem subscriptionsExtend (h : Fits user ci accepts p) {subs : Subscriptions}
    (hsubs : forall sub, sub ∈ subs -> accepts sub.1) :
    Fits user ci accepts (p.subscriptionsExtend subs) := by
  refine List.foldlRecOn subs _ h ?_
  intro q hq sub hsub
  exact hq.subscriptionsAdd (hsubs sub hsub) sub.2

theorem enqueue (h : Fits user ci accepts p) (cfg : ListenerConfig) (sender : From) {m : Publish}
    (hm : Entitled accepts m.topic) : Fits user ci accepts (p.enqueue cfg sender m) := by
  have happend : forall queue, (forall x, x ∈ queue -> x ∈ p.deliverQueue) ->
      Fits user ci accepts { p with deliverQueue := queue ++ [(sender, m)] } := by
    intro queue hqueue
    refine ⟨h.user, h.connectInfo, h.subscriptions, ?_, h.outInflight, h.delivered, h.inbox⟩
    intro x hx
    rcases List.mem_append.mp hx with hold | hnew
    · exact h.deliverQueue x (hqueue x hold)
    · rw [List.mem_singleton.mp hnew]
      exact hm
  unfold Peer.enqueue
  split
  · exact happend _ (fun x hx => hx)
  · split
    · exact h
    · exact happend _ (fun x hx => List.mem_of_mem_drop hx)

theorem removeInflight (h : Fits user ci accepts p) (pid : Nat) :
    Fits user ci accepts (p.removeInflight pid) := by
  refine ⟨h.user, h.connectInfo, h.subscriptions, h.deliverQueue, ?_, h.delivered, h.inbox⟩
  intro m hm
  exact h.outInflight m (List.mem_filter.mp hm).left

theorem pushInflight (h : Fits user ci accepts p) {m : OutInflightMessage}
    (hm : Entitled accepts m.publish.topic) : Fits user ci accepts (p.pushInflight m) := by
  unfold Peer.pushInflight
  split
  · exact h
  · rename_i pid _hpid
    have hremoved := h.removeInflight pid
    refine ⟨hremoved.user, hremoved.connectInfo, hremoved.subscriptions,
      hremoved.deliverQueue, ?_, hremoved.delivered, hremoved.inbox⟩
    intro x hx
    rcases List.mem_append.mp hx with hold | hnew
    · exact hremoved.outInflight x hold
    · rw [List.mem_singleton.mp hnew]
      exact hm

theorem updateStatus (h : Fits user ci accepts p) (pid : Nat) (status : MomentStatus) :
    Fits user ci accepts (p.updateStatus pid status) := by
  refine ⟨h.user, h.connectInfo, h.subscriptions, h.deliverQueue, ?_, h.delivered, h.inbox⟩
  intro m hm
  rcases List.mem_map.mp hm with ⟨x, hx, heq⟩
  have hfits := h.outInflight x hx
  rw [← heq]
  split
  · exact hfits
  · exact hfits

theorem reforward (h : Fits user ci accepts p) {m : OutInflightMessage}
    (hm : Entitled accepts m.publish.topic) : Fits user ci accepts (p.reforward m) := by
  unfold Peer.reforward
  split
  · exact h.forward _ hm
  · exact h.forward _ hm
  · exact h.push hm

theorem deliver (h : Fits user ci accepts p) (expired : Bool) (nextId : Nat) :
    Fits user ci accepts (p.deliver expired nextId) := by
  unfold Peer.deliver
  split
  · exact h
  · rename_i sender m rest hqueue
    have hm : Entitled accepts (Peer.numbered m nextId).topic := by
      have htopic : (Peer.numbered m nextId).topic = m.topic := by
        unfold Peer.numbered
        split <;> rfl
      rw [htopic]
      exact h.deliverQueue (sender, m) (by rw [hqueue]; exact List.mem_cons_self)
    have hrest : Fits user ci accepts { p with deliverQueue := rest } := by
      refine ⟨h.user, h.connectInfo, h.subscriptions, ?_, h.outInflight, h.delivered, h.inbox⟩
      intro x hx
      exact h.deliverQueue x (by rw [hqueue]; exact List.mem_cons_of_mem _ hx)
    dsimp only
    split
    · exact hrest
    · have hsent : Fits user ci accepts { p with deliverQueue := rest, delivered :=
          p.delivered ++ [Peer.numbered m nextId] } := by
        refine ⟨hrest.user, hrest.connectInfo, hrest.subscriptions, hrest.deliverQueue,
          hrest.outInflight, ?_, hrest.inbox⟩
        intro x hx
        rcases List.mem_append.mp hx with hold | hnew
        · exact h.delivered x hold
        · rw [List.mem_singleton.mp hnew]
          exact hm
      split
      · exact hsent
      · exact hsent.pushInflight hm

theorem retransmit (h : Fits user ci accepts p) : Fits user ci accepts p.retransmit := by
  unfold Peer.retransmit
  split
  · exact h
  · rename_i m rest hinflight
    have hrest : Fits user ci accepts { p with outInflight := rest } := by
      refine ⟨h.user, h.connectInfo, h.subscriptions, h.deliverQueue, ?_, h.delivered, h.inbox⟩
      intro x hx
      exact h.outInflight x (by rw [hinflight]; exact List.mem_cons_of_mem _ hx)
    exact hrest.reforward (h.outInflight m (by rw [hinflight]; exact List.mem_cons_self))

theorem reforwardInflight (h : Fits user ci accepts p) {msgs : List OutInflightMessage}
    (hmsgs : forall m, m ∈ msgs -> m.status ≠ MomentStatus.unComplete ->
      Entitled accepts m.publish.topic) :
    Fits user ci accepts (Shared.reforwardInflight p msgs) := by
  refine List.foldlRecOn msgs.reverse _ h ?_
  intro q hq m hm
  split
  · exact hq
  · rename_i hstatus
    exact hq.reforward (hmsgs m (List.mem_reverse.mp hm) hstatus)

theorem forwardOffline (h : Fits user ci accepts p) {msgs : List (From × Publish)}
    (hmsgs : forall m, m ∈ msgs -> Entitled accepts m.2.topic) :
    Fits user ci accepts (Shared.forwardOffline p msgs) := by
  refine List.foldlRecOn msgs _ h ?_
  intro q hq m hm
  exact hq.forward m.1 (hmsgs m hm)

theorem takeInbox (h : Fits user ci accepts p) {m : Message} {rest : List Message}
    (hinbox : p.inbox = m :: rest) :
    Fits user ci accepts { p with inbox := rest } ∧ MessageFits accepts m := by
  constructor
  · refine ⟨h.user, h.connectInfo, h.subscriptions, h.deliverQueue, h.outInflight, h.delivered, ?_⟩
    intro x hx
    exact h.inbox x (by rw [hinbox]; exact List.mem_cons_of_mem m hx)
  · exact h.inbox m (by rw [hinbox]; exact List.mem_cons_self)

end Fits

/-!
## The table
-/

/-- A superuser is allowed every filter, an ordinary user what the rules accept. -/
def Allowed (acl : AclConfig) (user : UserRecord) (ci : ConnectInfo) (topicFilter : String) :
    Prop :=
  user.superuser = true ∨ Accepts acl user ci topicFilter

/-- A session under a client id fits, and so does what the router has for it. -/
structure EntryFits (acl : AclConfig) (r : Router) (c : String) (p : Peer) : Prop where
  clientId : p.connectInfo.clientId = c
  fits : Fits p.user p.connectInfo (Allowed acl p.user p.connectInfo) p
  relations : forall x, x ∈ r.relations -> x.clientId = c ->
    Allowed acl p.user p.connectInfo x.topicFilter

def AllFit (acl : AclConfig) (s : Shared) : Prop :=
  forall c p, s.peers.lookup c = some p -> EntryFits acl s.router c p

/-- The session under a client id belongs to a user's connection. -/
def Owns (s : Shared) (clientId : String) (user : UserRecord) (ci : ConnectInfo) : Prop :=
  exists p, s.peers.lookup clientId = some p ∧ p.user = user ∧ p.connectInfo = ci

section Table

variable {acl : AclConfig} {s : Shared} {c : String}

/-- Other clients keep their entry when only relations of this client are added. -/
theorem allFit_insert (hall : AllFit acl s) {r : Router} {q : Peer}
    (hentry : EntryFits acl r c q)
    (hrelations : forall x, x ∈ r.relations -> x.clientId ≠ c -> x ∈ s.router.relations) :
    AllFit acl { peers := s.peers.insert c q, router := r } := by
  intro c' p hp
  by_cases hc : c' = c
  · rw [hc, Finmap.lookup_insert] at hp
    rw [hc, ← Option.some.inj hp]
    exact hentry
  · have hold : s.peers.lookup c' = some p := by
      rw [← hp]
      exact (Finmap.lookup_insert_of_ne _ hc).symm
    refine ⟨(hall c' p hold).clientId, (hall c' p hold).fits, ?_⟩
    intro x hx hclient
    exact (hall c' p hold).relations x (hrelations x hx (by rw [hclient]; exact hc)) hclient

theorem update_of_lookup {p : Peer} (hp : s.peers.lookup c = some p) (f : Peer -> Peer) :
    s.update c f = { s with peers := s.peers.insert c (f p) } := by
  unfold Shared.update
  rw [hp]

theorem update_of_missing (hp : s.peers.lookup c = none) (f : Peer -> Peer) :
    s.update c f = s := by
  unfold Shared.update
  rw [hp]

/-- An operation that keeps one session fitting keeps the table fitting. -/
theorem allFit_update (hall : AllFit acl s) {f : Peer -> Peer}
    (hf : forall p, s.peers.lookup c = some p ->
      Fits p.user p.connectInfo (Allowed acl p.user p.connectInfo) p ->
        Fits p.user p.connectInfo (Allowed acl p.user p.connectInfo) (f p)) :
    AllFit acl (s.update c f) := by
  cases hp : s.peers.lookup c with
  | none =>
      rw [update_of_missing hp]
      exact hall
  | some p =>
      have hfits := hf p hp (hall c p hp).fits
      rw [update_of_lookup hp]
      apply allFit_insert hall
      · constructor
        · rw [hfits.connectInfo]
          exact (hall c p hp).clientId
        · rw [hfits.user, hfits.connectInfo]
          exact hfits
        · intro x hx hclient
          rw [hfits.user, hfits.connectInfo]
          exact (hall c p hp).relations x hx hclient
      · intro x hx _
        exact hx

theorem owns_update {user : UserRecord} {ci : ConnectInfo} (howns : Owns s c user ci)
    {f : Peer -> Peer} (huser : forall p, (f p).user = p.user)
    (hci : forall p, (f p).connectInfo = p.connectInfo) :
    Owns (s.update c f) c user ci := by
  rcases howns with ⟨p, hp, hpuser, hpci⟩
  refine ⟨f p, ?_, (huser p).trans hpuser, (hci p).trans hpci⟩
  rw [update_of_lookup hp]
  exact Finmap.lookup_insert _

theorem mem_of_mem_unsubscribeAll {r : Router} {p : Peer} {x : Relation}
    (hx : x ∈ (Shared.unsubscribeAll r p).relations) : x ∈ r.relations := by
  have hfold : forall y, y ∈ (Shared.unsubscribeAll r p).relations -> y ∈ r.relations := by
    unfold Shared.unsubscribeAll
    refine @List.foldlRecOn Router _ (fun q => forall y, y ∈ q.relations -> y ∈ r.relations)
      p.subscriptions _ r (fun y hy => hy) ?_
    intro q hq sub _ y hy
    exact hq y (Router.mem_of_mem_remove hy)
  exact hfold x hx

theorem allFit_remove (hall : AllFit acl s) (clear : Bool) : AllFit acl (s.remove c clear) := by
  unfold Shared.remove
  cases hp : s.peers.lookup c with
  | none => exact hall
  | some old =>
      intro c' p hp'
      by_cases hc : c' = c
      · rw [hc] at hp'
        exact absurd hp' (by simp [Finmap.lookup_erase])
      · have hold : s.peers.lookup c' = some p := by
          rw [← hp']
          exact (Finmap.lookup_erase_ne hc).symm
        refine ⟨(hall c' p hold).clientId, (hall c' p hold).fits, ?_⟩
        intro x hx hclient
        apply (hall c' p hold).relations x ?_ hclient
        cases clear with
        | true => exact mem_of_mem_unsubscribeAll hx
        | false => exact hx

/-!
## Stored messages, subscriptions and routing
-/

theorem allFit_sendStoragedMessages {user : UserRecord} {ci : ConnectInfo} {f : String}
    (hall : AllFit acl s) (howns : Owns s c user ci) (hf : Allowed acl user ci f)
    (stored : List (From × Publish)) (qos : QoS) :
    AllFit acl (Shared.sendStoragedMessages stored s c f qos) ∧
      Owns (Shared.sendStoragedMessages stored s c f qos) c user ci := by
  unfold Shared.sendStoragedMessages
  refine @List.foldlRecOn Shared (From × Publish)
    (fun t => AllFit acl t ∧ Owns t c user ci) _ _ s ⟨hall, howns⟩ ?_
  intro t ht m hm
  have hselects : topicMatches m.2.topic f = true := by
    simpa using (List.mem_filter.mp hm).right
  constructor
  · apply allFit_update ht.left
    intro p hp hfits
    rcases ht.right with ⟨q, hq, huser, hci⟩
    have hpq : p = q := Option.some.inj (hp.symm.trans hq)
    apply hfits.forward
    refine ⟨f, ?_, Or.inr hselects⟩
    rw [hpq, huser, hci]
    exact hf
  · exact owns_update ht.right (fun _ => rfl) (fun _ => rfl)

theorem allFit_unsubscribe (hall : AllFit acl s) (f : String) :
    AllFit acl (s.unsubscribe c f) := by
  unfold Shared.unsubscribe
  cases hp : s.peers.lookup c with
  | none => exact hall
  | some p =>
      have hfits := (hall c p hp).fits.subscriptionsRemove f
      apply allFit_insert hall
      · refine ⟨(hall c p hp).clientId, hfits, ?_⟩
        intro x hx hclient
        exact (hall c p hp).relations x (Router.mem_of_mem_remove hx) hclient
      · intro x hx _
        exact Router.mem_of_mem_remove hx

theorem allFit_forwards (hall : AllFit acl s) (choice : Router.Choice) (isOpen : String -> Bool)
    (sender : From) (m : Publish) : AllFit acl (s.forwards choice isOpen sender m) := by
  have hfold : AllFit acl (s.forwards choice isOpen sender m) ∧
      (s.forwards choice isOpen sender m).router = s.router := by
    unfold Shared.forwards
    refine @List.foldlRecOn Shared Relation (fun t => AllFit acl t ∧ t.router = s.router) _ _ s
      ⟨hall, rfl⟩ ?_
    intro t ht x hx
    rcases Router.of_mem_matchesTopic hx with ⟨hmem, hroutes⟩
    split
    · constructor
      · apply allFit_update ht.left
        intro p hp hfits
        apply hfits.forward
        refine ⟨x.topicFilter, ?_, Or.inl hroutes⟩
        apply (ht.left x.clientId p hp).relations x ?_ rfl
        rw [ht.right]
        exact hmem
      · unfold Shared.update
        split <;> exact ht.right
    · exact ht
  exact hfold.left

/-!
## Subscribing and taking over
-/

theorem accepts_of_check (henabled : acl.enabled = true) {user : UserRecord}
    {ci : ConnectInfo} (hordinary : user.superuser = false) {sub : Subscribe}
    (hcheck : (clientSubscribeCheckAcl acl (some (buildAuthInfo user acl ci))
      sub).success.isSome = true) : Accepts acl user ci sub.topicFilter := by
  have hplain : (clientSubscribeCheckAcl acl (some (buildAuthInfo user acl ci))
      (plainRequest sub.topicFilter)).success.isSome = true := by
    rw [clientSubscribeCheckAcl_build henabled hordinary] at hcheck ⊢
    exact hcheck
  unfold clientSubscribeCheckAcl at hplain
  rw [henabled] at hplain
  dsimp only [Option.bind_some] at hplain
  cases hanswer : (buildAuthInfo user acl ci).subscribeAcl (plainRequest sub.topicFilter) with
  | none =>
      rw [hanswer] at hplain
      cases hplain
  | some reason =>
      rw [hanswer] at hplain
      exact ⟨reason, hanswer, hplain⟩

theorem allowed_of_subscribeCheck (henabled : acl.enabled = true) {p : Peer} {sub : Subscribe}
    {qos : QoS} (hcheck : Shared.subscribeCheck acl p sub = some qos) :
    Allowed acl p.user p.connectInfo sub.topicFilter := by
  unfold Shared.subscribeCheck at hcheck
  cases hsuper : p.user.superuser with
  | true => exact Or.inl hsuper
  | false =>
      rw [hsuper, if_neg Bool.false_ne_true] at hcheck
      right
      apply accepts_of_check henabled hsuper
      unfold Peer.authInfo at hcheck
      rw [hcheck]
      rfl

/-- A session that may have a filter keeps fitting when the filter is entered. -/
theorem relations_of_add {p : Peer} {f : String} {opts : SubscriptionOptions} {r : Router}
    (hentry : EntryFits acl s.router c p) (hf : Allowed acl p.user p.connectInfo f)
    (hadd : s.router.add f p.id opts = Except.ok r) :
    (forall x, x ∈ r.relations -> x.clientId = c ->
        Allowed acl p.user p.connectInfo x.topicFilter) ∧
      forall x, x ∈ r.relations -> x.clientId ≠ c -> x ∈ s.router.relations := by
  constructor
  · intro x hx hclient
    rcases Router.mem_add hadd hx with hold | hnew
    · exact hentry.relations x hold hclient
    · rw [hnew.right]
      exact hf
  · intro x hx hclient
    rcases Router.mem_add hadd hx with hold | hnew
    · exact hold
    · exact absurd (hnew.left.trans hentry.clientId) hclient

theorem allFit_subscribe {env : Env} (henabled : env.acl.enabled = true)
    (hall : AllFit env.acl s) (stored : List (From × Publish)) (req : Request) :
    AllFit env.acl (s.subscribe env stored c req) := by
  unfold Shared.subscribe
  cases hp : s.peers.lookup c with
  | none => exact hall
  | some p =>
      dsimp only
      split
      · exact hall
      · split
        · exact hall
        · split
          · exact hall
          · rename_i qos hcheck
            have hf := allowed_of_subscribeCheck henabled hcheck
            have hentry := hall c p hp
            split
            · exact hall
            · rename_i t hsubscribe
              unfold Shared.subscribeEntry at hsubscribe
              split at hsubscribe
              · cases hsubscribe
              · rename_i r hadd
                rcases relations_of_add hentry hf hadd with ⟨hmine, hothers⟩
                have ht := Option.some.inj hsubscribe
                apply (allFit_sendStoragedMessages ?_ ?_ hf stored _).left
                · rw [← ht]
                  refine allFit_insert hall ⟨hentry.clientId, ?_, hmine⟩ hothers
                  exact hentry.fits.subscriptionsAdd hf _
                · rw [← ht]
                  exact ⟨_, Finmap.lookup_insert _, rfl, rfl⟩

theorem allFit_transferSubscription {user : UserRecord} {ci : ConnectInfo}
    (hall : AllFit acl s) (howns : Owns s c user ci) {sub : String × SubscriptionOptions}
    (hf : Allowed acl user ci sub.1) (stored : List (From × Publish)) :
    AllFit acl (Shared.transferSubscription stored c s sub) ∧
      Owns (Shared.transferSubscription stored c s sub) c user ci := by
  rcases howns with ⟨p, hp, huser, hci⟩
  have hentry := hall c p hp
  unfold Shared.transferSubscription
  rw [hp]
  dsimp only
  cases hadd : s.router.add sub.1 p.id sub.2 with
  | error e => exact allFit_sendStoragedMessages hall ⟨p, hp, huser, hci⟩ hf stored _
  | ok r =>
      rw [← huser, ← hci] at hf
      rcases relations_of_add hentry hf hadd with ⟨hmine, hothers⟩
      have hrouted : AllFit acl { s with router := r } := by
        intro c' p' hp'
        have hold := hall c' p' hp'
        refine ⟨hold.clientId, hold.fits, ?_⟩
        intro x hx hclient
        by_cases hc : c' = c
        · rw [hc] at hp' hclient
          rw [← Option.some.inj (hp.symm.trans hp')]
          exact hmine x hx hclient
        · exact hold.relations x (hothers x hx (by rw [hclient]; exact hc)) hclient
      rw [huser, hci] at hf
      exact allFit_sendStoragedMessages hrouted ⟨p, hp, huser, hci⟩ hf stored _

theorem allFit_transferSessionState {user : UserRecord} {ci : ConnectInfo}
    (hall : AllFit acl s) (howns : Owns s c user ci) {info : OfflineInfo}
    (hinfo : InfoFits (Allowed acl user ci) info) (stored : List (From × Publish))
    (clear : Bool) : AllFit acl (Shared.transferSessionState stored c s info clear) := by
  have hentered : AllFit acl (if clear then s
        else info.subscriptions.foldl (Shared.transferSubscription stored c) s) ∧
      Owns (if clear then s
        else info.subscriptions.foldl (Shared.transferSubscription stored c) s) c user ci := by
    cases clear with
    | true => exact ⟨hall, howns⟩
    | false =>
        refine @List.foldlRecOn Shared _ (fun t => AllFit acl t ∧ Owns t c user ci)
          info.subscriptions _ s ⟨hall, howns⟩ ?_
        intro t ht sub hsub
        exact allFit_transferSubscription ht.left ht.right (hinfo.subscriptions sub hsub) stored
  unfold Shared.transferSessionState
  dsimp only
  apply allFit_update hentered.left
  intro p hp hfits
  rcases hentered.right with ⟨q, hq, huser, hci⟩
  have hpq : p = q := Option.some.inj (hp.symm.trans hq)
  rw [hpq, huser, hci] at hfits ⊢
  have hextended : Fits user ci (Allowed acl user ci)
      (if clear then q else q.subscriptionsExtend info.subscriptions) := by
    cases clear with
    | true => exact hfits
    | false => exact hfits.subscriptionsExtend hinfo.subscriptions
  exact (hextended.reforwardInflight hinfo.inflightMessages).forwardOffline
    hinfo.offlineMessages

theorem entitled_mono {accepts accepts' : String -> Prop} {topic : String}
    (hmono : forall f, accepts f -> accepts' f) (h : Entitled accepts topic) :
    Entitled accepts' topic := by
  rcases h with ⟨f, hf, hselects⟩
  exact ⟨f, hmono f hf, hselects⟩

theorem infoFits_mono {accepts accepts' : String -> Prop} {info : OfflineInfo}
    (hmono : forall f, accepts f -> accepts' f) (h : InfoFits accepts info) :
    InfoFits accepts' info :=
  { subscriptions := fun sub hsub => hmono sub.1 (h.subscriptions sub hsub)
    offlineMessages := fun m hm => entitled_mono hmono (h.offlineMessages m hm)
    inflightMessages := fun m hm hstatus =>
      entitled_mono hmono (h.inflightMessages m hm hstatus) }

theorem infoFits_toOfflineInfo {user : UserRecord} {ci : ConnectInfo}
    {accepts : String -> Prop} {p : Peer} (h : Fits user ci accepts p) :
    InfoFits accepts p.toOfflineInfo :=
  { subscriptions := h.subscriptions
    offlineMessages := h.deliverQueue
    inflightMessages := fun m hm _ => h.outInflight m hm }

/--
What is left under the client id of a new connection suits the user: the
relations that stay in the router and, without a clean start, the subscriptions
and messages of the old session.
-/
def LeftoversFit (acl : AclConfig) (s : Shared) (user : UserRecord) (ci : ConnectInfo) :
    Prop :=
  (forall x, x ∈ (s.remove ci.clientId ci.cleanStart).router.relations ->
      x.clientId = ci.clientId -> Accepts acl user ci x.topicFilter) ∧
    (ci.cleanStart = false -> forall old, s.peers.lookup ci.clientId = some old ->
      InfoFits (Accepts acl user ci) old.toOfflineInfo)

/-- The connects of ordinary users find nothing that their rules refuse. -/
def Fitting (acl : AclConfig) (s : Shared) : SharedEvent -> Prop
  | SharedEvent.connect user ci _ aborted =>
      aborted = true ∨ user.superuser = true ∨ LeftoversFit acl s user ci
  | _ => True

theorem allFit_connect {user : UserRecord} {ci : ConnectInfo} (hall : AllFit acl s)
    (autoSubs : List Request) {aborted : Bool}
    (hfitting : aborted = true ∨ user.superuser = true ∨ LeftoversFit acl s user ci) :
    AllFit acl (s.connect user ci autoSubs aborted) := by
  have hremoved : AllFit acl (s.remove ci.clientId ci.cleanStart) :=
    allFit_remove hall ci.cleanStart
  unfold Shared.connect
  dsimp only
  split
  · exact hremoved
  · rename_i hgoes
    have hleft : user.superuser = true ∨ LeftoversFit acl s user ci := by
      rcases hfitting with haborted | hrest
      · exact absurd haborted hgoes
      · exact hrest
    apply allFit_insert hremoved
    · refine ⟨rfl, Fits.new user ci ?_, ?_⟩
      · intro m hm
        rcases List.mem_append.mp hm with htransfer | hsubs
        · cases hold : s.peers.lookup ci.clientId with
          | none =>
              rw [hold] at htransfer
              cases htransfer
          | some old =>
              rw [hold] at htransfer
              dsimp only at htransfer
              split at htransfer
              · cases htransfer
              · rename_i hclean
                rw [List.mem_singleton.mp htransfer]
                rcases hleft with hsuper | hfits
                · exact infoFits_mono (fun _ _ => Or.inl hsuper)
                    (infoFits_toOfflineInfo (hall _ old hold).fits)
                · exact infoFits_mono (fun _ hf => Or.inr hf)
                    (hfits.right (by simpa using hclean) old hold)
        · rw [List.mem_singleton.mp hsubs]
          exact trivial
      · intro x hx hclient
        rcases hleft with hsuper | hfits
        · exact Or.inl hsuper
        · exact Or.inr (hfits.left x hx hclient)
    · intro x hx _
      exact hx

/-!
## Steps and runs
-/

theorem allFit_handle {env : Env} (henabled : env.acl.enabled = true) {user : UserRecord}
    {ci : ConnectInfo} (hall : AllFit env.acl s) (howns : Owns s c user ci) {m : Message}
    (hm : MessageFits (Allowed env.acl user ci) m) (stored : List (From × Publish))
    (online : Bool) : AllFit env.acl (Shared.handle env stored s c online m) := by
  -- The message belongs to the session that is found under the client id.
  have hmine : forall p, s.peers.lookup c = some p ->
      MessageFits (Allowed env.acl p.user p.connectInfo) m := by
    intro p hp
    rcases howns with ⟨q, hq, huser, hci⟩
    rw [Option.some.inj (hp.symm.trans hq), huser, hci]
    exact hm
  cases m with
  | forward sender p =>
      apply allFit_update hall
      intro q hq hfits
      exact hfits.enqueue _ _ (hmine q hq)
  | sendRerelease iflt =>
      cases online with
      | false => exact hall
      | true =>
          apply allFit_update hall
          intro q hq hfits
          exact hfits.pushInflight (hmine q hq)
  | subscribes reqs =>
      cases online with
      | false => exact hall
      | true =>
          refine List.foldlRecOn reqs _ hall ?_
          intro t ht req _
          exact allFit_subscribe henabled ht stored req
  | sessionStateTransfer info clear =>
      cases online with
      | false => exact hall
      | true => exact allFit_transferSessionState hall howns hm stored clear

theorem allFit_receive {env : Env} (henabled : env.acl.enabled = true)
    (hall : AllFit env.acl s) (stored : List (From × Publish)) {t : Shared}
    (hreceive : s.receive env stored c = some t) : AllFit env.acl t := by
  unfold Shared.receive at hreceive
  cases hp : s.peers.lookup c with
  | none =>
      rw [hp] at hreceive
      cases hreceive
  | some p =>
      rw [hp] at hreceive
      dsimp only at hreceive
      cases hinbox : p.inbox with
      | nil =>
          rw [hinbox] at hreceive
          cases hreceive
      | cons m rest =>
          rw [hinbox] at hreceive
          rw [← Option.some.inj hreceive]
          rcases (hall c p hp).fits.takeInbox hinbox with ⟨hrest, hm⟩
          apply allFit_handle henabled ?_ ?_ hm
          · apply allFit_update hall
            intro q hq _
            rw [← Option.some.inj (hp.symm.trans hq)]
            exact hrest
          · exact owns_update ⟨p, hp, rfl, rfl⟩ (fun _ => rfl) (fun _ => rfl)

theorem eq_of_whenOnline {t r : Shared} (h : s.whenOnline c t = some r) : t = r := by
  unfold Shared.whenOnline at h
  split at h
  · split at h
    · exact Option.some.inj h
    · cases h
  · cases h

theorem allFit_disconnect {env : Env} {d : Option Disconnect} {t : Shared}
    (hall : AllFit acl s) (hstep : s.step env (SharedEvent.disconnect c d) = some t) :
    AllFit acl t := by
  unfold Shared.step at hstep
  dsimp only at hstep
  split at hstep
  · cases hstep
  · split at hstep
    · split at hstep
      · rw [← Option.some.inj hstep]
        exact allFit_remove hall true
      · rw [← Option.some.inj hstep]
        apply allFit_update hall
        intro p _ h
        exact ⟨h.user, h.connectInfo, h.subscriptions, h.deliverQueue, h.outInflight,
          h.delivered, h.inbox⟩
    · cases hstep

theorem allFit_step {env : Env} (henabled : env.acl.enabled = true) {e : SharedEvent}
    {t : Shared} (hall : AllFit env.acl s) (hfitting : Fitting env.acl s e)
    (hstep : s.step env e = some t) : AllFit env.acl t := by
  cases e with
  | connect user ci autoSubs aborted =>
      unfold Shared.step at hstep
      dsimp only at hstep
      split at hstep
      · rw [← Option.some.inj hstep]
        exact allFit_connect hall autoSubs hfitting
      · cases hstep
  | receive c stored => exact allFit_receive henabled hall stored hstep
  | subscribe c req stored =>
      rw [← eq_of_whenOnline hstep]
      exact allFit_subscribe henabled hall stored req
  | unsubscribe c f =>
      rw [← eq_of_whenOnline hstep]
      exact allFit_unsubscribe hall f
  | deliver c expired nextId =>
      rw [← eq_of_whenOnline hstep]
      exact allFit_update hall (fun _ _ h => h.deliver expired nextId)
  | publishAck c pid =>
      rw [← eq_of_whenOnline hstep]
      exact allFit_update hall (fun _ _ h => h.removeInflight pid)
  | publishReceived c pid =>
      rw [← eq_of_whenOnline hstep]
      exact allFit_update hall (fun _ _ h => h.updateStatus pid _)
  | retransmit c =>
      rw [← eq_of_whenOnline hstep]
      exact allFit_update hall (fun _ _ h => h.retransmit)
  | forwards choice isOpen sender p =>
      rw [← Option.some.inj hstep]
      exact allFit_forwards hall choice isOpen sender p
  | disconnect c d => exact allFit_disconnect hall hstep
  | expire c =>
      unfold Shared.step at hstep
      dsimp only at hstep
      split at hstep
      · cases hstep
      · split at hstep
        · cases hstep
        · rw [← Option.some.inj hstep]
          exact allFit_remove hall true

end Table

/-- The topics of the messages a session has been handed. -/
def Peer.handed (p : Peer) : List String :=
  p.inbox.filterMap (fun m => match m with
      | Message.forward _ p => some p.topic
      | Message.sendRerelease m => some m.publish.topic
      | _ => none) ++
    p.deliverQueue.map (fun m => m.2.topic) ++ p.outInflight.map (fun m => m.publish.topic) ++
      p.delivered.map Publish.topic

/--
Every ordinary user's session has, in the router and in its own list, only
subscriptions that the user's rules accept, and was handed only messages that
an accepted filter selects.
-/
def Isolated (acl : AclConfig) (s : Shared) : Prop :=
  forall c p, s.peers.lookup c = some p -> p.user.superuser = false ->
    (forall x, x ∈ s.router.relations -> x.clientId = c ->
        Accepts acl p.user p.connectInfo x.topicFilter) ∧
      (forall sub, sub ∈ p.subscriptions -> Accepts acl p.user p.connectInfo sub.1) ∧
        forall topic, topic ∈ p.handed -> Entitled (Accepts acl p.user p.connectInfo) topic

theorem Fits.handed {user : UserRecord} {ci : ConnectInfo} {accepts : String -> Prop}
    {p : Peer} (h : Fits user ci accepts p) {topic : String} (htopic : topic ∈ p.handed) :
    Entitled accepts topic := by
  unfold Peer.handed at htopic
  rw [List.mem_append, List.mem_append, List.mem_append] at htopic
  rcases htopic with ((hinbox | hqueue) | hinflight) | hdelivered
  · rcases List.mem_filterMap.mp hinbox with ⟨m, hm, heq⟩
    have hfits := h.inbox m hm
    cases m with
    | forward sender q =>
        rw [← Option.some.inj heq]
        exact hfits
    | sendRerelease iflt =>
        rw [← Option.some.inj heq]
        exact hfits
    | subscribes reqs => cases heq
    | sessionStateTransfer info clear => cases heq
  · rcases List.mem_map.mp hqueue with ⟨m, hm, heq⟩
    rw [← heq]
    exact h.deliverQueue m hm
  · rcases List.mem_map.mp hinflight with ⟨m, hm, heq⟩
    rw [← heq]
    exact h.outInflight m hm
  · rcases List.mem_map.mp hdelivered with ⟨m, hm, heq⟩
    rw [← heq]
    exact h.delivered m hm

theorem isolated_of_allFit {acl : AclConfig} {s : Shared} (hall : AllFit acl s) :
    Isolated acl s := by
  intro c p hp hordinary
  have hentry := hall c p hp
  have haccepts : forall f, Allowed acl p.user p.connectInfo f ->
      Accepts acl p.user p.connectInfo f := by
    intro f hf
    rcases hf with hsuper | haccept
    · rw [hordinary] at hsuper
      cases hsuper
    · exact haccept
  refine ⟨?_, ?_, ?_⟩
  · intro x hx hclient
    exact haccepts _ (hentry.relations x hx hclient)
  · intro sub hsub
    exact haccepts _ (hentry.fits.subscriptions sub hsub)
  · intro topic htopic
    exact entitled_mono haccepts (hentry.fits.handed htopic)

instance (acl : AclConfig) (user : UserRecord) (ci : ConnectInfo) (f : String) :
    Decidable (Accepts acl user ci f) :=
  match h : (buildAuthInfo user acl ci).subscribeAcl (plainRequest f) with
  | some reason =>
      decidable_of_iff (reason.success.isSome = true)
        ⟨fun hs => ⟨reason, h, hs⟩, fun ⟨r, hr, hs⟩ => by
          rw [Option.some.inj (h.symm.trans hr)]
          exact hs⟩
  | none =>
      isFalse fun ⟨r, hr, _⟩ => by
        rw [h] at hr
        cases hr

/-- The user and the packet of a connect. -/
def SharedEvent.connection : SharedEvent -> Option (UserRecord × ConnectInfo)
  | SharedEvent.connect user ci _ _ => some (user, ci)
  | _ => none

/-- The old session has accepted subscriptions only and no message. -/
def QuietSession (acl : AclConfig) (user : UserRecord) (ci : ConnectInfo) :
    Option Peer -> Prop
  | some old =>
      old.deliverQueue = [] ∧ old.outInflight = [] ∧
        forall sub, sub ∈ old.subscriptions -> Accepts acl user ci sub.1
  | none => True

instance (acl : AclConfig) (user : UserRecord) (ci : ConnectInfo) :
    (old : Option Peer) -> Decidable (QuietSession acl user ci old)
  | some _ => inferInstanceAs (Decidable (_ ∧ _ ∧ _))
  | none => isTrue trivial

def QuietConnection (acl : AclConfig) (s : Shared) : Option (UserRecord × ConnectInfo) -> Prop
  | some (user, ci) =>
      (forall x, x ∈ (s.remove ci.clientId ci.cleanStart).router.relations ->
        Accepts acl user ci x.topicFilter) ∧
      QuietSession acl user ci (s.peers.lookup ci.clientId)
  | none => True

instance (acl : AclConfig) (s : Shared) :
    (connection : Option (UserRecord × ConnectInfo)) ->
      Decidable (QuietConnection acl s connection)
  | some (_, _) => inferInstanceAs (Decidable (_ ∧ _))
  | none => isTrue trivial

/-- A sufficient condition for a fitting step that can be decided. -/
def Quiet (acl : AclConfig) (s : Shared) (e : SharedEvent) : Prop :=
  QuietConnection acl s e.connection

instance (acl : AclConfig) (s : Shared) (e : SharedEvent) : Decidable (Quiet acl s e) :=
  inferInstanceAs (Decidable (QuietConnection acl s e.connection))

theorem fitting_of_quiet {acl : AclConfig} {s : Shared} {e : SharedEvent}
    (hquiet : Quiet acl s e) : Fitting acl s e := by
  cases e with
  | connect user ci autoSubs aborted =>
      right
      right
      refine ⟨fun x hx _ => hquiet.left x hx, ?_⟩
      intro _ old hold
      have hsession := hquiet.right
      rw [hold] at hsession
      rcases hsession with ⟨hqueue, hinflight, hsubs⟩
      refine ⟨hsubs, ?_, ?_⟩
      · intro m hm
        rw [Peer.toOfflineInfo, hqueue] at hm
        cases hm
      · intro m hm
        rw [Peer.toOfflineInfo, hinflight] at hm
        cases hm
  | _ => exact trivial

namespace Sample

def env : Env :=
  { acl := AclConfig.default, listenCfg := cfg }

def user (name userid : String) : UserRecord :=
  { username := name, userid := userid, passwordHash := "", superuser := false,
    admin := false }

/-- A persistent session under the client id `c1`. -/
def persistent (name : String) (time : Nat) : ConnectInfo :=
  ConnectInfo.v3
    { nodeId := 1, clientId := "c1", username := some name, createTime := time }
    { cleanSession := false, username := some name, password := none, lastWill := none }

def ask (topicFilter : String) : Request :=
  { subscribe := plainRequest topicFilter, v5 := none }

def news (topic : String) : Publish :=
  { dup := false, retain := false, qos := QoS.atMostOnce, topic := topic, packetId := none,
    payload := [], topicAlias := none, messageExpiryInterval := none, createTime := none }

def server : From :=
  { typ := FromType.custom, id := (persistent "server" 0).id }

/-- Alice subscribes and leaves; then a session is opened under the same client id. -/
def takeover (next : UserRecord) (ci : ConnectInfo) : List SharedEvent :=
  [SharedEvent.connect (user "alice" "a1") (persistent "alice" 1) [] false,
    SharedEvent.receive "c1" [],
    SharedEvent.subscribe "c1" (ask "chat/a1/#") [],
    SharedEvent.disconnect "c1" none,
    SharedEvent.connect next ci [] false,
    SharedEvent.receive "c1" [],
    SharedEvent.forwards (fun _ => none) (fun _ => true) server (news "chat/a1/x"),
    SharedEvent.receive "c1" [],
    SharedEvent.receive "c1" [],
    SharedEvent.deliver "c1" false 1]

/-- The topics delivered under the client id. -/
def deliveredTo (s : Shared) : List String :=
  match s.peers.lookup "c1" with
  | some p => p.delivered.map Publish.topic
  | none => []

/-- The session under the client id belongs to Bob and has a refused subscription. -/
def leaks (acl : AclConfig) (s : Shared) : Bool :=
  match s.peers.lookup "c1" with
  | some p =>
      p.user == user "bob" "b1" &&
        p.subscriptions.any (fun sub => decide (¬ Accepts acl p.user p.connectInfo sub.1))
  | none => false

end Sample

end Session
end Ciqada
