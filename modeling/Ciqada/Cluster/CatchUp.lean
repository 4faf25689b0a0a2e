import Ciqada.Cluster.Agreement
import Ciqada.Api.Soundness

/-!
# Catching up after an outage

While a node is down the messages to it are lost.  When it starts again it
copies all users of a peer into its table.  The copy adds and replaces rows but
removes none, so the tables are equal afterwards exactly when the peer still
has every name the node held.
-/

namespace Ciqada
namespace Cluster

open Foundation Broker Api

/-- What happens while a node is down: nothing at the node, and its messages are lost. -/
def Outage (down : String) (s : Net) : Event -> Prop
  | Event.createUser a _ _ => a ≠ down
  | Event.deleteUser a _ => a ≠ down
  | Event.deliver i => forall m, m ∈ s.inFlight[i]? -> m.1 ≠ down
  | Event.lose i => forall m, m ∈ s.inFlight[i]? -> m.1 = down
  | Event.takeSnapshot _ _ => False
  | Event.applySnapshot _ => False

instance (down : String) (s : Net) : (e : Event) -> Decidable (Outage down s e)
  | Event.createUser a _ _ => inferInstanceAs (Decidable (a ≠ down))
  | Event.deleteUser a _ => inferInstanceAs (Decidable (a ≠ down))
  | Event.deliver i =>
      inferInstanceAs (Decidable (forall m, m ∈ s.inFlight[i]? -> m.1 ≠ down))
  | Event.lose i =>
      inferInstanceAs (Decidable (forall m, m ∈ s.inFlight[i]? -> m.1 = down))
  | Event.takeSnapshot _ _ => inferInstanceAs (Decidable False)
  | Event.applySnapshot _ => inferInstanceAs (Decidable False)

section Outage

variable {c : Crypto} {members : List String} {down : String} {s t : Net}

theorem outage_step_node {e : Event} (houtage : Outage down s e)
    (hstep : s.step c members e = some t) : t.node down = s.node down := by
  cases Net.stepped_of_step hstep with
  | createUser a req salt _ => exact Function.update_of_ne (Ne.symm houtage) _ _
  | deleteUser a u _ => exact Function.update_of_ne (Ne.symm houtage) _ _
  | deliver i b op hi => exact Function.update_of_ne (Ne.symm (houtage _ hi)) _ _
  | lose i _ => rfl
  | takeSnapshot a peer _ _ => cases houtage
  | applySnapshot i a users _ => cases houtage

/-- The node that is down keeps its tables through the outage. -/
theorem outage_node {es : List Event} (hrun : Run (Net.step c members) (Outage down) s es t) :
    t.node down = s.node down := by
  induction hrun with
  | nil s => rfl
  | cons houtage hstep _htail ih => rw [ih, outage_step_node houtage hstep]

end Outage

/-!
## Copying a table
-/

/-- The rows of a listed table win over the old ones, which otherwise stay. -/
theorem lookup_insertAll_listUsers (old : Table String UserRecord) (db : RedbStore)
    (u : String) :
    (Table.insertAll UserRecord.username old db.listUsers).lookup u =
      (db.users.lookup u).or (old.lookup u) := by
  cases hlookup : db.users.lookup u with
  | none =>
      rw [Option.none_or]
      apply Table.lookup_insertAll_of_not_mem
      intro r hr hu
      rcases RedbStore.mem_listUsers.mp hr with ⟨v, hv⟩
      rw [← hu, db.keyed v r hv, hv] at hlookup
      cases hlookup
  | some r =>
      have hr : r ∈ db.listUsers := RedbStore.mem_listUsers.mpr ⟨u, hlookup⟩
      rcases Table.lookup_insertAll_of_mem old ⟨r, hr, db.keyed u r hlookup⟩ with
        ⟨r', hr', hu, hresult⟩
      rcases RedbStore.mem_listUsers.mp hr' with ⟨v, hv⟩
      rw [← hu, db.keyed v r' hv, hv] at hlookup
      rw [hresult, Option.some_or, hlookup]

/-- The node after its restart and a catch-up with the given answers. -/
def restarted (settings : AppState.Settings) (db : RedbStore) (now : Nat)
    (answers : AppState.Answers) : AppState :=
  AppState.catchUp noFaults (AppState.start settings db now) answers

theorem restarted_eq {settings : AppState.Settings} {db peerDb : RedbStore} {now : Nat}
    {answers : AppState.Answers}
    (hanswer : AppState.firstSnapshot answers settings.peers 30 0 = some peerDb.listUsers) :
    restarted settings db now answers =
      (AppState.start settings db now).applySnapshot noFaults peerDb.listUsers := by
  unfold restarted AppState.catchUp
  have hpeers : (AppState.start settings db now).peers = settings.peers := rfl
  rw [hpeers, hanswer]

theorem restarted_lookup {settings : AppState.Settings} {db peerDb : RedbStore} {now : Nat}
    {answers : AppState.Answers}
    (hanswer : AppState.firstSnapshot answers settings.peers 30 0 = some peerDb.listUsers)
    (u : String) :
    (restarted settings db now answers).db.users.lookup u =
      (peerDb.users.lookup u).or (db.users.lookup u) := by
  rw [restarted_eq hanswer, applySnapshot_users]
  exact lookup_insertAll_listUsers db.users peerDb u

/-- An empty cache and a missing row deny the user. -/
theorem denied_of_missing {c : Crypto} {s : AppState} {u : String}
    (henabled : s.authDisabled = false) (hcache : s.users.get s.now u = none)
    (hmissing : s.db.users.lookup u = none) {ci : ConnectInfo}
    (hname : ci.username = some u) (f : Faults) (superuser : Bool)
    (authInfo : Option Acl.AuthInfo) :
    (s.authenticate c f ci).2 ≠ AuthResult.allow superuser authInfo := by
  have hanswer : forall r, (s.lookupUser f u).2 ≠ Except.ok (some r) := by
    intro r
    unfold AppState.lookupUser
    rw [hcache]
    dsimp only
    split
    · simp
    · have hget : s.db.getUser u = none := hmissing
      rw [hget]
      simp
  have huser : forall v p, AppState.credentials ci = some (v, p) -> v = u := by
    intro v p hcred
    unfold AppState.credentials at hcred
    rw [hname] at hcred
    cases hpassword : ci.password.bind AppState.fromUtf8 with
    | none => simp [hpassword] at hcred
    | some q =>
        rw [hpassword] at hcred
        simp only [Option.ite_none_left_eq_some, Option.some.injEq, Prod.mk.injEq] at hcred
        exact hcred.right.left.symm
  have houtcome := authenticate_outcome (c := c) henabled f ci
  intro hallow
  generalize s.authenticate c f ci = result at houtcome hallow
  cases houtcome with
  | anonymous _ => cases hallow
  | failed v p e _ _ => cases hallow
  | unknown v p _ _ => cases hallow
  | refused v p r _ _ _ => cases hallow
  | accepted v p r hcred hlookup _ =>
      rw [huser v p hcred] at hlookup
      exact hanswer r hlookup

/-- The node has the peer's users, and nobody the peer lacks can log in. -/
def Restored (c : Crypto) (n : AppState) (peer : Table String UserRecord) : Prop :=
  n.db.users = peer ∧
    forall u, peer.lookup u = none ->
      forall (ci : ConnectInfo), ci.username = some u ->
        forall (f : Faults) (superuser : Bool) (authInfo : Option Acl.AuthInfo),
          (n.authenticate c f ci).2 ≠ AuthResult.allow superuser authInfo

namespace Sample

open Api.Sample

/-- Both nodes hold the user. -/
def shared : Net :=
  (exec? (Net.step Crypto.transparent ["a", "b"]) Always pair
    [Event.createUser "a" (alice "one") "salt", Event.deliver 0]).getD pair

def deletion : List Event :=
  [Event.deleteUser "a" "alice", Event.lose 0]

def replacement : List Event :=
  [Event.deleteUser "a" "alice", Event.lose 0,
   Event.createUser "a" (alice "two") "salt", Event.lose 0]

/-- The network after events during which the second node is down. -/
def afterOutage (es : List Event) : Net :=
  (exec? (Net.step Crypto.transparent ["a", "b"]) (Outage "b") shared es).getD shared

/-- The second node restarted from the first. -/
def returned (es : List Event) : AppState :=
  restarted { settings with peers := ["a"] } ((afterOutage es).node "b").db 0
    (fun _ _ => some ((afterOutage es).node "a").db.listUsers)

theorem outage_run {es : List Event}
    (hexec : (exec? (Net.step Crypto.transparent ["a", "b"]) (Outage "b") shared es).isSome =
      true) :
    Run (Net.step Crypto.transparent ["a", "b"]) (Outage "b") shared es
      (afterOutage es) := by
  apply Run.of_exec?
  unfold afterOutage
  rcases Option.isSome_iff_exists.mp hexec with ⟨t, ht⟩
  rw [ht]
  rfl

end Sample

open Sample Api.Sample

end Cluster
end Ciqada
