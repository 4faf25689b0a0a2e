import Ciqada.Api.Node

/-!
# What the management operations do

For each handler, the cases in which it changes the node, with the state, the
response and the messages it produces there.  Later modules use these equations
and the lemmas on the user table, and do not unfold the handlers again.
-/

namespace Ciqada
namespace Api

open Foundation

/-- A well-formed request for a name that is not in the table. -/
def CreateUser.Accepted (req : CreateUser) (s : AppState) : Prop :=
  req.refusal = none ∧ s.db.users.lookup req.username = none

instance (req : CreateUser) (s : AppState) : Decidable (req.Accepted s) :=
  inferInstanceAs (Decidable (_ ∧ _))

section Effects

variable {c : Crypto} {s : AppState} {f : Faults}

theorem createUser_accepted (hhash : f Call.hashPassword = false)
    (hinsert : f Call.insertUser = false) {req : CreateUser} (haccepted : req.Accepted s)
    (salt : String) :
    s.createUser c f req salt =
      (AppState.storeVerifier c f
        { s with
          db := s.db.upsertUser (req.record (c.hashPassword salt req.password)).toNewUser }
        req.username req.password,
       { status := 201, body := Body.created req.username req.userid },
       s.fanout (ReplOp.upsert (req.record (c.hashPassword salt req.password)))) := by
  have hdb : s.db.insertUser (req.record (c.hashPassword salt req.password)).toNewUser =
      (s.db.upsertUser (req.record (c.hashPassword salt req.password)).toNewUser, true) :=
    RedbStore.insertUser_of_none haccepted.right
  unfold AppState.createUser
  rw [haccepted.left]
  simp only [hhash, hinsert, Bool.false_eq_true, if_false]
  rw [hdb]

theorem createUser_unchanged {req : CreateUser}
    (hnot : ¬ (f Call.hashPassword = false ∧ f Call.insertUser = false ∧ req.Accepted s))
    (salt : String) :
    (s.createUser c f req salt).1 = s ∧ (s.createUser c f req salt).2.2 = [] := by
  unfold AppState.createUser
  cases hrefusal : req.refusal with
  | some refusal => exact ⟨rfl, rfl⟩
  | none =>
      dsimp only
      split
      · exact ⟨rfl, rfl⟩
      · rename_i hhash
        split
        · exact ⟨rfl, rfl⟩
        · rename_i hinsert
          cases hlookup : s.db.users.lookup req.username with
          | none =>
              exfalso
              exact hnot ⟨by simpa using hhash, by simpa using hinsert, hrefusal, hlookup⟩
          | some r =>
              have hdb : s.db.insertUser
                  (req.record (c.hashPassword salt req.password)).toNewUser =
                    (s.db, false) := RedbStore.insertUser_of_some hlookup
              rw [hdb]
              exact ⟨rfl, rfl⟩

theorem deleteUser_found (hdelete : f Call.deleteUser = false) {u : String}
    {r : UserRecord} (hlookup : s.db.users.lookup u = some r) :
    s.deleteUser f u =
      (AppState.purge { s with db := (s.db.deleteUser u).1 } u, Response.noContent,
       s.fanout (ReplOp.delete u)) := by
  have hdb : s.db.deleteUser u = ((s.db.deleteUser u).1, true) := by
    simp [RedbStore.deleteUser, hlookup]
  unfold AppState.deleteUser
  rw [hdelete, hdb]
  rfl

theorem deleteUser_missing (hdelete : f Call.deleteUser = false) {u : String}
    (hlookup : s.db.users.lookup u = none) :
    s.deleteUser f u =
      ({ s with db := (s.db.deleteUser u).1 },
       { status := 404, body := Body.error "user not found" }, []) := by
  have hdb : s.db.deleteUser u = ((s.db.deleteUser u).1, false) := by
    simp [RedbStore.deleteUser, hlookup]
  unfold AppState.deleteUser
  rw [hdelete, hdb]
  rfl

theorem deleteUser_failed (hdelete : f Call.deleteUser = true) (u : String) :
    s.deleteUser f u = (s, Response.internalError, []) := by
  unfold AppState.deleteUser
  rw [hdelete]
  rfl

/-!
## The user table
-/

@[simp] theorem storeVerifier_users (u p : String) :
    (s.storeVerifier c f u p).db.users = s.db.users := by
  unfold AppState.storeVerifier
  split
  · split <;> rfl
  · rfl

theorem createUser_users (req : CreateUser) (salt : String) :
    (s.createUser c noFaults req salt).1.db.users =
      if req.Accepted s then
        s.db.users.insert req.username (req.record (c.hashPassword salt req.password))
      else s.db.users := by
  by_cases haccepted : req.Accepted s
  · rw [createUser_accepted rfl rfl haccepted, if_pos haccepted, storeVerifier_users]
    rfl
  · rw [(createUser_unchanged (fun h => haccepted h.right.right) salt).left,
      if_neg haccepted]

theorem deleteUser_users (u : String) :
    (s.deleteUser noFaults u).1.db.users = s.db.users.erase u := by
  cases hlookup : s.db.users.lookup u with
  | none =>
      rw [deleteUser_missing rfl hlookup]
      rfl
  | some r =>
      rw [deleteUser_found rfl hlookup]
      rfl

theorem applySnapshot_users (users : List UserRecord) :
    (s.applySnapshot noFaults users).db.users =
      Table.insertAll UserRecord.username s.db.users users := by
  have hrows : users.map (NewUser.toRecord ∘ UserRecord.toNewUser) = users := by
    simp [Function.comp_def]
  show (s.db.upsertMany (users.map UserRecord.toNewUser)).users = _
  rw [RedbStore.upsertMany_users, List.map_map, hrows]

/-!
## The peers
-/

@[simp] theorem storeVerifier_peers (u p : String) :
    (s.storeVerifier c f u p).peers = s.peers := by
  unfold AppState.storeVerifier
  split
  · split <;> rfl
  · rfl

theorem createUser_peers (req : CreateUser) (salt : String) :
    (s.createUser c noFaults req salt).1.peers = s.peers := by
  by_cases haccepted : req.Accepted s
  · rw [createUser_accepted rfl rfl haccepted, storeVerifier_peers]
  · rw [(createUser_unchanged (fun h => haccepted h.right.right) salt).left]

theorem deleteUser_peers (u : String) :
    (s.deleteUser noFaults u).1.peers = s.peers := by
  cases hlookup : s.db.users.lookup u with
  | none => rw [deleteUser_missing rfl hlookup]
  | some r =>
      rw [deleteUser_found rfl hlookup]
      rfl

end Effects

end Api
end Ciqada
