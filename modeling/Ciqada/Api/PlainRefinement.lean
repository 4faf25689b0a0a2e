import Ciqada.Api.Soundness

/-!
# Accelerated authentication refines plain authentication

The plain model remembers the password that each user was created with and
compares it directly.  On a standalone node, whose store does not fail, the
accelerated authentication gives the same answer in every reachable state.
-/

namespace Ciqada
namespace Api

open Foundation Broker

namespace Plain

/-- A created user with the password it was created with. -/
structure Account where
  record : UserRecord
  password : String

abbrev Accounts : Type :=
  Table String Account

def authenticate (acl : AclConfig) (accounts : Accounts) (ci : ConnectInfo) : AuthResult :=
  match AppState.credentials ci with
  | none => AuthResult.badUsernameOrPassword
  | some (username, password) =>
      match accounts.lookup username with
      | none => AuthResult.badUsernameOrPassword
      | some account =>
          if account.password = password then
            AuthResult.allow account.record.superuser
              (some (buildAuthInfo account.record acl ci))
          else AuthResult.badUsernameOrPassword

/-- Creation succeeds for a well-formed request with an unused name. -/
def createUser (c : Crypto) (accounts : Accounts) (req : CreateUser) (salt : String) :
    Accounts :=
  if req.refusal = none ∧ accounts.lookup req.username = none then
    accounts.insert req.username
      { record := req.record (c.hashPassword salt req.password), password := req.password }
  else accounts

def next (c : Crypto) (accounts : Accounts) (req : Request) : Accounts :=
  match req.op with
  | Op.createUser req salt => createUser c accounts req salt
  | Op.deleteUser username => accounts.erase username
  | _ => accounts

end Plain

/-- The operations of a node without peers, none of whose calls fail. -/
def StandaloneStep (_s : AppState) (req : Request) : Prop :=
  req.faults = noFaults ∧
    match req.op with
    | Op.replicate _ => False
    | Op.catchUp _ => False
    | _ => True

/-!
## Authentication keeps the user table
-/

section Effects

variable {c : Crypto} {s : AppState}

theorem authenticate_users (henabled : s.authDisabled = false) (f : Faults)
    (ci : ConnectInfo) : (s.authenticate c f ci).1.db.users = s.db.users := by
  have houtcome := authenticate_outcome (c := c) henabled f ci
  generalize s.authenticate c f ci = result at houtcome
  cases houtcome with
  | anonymous _ => rfl
  | failed u p e _ _ => simp
  | unknown u p _ _ => simp
  | accepted u p r _ _ _ => simp
  | refused u p r _ _ _ => simp

end Effects

/-!
## The simulation
-/

/-- The accounts are the user table with the passwords behind its hashes. -/
structure Refines (c : Crypto) (s : AppState) (accounts : Plain.Accounts) : Prop where
  consistent : Consistent c s
  users : forall u, s.db.users.lookup u = (accounts.lookup u).map Plain.Account.record
  made : forall u a, accounts.lookup u = some a ->
    c.MadeFrom a.record.passwordHash a.password

theorem refines_create {c : Crypto} {s : AppState} {accounts : Plain.Accounts}
    (h : Refines c s accounts) (req : CreateUser) (salt : String) :
    Refines c (s.createUser c noFaults req salt).1
      (Plain.createUser c accounts req salt) := by
  have hsame : s.db.users.lookup req.username = none <->
      accounts.lookup req.username = none := by
    rw [h.users]
    exact Option.map_eq_none_iff
  refine ⟨createUser_consistent h.consistent noFaults req salt, ?_, ?_⟩
  · intro u
    rw [createUser_users]
    unfold Plain.createUser
    by_cases hok : req.refusal = none ∧ accounts.lookup req.username = none
    · have haccepted : req.Accepted s := ⟨hok.left, hsame.mpr hok.right⟩
      rw [if_pos haccepted, if_pos hok, Table.lookup_insert_if, Table.lookup_insert_if]
      by_cases hu : u = req.username
      · rw [if_pos hu, if_pos hu]
        rfl
      · rw [if_neg hu, if_neg hu]
        exact h.users u
    · have hrejected : ¬ req.Accepted s := fun hs => hok ⟨hs.left, hsame.mp hs.right⟩
      rw [if_neg hrejected, if_neg hok]
      exact h.users u
  · intro u a ha
    unfold Plain.createUser at ha
    split at ha
    · rw [Table.lookup_insert_if] at ha
      by_cases hu : u = req.username
      · rw [if_pos hu] at ha
        rw [← Option.some.inj ha]
        exact ⟨salt, rfl⟩
      · rw [if_neg hu] at ha
        exact h.made u a ha
    · exact h.made u a ha

theorem refines_delete {c : Crypto} {s : AppState} {accounts : Plain.Accounts}
    (h : Refines c s accounts) (username : String) :
    Refines c (s.deleteUser noFaults username).1 (accounts.erase username) := by
  refine ⟨deleteUser_consistent h.consistent noFaults username, ?_, ?_⟩
  · intro u
    rw [deleteUser_users, Table.lookup_erase_if, Table.lookup_erase_if]
    by_cases hu : u = username
    · rw [if_pos hu, if_pos hu]
      rfl
    · rw [if_neg hu, if_neg hu]
      exact h.users u
  · intro u a ha
    rw [Table.lookup_erase_if] at ha
    by_cases hu : u = username
    · rw [if_pos hu] at ha
      cases ha
    · rw [if_neg hu] at ha
      exact h.made u a ha

theorem refines_next {c : Crypto} (hc : c.Laws) {s : AppState} {accounts : Plain.Accounts}
    (h : Refines c s accounts) {req : Request} (hstep : StandaloneStep s req) :
    Refines c (s.next c req) (Plain.next c accounts req) := by
  rcases req with ⟨f, op⟩
  rcases hstep with ⟨hf, hop⟩
  subst hf
  cases op with
  | createUser req salt => exact refines_create h req salt
  | deleteUser username => exact refines_delete h username
  | replicate op => cases hop
  | catchUp answers => cases hop
  | authenticate ci =>
      refine ⟨authenticate_consistent hc h.consistent noFaults ci, ?_, h.made⟩
      intro u
      show (s.authenticate c noFaults ci).1.db.users.lookup u = _
      rw [authenticate_users h.consistent.enabled]
      exact h.users u
  | sweepAuthCache => exact ⟨h.consistent.sweepAuthCache, h.users, h.made⟩
  | sweepUserCache => exact ⟨h.consistent.sweepUserCache, h.users, h.made⟩
  | tick d => exact ⟨h.consistent.tick d, h.users, h.made⟩
  | restart settings => exact ⟨h.consistent.restart settings, h.users, h.made⟩

/-- In related states both authentications give the same answer. -/
theorem authenticate_eq_plain {c : Crypto} (hc : c.Laws) {s : AppState}
    {accounts : Plain.Accounts} (h : Refines c s accounts) (ci : ConnectInfo) :
    (s.authenticate c noFaults ci).2 = Plain.authenticate s.acl accounts ci := by
  have houtcome := authenticate_outcome (c := c) h.consistent.enabled noFaults ci
  have hanswer : forall u, (s.lookupUser noFaults u).2 =
      Except.ok ((accounts.lookup u).map Plain.Account.record) := by
    intro u
    rw [← h.users u]
    rcases lookupUser_answer h.consistent noFaults u with hok | herr
    · exact hok
    · cases herr.left
  have haccount : forall u r, (s.lookupUser noFaults u).2 = Except.ok (some r) ->
      exists a, accounts.lookup u = some a ∧ a.record = r := by
    intro u r hlookup
    rw [hanswer u] at hlookup
    exact Option.map_eq_some_iff.mp (Except.ok.inj hlookup)
  unfold Plain.authenticate
  generalize s.authenticate c noFaults ci = result at houtcome
  cases houtcome with
  | anonymous hcred => rw [hcred]
  | failed u p e _ hlookup =>
      rw [hanswer u] at hlookup
      cases hlookup
  | unknown u p hcred hlookup =>
      rw [hanswer u] at hlookup
      have hnone := Option.map_eq_none_iff.mp (Except.ok.inj hlookup)
      rw [hcred]
      simp [hnone]
  | accepted u p r hcred hlookup haccept =>
      rcases haccount u r hlookup with ⟨a, ha, hrecord⟩
      have hmade : c.MadeFrom r.passwordHash p := by
        apply checkPassword_sound hc (lookupUser_consistent h.consistent noFaults u) _ haccept
        rw [lookupUser_db]
        exact lookup_of_answer h.consistent hlookup
      have hp : a.password = p := by
        apply hc.madeFrom_unique (h.made u a ha)
        rw [hrecord]
        exact hmade
      rw [hcred]
      simp [ha, hp, hrecord]
  | refused u p r hcred hlookup hrefuse =>
      rcases haccount u r hlookup with ⟨a, ha, hrecord⟩
      have hp : a.password ≠ p := by
        intro hp
        have hmade : c.MadeFrom r.passwordHash p := by
          rw [← hrecord, ← hp]
          exact h.made u a ha
        rw [checkPassword_complete hc rfl hmade] at hrefuse
        cases hrefuse
      rw [hcred]
      simp [ha, hp]

open Sample

/-- Creation, a login, a restart under a new pepper, and re-creation. -/
def Sample.recreation : List Request :=
  [create "one",
   { faults := noFaults, op := Op.authenticate (login "alice" "one") },
   { faults := noFaults, op := Op.restart { settings with pepper := some [8] } },
   { faults := noFaults, op := Op.authenticate (login "alice" "one") },
   { faults := noFaults, op := Op.tick 100 },
   remove,
   create "two"]

end Api
end Ciqada
