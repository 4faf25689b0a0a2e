import Ciqada.Api.Soundness

/-!
# Handlers interleaved at their await points

Each handler is cut into the steps that touch shared state: reading or writing
a cache and one call of the store.  A task is a handler with its position.  Any
number of tasks run on one node and any of them may take the next step.
-/

namespace Ciqada
namespace Api

open Foundation Broker

/-!
## Positions
-/

/-- Where an authentication stands; the record found so far is carried along. -/
inductive AuthPc where
  | readCache
  | readDb
  | fillCache (record : UserRecord)
  | readAuthCache (record : UserRecord)
  | readVerifier (record : UserRecord)
  | rememberFast (record : UserRecord)
  | verify (record : UserRecord)
  | rememberSlow (record : UserRecord)
  | writeVerifier (record : UserRecord)
  | done (result : AuthResult)
  deriving DecidableEq

inductive ChangePc where
  | writeDb
  | purgeAuthCache
  | purgeUserCache
  | done (response : Response)
  deriving DecidableEq

inductive CreatePc where
  | writeDb
  | writeVerifier
  | done (response : Response)
  deriving DecidableEq

/-- The handlers that write the store and then purge both caches. -/
inductive Change where
  | deleteUser (username : String)
  | replicate (op : ReplOp)
  deriving DecidableEq

namespace Change

def username : Change -> String
  | deleteUser username => username
  | replicate op => op.username

def isDelete : Change -> Bool
  | deleteUser _ => true
  | replicate op => !op.isUpsert

end Change

/-!
## Single steps
-/

def accepted (s : AppState) (ci : ConnectInfo) (record : UserRecord) : AuthResult :=
  AuthResult.allow record.superuser (some (buildAuthInfo record s.acl ci))

def AuthPc.run (c : Crypto) (f : Faults) (ci : ConnectInfo) (username password : String)
    (s : AppState) : AuthPc -> AppState × AuthPc
  | readCache =>
      if s.authDisabled then (s, done (AuthResult.allow true none))
      else
        match s.users.get s.now username with
        | some record => (s, readAuthCache record)
        | none => (s, readDb)
  | readDb =>
      if f Call.getUser then (s, done AuthResult.notAuthorized)
      else
        match s.db.getUser username with
        | some record => (s, fillCache record)
        | none => (s, done AuthResult.badUsernameOrPassword)
  | fillCache record =>
      ({ s with users := s.users.insert s.now username record }, readAuthCache record)
  | readAuthCache record =>
      if s.cacheHit c username password then (s, done (accepted s ci record))
      else (s, readVerifier record)
  | readVerifier record =>
      if s.verifierHit c f username password then (s, rememberFast record)
      else (s, verify record)
  | rememberFast record =>
      (s.remember c username password record.superuser, done (accepted s ci record))
  | verify record =>
      if !f Call.verifyPassword && c.verifyPassword record.passwordHash password then
        (s, rememberSlow record)
      else (s, done AuthResult.badUsernameOrPassword)
  | rememberSlow record =>
      (s.remember c username password record.superuser, writeVerifier record)
  | writeVerifier record =>
      (s.storeVerifier c f username password, done (accepted s ci record))
  | done result => (s, done result)

/-- The write of the store, with the position it leads to. -/
def Change.write (f : Faults) (s : AppState) : Change -> AppState × ChangePc
  | deleteUser username =>
      if f Call.deleteUser then (s, ChangePc.done Response.internalError)
      else
        match s.db.deleteUser username with
        | (db, true) => ({ s with db := db }, ChangePc.purgeAuthCache)
        | (db, false) =>
            ({ s with db := db },
             ChangePc.done { status := 404, body := Body.error "user not found" })
  | replicate (ReplOp.upsert user) =>
      if f Call.upsertUser then (s, ChangePc.done Response.internalError)
      else ({ s with db := s.db.upsertUser user.toNewUser }, ChangePc.purgeAuthCache)
  | replicate (ReplOp.delete username) =>
      if f Call.deleteUser then (s, ChangePc.done Response.internalError)
      else ({ s with db := (s.db.deleteUser username).1 }, ChangePc.purgeAuthCache)

def ChangePc.run (f : Faults) (change : Change) (s : AppState) : ChangePc -> AppState × ChangePc
  | writeDb => change.write f s
  | purgeAuthCache => ({ s with authCache := s.authCache.clear }, purgeUserCache)
  | purgeUserCache =>
      ({ s with users := s.users.purge change.username }, done Response.noContent)
  | done response => (s, done response)

def CreatePc.run (c : Crypto) (f : Faults) (req : CreateUser) (salt : String)
    (s : AppState) : CreatePc -> AppState × CreatePc
  | writeDb =>
      match req.refusal with
      | some refusal => (s, done refusal)
      | none =>
          if f Call.hashPassword || f Call.insertUser then (s, done Response.internalError)
          else
            match s.db.insertUser
                (req.record (c.hashPassword salt req.password)).toNewUser with
            | (db, true) => ({ s with db := db }, writeVerifier)
            | (_, false) =>
                (s, done { status := 409, body := Body.error "user already exists" })
  | writeVerifier =>
      (s.storeVerifier c f req.username req.password,
       done { status := 201, body := Body.created req.username req.userid })
  | done response => (s, done response)

/-!
## Tasks and the system
-/

inductive Task where
  | authenticate (ci : ConnectInfo) (username password : String) (pc : AuthPc)
  | change (change : Change) (pc : ChangePc)
  | createUser (req : CreateUser) (salt : String) (pc : CreatePc)
  deriving DecidableEq

namespace Task

def username : Task -> String
  | authenticate _ username _ _ => username
  | change ch _ => ch.username
  | createUser req _ _ => req.username

def run (c : Crypto) (f : Faults) (s : AppState) : Task -> AppState × Task
  | authenticate ci username password pc =>
      let next := pc.run c f ci username password s
      (next.1, authenticate ci username password next.2)
  | change ch pc =>
      let next := pc.run f ch s
      (next.1, change ch next.2)
  | createUser req salt pc =>
      let next := pc.run c f req salt s
      (next.1, createUser req salt next.2)

@[simp] theorem run_username (c : Crypto) (f : Faults) (s : AppState) (t : Task) :
    (t.run c f s).2.username = t.username := by
  cases t <;> rfl

end Task

/-- What can be asked of the node about one user. -/
inductive Ask where
  | authenticate (ci : ConnectInfo) (username password : String)
  | change (change : Change)
  | createUser (req : CreateUser) (salt : String)

namespace Ask

def username : Ask -> String
  | authenticate _ username _ => username
  | change ch => ch.username
  | createUser req _ => req.username

/-- The task at its first position. -/
def task : Ask -> Task
  | authenticate ci username password =>
      Task.authenticate ci username password AuthPc.readCache
  | change ch => Task.change ch ChangePc.writeDb
  | createUser req salt => Task.createUser req salt CreatePc.writeDb

/-- The credentials of an authentication are those of its connection. -/
def WellFormed : Ask -> Prop
  | authenticate ci username password =>
      AppState.credentials ci = some (username, password)
  | _ => True

instance : (a : Ask) -> Decidable a.WellFormed
  | authenticate ci username password =>
      inferInstanceAs (Decidable (AppState.credentials ci = some (username, password)))
  | change _ => inferInstanceAs (Decidable True)
  | createUser _ _ => inferInstanceAs (Decidable True)

end Ask

structure Sys where
  node : AppState
  tasks : List Task

inductive SysEvent where
  | spawn (ask : Ask)
  | run (i : Nat) (faults : Faults)
  | sweepAuthCache
  | sweepUserCache
  | tick (d : Nat)

namespace Sys

def start (settings : AppState.Settings) (db : RedbStore) (now : Nat) : Sys :=
  { node := AppState.start settings db now, tasks := [] }

/-- All requests are about the one user. -/
def step (c : Crypto) (u : String) (m : Sys) : SysEvent -> Option Sys
  | SysEvent.spawn ask =>
      if ask.WellFormed ∧ ask.username = u then
        some { m with tasks := m.tasks ++ [ask.task] }
      else none
  | SysEvent.run i f =>
      match m.tasks[i]? with
      | some t =>
          some { node := (t.run c f m.node).1, tasks := m.tasks.set i (t.run c f m.node).2 }
      | none => none
  | SysEvent.sweepAuthCache => some { m with node := m.node.sweepAuthCache }
  | SysEvent.sweepUserCache => some { m with node := m.node.sweepUserCache }
  | SysEvent.tick d => some { m with node := m.node.tick d }

end Sys

/-!
## A task that is not interrupted

Running a task to its end without other steps is the handler itself.
-/

section Alone

variable {c : Crypto} {f : Faults} {ci : ConnectInfo} {u p : String}

/-- One uninterrupted step of an authentication. -/
def authStep (c : Crypto) (f : Faults) (ci : ConnectInfo) (u p : String)
    (sp : AppState × AuthPc) : AppState × AuthPc :=
  sp.2.run c f ci u p sp.1

theorem authStep_done (n : Nat) (s : AppState) (result : AuthResult) :
    (authStep c f ci u p)^[n] (s, AuthPc.done result) = (s, AuthPc.done result) :=
  Function.iterate_fixed rfl n

theorem checkPassword_steps (s : AppState) (r : UserRecord) :
    (authStep c f ci u p)^[5] (s, AuthPc.readAuthCache r) =
      ((s.checkPassword c f r u p).1,
       AuthPc.done (if (s.checkPassword c f r u p).2 then accepted s ci r
         else AuthResult.badUsernameOrPassword)) := by
  unfold AppState.checkPassword
  by_cases hcache : s.cacheHit c u p = true
  · have hstep : authStep c f ci u p (s, AuthPc.readAuthCache r) =
        (s, AuthPc.done (accepted s ci r)) := by
      simp [authStep, AuthPc.run, hcache]
    rw [Function.iterate_succ_apply, hstep, authStep_done]
    simp [hcache]
  · have hstep : authStep c f ci u p (s, AuthPc.readAuthCache r) =
        (s, AuthPc.readVerifier r) := by
      simp [authStep, AuthPc.run, hcache]
    rw [Function.iterate_succ_apply, hstep, if_neg hcache]
    by_cases hfast : s.verifierHit c f u p = true
    · have hread : authStep c f ci u p (s, AuthPc.readVerifier r) =
          (s, AuthPc.rememberFast r) := by
        simp [authStep, AuthPc.run, hfast]
      rw [Function.iterate_succ_apply, hread, Function.iterate_succ_apply, if_pos hfast]
      exact authStep_done 2 _ _
    · have hread : authStep c f ci u p (s, AuthPc.readVerifier r) =
          (s, AuthPc.verify r) := by
        simp [authStep, AuthPc.run, hfast]
      rw [Function.iterate_succ_apply, hread, if_neg hfast]
      by_cases hslow : (!f Call.verifyPassword &&
          c.verifyPassword r.passwordHash p) = true
      · have hverify : authStep c f ci u p (s, AuthPc.verify r) =
            (s, AuthPc.rememberSlow r) := by
          simp only [authStep, AuthPc.run, hslow, if_true]
        rw [Function.iterate_succ_apply, hverify, if_pos hslow]
        rfl
      · have hverify : authStep c f ci u p (s, AuthPc.verify r) =
            (s, AuthPc.done AuthResult.badUsernameOrPassword) := by
          simp only [authStep, AuthPc.run, hslow]
          rfl
        rw [Function.iterate_succ_apply, hverify, if_neg hslow, authStep_done]
        rfl

/-- An authentication needs at most eight steps. -/
theorem authenticate_alone (s : AppState)
    (hcred : AppState.credentials ci = some (u, p)) :
    (authStep c f ci u p)^[8] (s, AuthPc.readCache) =
      ((s.authenticate c f ci).1, AuthPc.done (s.authenticate c f ci).2) := by
  have hfinish : forall (t : AppState) (r : UserRecord),
      AppState.verdict ci r (t.checkPassword c f r u p) =
        ((t.checkPassword c f r u p).1,
         if (t.checkPassword c f r u p).2 then accepted t ci r
         else AuthResult.badUsernameOrPassword) := by
    intro t r
    cases hcheck : (t.checkPassword c f r u p).2 with
    | true =>
        rw [verdict_of_true hcheck, checkPassword_acl]
        rfl
    | false =>
        rw [verdict_of_false hcheck]
        rfl
  rw [Function.iterate_succ_apply]
  unfold AppState.authenticate
  cases hdisabled : s.authDisabled with
  | true =>
      have hstep : authStep c f ci u p (s, AuthPc.readCache) =
          (s, AuthPc.done (AuthResult.allow true none)) := by
        simp [authStep, AuthPc.run, hdisabled]
      rw [hstep, authStep_done]
      rfl
  | false =>
      simp only [Bool.false_eq_true, if_false, hcred]
      unfold AppState.lookupUser
      cases hget : s.users.get s.now u with
      | some r =>
          have hstep : authStep c f ci u p (s, AuthPc.readCache) =
              (s, AuthPc.readAuthCache r) := by
            simp [authStep, AuthPc.run, hdisabled, hget]
          rw [hstep, Function.iterate_add_apply _ 2 5, checkPassword_steps, authStep_done]
          dsimp only
          rw [hfinish]
      | none =>
          have hstep : authStep c f ci u p (s, AuthPc.readCache) = (s, AuthPc.readDb) := by
            simp [authStep, AuthPc.run, hdisabled, hget]
          rw [hstep, Function.iterate_succ_apply]
          cases hfault : f Call.getUser with
          | true =>
              have hread : authStep c f ci u p (s, AuthPc.readDb) =
                  (s, AuthPc.done AuthResult.notAuthorized) := by
                simp [authStep, AuthPc.run, hfault]
              rw [hread, authStep_done]
              rfl
          | false =>
              cases hdb : s.db.getUser u with
              | none =>
                  have hread : authStep c f ci u p (s, AuthPc.readDb) =
                      (s, AuthPc.done AuthResult.badUsernameOrPassword) := by
                    simp [authStep, AuthPc.run, hfault, hdb]
                  rw [hread, authStep_done]
                  rfl
              | some r =>
                  have hread : authStep c f ci u p (s, AuthPc.readDb) =
                      (s, AuthPc.fillCache r) := by
                    simp [authStep, AuthPc.run, hfault, hdb]
                  rw [hread, Function.iterate_succ_apply]
                  show (authStep c f ci u p)^[5]
                    ({ s with users := s.users.insert s.now u r }, AuthPc.readAuthCache r) = _
                  rw [checkPassword_steps]
                  simp only [Bool.false_eq_true, if_false]
                  rw [hfinish]

/-- A deletion or a replicated change needs at most three steps. -/
theorem deleteUser_alone (s : AppState) (username : String) :
    (fun sp : AppState × ChangePc => sp.2.run f (Change.deleteUser username) sp.1)^[3]
        (s, ChangePc.writeDb) =
      ((s.deleteUser f username).1, ChangePc.done (s.deleteUser f username).2.1) := by
  cases hfault : f Call.deleteUser with
  | true =>
      rw [deleteUser_failed hfault]
      simp [ChangePc.run, Change.write, hfault]
  | false =>
      cases hlookup : s.db.users.lookup username with
      | none =>
          rw [deleteUser_missing hfault hlookup]
          simp [ChangePc.run, Change.write, hfault, RedbStore.deleteUser, hlookup]
      | some r =>
          rw [deleteUser_found hfault hlookup]
          simp [ChangePc.run, Change.write, hfault, RedbStore.deleteUser, hlookup,
            AppState.purge, Change.username]

theorem replicate_alone (s : AppState) (op : ReplOp) :
    (fun sp : AppState × ChangePc => sp.2.run f (Change.replicate op) sp.1)^[3]
        (s, ChangePc.writeDb) =
      ((s.replicate f op).1, ChangePc.done (s.replicate f op).2) := by
  cases op with
  | upsert user =>
      cases hfault : f Call.upsertUser with
      | true => simp [ChangePc.run, Change.write, AppState.replicate, hfault]
      | false =>
          simp [ChangePc.run, Change.write, AppState.replicate, hfault, AppState.purge,
            Change.username, ReplOp.username]
  | delete username =>
      cases hfault : f Call.deleteUser with
      | true => simp [ChangePc.run, Change.write, AppState.replicate, hfault]
      | false =>
          simp [ChangePc.run, Change.write, AppState.replicate, hfault, AppState.purge,
            Change.username, ReplOp.username]

theorem createUser_alone (s : AppState) (req : CreateUser) (salt : String) :
    (fun sp : AppState × CreatePc => sp.2.run c f req salt sp.1)^[2]
        (s, CreatePc.writeDb) =
      ((s.createUser c f req salt).1, CreatePc.done (s.createUser c f req salt).2.1) := by
  unfold AppState.createUser
  cases hrefusal : req.refusal with
  | some refusal => simp [CreatePc.run, hrefusal]
  | none =>
      cases hhash : f Call.hashPassword with
      | true => simp [CreatePc.run, hrefusal, hhash]
      | false =>
          cases hinsert : f Call.insertUser with
          | true => simp [CreatePc.run, hrefusal, hhash, hinsert]
          | false =>
              cases hdb : s.db.insertUser
                  (req.record (c.hashPassword salt req.password)).toNewUser with
              | mk db inserted =>
                  cases inserted with
                  | true => simp [CreatePc.run, hrefusal, hhash, hinsert, hdb]
                  | false => simp [CreatePc.run, hrefusal, hhash, hinsert, hdb]

end Alone

end Api
end Ciqada
