import Ciqada.Api.AuthInfo
import Ciqada.Foundation.Table
import Mathlib.Data.Finset.Sort
import Mathlib.Data.String.Basic

/-!
# The user store

Two tables hold the users and the fast password verifiers.  Every operation is
one transaction: it takes effect as a whole, or fails and leaves the tables as
they were.  Which calls fail is an input of the model.
-/

namespace Ciqada
namespace Api

open Foundation

/-- The calls that may fail. -/
inductive Call where
  | hashPassword
  | verifyPassword
  | insertUser
  | upsertUser
  | upsertMany
  | deleteUser
  | listUsers
  | getUser
  | getVerifier
  | setVerifier
  deriving DecidableEq

abbrev Faults : Type :=
  Call -> Bool

def noFaults : Faults :=
  fun _ => false

@[simp] theorem noFaults_apply (call : Call) : noFaults call = false := rfl

/-- The tables; a user lies under its own name. -/
structure RedbStore where
  users : Table String UserRecord
  verifiers : String -> Option (List UInt8)
  keyed : Table.Keyed UserRecord.username users

namespace RedbStore

def empty : RedbStore :=
  { users := ∅, verifiers := fun _ => none, keyed := Table.keyed_empty _ }

/-- An existing user is left alone and reported. -/
def insertUser (db : RedbStore) (user : NewUser) : RedbStore × Bool :=
  if (db.users.lookup user.username).isSome then (db, false)
  else
    ({ db with
       users := db.users.insert user.username user.toRecord
       keyed := Table.keyed_insert db.keyed user.toRecord }, true)

def upsertUser (db : RedbStore) (user : NewUser) : RedbStore :=
  { db with
    users := db.users.insert user.username user.toRecord
    keyed := Table.keyed_insert db.keyed user.toRecord }

def upsertMany (db : RedbStore) (users : List NewUser) : RedbStore :=
  if users.isEmpty then db
  else
    { db with
      users := Table.insertAll UserRecord.username db.users (users.map NewUser.toRecord)
      keyed := Table.keyed_insertAll db.keyed _ }

/-- The verifier goes with the user, whether or not the user existed. -/
def deleteUser (db : RedbStore) (username : String) : RedbStore × Bool :=
  ({ users := db.users.erase username
     verifiers := Function.update db.verifiers username none
     keyed := Table.keyed_erase db.keyed username },
   (db.users.lookup username).isSome)

def listUsers (db : RedbStore) : List UserRecord :=
  ((db.users.keys.sort (fun a b => a ≤ b)).filterMap db.users.lookup).mergeSort
    (fun a b => decide (a.username ≤ b.username))

def getUser (db : RedbStore) (username : String) : Option UserRecord :=
  db.users.lookup username

def getVerifier (db : RedbStore) (username : String) : Option (List UInt8) :=
  db.verifiers username

def setVerifier (db : RedbStore) (username : String) (verifier : List UInt8) : RedbStore :=
  { db with verifiers := Function.update db.verifiers username (some verifier) }

/-!
## The effect of the operations
-/

theorem insertUser_of_none {db : RedbStore} {user : NewUser}
    (hnone : db.users.lookup user.username = none) :
    db.insertUser user = (db.upsertUser user, true) := by
  unfold insertUser
  rw [hnone]
  rfl

theorem insertUser_of_some {db : RedbStore} {user : NewUser} {r : UserRecord}
    (hsome : db.users.lookup user.username = some r) :
    db.insertUser user = (db, false) := by
  unfold insertUser
  rw [hsome]
  rfl

theorem upsertMany_users (db : RedbStore) (users : List NewUser) :
    (db.upsertMany users).users =
      Table.insertAll UserRecord.username db.users (users.map NewUser.toRecord) := by
  unfold upsertMany
  cases users with
  | nil => rfl
  | cons user users => rfl

@[simp] theorem upsertMany_verifiers (db : RedbStore) (users : List NewUser) :
    (db.upsertMany users).verifiers = db.verifiers := by
  unfold upsertMany
  split <;> rfl

theorem mem_listUsers {db : RedbStore} {r : UserRecord} :
    r ∈ db.listUsers <-> exists u, db.users.lookup u = some r := by
  unfold listUsers
  rw [List.mem_mergeSort, List.mem_filterMap]
  constructor
  · intro h
    rcases h with ⟨u, _, hlookup⟩
    exact ⟨u, hlookup⟩
  · intro h
    rcases h with ⟨u, hlookup⟩
    refine ⟨u, ?_, hlookup⟩
    rw [Finset.mem_sort, Finmap.mem_keys, Finmap.mem_iff]
    exact ⟨r, hlookup⟩

end RedbStore

end Api
end Ciqada
