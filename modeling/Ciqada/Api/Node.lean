import Ciqada.Api.UserStore
import Ciqada.Api.Crypto
import Ciqada.Foundation.TtlCache

/-!
# One node: the management interface and authentication

The state of a node is its store, its two caches, its configuration and its
clock.  The handlers below follow the source: user management, replication
between nodes, the catch-up of a starting node, and the authentication hook.
A handler runs as one step here; its single steps are separate functions.
-/

namespace Ciqada
namespace Api

open Foundation Broker

abbrev AuthCache : Type :=
  TtlCache (List UInt8) Bool

abbrev UserCache : Type :=
  TtlCache String UserRecord

structure AppState where
  db : RedbStore
  acl : AclConfig
  authCache : AuthCache
  users : UserCache
  peers : List String
  authDisabled : Bool
  pepper : Option (List UInt8)
  now : Nat

structure CreateUser where
  username : String
  userid : String
  password : String
  superuser : Bool
  admin : Bool
  deriving DecidableEq

inductive ReplOp where
  | upsert (user : UserRecord)
  | delete (username : String)
  deriving DecidableEq

def ReplOp.username : ReplOp -> String
  | upsert user => user.username
  | delete username => username

def ReplOp.isUpsert : ReplOp -> Bool
  | upsert _ => true
  | delete _ => false

inductive Body where
  | empty
  | error (message : String)
  | created (username userid : String)
  | records (users : List UserRecord)
  deriving DecidableEq

structure Response where
  status : Nat
  body : Body
  deriving DecidableEq

namespace Response

def badRequest (message : String) : Response :=
  { status := 400, body := Body.error message }

def internalError : Response :=
  { status := 500, body := Body.error "internal error" }

def noContent : Response :=
  { status := 204, body := Body.empty }

end Response

inductive AuthResult where
  | allow (superuser : Bool) (authInfo : Option Acl.AuthInfo)
  | notFound
  | badUsernameOrPassword
  | notAuthorized
  deriving DecidableEq

/-!
## User management
-/

/-- The response to a malformed request, if it is one. -/
def CreateUser.refusal (req : CreateUser) : Option Response :=
  if !validUsername req.username then
    some (Response.badRequest
      "username must be 1-128 printable ascii chars without spaces")
  else if !validSegment req.userid then
    some (Response.badRequest "userid must be 1-64 chars of [A-Za-z0-9_-]")
  else if req.password.isEmpty || decide (512 < req.password.utf8ByteSize) then
    some (Response.badRequest "password must be 1-512 bytes")
  else none

def CreateUser.record (req : CreateUser) (hash : String) : UserRecord :=
  { username := req.username, userid := req.userid, passwordHash := hash,
    superuser := req.superuser, admin := req.admin }

namespace AppState

/-- One message to every peer. -/
def fanout (s : AppState) (op : ReplOp) : List (String × ReplOp) :=
  s.peers.map (fun base => (base, op))

/-- Store the verifier when the node has a pepper; a failure is ignored. -/
def storeVerifier (c : Crypto) (f : Faults) (s : AppState) (username password : String) :
    AppState :=
  match s.pepper with
  | some pepper =>
      if f Call.setVerifier then s
      else
        { s with db := s.db.setVerifier username (c.computeVerifier pepper username password) }
  | none => s

def purge (s : AppState) (username : String) : AppState :=
  { s with authCache := s.authCache.clear, users := s.users.purge username }

def createUser (c : Crypto) (f : Faults) (s : AppState) (req : CreateUser) (salt : String) :
    AppState × Response × List (String × ReplOp) :=
  match req.refusal with
  | some refusal => (s, refusal, [])
  | none =>
      if f Call.hashPassword then (s, Response.internalError, [])
      else
        let user := req.record (c.hashPassword salt req.password)
        if f Call.insertUser then (s, Response.internalError, [])
        else
          match s.db.insertUser user.toNewUser with
          | (db, true) =>
              (storeVerifier c f { s with db := db } req.username req.password,
               { status := 201, body := Body.created req.username req.userid },
               s.fanout (ReplOp.upsert user))
          | (_, false) =>
              (s, { status := 409, body := Body.error "user already exists" }, [])

def deleteUser (f : Faults) (s : AppState) (username : String) :
    AppState × Response × List (String × ReplOp) :=
  if f Call.deleteUser then (s, Response.internalError, [])
  else
    match s.db.deleteUser username with
    | (db, true) =>
        (purge { s with db := db } username, Response.noContent,
         s.fanout (ReplOp.delete username))
    | (db, false) =>
        ({ s with db := db }, { status := 404, body := Body.error "user not found" }, [])

/-!
## Replication and catch-up
-/

def replicate (f : Faults) (s : AppState) : ReplOp -> AppState × Response
  | ReplOp.upsert user =>
      if f Call.upsertUser then (s, Response.internalError)
      else (purge { s with db := s.db.upsertUser user.toNewUser } user.username,
            Response.noContent)
  | ReplOp.delete username =>
      if f Call.deleteUser then (s, Response.internalError)
      else (purge { s with db := (s.db.deleteUser username).1 } username,
            Response.noContent)

def usersFull (f : Faults) (s : AppState) : Response :=
  if f Call.listUsers then Response.internalError
  else { status := 200, body := Body.records s.db.listUsers }

/-- What a peer answers in a given round; nothing when it cannot be used. -/
abbrev Answers : Type :=
  Nat -> String -> Option (List UserRecord)

/-- The first usable answer in the given number of rounds. -/
def firstSnapshot (answers : Answers) (peers : List String) : Nat -> Nat ->
    Option (List UserRecord)
  | 0, _ => none
  | rounds + 1, round =>
      match peers.findSome? (answers round) with
      | some users => some users
      | none => firstSnapshot answers peers rounds (round + 1)

def applySnapshot (f : Faults) (s : AppState) (users : List UserRecord) : AppState :=
  if f Call.upsertMany then s
  else { s with db := s.db.upsertMany (users.map UserRecord.toNewUser) }

def catchUp (f : Faults) (s : AppState) (answers : Answers) : AppState :=
  match firstSnapshot answers s.peers 30 0 with
  | some users => applySnapshot f s users
  | none => s

/-!
## Authentication
-/

def fromUtf8 (bytes : List UInt8) : Option String :=
  String.fromUTF8? bytes.toByteArray

/-- The user name and password of a connection, when both are usable texts. -/
def credentials (ci : ConnectInfo) : Option (String × String) :=
  match ci.username, ci.password.bind fromUtf8 with
  | some username, some password =>
      if username.isEmpty || password.isEmpty then none else some (username, password)
  | _, _ => none

def lookupUser (f : Faults) (s : AppState) (username : String) :
    AppState × Except Response (Option UserRecord) :=
  match s.users.get s.now username with
  | some record => (s, Except.ok (some record))
  | none =>
      if f Call.getUser then (s, Except.error Response.internalError)
      else
        match s.db.getUser username with
        | some record =>
            ({ s with users := s.users.insert s.now username record },
             Except.ok (some record))
        | none => (s, Except.ok none)

def cacheHit (c : Crypto) (s : AppState) (username password : String) : Bool :=
  (s.authCache.get s.now (c.authKey username password)).isSome

def verifierHit (c : Crypto) (f : Faults) (s : AppState) (username password : String) :
    Bool :=
  match s.pepper with
  | some pepper =>
      if f Call.getVerifier then false
      else
        match s.db.getVerifier username with
        | some v => c.verifyFast pepper username password v
        | none => false
  | none => false

def remember (c : Crypto) (s : AppState) (username password : String) (superuser : Bool) :
    AppState :=
  { s with
    authCache := s.authCache.insert s.now (c.authKey username password) superuser }

/-- Three ways to accept a password, tried in this order. -/
def checkPassword (c : Crypto) (f : Faults) (s : AppState) (record : UserRecord)
    (username password : String) : AppState × Bool :=
  if cacheHit c s username password then (s, true)
  else if verifierHit c f s username password then
    (remember c s username password record.superuser, true)
  else if !f Call.verifyPassword && c.verifyPassword record.passwordHash password then
    (storeVerifier c f (remember c s username password record.superuser) username password,
     true)
  else (s, false)

/-- The answer once the password has been checked. -/
def verdict (ci : ConnectInfo) (record : UserRecord) : AppState × Bool -> AppState × AuthResult
  | (s, true) =>
      (s, AuthResult.allow record.superuser (some (buildAuthInfo record s.acl ci)))
  | (s, false) => (s, AuthResult.badUsernameOrPassword)

def authenticate (c : Crypto) (f : Faults) (s : AppState) (ci : ConnectInfo) :
    AppState × AuthResult :=
  if s.authDisabled then (s, AuthResult.allow true none)
  else
    match credentials ci with
    | none => (s, AuthResult.badUsernameOrPassword)
    | some (username, password) =>
        match lookupUser f s username with
        | (s, Except.error _) => (s, AuthResult.notAuthorized)
        | (s, Except.ok none) => (s, AuthResult.badUsernameOrPassword)
        | (s, Except.ok (some record)) =>
            verdict ci record (checkPassword c f s record username password)

/-!
## Starting and ageing
-/

structure Settings where
  acl : AclConfig
  ttl : Nat
  peers : List String
  pepper : Option (List UInt8)

/-- The node after a start on the given tables: both caches are empty. -/
def start (settings : Settings) (db : RedbStore) (now : Nat) : AppState :=
  { db := db, acl := settings.acl, authCache := TtlCache.empty settings.ttl,
    users := TtlCache.empty settings.ttl, peers := settings.peers, authDisabled := false,
    pepper := settings.pepper, now := now }

def sweepAuthCache (s : AppState) : AppState :=
  { s with authCache := s.authCache.sweep s.now }

def sweepUserCache (s : AppState) : AppState :=
  { s with users := s.users.sweep s.now }

def tick (s : AppState) (d : Nat) : AppState :=
  { s with now := s.now + d }

end AppState

/-!
## Operations of a node
-/

inductive Op where
  | createUser (req : CreateUser) (salt : String)
  | deleteUser (username : String)
  | replicate (op : ReplOp)
  | catchUp (answers : AppState.Answers)
  | authenticate (ci : ConnectInfo)
  | sweepAuthCache
  | sweepUserCache
  | tick (d : Nat)
  | restart (settings : AppState.Settings)

/-- One operation with the calls that fail in it. -/
structure Request where
  faults : Faults
  op : Op

def AppState.next (c : Crypto) (s : AppState) (r : Request) : AppState :=
  match r.op with
  | Op.createUser req salt => (AppState.createUser c r.faults s req salt).1
  | Op.deleteUser username => (AppState.deleteUser r.faults s username).1
  | Op.replicate op => (AppState.replicate r.faults s op).1
  | Op.catchUp answers => AppState.catchUp r.faults s answers
  | Op.authenticate ci => (AppState.authenticate c r.faults s ci).1
  | Op.sweepAuthCache => s.sweepAuthCache
  | Op.sweepUserCache => s.sweepUserCache
  | Op.tick d => s.tick d
  | Op.restart settings => AppState.start settings s.db s.now

/-- Operations are always enabled. -/
def AppState.step (c : Crypto) (s : AppState) (r : Request) : Option AppState :=
  some (s.next c r)

/-!
## A sample node

One user, a peer, and requests about that user.
-/

namespace Sample

def login (username password : String) : ConnectInfo :=
  ConnectInfo.v3
    { nodeId := 1, clientId := "c1", username := some username, createTime := 0 }
    { cleanSession := true, username := some username, password := some (asBytes password),
      lastWill := none }

def alice (password : String) : CreateUser :=
  { username := "alice", userid := "a1", password := password, superuser := false,
    admin := false }

def aliceRecord (password : String) : UserRecord :=
  (alice password).record (Crypto.transparent.hashPassword "salt" password)

def settings : AppState.Settings :=
  { acl := AclConfig.default, ttl := 60, peers := ["http://b"], pepper := some [7] }

def initial : AppState :=
  AppState.start settings RedbStore.empty 0

def create (password : String) : Request :=
  { faults := noFaults, op := Op.createUser (alice password) "salt" }

def remove : Request :=
  { faults := noFaults, op := Op.deleteUser "alice" }

def receive (password : String) : Request :=
  { faults := noFaults, op := Op.replicate (ReplOp.upsert (aliceRecord password)) }

def after (reqs : List Request) : AppState :=
  reqs.foldl (AppState.next Crypto.transparent) initial

end Sample

end Api
end Ciqada
