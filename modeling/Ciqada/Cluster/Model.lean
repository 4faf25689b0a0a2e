import Ciqada.Api.Effects
import Ciqada.Foundation.Run

/-!
# A cluster of nodes

Every node has its own tables.  A change made at one node is sent to each of
its peers as a separate message, and the messages arrive in any order.  A node
that starts asks a peer for all its users and applies the answer later.  Nodes
are named by the address their peers use.
-/

namespace Ciqada
namespace Cluster

open Foundation Api

structure Net where
  node : String -> AppState
  inFlight : List (String × ReplOp)
  snapshots : List (String × List UserRecord)

inductive Event where
  | createUser (at_ : String) (req : CreateUser) (salt : String)
  | deleteUser (at_ : String) (username : String)
  | deliver (i : Nat)
  | lose (i : Nat)
  | takeSnapshot (at_ peer : String)
  | applySnapshot (i : Nat)

namespace Net

def users (s : Net) (a : String) : Table String UserRecord :=
  (s.node a).db.users

def setNode (s : Net) (a : String) (n : AppState) : Net :=
  { s with node := Function.update s.node a n }

def createUser (c : Crypto) (s : Net) (a : String) (req : CreateUser) (salt : String) : Net :=
  let result := (s.node a).createUser c noFaults req salt
  { s.setNode a result.1 with inFlight := s.inFlight ++ result.2.2 }

def deleteUser (s : Net) (a : String) (username : String) : Net :=
  let result := (s.node a).deleteUser noFaults username
  { s.setNode a result.1 with inFlight := s.inFlight ++ result.2.2 }

def deliver (s : Net) (i : Nat) (b : String) (op : ReplOp) : Net :=
  { s.setNode b ((s.node b).replicate noFaults op).1 with
    inFlight := s.inFlight.eraseIdx i }

def takeSnapshot (s : Net) (a peer : String) : Net :=
  match ((s.node peer).usersFull noFaults).body with
  | Body.records users => { s with snapshots := s.snapshots ++ [(a, users)] }
  | _ => s

def applySnapshot (s : Net) (i : Nat) (a : String) (users : List UserRecord) : Net :=
  { s.setNode a ((s.node a).applySnapshot noFaults users) with
    snapshots := s.snapshots.eraseIdx i }

/-- Requests reach members only; a message or snapshot is picked by its place. -/
def step (c : Crypto) (members : List String) (s : Net) : Event -> Option Net
  | Event.createUser a req salt =>
      if a ∈ members then some (s.createUser c a req salt) else none
  | Event.deleteUser a username =>
      if a ∈ members then some (s.deleteUser a username) else none
  | Event.deliver i =>
      match s.inFlight[i]? with
      | some (b, op) => some (s.deliver i b op)
      | none => none
  | Event.lose i =>
      if i < s.inFlight.length then some { s with inFlight := s.inFlight.eraseIdx i }
      else none
  | Event.takeSnapshot a peer =>
      if a ∈ members ∧ peer ∈ (s.node a).peers then some (s.takeSnapshot a peer) else none
  | Event.applySnapshot i =>
      match s.snapshots[i]? with
      | some (a, users) => some (s.applySnapshot i a users)
      | none => none

/-- The steps, one case for each event. -/
inductive Stepped (c : Crypto) (members : List String) (s : Net) : Event -> Net -> Prop where
  | createUser (a : String) (req : CreateUser) (salt : String) :
      a ∈ members ->
      Stepped c members s (Event.createUser a req salt) (s.createUser c a req salt)
  | deleteUser (a username : String) :
      a ∈ members ->
      Stepped c members s (Event.deleteUser a username) (s.deleteUser a username)
  | deliver (i : Nat) (b : String) (op : ReplOp) :
      s.inFlight[i]? = some (b, op) ->
      Stepped c members s (Event.deliver i) (s.deliver i b op)
  | lose (i : Nat) :
      i < s.inFlight.length ->
      Stepped c members s (Event.lose i) { s with inFlight := s.inFlight.eraseIdx i }
  | takeSnapshot (a peer : String) :
      a ∈ members ->
      peer ∈ (s.node a).peers ->
      Stepped c members s (Event.takeSnapshot a peer) (s.takeSnapshot a peer)
  | applySnapshot (i : Nat) (a : String) (users : List UserRecord) :
      s.snapshots[i]? = some (a, users) ->
      Stepped c members s (Event.applySnapshot i) (s.applySnapshot i a users)

theorem stepped_of_step {c : Crypto} {members : List String} {s t : Net} {e : Event}
    (hstep : s.step c members e = some t) : Stepped c members s e t := by
  cases e with
  | createUser a req salt =>
      simp only [step, Option.ite_none_right_eq_some, Option.some.injEq] at hstep
      rw [← hstep.right]
      exact Stepped.createUser a req salt hstep.left
  | deleteUser a username =>
      simp only [step, Option.ite_none_right_eq_some, Option.some.injEq] at hstep
      rw [← hstep.right]
      exact Stepped.deleteUser a username hstep.left
  | deliver i =>
      cases hi : s.inFlight[i]? with
      | none => simp [step, hi] at hstep
      | some msg =>
          rcases msg with ⟨b, op⟩
          simp only [step, hi, Option.some.injEq] at hstep
          rw [← hstep]
          exact Stepped.deliver i b op hi
  | lose i =>
      simp only [step, Option.ite_none_right_eq_some, Option.some.injEq] at hstep
      rw [← hstep.right]
      exact Stepped.lose i hstep.left
  | takeSnapshot a peer =>
      simp only [step, Option.ite_none_right_eq_some, Option.some.injEq] at hstep
      rw [← hstep.right]
      exact Stepped.takeSnapshot a peer hstep.left.left hstep.left.right
  | applySnapshot i =>
      cases hi : s.snapshots[i]? with
      | none => simp [step, hi] at hstep
      | some snap =>
          rcases snap with ⟨a, users⟩
          simp only [step, hi, Option.some.injEq] at hstep
          rw [← hstep]
          exact Stepped.applySnapshot i a users hi

/-- Nothing is under way. -/
def Quiescent (s : Net) : Prop :=
  s.inFlight = [] ∧ s.snapshots = []

/-- Every member sends to every other member, and to members only. -/
def Wired (members : List String) (s : Net) : Prop :=
  forall a, a ∈ members ->
    (forall b, b ∈ members -> b ≠ a -> b ∈ (s.node a).peers) ∧
      forall b, b ∈ (s.node a).peers -> b ∈ members

/-!
## Reading a changed network
-/

@[simp] theorem users_setNode_self (s : Net) (a : String) (n : AppState) :
    (s.setNode a n).users a = n.db.users := by
  simp [users, setNode]

theorem users_setNode_of_ne (s : Net) {a b : String} (n : AppState) (hne : b ≠ a) :
    (s.setNode a n).users b = s.users b := by
  simp [users, setNode, hne]

theorem wired_setNode {members : List String} {s : Net} (h : Wired members s)
    (a : String) {n : AppState} (hpeers : n.peers = (s.node a).peers) :
    Wired members (s.setNode a n) := by
  have hsame : forall b, ((s.setNode a n).node b).peers = (s.node b).peers := by
    intro b
    by_cases hb : b = a
    · subst hb
      simpa [setNode] using hpeers
    · simp [setNode, hb]
  intro b hb
  rw [hsame b]
  exact h b hb

theorem createUser_rejected (c : Crypto) (s : Net) {a : String} {req : CreateUser}
    (hrejected : ¬ req.Accepted (s.node a)) (salt : String) :
    s.createUser c a req salt = s := by
  have hsame := createUser_unchanged (c := c) (f := noFaults)
    (fun hok => hrejected hok.right.right) salt
  show { s.setNode a ((s.node a).createUser c noFaults req salt).1 with
    inFlight := s.inFlight ++ ((s.node a).createUser c noFaults req salt).2.2 } = s
  rw [hsame.left, hsame.right, List.append_nil]
  simp [setNode]

end Net

end Cluster
end Ciqada
