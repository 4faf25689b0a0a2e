import Ciqada.Store.Replay

/-!
# Live deliveries and replay

With a message `store` is handed the clients that it was already forwarded to,
and `get` the shared group of the subscription.  The store looks at neither.
The history below records both, so that one can say which replays repeat a
delivery.
-/

namespace Ciqada
namespace Store

open Foundation Broker

/-- What the broker asks of a store, and what the store does by itself. -/
inductive Call where
  | nextMsgId
  | store (now : Int) (msgId : MsgId) (sender : From) (p : Publish) (expiryInterval : Nat)
      (subClientIds : Option (List (String × Option (String × String))))
  | work (now : Int)
  | get (now : Int) (clientId topicFilter : String) (group : Option String) (iter : List MsgId)
  | flush (now : Int) (commits : Bool)
  | settle (i : Nat)
  | restart (now : Int)

/-- A message that replay returned to a member of a shared group. -/
structure GroupDelivery where
  group : String
  topicFilter : String
  clientId : String
  msgId : MsgId
  deriving DecidableEq

/--
A store with its deliveries: the clients that messages were forwarded to when
they were stored, and what replay returned to shared groups.
-/
structure Deliveries (Row : Type) where
  sys : System Row
  forwarded : List (String × MsgId)
  shared : List GroupDelivery

namespace Deliveries

variable {Row : Type}

def begin (sys : System Row) : Deliveries Row :=
  { sys := sys, forwarded := [], shared := [] }

/-- The step of the store, to which the list and the group make no difference. -/
def next (cfg : Config) (codec : Codec Row) (s : System Row) : Call -> Option (System Row)
  | Call.nextMsgId => System.step cfg codec s Event.nextMsgId
  | Call.store now msgId sender p expiryInterval _ =>
      System.step cfg codec s (Event.store now msgId sender p expiryInterval)
  | Call.work now => System.step cfg codec s (Event.work now)
  | Call.get now clientId topicFilter _ iter =>
      System.step cfg codec s (Event.get now clientId topicFilter iter)
  | Call.flush now commits => System.step cfg codec s (Event.flush now commits)
  | Call.settle i => System.step cfg codec s (Event.settle i)
  | Call.restart now => System.openStore cfg codec s.disk now

def forwardedBy : Call -> List (String × MsgId)
  | Call.store _ msgId _ _ _ subClientIds =>
      (subClientIds.getD []).map (fun sub => (sub.1, msgId))
  | _ => []

def sharedBy (cfg : Config) (s : System Row) : Call -> List GroupDelivery
  | Call.get now clientId topicFilter (some group) iter =>
      (s.mem.get cfg now clientId iter).2.map (fun entry =>
        { group := group, topicFilter := topicFilter, clientId := clientId, msgId := entry.1 })
  | _ => []

def step (cfg : Config) (codec : Codec Row) (h : Deliveries Row) (call : Call) :
    Option (Deliveries Row) :=
  match next cfg codec h.sys call with
  | some s =>
      some
        { sys := s
          forwarded := h.forwarded ++ forwardedBy call
          shared := h.shared ++ sharedBy cfg h.sys call }
  | none => none

/-!
## Repeated deliveries
-/

/-- The message was stored as already forwarded to the client. -/
def Forwarded (h : Deliveries Row) (clientId : String) (id : MsgId) : Prop :=
  (clientId, id) ∈ h.forwarded

instance (h : Deliveries Row) (clientId : String) (id : MsgId) :
    Decidable (h.Forwarded clientId id) :=
  inferInstanceAs (Decidable (_ ∈ _))

/-- Another member of the group was given the message on the filter. -/
def Shared (h : Deliveries Row) (group : Option String) (topicFilter clientId : String)
    (id : MsgId) : Prop :=
  exists d, d ∈ h.shared ∧ group = some d.group ∧ d.topicFilter = topicFilter ∧
    d.clientId ≠ clientId ∧ d.msgId = id

instance (h : Deliveries Row) (group : Option String) (topicFilter clientId : String)
    (id : MsgId) : Decidable (h.Shared group topicFilter clientId id) :=
  inferInstanceAs (Decidable (exists d, d ∈ h.shared ∧ _))

/-- Replay returns no message that the client, or for a group another member, already has. -/
def NoRepeat (cfg : Config) (h : Deliveries Row) : Call -> Prop
  | Call.get now clientId topicFilter group iter =>
      forall entry, entry ∈ (h.sys.mem.get cfg now clientId iter).2 ->
        ¬ h.Forwarded clientId entry.1 ∧ ¬ h.Shared group topicFilter clientId entry.1
  | _ => True

/--
Every message that was forwarded to the client, or given to another member of
the group, and that is still in memory and listed under a matching topic has
expired or carries the mark of an earlier replay to this client.
-/
def Settled (cfg : Config) (h : Deliveries Row) : Call -> Prop
  | Call.get now clientId topicFilter group _ =>
      forall id, id ∈ (h.sys.mem.evict cfg now).candidates topicFilter ->
        (h.Forwarded clientId id ∨ h.Shared group topicFilter clientId id) ->
        forall msg, msg ∈ (h.sys.mem.evict cfg now).msgs.lookup id ->
          msg.expiryAt ≤ now ∨ clientId ∈ msg.deliveredTo
  | _ => True

instance (cfg : Config) (h : Deliveries Row) : (call : Call) -> Decidable (Settled cfg h call)
  | Call.get now clientId topicFilter group _ =>
      inferInstanceAs (Decidable (forall id,
        id ∈ (h.sys.mem.evict cfg now).candidates topicFilter ->
        (h.Forwarded clientId id ∨ h.Shared group topicFilter clientId id) ->
        forall msg, msg ∈ (h.sys.mem.evict cfg now).msgs.lookup id ->
          msg.expiryAt ≤ now ∨ clientId ∈ msg.deliveredTo))
  | Call.nextMsgId => isTrue trivial
  | Call.store _ _ _ _ _ _ => isTrue trivial
  | Call.work _ => isTrue trivial
  | Call.flush _ _ => isTrue trivial
  | Call.settle _ => isTrue trivial
  | Call.restart _ => isTrue trivial

section Runs

variable {cfg : Config} {codec : Codec Row} {h h' : Deliveries Row}

theorem of_step {call : Call} (hstep : step cfg codec h call = some h') :
    next cfg codec h.sys call = some h'.sys := by
  unfold step at hstep
  split at hstep
  · rename_i s hs
    rw [← Option.some.inj hstep]
    exact hs
  · cases hstep

/-- Replay skips a candidate only if it has expired or carries the mark. -/
theorem noRepeat_iff_settled {call : Call} (hstep : step cfg codec h call = some h') :
    NoRepeat cfg h call <-> Settled cfg h call := by
  cases call with
  | get now clientId topicFilter group iter =>
      have hget : System.step cfg codec h.sys (Event.get now clientId topicFilter iter) =
          some h'.sys := of_step hstep
      have hiter := System.iterOrder_of_step hget
      have hmem : forall id, id ∈ iter <->
          id ∈ (h.sys.mem.evict cfg now).candidates topicFilter := by
        intro id
        rw [← hiter]
        exact Multiset.mem_coe.symm
      constructor
      · intro hnone id hid hbarred msg hlookup
        by_contra hopen
        rw [not_or, not_le] at hopen
        have hentry : (id, msg.sender, msg.publish) ∈
            (h.sys.mem.get cfg now clientId iter).2 :=
          MemState.mem_deliver.mpr
            ⟨(hmem id).mpr hid, msg, hlookup, hopen.left, hopen.right, rfl⟩
        rcases hbarred with hforwarded | hshared
        · exact (hnone _ hentry).left hforwarded
        · exact (hnone _ hentry).right hshared
      · intro hsettled entry hentry
        rcases MemState.mem_deliver.mp hentry with ⟨hid, msg, hlookup, hlive, hnew, _⟩
        have hfree : ¬ (h.Forwarded clientId entry.1 ∨
            h.Shared group topicFilter clientId entry.1) := by
          intro hbarred
          rcases hsettled entry.1 ((hmem entry.1).mp hid) hbarred msg hlookup with
            hexpired | hmarked
          · exact absurd hlive (not_lt.mpr hexpired)
          · exact hnew hmarked
        exact not_or.mp hfree
  | nextMsgId => exact Iff.rfl
  | store now msgId sender p expiryInterval subClientIds => exact Iff.rfl
  | work now => exact Iff.rfl
  | flush now commits => exact Iff.rfl
  | settle i => exact Iff.rfl
  | restart now => exact Iff.rfl

end Runs

end Deliveries

namespace Sample

/-- The message is stored as already forwarded to `reader`. -/
def forwardedCalls : List Call :=
  [Call.store 10 7 sender (publish "a/b") 100 (some [("reader", none)]), Call.work 11]

/-- Another client replays it at once, `reader` only after it has expired. -/
def patientCalls : List Call :=
  forwardedCalls ++
    [Call.get 12 "other" "a/+" (some "g") [7], Call.get 110 "reader" "a/+" (some "g") []]

end Sample

namespace Deliveries

end Deliveries

end Store
end Ciqada
