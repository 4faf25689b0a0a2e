import Ciqada.Cluster.Model

/-!
# Agreement on the users

Replicated operations carry no version and no order, so the tables can only be
expected to agree when conflicting operations are not in flight together.  The
condition below names the conflicts.  Under it a ledger of the effective
requests explains every table: a node differs from the ledger in a name only
while a message that will repair it is on its way.
-/

namespace Ciqada
namespace Cluster

open Foundation Api

/-- The users by name that the effective requests have left so far. -/
abbrev Ledger : Type :=
  String -> Option UserRecord

/--
An event conflicts with nothing in flight: a name is created only while no
message about it is under way, deleted only while no creation of it and no
snapshot with it is, and a snapshot is not taken from a node that is about to
delete one of its users.
-/
def Serial (s : Net) : Event -> Prop
  | Event.createUser a req _ =>
      req.Accepted (s.node a) -> forall m, m ∈ s.inFlight -> m.2.username ≠ req.username
  | Event.deleteUser a u =>
      ((s.users a).lookup u).isSome = true ->
        (forall m, m ∈ s.inFlight -> m.2.isUpsert = true -> m.2.username ≠ u) ∧
          forall sn, sn ∈ s.snapshots -> forall r, r ∈ sn.2 -> r.username ≠ u
  | Event.takeSnapshot _ peer =>
      forall m, m ∈ s.inFlight -> m.1 = peer -> m.2.isUpsert = false ->
        (s.users peer).lookup m.2.username = none
  | Event.deliver _ => True
  | Event.applySnapshot _ => True
  | Event.lose _ => False

instance (s : Net) : (e : Event) -> Decidable (Serial s e)
  | Event.createUser a req _ =>
      inferInstanceAs (Decidable (req.Accepted (s.node a) ->
        forall m, m ∈ s.inFlight -> m.2.username ≠ req.username))
  | Event.deleteUser a u =>
      inferInstanceAs (Decidable (((s.users a).lookup u).isSome = true ->
        (forall m, m ∈ s.inFlight -> m.2.isUpsert = true -> m.2.username ≠ u) ∧
          forall sn, sn ∈ s.snapshots -> forall r, r ∈ sn.2 -> r.username ≠ u))
  | Event.takeSnapshot _ peer =>
      inferInstanceAs (Decidable (forall m, m ∈ s.inFlight -> m.1 = peer ->
        m.2.isUpsert = false -> (s.users peer).lookup m.2.username = none))
  | Event.deliver _ => inferInstanceAs (Decidable True)
  | Event.applySnapshot _ => inferInstanceAs (Decidable True)
  | Event.lose _ => inferInstanceAs (Decidable False)

/-- The table of a node agrees with the ledger or a repair is on its way. -/
def Explained (ledger : Ledger) (s : Net) (a u : String) : Prop :=
  (s.users a).lookup u = ledger u ∨
    (a, ReplOp.delete u) ∈ s.inFlight ∨
      ((s.users a).lookup u = none ∧
        exists r, (a, ReplOp.upsert r) ∈ s.inFlight ∧ r.username = u)

structure Tracks (members : List String) (ledger : Ledger) (s : Net) : Prop where
  wired : s.Wired members
  upserts : forall b r, (b, ReplOp.upsert r) ∈ s.inFlight -> ledger r.username = some r
  deletes : forall b u, (b, ReplOp.delete u) ∈ s.inFlight -> ledger u = none
  tables : forall a, a ∈ members -> forall u, Explained ledger s a u
  snapshots : forall b users, (b, users) ∈ s.snapshots -> forall r, r ∈ users ->
    ledger r.username = some r

section Steps

variable {c : Crypto} {members : List String} {ledger : Ledger} {s : Net}

theorem mem_fanout {n : AppState} {op op' : ReplOp} {b : String} :
    (b, op') ∈ n.fanout op <-> b ∈ n.peers ∧ op' = op := by
  unfold AppState.fanout
  rw [List.mem_map]
  constructor
  · intro h
    rcases h with ⟨base, hbase, heq⟩
    rcases Prod.mk.inj heq with ⟨hb, hop⟩
    rw [← hb]
    exact ⟨hbase, hop.symm⟩
  · intro h
    exact ⟨b, h.left, by rw [h.right]⟩

/-- A message at another place stays when one is taken out. -/
theorem mem_eraseIdx_of_ne {α : Type*} {l : List α} {i : Nat} {x y : α}
    (hi : l[i]? = some x) (hy : y ∈ l) (hne : y ≠ x) : y ∈ l.eraseIdx i := by
  rw [List.mem_eraseIdx_iff_getElem?]
  rcases List.mem_iff_getElem?.mp hy with ⟨j, hj⟩
  refine ⟨j, ?_, hj⟩
  intro hji
  rw [hji, hi] at hj
  exact hne (Option.some.inj hj).symm

/-- A name stays explained while its row, its entry and the messages about it stay. -/
theorem Explained.carry {t : Net} {ledger' : Ledger} {a u : String}
    (h : Explained ledger s a u) (hlookup : (t.users a).lookup u = (s.users a).lookup u)
    (hledger : ledger' u = ledger u)
    (hmsgs : forall op, op.username = u -> (a, op) ∈ s.inFlight -> (a, op) ∈ t.inFlight) :
    Explained ledger' t a u := by
  unfold Explained
  rw [hlookup, hledger]
  rcases h with hagree | hdelete | hupsert
  · exact Or.inl hagree
  · exact Or.inr (Or.inl (hmsgs _ rfl hdelete))
  · rcases hupsert with ⟨hnone, r, hr, hu⟩
    exact Or.inr (Or.inr ⟨hnone, r, hmsgs _ hu hr, hu⟩)

/-!
## Requests
-/

/-- While no message is about a name, all members agree on it with the ledger. -/
theorem lookup_of_no_message (h : Tracks members ledger s) {a u : String}
    (ha : a ∈ members)
    (hnone : forall m, m ∈ s.inFlight -> m.2.username ≠ u) :
    (s.users a).lookup u = ledger u := by
  rcases h.tables a ha u with hagree | hdelete | hupsert
  · exact hagree
  · exact absurd rfl (hnone _ hdelete)
  · rcases hupsert with ⟨_, r, hr, hu⟩
    exact absurd hu (hnone _ hr)

theorem tracks_create (h : Tracks members ledger s) {a : String} (ha : a ∈ members)
    {req : CreateUser} (haccepted : req.Accepted (s.node a))
    (hserial : forall m, m ∈ s.inFlight -> m.2.username ≠ req.username) (salt : String) :
    Tracks members
      (Function.update ledger req.username
        (some (req.record (c.hashPassword salt req.password))))
      (s.createUser c a req salt) := by
  have hempty : ledger req.username = none := by
    rw [← lookup_of_no_message h ha hserial]
    exact haccepted.right
  have hmsgs : (s.createUser c a req salt).inFlight =
      s.inFlight ++ (s.node a).fanout
        (ReplOp.upsert (req.record (c.hashPassword salt req.password))) := by
    show s.inFlight ++ ((s.node a).createUser c noFaults req salt).2.2 = _
    rw [createUser_accepted rfl rfl haccepted]
  have hself : (s.createUser c a req salt).users a =
      (s.users a).insert req.username (req.record (c.hashPassword salt req.password)) := by
    show (s.setNode a ((s.node a).createUser c noFaults req salt).1).users a = _
    rw [Net.users_setNode_self, createUser_users, if_pos haccepted]
    rfl
  have hother : forall b, b ≠ a -> (s.createUser c a req salt).users b = s.users b := by
    intro b hb
    exact Net.users_setNode_of_ne s _ hb
  constructor
  · exact Net.wired_setNode h.wired a (createUser_peers req salt)
  · intro b r hr
    rw [hmsgs] at hr
    rcases List.mem_append.mp hr with hold | hnew
    · have hne : r.username ≠ req.username := hserial _ hold
      rw [Function.update_of_ne hne]
      exact h.upserts b r hold
    · rcases mem_fanout.mp hnew with ⟨_, hop⟩
      rw [ReplOp.upsert.inj hop]
      exact Function.update_self _ _ _
  · intro b u hu
    rw [hmsgs] at hu
    rcases List.mem_append.mp hu with hold | hnew
    · have hne : u ≠ req.username := hserial _ hold
      rw [Function.update_of_ne hne]
      exact h.deletes b u hold
    · cases (mem_fanout.mp hnew).right
  · intro b hb u
    by_cases hu : u = req.username
    · unfold Explained
      rw [hmsgs]
      subst hu
      by_cases hba : b = a
      · left
        rw [hba, hself, Finmap.lookup_insert, Function.update_self]
      · right
        right
        refine ⟨?_, _, List.mem_append_right _ (mem_fanout.mpr ⟨?_, rfl⟩), rfl⟩
        · rw [hother b hba, lookup_of_no_message h hb hserial]
          exact hempty
        · exact (h.wired a ha).left b hb hba
    · have hsame : ((s.createUser c a req salt).users b).lookup u =
          (s.users b).lookup u := by
        by_cases hba : b = a
        · rw [hba, hself, Table.lookup_insert_if, if_neg hu]
        · rw [hother b hba]
      apply (h.tables b hb u).carry hsame (Function.update_of_ne hu _ _)
      intro op _ hop
      rw [hmsgs]
      exact List.mem_append_left _ hop
  · intro b users husers r hr
    have hledger := h.snapshots b users husers r hr
    rw [Function.update_of_ne]
    · exact hledger
    · intro hu
      rw [hu, hempty] at hledger
      cases hledger

theorem tracks_delete (h : Tracks members ledger s) {a u : String} (ha : a ∈ members)
    {r : UserRecord} (hfound : (s.users a).lookup u = some r)
    (hupserts : forall m, m ∈ s.inFlight -> m.2.isUpsert = true -> m.2.username ≠ u)
    (hsnapshots : forall sn, sn ∈ s.snapshots -> forall r, r ∈ sn.2 -> r.username ≠ u) :
    Tracks members (Function.update ledger u none) (s.deleteUser a u) := by
  have hmsgs : (s.deleteUser a u).inFlight =
      s.inFlight ++ (s.node a).fanout (ReplOp.delete u) := by
    show s.inFlight ++ ((s.node a).deleteUser noFaults u).2.2 = _
    rw [deleteUser_found rfl hfound]
  have hself : (s.deleteUser a u).users a = (s.users a).erase u := by
    show (s.setNode a ((s.node a).deleteUser noFaults u).1).users a = _
    rw [Net.users_setNode_self, deleteUser_users]
    rfl
  have hother : forall b, b ≠ a -> (s.deleteUser a u).users b = s.users b := by
    intro b hb
    exact Net.users_setNode_of_ne s _ hb
  constructor
  · exact Net.wired_setNode h.wired a (deleteUser_peers u)
  · intro b r' hr
    rw [hmsgs] at hr
    rcases List.mem_append.mp hr with hold | hnew
    · have hne : r'.username ≠ u := hupserts _ hold rfl
      rw [Function.update_of_ne hne]
      exact h.upserts b r' hold
    · cases (mem_fanout.mp hnew).right
  · intro b v hv
    rw [hmsgs] at hv
    rcases List.mem_append.mp hv with hold | hnew
    · by_cases hvu : v = u
      · rw [hvu, Function.update_self]
      · rw [Function.update_of_ne hvu]
        exact h.deletes b v hold
    · rw [ReplOp.delete.inj (mem_fanout.mp hnew).right, Function.update_self]
  · intro b hb v
    by_cases hvu : v = u
    · unfold Explained
      rw [hmsgs]
      subst hvu
      by_cases hba : b = a
      · left
        rw [hba, hself, Table.lookup_erase_if, if_pos rfl, Function.update_self]
      · right
        left
        exact List.mem_append_right _
          (mem_fanout.mpr ⟨(h.wired a ha).left b hb hba, rfl⟩)
    · have hsame : ((s.deleteUser a u).users b).lookup v = (s.users b).lookup v := by
        by_cases hba : b = a
        · rw [hba, hself, Table.lookup_erase_if, if_neg hvu]
        · rw [hother b hba]
      apply (h.tables b hb v).carry hsame (Function.update_of_ne hvu _ _)
      intro op _ hop
      rw [hmsgs]
      exact List.mem_append_left _ hop
  · intro b users husers r' hr
    rw [Function.update_of_ne (hsnapshots _ husers r' hr)]
    exact h.snapshots b users husers r' hr

/-- Deleting an unknown name leaves every table as it was. -/
theorem tracks_missing (h : Tracks members ledger s) {a u : String}
    (hmissing : (s.users a).lookup u = none) : Tracks members ledger (s.deleteUser a u) := by
  have hmsgs : (s.deleteUser a u).inFlight = s.inFlight := by
    show s.inFlight ++ ((s.node a).deleteUser noFaults u).2.2 = _
    rw [deleteUser_missing rfl hmissing, List.append_nil]
  have hsame : forall b v, ((s.deleteUser a u).users b).lookup v =
      (s.users b).lookup v := by
    intro b v
    show ((s.setNode a ((s.node a).deleteUser noFaults u).1).users b).lookup v = _
    by_cases hba : b = a
    · rw [hba, Net.users_setNode_self, deleteUser_users, Table.lookup_erase_if]
      by_cases hvu : v = u
      · rw [if_pos hvu, hvu, hmissing]
      · rw [if_neg hvu]
        rfl
    · rw [Net.users_setNode_of_ne s _ hba]
  constructor
  · exact Net.wired_setNode h.wired a (deleteUser_peers u)
  · intro b r hr
    rw [hmsgs] at hr
    exact h.upserts b r hr
  · intro b v hv
    rw [hmsgs] at hv
    exact h.deletes b v hv
  · intro b hb v
    unfold Explained
    rw [hmsgs, hsame]
    exact h.tables b hb v
  · exact h.snapshots

/-!
## Deliveries
-/

/-- A message that is not the delivered one still explains its node. -/
theorem explained_rest {a u b : String} {i : Nat} {op : ReplOp}
    (hi : s.inFlight[i]? = some (b, op)) (hne : a ≠ b ∨ u ≠ op.username)
    {t : Net} (hmsgs : t.inFlight = s.inFlight.eraseIdx i)
    (hlookup : (t.users a).lookup u = (s.users a).lookup u)
    (h : Explained ledger s a u) : Explained ledger t a u := by
  apply h.carry hlookup rfl
  intro op' hu hmem
  rw [hmsgs]
  apply mem_eraseIdx_of_ne hi hmem
  intro heq
  rcases Prod.mk.inj heq with ⟨hab, hop⟩
  rcases hne with hdest | hname
  · exact hdest hab
  · exact hname (by rw [← hu, hop])

/-- The row that a delivery leaves is the one in the ledger. -/
theorem tracks_deliver (h : Tracks members ledger s) {i : Nat} {b : String} {op : ReplOp}
    (hi : s.inFlight[i]? = some (b, op)) : Tracks members ledger (s.deliver i b op) := by
  have hmem : (b, op) ∈ s.inFlight := List.mem_of_getElem? hi
  have hmsgs : (s.deliver i b op).inFlight = s.inFlight.eraseIdx i := rfl
  have hother : forall a, a ≠ b -> (s.deliver i b op).users a = s.users a := by
    intro a ha
    exact Net.users_setNode_of_ne s _ ha
  have hself : forall u, ((s.deliver i b op).users b).lookup u =
      if u = op.username then ledger u else (s.users b).lookup u := by
    intro u
    show ((s.setNode b ((s.node b).replicate noFaults op).1).users b).lookup u = _
    rw [Net.users_setNode_self]
    cases op with
    | upsert r =>
        show ((s.users b).insert r.username r).lookup u =
          if u = r.username then ledger u else (s.users b).lookup u
        rw [Table.lookup_insert_if]
        by_cases hu : u = r.username
        · rw [if_pos hu, if_pos hu, hu, h.upserts b r hmem]
        · rw [if_neg hu, if_neg hu]
    | delete v =>
        show ((s.users b).erase v).lookup u =
          if u = v then ledger u else (s.users b).lookup u
        rw [Table.lookup_erase_if]
        by_cases hu : u = v
        · rw [if_pos hu, if_pos hu, hu, h.deletes b v hmem]
        · rw [if_neg hu, if_neg hu]
  constructor
  · apply Net.wired_setNode h.wired b
    cases op with
    | upsert r => rfl
    | delete v => rfl
  · intro a r hr
    exact h.upserts a r (List.mem_of_mem_eraseIdx hr)
  · intro a u hu
    exact h.deletes a u (List.mem_of_mem_eraseIdx hu)
  · intro a ha u
    by_cases hab : a = b
    · subst hab
      by_cases hu : u = op.username
      · left
        rw [hself, if_pos hu]
      · apply explained_rest hi (Or.inr hu) hmsgs _ (h.tables a ha u)
        rw [hself, if_neg hu]
    · apply explained_rest hi (Or.inl hab) hmsgs _ (h.tables a ha u)
      rw [hother a hab]
  · exact h.snapshots

/-!
## Snapshots
-/

theorem takeSnapshot_eq (s : Net) (a peer : String) :
    s.takeSnapshot a peer =
      { s with snapshots := s.snapshots ++ [(a, (s.node peer).db.listUsers)] } := rfl

theorem tracks_takeSnapshot (h : Tracks members ledger s) {a peer : String}
    (hpeer : peer ∈ members)
    (hserial : forall m, m ∈ s.inFlight -> m.1 = peer -> m.2.isUpsert = false ->
      (s.users peer).lookup m.2.username = none) :
    Tracks members ledger (s.takeSnapshot a peer) := by
  rw [takeSnapshot_eq]
  refine ⟨h.wired, h.upserts, h.deletes, h.tables, ?_⟩
  intro b users husers r hr
  rcases List.mem_append.mp husers with hold | hnew
  · exact h.snapshots b users hold r hr
  · rcases Prod.mk.inj (List.mem_singleton.mp hnew) with ⟨_, husers'⟩
    rw [husers'] at hr
    rcases RedbStore.mem_listUsers.mp hr with ⟨u, hlookup⟩
    have hu : r.username = u := (s.node peer).db.keyed u r hlookup
    change (s.users peer).lookup u = some r at hlookup
    rw [hu]
    rcases h.tables peer hpeer u with hagree | hdelete | hupsert
    · rw [← hagree]
      exact hlookup
    · have hnone : (s.users peer).lookup u = none := hserial _ hdelete rfl rfl
      rw [hnone] at hlookup
      cases hlookup
    · rw [hupsert.left] at hlookup
      cases hlookup

theorem tracks_applySnapshot (h : Tracks members ledger s) {i : Nat} {a : String}
    {users : List UserRecord} (hi : s.snapshots[i]? = some (a, users)) :
    Tracks members ledger (s.applySnapshot i a users) := by
  have hmem : (a, users) ∈ s.snapshots := List.mem_of_getElem? hi
  have hself : (s.applySnapshot i a users).users a =
      Table.insertAll UserRecord.username (s.users a) users := by
    show (s.setNode a ((s.node a).applySnapshot noFaults users)).users a = _
    rw [Net.users_setNode_self, applySnapshot_users]
    rfl
  have hother : forall b, b ≠ a -> (s.applySnapshot i a users).users b = s.users b := by
    intro b hb
    exact Net.users_setNode_of_ne s _ hb
  constructor
  · exact Net.wired_setNode h.wired a rfl
  · exact h.upserts
  · exact h.deletes
  · intro b hb u
    have hmsgs : (s.applySnapshot i a users).inFlight = s.inFlight := rfl
    unfold Explained
    rw [hmsgs]
    by_cases hba : b = a
    · rw [hba, hself]
      rw [hba] at hb
      rcases Table.lookup_insertAll_cases UserRecord.username (s.users a) users u with
        hsame | hnew
      · rw [hsame]
        exact h.tables a hb u
      · rcases hnew with ⟨r, hr, hu, hlookup⟩
        left
        rw [hlookup, ← hu]
        exact (h.snapshots a users hmem r hr).symm
    · rw [hother b hba]
      exact h.tables b hb u
  · intro b users' husers
    exact h.snapshots b users' (List.mem_of_mem_eraseIdx husers)

end Steps

/-!
## Runs
-/

/-- The request takes effect as a creation of the name. -/
def Creates (s : Net) (u : String) : Event -> Prop
  | Event.createUser a req _ => req.Accepted (s.node a) ∧ req.username = u
  | _ => False

section Runs

variable {c : Crypto} {members : List String} {s t : Net} {e : Event}

/-- A conflict-free event keeps some ledger, and only creations fill a name. -/
theorem tracks_step {ledger : Ledger} (h : Tracks members ledger s)
    (hserial : Serial s e) (hstep : s.step c members e = some t) :
    exists ledger', Tracks members ledger' t ∧
      forall u, ledger u = none -> ¬ Creates s u e -> ledger' u = none := by
  cases Net.stepped_of_step hstep with
  | createUser a req salt ha =>
      by_cases haccepted : req.Accepted (s.node a)
      · refine ⟨_, tracks_create h ha haccepted (hserial haccepted) salt, ?_⟩
        intro u hu hcreates
        rw [Function.update_of_ne]
        · exact hu
        · intro heq
          exact hcreates ⟨haccepted, heq.symm⟩
      · rw [Net.createUser_rejected c s haccepted]
        exact ⟨ledger, h, fun u hu _ => hu⟩
  | deleteUser a u ha =>
      cases hfound : (s.users a).lookup u with
      | none => exact ⟨ledger, tracks_missing h hfound, fun v hv _ => hv⟩
      | some r =>
          rcases hserial (by rw [hfound]; rfl) with ⟨hupserts, hsnapshots⟩
          refine ⟨_, tracks_delete h ha hfound hupserts hsnapshots, ?_⟩
          intro v hv _
          by_cases hvu : v = u
          · rw [hvu, Function.update_self]
          · rw [Function.update_of_ne hvu]
            exact hv
  | deliver i b op hi => exact ⟨ledger, tracks_deliver h hi, fun u hu _ => hu⟩
  | lose i _ => cases hserial
  | takeSnapshot a peer ha hpeer =>
      have hmember := (h.wired a ha).right peer hpeer
      exact ⟨ledger, tracks_takeSnapshot h hmember hserial, fun u hu _ => hu⟩
  | applySnapshot i a users hi =>
      exact ⟨ledger, tracks_applySnapshot h hi, fun u hu _ => hu⟩

theorem tracks_run {ledger : Ledger} (h : Tracks members ledger s) {es : List Event}
    (hrun : Run (Net.step c members) Serial s es t) :
    exists ledger', Tracks members ledger' t := by
  apply hrun.invariant
  · exact ⟨ledger, h⟩
  · intro s e t hs hserial hstep
    rcases hs with ⟨ledger, hs⟩
    rcases tracks_step hs hserial hstep with ⟨ledger', ht, _⟩
    exact ⟨ledger', ht⟩

/-- With nothing in flight every table is the ledger. -/
theorem lookup_of_quiescent {ledger : Ledger} (h : Tracks members ledger s)
    (hquiet : s.Quiescent) {a : String} (ha : a ∈ members) (u : String) :
    (s.users a).lookup u = ledger u := by
  apply lookup_of_no_message h ha
  intro m hmem
  rw [hquiet.left] at hmem
  cases hmem

/-- All members hold the same users. -/
def Agree (members : List String) (s : Net) : Prop :=
  forall a b, a ∈ members -> b ∈ members -> s.users a = s.users b

/-- A wired cluster at rest whose members hold the same users. -/
structure Settled (members : List String) (s : Net) : Prop where
  wired : s.Wired members
  quiescent : s.Quiescent
  agree : Agree members s

theorem tracks_of_settled (h : Settled members s) :
    exists ledger, Tracks members ledger s := by
  rcases h with ⟨hwired, ⟨hmsgs, hsnaps⟩, hagree⟩
  cases members with
  | nil =>
      refine ⟨fun _ => none, hwired, ?_, ?_, ?_, ?_⟩
      · intro b r hr
        rw [hmsgs] at hr
        cases hr
      · intro b u hu
        rfl
      · intro a ha
        cases ha
      · intro b users husers
        rw [hsnaps] at husers
        cases husers
  | cons m rest =>
      refine ⟨fun u => (s.users m).lookup u, hwired, ?_, ?_, ?_, ?_⟩
      · intro b r hr
        rw [hmsgs] at hr
        cases hr
      · intro b u hu
        rw [hmsgs] at hu
        cases hu
      · intro a ha u
        left
        rw [hagree a m ha List.mem_cons_self]
      · intro b users husers
        rw [hsnaps] at husers
        cases husers

/--
From a settled cluster, every conflict-free run that ends with nothing in
flight ends in agreement, and a deleted user that was not created again is on
no member.
-/
theorem agreement (hsettled : Settled members s) :
    (forall es t, Run (Net.step c members) Serial s es t -> t.Quiescent ->
      Agree members t) ∧
    forall pre post (before after t : Net) (a u : String),
      Run (Net.step c members) Serial s pre before ->
      ((before.users a).lookup u).isSome = true ->
      Serial before (Event.deleteUser a u) ->
      before.step c members (Event.deleteUser a u) = some after ->
      Run (Net.step c members) (fun s e => Serial s e ∧ ¬ Creates s u e) after post t ->
      t.Quiescent ->
      forall b, b ∈ members -> (t.users b).lookup u = none := by
  rcases tracks_of_settled hsettled with ⟨ledger, h⟩
  constructor
  · intro es t hrun hquiet a b ha hb
    rcases tracks_run h hrun with ⟨ledger', ht⟩
    apply Finmap.ext_lookup
    intro u
    rw [lookup_of_quiescent ht hquiet ha, lookup_of_quiescent ht hquiet hb]
  · intro pre post before after t a u hpre hfound hserial hdelete hpost hquiet b hb
    rcases tracks_run h hpre with ⟨ledger₁, hbefore⟩
    have hafter : exists ledger, Tracks members ledger after ∧ ledger u = none := by
      rcases Option.isSome_iff_exists.mp hfound with ⟨r, hr⟩
      rcases hserial hfound with ⟨hupserts, hsnapshots⟩
      cases Net.stepped_of_step hdelete with
      | deleteUser a u ha =>
          exact ⟨_, tracks_delete hbefore ha hr hupserts hsnapshots,
            Function.update_self _ _ _⟩
    have hfinal : exists ledger, Tracks members ledger t ∧ ledger u = none := by
      apply hpost.invariant
      · exact hafter
      · intro s e t hs hmeets hstep
        rcases hs with ⟨ledger, hs, hu⟩
        rcases tracks_step hs hmeets.left hstep with ⟨ledger', ht, hkeep⟩
        exact ⟨ledger', ht, hkeep u hu hmeets.right⟩
    rcases hfinal with ⟨ledger₂, ht, hu⟩
    rw [lookup_of_quiescent ht hquiet hb]
    exact hu

end Runs

/-!
## Two nodes and one name

Conflicting requests, a delete that overtakes a creation, and a snapshot that is
older than a delete each leave two nodes with different users.
-/

namespace Sample

open Api.Sample

def pair : Net :=
  { node := fun a =>
      AppState.start { settings with peers := if a = "a" then ["b"] else ["a"] }
        RedbStore.empty 0
    inFlight := []
    snapshots := [] }

def concurrentCreates : List Event :=
  [Event.createUser "a" (alice "one") "salt", Event.createUser "b" (alice "two") "salt",
   Event.deliver 0, Event.deliver 0]

def overtakenCreate : List Event :=
  [Event.createUser "a" (alice "one") "salt", Event.deleteUser "a" "alice",
   Event.deliver 1, Event.deliver 0]

def staleSnapshot : List Event :=
  [Event.createUser "a" (alice "one") "salt", Event.deliver 0, Event.takeSnapshot "a" "b",
   Event.deleteUser "a" "alice", Event.deliver 0, Event.applySnapshot 0]

/-- The run ends at rest with different users under one name. -/
def clash (es : List Event) : Bool :=
  match exec? (Net.step Crypto.transparent ["a", "b"]) Always pair es with
  | some t =>
      t.inFlight.isEmpty && t.snapshots.isEmpty &&
        decide ((t.users "a").lookup "alice" ≠ (t.users "b").lookup "alice")
  | none => false

theorem settled_pair : Settled ["a", "b"] pair := by
  refine ⟨?_, ⟨rfl, rfl⟩, ?_⟩
  · intro a ha
    rcases List.mem_cons.mp ha with h | h
    · rw [h]
      decide
    · rw [List.mem_singleton.mp h]
      decide
  · intro a b _ _
    rfl

theorem disagreement_of_clash {es : List Event} (hclash : clash es = true) :
    exists t, Run (Net.step Crypto.transparent ["a", "b"]) Always pair es t ∧
      t.Quiescent ∧ ¬ Agree ["a", "b"] t := by
  unfold clash at hclash
  cases hexec : exec? (Net.step Crypto.transparent ["a", "b"]) Always pair es with
  | none => simp [hexec] at hclash
  | some t =>
      rw [hexec] at hclash
      simp only [Bool.and_eq_true, decide_eq_true_eq, List.isEmpty_iff] at hclash
      refine ⟨t, Run.of_exec? hexec, hclash.left, ?_⟩
      intro hagree
      apply hclash.right
      rw [hagree "a" "b" (by decide) (by decide)]

/-- A creation, a snapshot and a deletion at different nodes, one at a time. -/
def lifecycle : List Event :=
  [Event.createUser "a" (alice "one") "salt", Event.deliver 0, Event.takeSnapshot "b" "a",
   Event.applySnapshot 0, Event.deleteUser "b" "alice", Event.deliver 0]

def rests (es : List Event) : Bool :=
  match exec? (Net.step Crypto.transparent ["a", "b"]) Serial pair es with
  | some t => t.inFlight.isEmpty && t.snapshots.isEmpty
  | none => false

theorem rest_of_rests {es : List Event} (hrests : rests es = true) :
    exists t, Run (Net.step Crypto.transparent ["a", "b"]) Serial pair es t ∧
      t.Quiescent := by
  unfold rests at hrests
  cases hexec : exec? (Net.step Crypto.transparent ["a", "b"]) Serial pair es with
  | none => simp [hexec] at hrests
  | some t =>
      rw [hexec] at hrests
      simp only [Bool.and_eq_true, List.isEmpty_iff] at hrests
      exact ⟨t, Run.of_exec? hexec, hrests⟩

end Sample

open Sample

theorem agreement_lifecycle :
    exists t, Run (Net.step Crypto.transparent ["a", "b"]) Serial pair lifecycle t ∧
      t.Quiescent ∧ Agree ["a", "b"] t := by
  have hrests : rests lifecycle = true := by decide +kernel
  rcases rest_of_rests hrests with ⟨t, hrun, hquiet⟩
  exact ⟨t, hrun, hquiet, (agreement settled_pair).left lifecycle t hrun hquiet⟩

theorem agreement_fails :
    Settled ["a", "b"] pair ∧
      forall es, es ∈ [concurrentCreates, overtakenCreate, staleSnapshot] ->
        exists t, Run (Net.step Crypto.transparent ["a", "b"]) Always pair es t ∧
          t.Quiescent ∧ ¬ Agree ["a", "b"] t := by
  refine ⟨settled_pair, ?_⟩
  intro es hes
  apply disagreement_of_clash
  revert es
  decide +kernel

end Cluster
end Ciqada
