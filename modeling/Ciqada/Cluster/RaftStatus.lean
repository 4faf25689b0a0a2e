import Ciqada.Cluster.RaftSnapshot

/-!
# The clients of the replicated router

A try for the handshake lock of a client asks the clock of each node whether the
lock before it has run out, so that nodes which apply the same log can come to
different holders.  What a node may come to is followed as a set; it is a single
answer again once a connection is reported that is not older than any before it.
-/

namespace Ciqada
namespace Cluster

open Foundation Broker

/-- A status without the clock reading in it. -/
structure ClientView where
  id : Id
  online : Bool
  handshaking : Bool
  deriving DecidableEq

namespace ClientStatus

def view (s : ClientStatus) : ClientView :=
  { id := s.id, online := s.online, handshaking := s.handshaking }

end ClientStatus

namespace ClientView

def newer (id : Id) (v : Option ClientView) : Bool :=
  v.any (fun v => decide (v.id ≠ id ∧ id.createTime < v.id.createTime))

def named (id : Id) (v : Option ClientView) : Bool :=
  v.any (fun v => decide (v.id = id))

/-- What a message to a client may make of it; the clock settles an undecided lock. -/
def after (v : Option ClientView) : Message -> List (Option ClientView)
  | Message.handshakeTryLock id =>
      if v.any ClientView.handshaking then [v, some ⟨id, false, true⟩]
      else [some ⟨id, false, true⟩]
  | Message.connected id =>
      if newer id v then [v] else [some ⟨id, true, false⟩]
  | Message.disconnected id =>
      [v.map (fun v => if v.id = id then { v with online := false } else v)]
  | Message.sessionTerminated id => if named id v then [none] else [v]
  | _ => [v]

def next (clientId : String) (vs : List (Option ClientView)) (m : Message) :
    List (Option ClientView) :=
  if m.client = some clientId then vs.flatMap (fun v => after v m) else vs

/-- What the nodes that apply a log may hold for a client. -/
def possible (clientId : String) (ms : List Message) : List (Option ClientView) :=
  ms.foldl (next clientId) [none]

theorem possible_snoc (clientId : String) (ms : List Message) (m : Message) :
    possible clientId (ms ++ [m]) = next clientId (possible clientId ms) m := by
  unfold possible
  rw [List.foldl_append]
  rfl

theorem mem_next {clientId : String} {vs : List (Option ClientView)} {m : Message}
    {v : Option ClientView} :
    v ∈ next clientId vs m <->
      (m.client = some clientId ∧ exists w, w ∈ vs ∧ v ∈ after w m) ∨
        (m.client ≠ some clientId ∧ v ∈ vs) := by
  unfold next
  split
  · next hclient => simp [hclient, List.mem_flatMap]
  · next hclient => simp [hclient]

end ClientView

namespace ClusterRouter

variable {r : ClusterRouter} {now : Int} {clientId : String}

def view (r : ClusterRouter) (clientId : String) : Option ClientView :=
  (r.status clientId).map ClientStatus.view

theorem newer_view (id : Id) (s : Option ClientStatus) :
    ClientView.newer id (s.map ClientStatus.view) = newer id s := by
  cases s with
  | none => rfl
  | some s => rfl

theorem named_view (id : Id) (s : Option ClientStatus) :
    ClientView.named id (s.map ClientStatus.view) = named id s := by
  cases s with
  | none => rfl
  | some s => rfl

theorem handshaking_of_held {tryLockTimeout : Nat} {s : Option ClientStatus}
    (h : held tryLockTimeout now s = true) :
    (s.map ClientStatus.view).any ClientView.handshaking = true := by
  cases s with
  | none => cases h
  | some s => exact (Bool.and_eq_true_iff.mp h).left

/-- Whatever the clock, a message does one of the things it may do. -/
theorem view_statusAfter (tryLockTimeout : Nat) (now : Int) (s : Option ClientStatus)
    (m : Message) :
    (statusAfter tryLockTimeout now s m).map ClientStatus.view ∈
      ClientView.after (s.map ClientStatus.view) m := by
  cases m with
  | handshakeTryLock id =>
      unfold statusAfter ClientView.after
      dsimp only
      by_cases hheld : held tryLockTimeout now s = true
      · rw [if_pos hheld, if_pos (handshaking_of_held hheld)]
        exact List.mem_cons_self
      · rw [if_neg hheld]
        by_cases hhandshaking : (s.map ClientStatus.view).any ClientView.handshaking = true
        · rw [if_pos hhandshaking]
          exact List.mem_cons_of_mem _ List.mem_cons_self
        · rw [if_neg hhandshaking]
          exact List.mem_cons_self
  | connected id =>
      unfold statusAfter ClientView.after
      dsimp only
      rw [newer_view]
      by_cases hnewer : newer id s = true
      · rw [if_pos hnewer, if_pos hnewer]
        exact List.mem_cons_self
      · rw [if_neg hnewer, if_neg hnewer]
        exact List.mem_cons_self
  | disconnected id =>
      unfold statusAfter ClientView.after
      cases s with
      | none => exact List.mem_cons_self
      | some s =>
          rw [List.mem_singleton]
          show some (ClientStatus.view (ite _ _ s)) = some (ite _ _ _)
          rw [apply_ite ClientStatus.view]
          rfl
  | sessionTerminated id =>
      unfold statusAfter ClientView.after
      dsimp only
      rw [named_view]
      by_cases hnamed : named id s = true
      · rw [if_pos hnamed, if_pos hnamed]
        exact List.mem_cons_self
      · rw [if_neg hnamed, if_neg hnamed]
        exact List.mem_cons_self
  | add topicFilter id opts => exact List.mem_cons_self
  | remove topicFilter id => exact List.mem_cons_self
  | getClientNodeId clientId => exact List.mem_cons_self
  | ping => exact List.mem_cons_self

theorem view_apply (r : ClusterRouter) (now : Int) (m : Message) (clientId : String)
    {vs : List (Option ClientView)} (h : r.view clientId ∈ vs) :
    (r.apply now m).1.view clientId ∈ ClientView.next clientId vs m := by
  rw [ClientView.mem_next]
  unfold view
  rw [status_apply]
  split
  · next hclient =>
      exact Or.inl ⟨hclient, _, h, view_statusAfter r.tryLockTimeout now _ m⟩
  · next hclient => exact Or.inr ⟨hclient, h⟩

end ClusterRouter

/-- A node holds for a client what its log makes possible. -/
theorem History.view_possible (c : SnapshotCodec) (h : History) (clientId : String) :
    (h.router c).view clientId ∈ ClientView.possible clientId (h.log c) := by
  induction h with
  | start tryLockTimeout => exact List.mem_cons_self
  | apply h now m ih =>
      show ((h.router c).apply now m).1.view clientId ∈
        ClientView.possible clientId (h.log c ++ [m])
      rw [ClientView.possible_snoc]
      exact ClusterRouter.view_apply _ now m clientId ih
  | install h peer relations clientStates ihh ihpeer =>
      rcases h.install_cases peer relations clientStates h.invariant.left peer.invariant.left with
        ⟨heq, hlog⟩ | ⟨hover, hlog⟩
      · rw [heq, hlog]
        exact ihh
      · rw [hlog]
        unfold ClusterRouter.view ClusterRouter.status
        rw [hover.clientStates]
        exact ihpeer

/-!
## Every possibility is met
-/

namespace ClusterRouter

/-- A lock that is held was taken at the time given. -/
def LockedAt (t : Int) (s : Option ClientStatus) : Prop :=
  forall status, s = some status -> status.handshaking = true -> status.handshakDuration = t

/-- A clock that stands still keeps a lock, and one that waits for its end loses it. -/
theorem statusAfter_meets {tryLockTimeout : Nat} (htimeout : 0 < tryLockTimeout) {t : Int}
    {s : Option ClientStatus} (hs : LockedAt t s) {m : Message} {v : Option ClientView}
    (hv : v ∈ ClientView.after (s.map ClientStatus.view) m) :
    exists t', t ≤ t' ∧ (statusAfter tryLockTimeout t' s m).map ClientStatus.view = v ∧
      LockedAt t' (statusAfter tryLockTimeout t' s m) := by
  have hsame : s.map ClientStatus.view = v -> statusAfter tryLockTimeout t s m = s ->
      exists t', t ≤ t' ∧ (statusAfter tryLockTimeout t' s m).map ClientStatus.view = v ∧
        LockedAt t' (statusAfter tryLockTimeout t' s m) := by
    intro heq hkeep
    refine ⟨t, le_refl t, ?_, ?_⟩
    · rw [hkeep]
      exact heq
    · rw [hkeep]
      exact hs
  cases m with
  | handshakeTryLock id =>
      have htaken : forall t', t ≤ t' -> held tryLockTimeout t' s = false ->
          v = some ⟨id, false, true⟩ ->
          exists t', t ≤ t' ∧ (statusAfter tryLockTimeout t' s
              (Message.handshakeTryLock id)).map ClientStatus.view = v ∧
            LockedAt t' (statusAfter tryLockTimeout t' s (Message.handshakeTryLock id)) := by
        intro t' ht hfree hvnew
        have hnew : statusAfter tryLockTimeout t' s (Message.handshakeTryLock id) =
            some (ClientStatus.new t' id false true) :=
          if_neg (by rw [hfree]; exact Bool.false_ne_true)
        rw [hvnew]
        refine ⟨t', ht, by rw [hnew]; rfl, ?_⟩
        intro status hstatus _
        rw [hnew] at hstatus
        rw [← Option.some.inj hstatus]
        rfl
      unfold ClientView.after at hv
      dsimp only at hv
      cases s with
      | none =>
          rw [if_neg (by exact Bool.false_ne_true), List.mem_singleton] at hv
          exact htaken t (le_refl t) rfl hv
      | some status =>
          cases hhandshaking : status.handshaking with
          | false =>
              have hfree : forall t', held tryLockTimeout t' (some status) = false := by
                intro t'
                show (status.handshaking && _) = false
                rw [hhandshaking]
                rfl
              rw [if_neg (by
                show ¬ status.handshaking = true
                rw [hhandshaking]
                exact Bool.false_ne_true), List.mem_singleton] at hv
              exact htaken t (le_refl t) (hfree t) hv
          | true =>
              have hstart := hs status rfl hhandshaking
              have hany : ((some status).map ClientStatus.view).any ClientView.handshaking =
                  true := hhandshaking
              rw [if_pos hany, List.mem_cons, List.mem_singleton] at hv
              rcases hv with hkept | htook
              · apply hsame hkept.symm
                apply if_pos
                show (status.handshaking && decide _) = true
                rw [hhandshaking, Bool.true_and, decide_eq_true_iff]
                omega
              · apply htaken (t + tryLockTimeout) (by omega) _ htook
                show (status.handshaking && decide _) = false
                rw [hhandshaking, Bool.true_and, decide_eq_false_iff_not]
                omega
  | connected id =>
      unfold ClientView.after at hv
      dsimp only at hv
      rw [newer_view] at hv
      by_cases hnewer : newer id s = true
      · rw [if_pos hnewer, List.mem_singleton] at hv
        exact hsame hv.symm (if_pos hnewer)
      · rw [if_neg hnewer, List.mem_singleton] at hv
        have hnew : statusAfter tryLockTimeout t s (Message.connected id) = some _ :=
          if_neg hnewer
        rw [hv]
        refine ⟨t, le_refl t, by rw [hnew]; rfl, ?_⟩
        intro status hstatus hlocked
        rw [hnew] at hstatus
        rw [← Option.some.inj hstatus] at hlocked
        cases hlocked
  | disconnected id =>
      refine ⟨t, le_refl t, ?_, ?_⟩
      · rw [List.mem_singleton.mp hv]
        cases s with
        | none => rfl
        | some status =>
            show some (ClientStatus.view (ite _ _ status)) = some (ite _ _ _)
            rw [apply_ite ClientStatus.view]
            rfl
      · intro status hstatus hlocked
        cases s with
        | none => cases hstatus
        | some old =>
            have heq := Option.some.inj hstatus
            dsimp only at heq
            split at heq
            · rw [← heq] at hlocked ⊢
              exact hs old rfl hlocked
            · rw [← heq] at hlocked ⊢
              exact hs old rfl hlocked
  | sessionTerminated id =>
      unfold ClientView.after at hv
      dsimp only at hv
      rw [named_view] at hv
      by_cases hnamed : named id s = true
      · rw [if_pos hnamed, List.mem_singleton] at hv
        have hnone : statusAfter tryLockTimeout t s (Message.sessionTerminated id) = none :=
          if_pos hnamed
        refine ⟨t, le_refl t, by rw [hnone, hv]; rfl, ?_⟩
        intro status hstatus
        rw [hnone] at hstatus
        cases hstatus
      · rw [if_neg hnamed, List.mem_singleton] at hv
        exact hsame hv.symm (if_neg hnamed)
  | add topicFilter id opts => exact hsame (List.mem_singleton.mp hv).symm rfl
  | remove topicFilter id => exact hsame (List.mem_singleton.mp hv).symm rfl
  | getClientNodeId clientId => exact hsame (List.mem_singleton.mp hv).symm rfl
  | ping => exact hsame (List.mem_singleton.mp hv).symm rfl

theorem applyAll_snoc (r : ClusterRouter) (timed : List (Int × Message)) (t : Int) (m : Message) :
    r.applyAll (timed ++ [(t, m)]) = ((r.applyAll timed).apply t m).1 := by
  unfold applyAll
  rw [List.foldl_append]
  rfl

theorem applyAll_tryLockTimeout (r : ClusterRouter) (timed : List (Int × Message)) :
    (r.applyAll timed).tryLockTimeout = r.tryLockTimeout := by
  induction timed generalizing r with
  | nil => rfl
  | cons m timed ih =>
      show ((r.apply m.1 m.2).1.applyAll timed).tryLockTimeout = _
      rw [ih, apply_tryLockTimeout]

end ClusterRouter

/-- The messages of a log at readings of a clock that does not go back. -/
structure Timed (ms : List Message) (timed : List (Int × Message)) : Prop where
  messages : timed.map Prod.snd = ms
  forward : (timed.map Prod.fst).Pairwise (fun t t' => t ≤ t')

theorem Timed.snoc {ms : List Message} {timed : List (Int × Message)} (h : Timed ms timed)
    {t : Int} (ht : forall m, m ∈ timed -> m.1 ≤ t) (m : Message) :
    Timed (ms ++ [m]) (timed ++ [(t, m)]) := by
  constructor
  case messages =>
    rw [List.map_append, h.messages]
    rfl
  case forward =>
    rw [List.map_append, List.pairwise_append]
    refine ⟨h.forward, List.pairwise_singleton _ _, ?_⟩
    intro x hx y hy
    rcases List.mem_map.mp hx with ⟨m', hm', rfl⟩
    rw [List.mem_singleton.mp hy]
    exact ht m' hm'

/-- Some clock leads to each possibility. -/
theorem ClientView.met {tryLockTimeout : Nat} (htimeout : 0 < tryLockTimeout)
    (clientId : String) (ms : List Message) {v : Option ClientView}
    (hv : v ∈ ClientView.possible clientId ms) :
    exists timed t, Timed ms timed ∧ (forall m, m ∈ timed -> m.1 ≤ t) ∧
      (((ClusterRouter.new tryLockTimeout).applyAll timed).view clientId = v) ∧
      ClusterRouter.LockedAt t
        (((ClusterRouter.new tryLockTimeout).applyAll timed).status clientId) := by
  induction ms using List.reverseRecOn generalizing v with
  | nil =>
      rw [List.mem_singleton.mp hv]
      exact ⟨[], 0, ⟨rfl, List.Pairwise.nil⟩, nofun, rfl, nofun⟩
  | append_singleton ms m ih =>
      rw [ClientView.possible_snoc, ClientView.mem_next] at hv
      rcases hv with ⟨hclient, w, hw, hafter⟩ | ⟨hclient, hv⟩
      · rcases ih hw with ⟨timed, t, htimed, hlast, hview, hlocked⟩
        rw [← hview] at hafter
        rcases ClusterRouter.statusAfter_meets htimeout hlocked hafter with
          ⟨t', ht', hview', hlocked'⟩
        have hlast' : forall m, m ∈ timed -> m.1 ≤ t' := fun m hm => (hlast m hm).trans ht'
        have hstatus := ClusterRouter.status_apply
          ((ClusterRouter.new tryLockTimeout).applyAll timed) t' m clientId
        rw [if_pos hclient, ClusterRouter.applyAll_tryLockTimeout] at hstatus
        refine ⟨timed ++ [(t', m)], t', htimed.snoc hlast' m, ?_, ?_, ?_⟩
        · intro x hx
          rcases List.mem_append.mp hx with hold | hnew
          · exact hlast' x hold
          · rw [List.mem_singleton.mp hnew]
        · rw [ClusterRouter.applyAll_snoc]
          unfold ClusterRouter.view
          rw [hstatus]
          exact hview'
        · rw [ClusterRouter.applyAll_snoc, hstatus]
          exact hlocked'
      · rcases ih hv with ⟨timed, t, htimed, hlast, hview, hlocked⟩
        have hstatus := ClusterRouter.status_apply
          ((ClusterRouter.new tryLockTimeout).applyAll timed) t m clientId
        rw [if_neg hclient] at hstatus
        refine ⟨timed ++ [(t, m)], t, htimed.snoc hlast m, ?_, ?_, ?_⟩
        · intro x hx
          rcases List.mem_append.mp hx with hold | hnew
          · exact hlast x hold
          · rw [List.mem_singleton.mp hnew]
        · rw [ClusterRouter.applyAll_snoc]
          unfold ClusterRouter.view
          rw [hstatus]
          exact hview
        · rw [ClusterRouter.applyAll_snoc, hstatus]
          exact hlocked

/--
What the nodes of one log can hold for a client is exactly what the log makes
possible: no snapshot and no clock leads elsewhere, and clocks that only go forward
lead to each possibility.
-/
theorem ClientView.possible_exact (c : SnapshotCodec) (clientId : String) :
    (forall h : History, (h.router c).view clientId ∈ possible clientId (h.log c)) ∧
      forall ms v, v ∈ possible clientId ms -> forall tryLockTimeout, 0 < tryLockTimeout ->
        exists timed, Timed ms timed ∧
          ((ClusterRouter.new tryLockTimeout).applyAll timed).view clientId = v := by
  constructor
  · intro h
    exact h.view_possible c clientId
  · intro ms v hv tryLockTimeout htimeout
    rcases met htimeout clientId ms hv with ⟨timed, _t, htimed, _hlast, hview, _hlocked⟩
    exact ⟨timed, htimed, hview⟩

/-- Two nodes with one log, and two holders. -/
theorem ClientView.possible_exact_sample :
    exists timed timed',
      Timed [Message.handshakeTryLock ⟨1, "c", none, 0⟩,
        Message.handshakeTryLock ⟨2, "c", none, 0⟩] timed ∧
      Timed [Message.handshakeTryLock ⟨1, "c", none, 0⟩,
        Message.handshakeTryLock ⟨2, "c", none, 0⟩] timed' ∧
      ((ClusterRouter.new 10).applyAll timed).view "c" ≠
        ((ClusterRouter.new 10).applyAll timed').view "c" := by
  have hmeets := (possible_exact sampleCodec "c").right
    [Message.handshakeTryLock ⟨1, "c", none, 0⟩, Message.handshakeTryLock ⟨2, "c", none, 0⟩]
  rcases hmeets (some ⟨⟨1, "c", none, 0⟩, false, true⟩) (by decide) 10 (by decide) with
    ⟨timed, htimed, hview⟩
  rcases hmeets (some ⟨⟨2, "c", none, 0⟩, false, true⟩) (by decide) 10 (by decide) with
    ⟨timed', htimed', hview'⟩
  refine ⟨timed, timed', htimed, htimed', ?_⟩
  rw [hview, hview']
  decide

/-!
## A connection keeps its client
-/

/-- The connection that a message puts in charge of a client. -/
def Message.claims : Message -> Option Id
  | Message.handshakeTryLock id => some id
  | Message.connected id => some id
  | _ => none

/-- A message that may take the client from the connection. -/
def Message.Unseats (id : Id) : Message -> Prop
  | Message.handshakeTryLock id' => id'.clientId = id.clientId
  | Message.connected id' =>
      id'.clientId = id.clientId ∧ id' ≠ id ∧ id.createTime ≤ id'.createTime
  | Message.disconnected id' => id' = id
  | Message.sessionTerminated id' => id' = id
  | _ => False

namespace ClientView

variable {clientId : String} {ms : List Message} {v : Option ClientView}

/-- A client is only ever with a connection that the log has put in charge of it. -/
theorem claimed (hv : v ∈ possible clientId ms) {w : ClientView} (hw : v = some w) :
    exists m, m ∈ ms ∧ m.claims = some w.id ∧ w.id.clientId = clientId := by
  induction ms using List.reverseRecOn generalizing v w with
  | nil =>
      rw [List.mem_singleton.mp hv] at hw
      cases hw
  | append_singleton ms m ih =>
      have hold {v : Option ClientView} {w : ClientView} (hv : v ∈ possible clientId ms)
          (hw : v = some w) :
          exists m', m' ∈ ms ++ [m] ∧ m'.claims = some w.id ∧ w.id.clientId = clientId := by
        rcases ih hv hw with ⟨m', hm', hclaims, hclient⟩
        exact ⟨m', List.mem_append_left _ hm', hclaims, hclient⟩
      have hlast : m ∈ ms ++ [m] := List.mem_append_right _ List.mem_cons_self
      rw [possible_snoc, mem_next] at hv
      rcases hv with ⟨hclient, u, hu, hafter⟩ | ⟨_hclient, hv⟩
      · cases m with
        | handshakeTryLock id =>
            have hnew : v = some ⟨id, false, true⟩ ->
                exists m', m' ∈ ms ++ [Message.handshakeTryLock id] ∧
                  m'.claims = some w.id ∧ w.id.clientId = clientId := by
              intro heq
              rw [hw] at heq
              rw [Option.some.inj heq]
              exact ⟨_, hlast, rfl, Option.some.inj hclient⟩
            unfold after at hafter
            dsimp only at hafter
            split at hafter
            · rcases List.mem_cons.mp hafter with hsame | htook
              · exact hold hu (hsame.symm.trans hw)
              · exact hnew (List.mem_singleton.mp htook)
            · exact hnew (List.mem_singleton.mp hafter)
        | connected id =>
            unfold after at hafter
            dsimp only at hafter
            split at hafter
            · exact hold hu ((List.mem_singleton.mp hafter).symm.trans hw)
            · rw [hw, List.mem_singleton] at hafter
              rw [Option.some.inj hafter]
              exact ⟨_, hlast, rfl, Option.some.inj hclient⟩
        | disconnected id =>
            rw [hw] at hafter
            cases u with
            | none =>
                cases List.mem_singleton.mp hafter
            | some old =>
                have heq := Option.some.inj (List.mem_singleton.mp hafter)
                have hid : w.id = old.id := by
                  rw [heq]
                  exact (apply_ite ClientView.id _ _ _).trans (ite_self _)
                rw [hid]
                exact hold hu rfl
        | sessionTerminated id =>
            unfold after at hafter
            dsimp only at hafter
            split at hafter
            · rw [hw] at hafter
              cases List.mem_singleton.mp hafter
            · exact hold hu ((List.mem_singleton.mp hafter).symm.trans hw)
        | add topicFilter id opts => cases hclient
        | remove topicFilter id => cases hclient
        | getClientNodeId clientId => cases hclient
        | ping => cases hclient
      · exact hold hv hw

/-- A message that does not unseat a connection leaves its client with it. -/
theorem kept_next {id : Id} {m : Message} (hm : ¬ m.Unseats id)
    (hv : v ∈ next id.clientId [some ⟨id, true, false⟩] m) : v = some ⟨id, true, false⟩ := by
  rcases mem_next.mp hv with ⟨hclient, u, hu, hafter⟩ | ⟨_hclient, hv⟩
  · rw [List.mem_singleton.mp hu] at hafter
    cases m with
    | handshakeTryLock id' => exact absurd (Option.some.inj hclient) hm
    | connected id' =>
        have hsame := Option.some.inj hclient
        unfold after at hafter
        dsimp only at hafter
        split at hafter
        · exact List.mem_singleton.mp hafter
        · next hnewer =>
            rw [List.mem_singleton.mp hafter]
            by_cases hid : id' = id
            · rw [hid]
            · exfalso
              apply hm
              refine ⟨hsame, hid, Nat.le_of_not_lt ?_⟩
              intro hlt
              exact hnewer (decide_eq_true ⟨Ne.symm hid, hlt⟩)
    | disconnected id' =>
        rw [List.mem_singleton.mp hafter]
        show some (ite (id = id') _ _) = _
        rw [if_neg (fun h => hm h.symm)]
    | sessionTerminated id' =>
        unfold after at hafter
        dsimp only at hafter
        split at hafter
        · next hnamed => exact absurd (of_decide_eq_true hnamed).symm hm
        · exact List.mem_singleton.mp hafter
    | add topicFilter id' opts => cases hclient
    | remove topicFilter id' => cases hclient
    | getClientNodeId clientId => cases hclient
    | ping => cases hclient
  · exact List.mem_singleton.mp hv

theorem kept {id : Id} {vs : List (Option ClientView)}
    (hvs : forall v, v ∈ vs -> v = some ⟨id, true, false⟩) {ms : List Message}
    (hms : forall m, m ∈ ms -> ¬ m.Unseats id) :
    forall v, v ∈ ms.foldl (next id.clientId) vs -> v = some ⟨id, true, false⟩ := by
  induction ms generalizing vs with
  | nil => exact hvs
  | cons m ms ih =>
      apply ih
      · intro v hv
        apply kept_next (hms m List.mem_cons_self)
        rcases mem_next.mp hv with ⟨hclient, u, hu, hafter⟩ | ⟨hclient, hv⟩
        · rw [hvs u hu] at hafter
          exact mem_next.mpr (Or.inl ⟨hclient, _, List.mem_singleton_self _, hafter⟩)
        · rw [hvs v hv]
          exact mem_next.mpr (Or.inr ⟨hclient, List.mem_singleton_self _⟩)
      · intro m' hm'
        exact hms m' (List.mem_cons_of_mem m hm')

end ClientView

/--
Once a connection is reported that is not older than any before it, every node has
the client online with that connection, until the connection ends, another client
try for the lock comes, or a connection that is not older is reported.
-/
theorem History.connected_exact (c : SnapshotCodec) (h : History) {before later : List Message}
    {id : Id} (hlog : h.log c = before ++ Message.connected id :: later)
    (hnewest : forall m id', m ∈ before -> m.claims = some id' -> id'.clientId = id.clientId ->
      id'.createTime ≤ id.createTime)
    (hlater : forall m, m ∈ later -> ¬ m.Unseats id) :
    (h.router c).view id.clientId = some ⟨id, true, false⟩ ∧
      (h.router c).isOnline id.clientId = true ∧
      (h.router c).clientNodeId id.clientId = some id.nodeId := by
  have hsettled : forall v, v ∈ ClientView.next id.clientId
      (ClientView.possible id.clientId before) (Message.connected id) ->
        v = some ⟨id, true, false⟩ := by
    intro v hv
    rcases ClientView.mem_next.mp hv with ⟨_hclient, u, hu, hafter⟩ | ⟨hclient, _hv⟩
    · unfold ClientView.after at hafter
      dsimp only at hafter
      split at hafter
      · next hnewer =>
          exfalso
          cases u with
          | none => cases hnewer
          | some w =>
              rcases ClientView.claimed hu rfl with ⟨m, hm, hclaims, hclient⟩
              have hlt := (of_decide_eq_true hnewer).right
              exact Nat.not_lt_of_le (hnewest m w.id hm hclaims hclient) hlt
      · exact List.mem_singleton.mp hafter
    · exact absurd rfl hclient
  have hview : (h.router c).view id.clientId = some ⟨id, true, false⟩ := by
    apply ClientView.kept hsettled hlater
    have hpossible := h.view_possible c id.clientId
    rw [hlog] at hpossible
    unfold ClientView.possible at hpossible
    rw [List.foldl_append, List.foldl_cons] at hpossible
    exact hpossible
  refine ⟨hview, ?_, ?_⟩
  · unfold ClusterRouter.view at hview
    unfold ClusterRouter.isOnline
    cases hs : (h.router c).status id.clientId with
    | none =>
        rw [hs] at hview
        cases hview
    | some s =>
        rw [hs] at hview
        exact congrArg ClientView.online (Option.some.inj hview)
  · unfold ClusterRouter.view at hview
    unfold ClusterRouter.clientNodeId
    cases hs : (h.router c).status id.clientId with
    | none =>
        rw [hs] at hview
        cases hview
    | some s =>
        rw [hs] at hview
        exact congrArg some (congrArg (fun v => v.id.nodeId) (Option.some.inj hview))

/-- Connected, and later an older connection ends. -/
def sampleHistory : History :=
  ((History.start 10).apply 0 (Message.connected ⟨1, "c", none, 5⟩)).apply 3
    (Message.disconnected ⟨2, "c", none, 4⟩)

theorem connected_exact_sample : (sampleHistory.router sampleCodec).isOnline "c" = true := by
  have hlater : forall m, m ∈ [Message.disconnected ⟨2, "c", none, 4⟩] ->
      ¬ m.Unseats ⟨1, "c", none, 5⟩ := by
    intro m hm
    rw [List.mem_singleton.mp hm]
    exact (by decide : (⟨2, "c", none, 4⟩ : Id) ≠ ⟨1, "c", none, 5⟩)
  exact (@History.connected_exact sampleCodec sampleHistory []
    [Message.disconnected ⟨2, "c", none, 4⟩] ⟨1, "c", none, 5⟩ rfl nofun hlater).right.left

/-!
## The handshake lock
-/

/-- The lock was given to the one who asked. -/
def Applied.granted : Applied -> Bool
  | Applied.reply (MessageReply.handshakeTryLock _) => true
  | _ => false

/-- A message that may end the handshake of a client. -/
def Message.releases (clientId : String) : Message -> Bool
  | Message.connected id => decide (id.clientId = clientId)
  | Message.sessionTerminated id => decide (id.clientId = clientId)
  | _ => false

/-- Another try for the lock of a client. -/
def Message.tries (clientId : String) : Message -> Bool
  | Message.handshakeTryLock id => decide (id.clientId = clientId)
  | _ => false

namespace ClusterRouter

variable {r : ClusterRouter} {clientId : String}

/-- The answer to a try for the lock, and the status that a granted try leaves. -/
theorem handshakeTryLock_cases (r : ClusterRouter) (now : Int) (id : Id) :
    (held r.tryLockTimeout now (r.status id.clientId) = true ∧
        r.apply now (Message.handshakeTryLock id) =
          (r, Applied.reply (MessageReply.error "Handshake try lock failed"))) ∨
      (held r.tryLockTimeout now (r.status id.clientId) = false ∧
        r.apply now (Message.handshakeTryLock id) =
          (r.setStatus (ClientStatus.new now id false true) id.clientId,
            Applied.reply (MessageReply.handshakeTryLock
              ((r.status id.clientId).map ClientStatus.id)))) := by
  show (_ ∧ r.handshakeTryLock now id = _) ∨ (_ ∧ r.handshakeTryLock now id = _)
  unfold handshakeTryLock held
  cases r.status id.clientId with
  | none => exact Or.inr ⟨rfl, rfl⟩
  | some s =>
      cases hheld : s.isHandshaking r.tryLockTimeout now with
      | true => exact Or.inl ⟨hheld, if_pos hheld⟩
      | false => exact Or.inr ⟨hheld, if_neg (by rw [hheld]; exact Bool.false_ne_true)⟩

/-- The lock of a client is taken, and was taken at some time from the one given on. -/
def LockedSince (t : Int) (clientId : String) (r : ClusterRouter) : Prop :=
  exists s, r.status clientId = some s ∧ s.handshaking = true ∧ t ≤ s.handshakDuration

theorem LockedSince.apply {t : Int} (h : r.LockedSince t clientId) {now : Int} {m : Message}
    (hm : m.releases clientId = false) : (r.apply now m).1.LockedSince t clientId := by
  rcases h with ⟨s, hs, hhandshaking, hstart⟩
  unfold LockedSince
  rw [status_apply, hs]
  split
  · next hclient =>
      cases m with
      | handshakeTryLock id =>
          unfold statusAfter held
          dsimp only
          split
          · exact ⟨s, rfl, hhandshaking, hstart⟩
          · next hfree =>
              refine ⟨_, rfl, rfl, ?_⟩
              have hlate : ¬ now < s.handshakDuration + r.tryLockTimeout := by
                intro hlt
                apply hfree
                show (s.handshaking && decide _) = true
                rw [hhandshaking, decide_eq_true hlt]
                rfl
              show t ≤ now
              omega
      | connected id => exact absurd (Option.some.inj hclient) (of_decide_eq_false hm)
      | disconnected id =>
          refine ⟨_, rfl, ?_, ?_⟩
          · rw [apply_ite ClientStatus.handshaking]
            exact (ite_self _).trans hhandshaking
          · rw [apply_ite ClientStatus.handshakDuration]
            exact le_of_le_of_eq hstart (ite_self _).symm
      | sessionTerminated id => exact absurd (Option.some.inj hclient) (of_decide_eq_false hm)
      | add topicFilter id opts => cases hclient
      | remove topicFilter id => cases hclient
      | getClientNodeId clientId => cases hclient
      | ping => cases hclient
  · exact ⟨s, rfl, hhandshaking, hstart⟩

theorem LockedSince.applyAll {t : Int} (h : r.LockedSince t clientId)
    {timed : List (Int × Message)}
    (htimed : forall m, m ∈ timed -> m.2.releases clientId = false) :
    (r.applyAll timed).LockedSince t clientId := by
  induction timed generalizing r with
  | nil => exact h
  | cons m timed ih =>
      exact ih (h.apply (htimed m List.mem_cons_self))
        (fun m' hm' => htimed m' (List.mem_cons_of_mem m hm'))

/-- Without another try the lock stays with the connection that took it. -/
theorem status_untried {t : Int} {id : Id}
    (h : r.status id.clientId = some (ClientStatus.new t id false true))
    {timed : List (Int × Message)}
    (hrelease : forall m, m ∈ timed -> m.2.releases id.clientId = false)
    (htry : forall m, m ∈ timed -> m.2.tries id.clientId = false) :
    (r.applyAll timed).status id.clientId = some (ClientStatus.new t id false true) := by
  induction timed generalizing r with
  | nil => exact h
  | cons m timed ih =>
      rcases m with ⟨now, m⟩
      have hm := hrelease _ List.mem_cons_self
      have hm' := htry _ List.mem_cons_self
      dsimp only at hm hm'
      apply ih _ (fun m' h' => hrelease m' (List.mem_cons_of_mem _ h'))
        (fun m' h' => htry m' (List.mem_cons_of_mem _ h'))
      rw [status_apply, h]
      split
      · next hclient =>
          cases m with
          | handshakeTryLock id' => exact absurd (Option.some.inj hclient) (of_decide_eq_false hm')
          | connected id' => exact absurd (Option.some.inj hclient) (of_decide_eq_false hm)
          | disconnected id' => exact congrArg some ((ite_eq_right_iff.mpr (fun _ => rfl)))
          | sessionTerminated id' =>
              exact absurd (Option.some.inj hclient) (of_decide_eq_false hm)
          | add topicFilter id' opts => cases hclient
          | remove topicFilter id' => cases hclient
          | getClientNodeId clientId => cases hclient
          | ping => cases hclient
      · rfl

/--
As long as no connection is reported and no session ends, the lock of a client is
given to two tries only when the second comes a whole timeout after the first.  If
there was no try between them it is given then, and the reply names the first.
-/
theorem handshake_exact (r : ClusterRouter) {t t' : Int} {id id' : Id}
    {between : List (Int × Message)} (hclient : id'.clientId = id.clientId)
    (hgranted : (r.apply t (Message.handshakeTryLock id)).2.granted = true)
    (hrelease : forall m, m ∈ between -> m.2.releases id.clientId = false) :
    ((((r.apply t (Message.handshakeTryLock id)).1.applyAll between).apply t'
        (Message.handshakeTryLock id')).2.granted = true -> t + r.tryLockTimeout ≤ t') ∧
      ((forall m, m ∈ between -> m.2.tries id.clientId = false) ->
        (((r.apply t (Message.handshakeTryLock id)).1.applyAll between).apply t'
            (Message.handshakeTryLock id')).2 =
          if t + r.tryLockTimeout ≤ t' then
            Applied.reply (MessageReply.handshakeTryLock (some id))
          else Applied.reply (MessageReply.error "Handshake try lock failed")) := by
  rcases r.handshakeTryLock_cases t id with ⟨_hheld, heq⟩ | ⟨_hfree, heq⟩
  · rw [heq] at hgranted
    cases hgranted
  have hstatus : (r.setStatus (ClientStatus.new t id false true) id.clientId).status id.clientId =
      some (ClientStatus.new t id false true) := by
    rw [status_setStatus, if_pos rfl]
  rw [heq]
  dsimp only
  have htimeout : ((r.setStatus (ClientStatus.new t id false true) id.clientId).applyAll
      between).tryLockTimeout = r.tryLockTimeout := by
    rw [applyAll_tryLockTimeout, setStatus_tryLockTimeout]
  rcases handshakeTryLock_cases ((r.setStatus (ClientStatus.new t id false true)
    id.clientId).applyAll between) t' id' with ⟨hheld, hanswer⟩ | ⟨hfree, hanswer⟩
  · rw [hclient, htimeout] at hheld
    rw [hanswer]
    constructor
    · intro hno
      cases hno
    · intro htry
      rw [status_untried hstatus hrelease htry] at hheld
      have hlt : t' < t + r.tryLockTimeout := of_decide_eq_true hheld
      rw [if_neg (by omega)]
  · rw [hclient, htimeout] at hfree
    rw [hanswer, hclient]
    constructor
    · intro _
      have hlocked : (r.setStatus (ClientStatus.new t id false true) id.clientId).LockedSince t
          id.clientId := ⟨_, hstatus, rfl, le_refl t⟩
      rcases hlocked.applyAll hrelease with ⟨s, hs, hhandshaking, hstart⟩
      rw [hs] at hfree
      change (s.handshaking && decide _) = false at hfree
      rw [hhandshaking, Bool.true_and, decide_eq_false_iff_not] at hfree
      omega
    · intro htry
      rw [status_untried hstatus hrelease htry] at hfree ⊢
      have hle : ¬ t' < t + r.tryLockTimeout := of_decide_eq_false hfree
      rw [if_pos (by omega)]
      rfl

theorem handshake_exact_sample :
    (((ClusterRouter.new 10).apply 0 (Message.handshakeTryLock ⟨1, "c", none, 0⟩)).1.apply 10
        (Message.handshakeTryLock ⟨2, "c", none, 0⟩)).2 =
      Applied.reply (MessageReply.handshakeTryLock (some ⟨1, "c", none, 0⟩)) :=
  (@handshake_exact (ClusterRouter.new 10) 0 10 ⟨1, "c", none, 0⟩ ⟨2, "c", none, 0⟩ [] rfl rfl
    nofun).right nofun

end ClusterRouter

end Cluster
end Ciqada
