import Ciqada.Store.Replay

/-!
# Replay over the nodes of a cluster

`message_load` replays from the local store and asks every peer to do the same.
Each store marks what it returns at once, before it is known whether the answer
arrives and whether the other peers answer.
-/

namespace Ciqada
namespace Store

open Foundation Broker

inductive MessageReply where
  | messageGet (res : List (MsgId × From × Publish))
  | error (e : String)
  | other

/-- The loop over the replies: the first one that is not a list of messages ends it. -/
def mergeReplies (msgs : List (MsgId × From × Publish)) :
    List (Except String MessageReply) -> Except String (List (MsgId × From × Publish))
  | [] => Except.ok msgs
  | Except.error e :: _ => Except.error e
  | Except.ok (MessageReply.error e) :: _ => Except.error e
  | Except.ok MessageReply.other :: _ => Except.error "unreachable!()"
  | Except.ok (MessageReply.messageGet res) :: replys => mergeReplies (msgs ++ res) replys

/-!
## One load
-/

/-- A node as a request for a filter finds it, with the time and iteration order there. -/
structure Member (Row : Type) (topicFilter : String) where
  cfg : Config
  sys : System Row
  now : Int
  iter : List MsgId
  ordered : (sys.mem.evict cfg now).IterOrder topicFilter iter

/-- A request is answered, or no answer arrives, whether or not the peer ran it. -/
inductive Outcome where
  | answered
  | failed (ran : Bool) (e : String)

def Outcome.ran : Outcome -> Bool
  | Outcome.answered => true
  | Outcome.failed ran _ => ran

namespace Member

variable {Row : Type} {topicFilter : String}

def answer (n : Member Row topicFilter) (clientId : String) : List (MsgId × From × Publish) :=
  (n.sys.mem.get n.cfg n.now clientId n.iter).2

/-- The node after the load. -/
def after (n : Member Row topicFilter) (clientId : String) (ran : Bool) : System Row :=
  if ran then n.sys.withMem (n.sys.mem.get n.cfg n.now clientId n.iter).1 else n.sys

def reply (n : Member Row topicFilter) (clientId : String) :
    Outcome -> Except String MessageReply
  | Outcome.answered => Except.ok (MessageReply.messageGet (n.answer clientId))
  | Outcome.failed _ e => Except.error e

/-- The node was opened and has not moved an id to another topic since. -/
def Reached (codec : Codec Row) (n : Member Row topicFilter) : Prop :=
  exists disk opened s0 es, System.openStore n.cfg codec disk opened = some s0 ∧
    Run (System.step n.cfg codec) System.SameTopic s0 es n.sys

/-- The node has a message for the client, which its replay would return. -/
def Ready (n : Member Row topicFilter) (clientId : String) (id : MsgId) : Prop :=
  exists msg, (n.sys.mem.evict n.cfg n.now).msgs.lookup id = some msg ∧ n.now < msg.expiryAt ∧
    clientId ∉ msg.deliveredTo ∧ topicMatches msg.publish.topic topicFilter = true

end Member

structure ClusterLoad (Row : Type) where
  clientId : String
  topicFilter : String
  home : Member Row topicFilter
  peers : List (Member Row topicFilter × Outcome)

/-- A message in memory that matches the filter and was not given to the client. -/
def MemState.Awaits (m : MemState) (clientId topicFilter : String) (id : MsgId) : Prop :=
  exists msg, m.msgs.lookup id = some msg ∧ clientId ∉ msg.deliveredTo ∧
    topicMatches msg.publish.topic topicFilter = true

namespace ClusterLoad

variable {Row : Type}

def messageLoad (load : ClusterLoad Row) : Except String (List (MsgId × From × Publish)) :=
  mergeReplies (load.home.answer load.clientId)
    (load.peers.map (fun peer => peer.1.reply load.clientId peer.2))

/-- The ids that the caller gets. -/
def returned (load : ClusterLoad Row) : List MsgId :=
  match load.messageLoad with
  | Except.ok msgs => msgs.map Prod.fst
  | Except.error _ => []

/-- All nodes, each with whether it ran the request. -/
def members (load : ClusterLoad Row) : List (Member Row load.topicFilter × Bool) :=
  (load.home, true) :: load.peers.map (fun peer => (peer.1, peer.2.ran))

/-!
## What a load should keep
-/

/-- A node some time after the load. -/
structure Later (load : ClusterLoad Row) where
  member : Member Row load.topicFilter
  ran : Bool
  events : List Event
  sys : System Row

/-- Steps other than a replay to the client; ids are fresh. -/
def Quiet (clientId : String) (s : System Row) : Event -> Prop
  | Event.get _ clientId' _ _ => clientId' ≠ clientId
  | e => System.FreshIds s e

/--
Whatever the nodes do after the load, a message that waited for the client on
some node and was not returned is returned by a replay on some node, as long as
it stays in memory and has not expired.
-/
def Keeps (codec : Codec Row) (load : ClusterLoad Row) : Prop :=
  forall later : List (Later load),
    later.map (fun l => (l.member, l.ran)) = load.members ->
    (forall l, l ∈ later -> Run (System.step l.member.cfg codec) (Quiet load.clientId)
      (l.member.after load.clientId l.ran) l.events l.sys) ->
    forall l, l ∈ later -> forall id,
      l.member.sys.mem.Awaits load.clientId load.topicFilter id -> id ∉ load.returned ->
      Throughout (System.step l.member.cfg codec) (fun s => id ∈ s.mem.msgs)
        (l.member.after load.clientId l.ran) l.events ->
      forall now msg, (l.sys.mem.evict l.member.cfg now).msgs.lookup id = some msg ->
        now < msg.expiryAt ->
        exists k, k ∈ later ∧ forall iter,
          (k.sys.mem.evict k.member.cfg now).IterOrder load.topicFilter iter ->
          id ∈ (k.sys.mem.get k.member.cfg now load.clientId iter).2.map Prod.fst

/-- All peers answer, or no node that ran the request had a message for the client. -/
def Harmless (load : ClusterLoad Row) : Prop :=
  (forall peer, peer ∈ load.peers -> peer.2 = Outcome.answered) ∨
    forall n, n ∈ load.members -> n.2 = true -> forall id, ¬ n.1.Ready load.clientId id

/-- Ids carry the number of the node that stored them, as `next_msg_id` makes them. -/
def Owned (load : ClusterLoad Row) : Prop :=
  (load.members.map (fun n => n.1.cfg.nodeId)).Nodup ∧
    forall n, n ∈ load.members -> forall id, id ∈ n.1.sys.mem.msgs -> id >>> 48 = n.1.cfg.nodeId

end ClusterLoad

/-!
## The merged answer
-/

section Merge

variable {msgs : List (MsgId × From × Publish)}

theorem mergeReplies_messageGet (lists : List (List (MsgId × From × Publish))) :
    mergeReplies msgs (lists.map (fun res => Except.ok (MessageReply.messageGet res))) =
      Except.ok (msgs ++ lists.flatten) := by
  induction lists generalizing msgs with
  | nil =>
      rw [List.flatten_nil, List.append_nil]
      rfl
  | cons res lists ih =>
      rw [List.flatten_cons, ← List.append_assoc]
      exact ih

/-- One missing answer is enough to lose them all. -/
theorem mergeReplies_error {e : String} {replys : List (Except String MessageReply)}
    (h : Except.error e ∈ replys) : exists e', mergeReplies msgs replys = Except.error e' := by
  induction replys generalizing msgs with
  | nil => cases h
  | cons reply replys ih =>
      cases reply with
      | error e' => exact ⟨e', rfl⟩
      | ok reply =>
          have htail : Except.error e ∈ replys := by
            rcases List.mem_cons.mp h with heq | htail
            · cases heq
            · exact htail
          cases reply with
          | messageGet res => exact ih htail
          | error e' => exact ⟨e', rfl⟩
          | other => exact ⟨"unreachable!()", rfl⟩

end Merge

namespace ClusterLoad

variable {Row : Type} {load : ClusterLoad Row}

theorem mem_returned (hall : forall peer, peer ∈ load.peers -> peer.2 = Outcome.answered)
    {n : Member Row load.topicFilter × Bool} (hn : n ∈ load.members) {id : MsgId}
    (hid : id ∈ (n.1.answer load.clientId).map Prod.fst) : id ∈ load.returned := by
  have hreplys : load.peers.map (fun peer => peer.1.reply load.clientId peer.2) =
      (load.peers.map (fun peer => peer.1.answer load.clientId)).map
        (fun res => Except.ok (MessageReply.messageGet res)) := by
    rw [List.map_map]
    apply List.map_congr_left
    intro peer hpeer
    rw [hall peer hpeer]
    rfl
  unfold returned messageLoad
  rw [hreplys, mergeReplies_messageGet]
  show id ∈ (_ ++ _ : List (MsgId × From × Publish)).map Prod.fst
  rw [List.map_append, List.mem_append]
  rcases List.mem_cons.mp hn with rfl | hpeer
  · exact Or.inl hid
  · rcases List.mem_map.mp hpeer with ⟨peer, hpeer', rfl⟩
    rcases List.mem_map.mp hid with ⟨entry, hentry, rfl⟩
    refine Or.inr (List.mem_map.mpr ⟨entry, List.mem_flatten.mpr ⟨_, ?_, hentry⟩, rfl⟩)
    exact List.mem_map.mpr ⟨peer, hpeer', rfl⟩

theorem returned_eq_nil (hnot : ¬ forall peer, peer ∈ load.peers -> peer.2 = Outcome.answered) :
    load.returned = [] := by
  rw [not_forall] at hnot
  rcases hnot with ⟨⟨n, outcome⟩, hnot⟩
  rw [Classical.not_imp] at hnot
  rcases hnot with ⟨hpeer, hfailed⟩
  cases outcome with
  | answered => exact absurd rfl hfailed
  | failed ran e =>
      have hreply : Except.error e ∈
          load.peers.map (fun peer => peer.1.reply load.clientId peer.2) :=
        List.mem_map.mpr ⟨(n, Outcome.failed ran e), hpeer, rfl⟩
      unfold returned messageLoad
      rcases @mergeReplies_error (load.home.answer load.clientId) e _ hreply with ⟨e', herror⟩
      rw [herror]

/-!
## Waiting messages
-/

section Waiting

variable {cfg : Config} {codec : Codec Row} {s s' : System Row} {clientId topicFilter : String}
variable {id : MsgId}

theorem freshIds_of_quiet {e : Event} (h : Quiet clientId s e) : System.FreshIds s e := by
  cases e with
  | get now clientId' topicFilter iter => trivial
  | work now => exact h
  | nextMsgId => trivial
  | store now msgId sender p expiryInterval => trivial
  | flush now commits => trivial
  | settle i => trivial

theorem not_given_of_quiet {e : Event} (h : Quiet clientId s e) :
    (clientId, id) ∉ s.givenBy cfg e := by
  cases e with
  | get now clientId' topicFilter iter =>
      intro hgiven
      rcases List.mem_map.mp hgiven with ⟨entry, _, heq⟩
      exact h (Prod.mk.inj heq).left
  | nextMsgId => exact List.not_mem_nil
  | store now msgId sender p expiryInterval => exact List.not_mem_nil
  | work now => exact List.not_mem_nil
  | flush now commits => exact List.not_mem_nil
  | settle i => exact List.not_mem_nil

theorem awaits_step {e : Event} (hawaits : s.mem.Awaits clientId topicFilter id)
    (hquiet : Quiet clientId s e) (hstep : System.step cfg codec s e = some s')
    (hin : id ∈ s'.mem.msgs) : s'.mem.Awaits clientId topicFilter id := by
  rcases hawaits with ⟨msg, hlookup, hnew, hmatch⟩
  rcases Finmap.mem_iff.mp hin with ⟨msg', hlookup'⟩
  have hid := System.not_stored_of_fresh (freshIds_of_quiet hquiet)
    (Finmap.mem_of_lookup_eq_some hlookup)
  rcases System.of_lookup_step hstep hid hlookup' with
    hsame | ⟨clientId', old, hgiven', hold, rfl⟩
  · rw [hlookup] at hsame
    rw [← Option.some.inj hsame] at hlookup'
    exact ⟨msg, hlookup', hnew, hmatch⟩
  · rw [hlookup] at hold
    rw [← Option.some.inj hold] at hlookup'
    refine ⟨_, hlookup', ?_, hmatch⟩
    intro hgiven
    rcases Finset.mem_insert.mp hgiven with rfl | hbefore
    · exact not_given_of_quiet hquiet hgiven'
    · exact hnew hbefore

/-- A message that stays in memory goes on waiting for the client. -/
theorem awaits_run {es : List Event} (hrun : Run (System.step cfg codec) (Quiet clientId) s es s')
    (hstays : Throughout (System.step cfg codec) (fun s => id ∈ s.mem.msgs) s es)
    (hawaits : s.mem.Awaits clientId topicFilter id) : s'.mem.Awaits clientId topicFilter id :=
  hrun.invariant_throughout hstays hawaits
    (fun _s _e _t hinv hin hquiet hstep => awaits_step hinv hquiet hstep hin)

theorem indexed_quiet {es : List Event} (h : s.mem.Indexed)
    (hrun : Run (System.step cfg codec) (Quiet clientId) s es s') : s'.mem.Indexed :=
  hrun.invariant h (fun _s _e _t hinv hquiet hstep =>
    System.indexed_step hinv (System.sameTopic_of_freshIds (freshIds_of_quiet hquiet)) hstep)

theorem mem_get_of_awaits {now : Int} {iter : List MsgId} {msg : StoredMsg}
    (h : s.mem.Indexed) (hawaits : s.mem.Awaits clientId topicFilter id)
    (hlookup : (s.mem.evict cfg now).msgs.lookup id = some msg) (hlive : now < msg.expiryAt)
    (hiter : (s.mem.evict cfg now).IterOrder topicFilter iter) :
    id ∈ (s.mem.get cfg now clientId iter).2.map Prod.fst := by
  rcases hawaits with ⟨msg', hlookup', hnew, hmatch⟩
  rw [MemState.lookup_of_evict hlookup] at hlookup'
  rw [← Option.some.inj hlookup'] at hnew hmatch
  have hanswers := MemState.answers_deliver (h.evict cfg now) hiter now clientId
  exact List.mem_map.mpr ⟨(id, msg.sender, msg.publish),
    (hanswers.exact id msg.sender msg.publish).mpr ⟨msg, hlookup, hlive, hnew, hmatch, rfl, rfl⟩,
    rfl⟩

end Waiting

end ClusterLoad

namespace Member

variable {Row : Type} {topicFilter clientId : String} {codec : Codec Row}
variable {n : Member Row topicFilter} {id : MsgId}

theorem indexed_of_reached (h : n.Reached codec) : n.sys.mem.Indexed := by
  rcases h with ⟨disk, opened, s0, es, hopen, hrun⟩
  exact System.indexed_run hopen hrun

theorem answers (h : n.sys.mem.Indexed) (clientId : String) :
    MemState.Answers (n.sys.mem.evict n.cfg n.now) n.now clientId topicFilter
      (n.after clientId true).mem (n.answer clientId) :=
  MemState.answers_deliver (h.evict n.cfg n.now) n.ordered n.now clientId

theorem mem_answer (h : n.sys.mem.Indexed) :
    id ∈ (n.answer clientId).map Prod.fst <-> n.Ready clientId id := by
  have hanswers := answers h clientId
  rw [List.mem_map]
  constructor
  · rintro ⟨entry, hentry, rfl⟩
    rcases (hanswers.exact entry.1 entry.2.1 entry.2.2).mp hentry with
      ⟨msg, hlookup, hlive, hnew, hmatch, _⟩
    exact ⟨msg, hlookup, hlive, hnew, hmatch⟩
  · rintro ⟨msg, hlookup, hlive, hnew, hmatch⟩
    exact ⟨(id, msg.sender, msg.publish),
      (hanswers.exact id _ _).mpr ⟨msg, hlookup, hlive, hnew, hmatch, rfl, rfl⟩, rfl⟩

theorem indexed_after (h : n.sys.mem.Indexed) (ran : Bool) :
    (n.after clientId ran).mem.Indexed := by
  cases ran with
  | false => exact h
  | true => exact (h.evict n.cfg n.now).deliver n.now clientId n.iter

/-- What a node does not answer with goes on waiting. -/
theorem awaits_after {ran : Bool} (h : n.sys.mem.Indexed)
    (hawaits : n.sys.mem.Awaits clientId topicFilter id)
    (hnot : ran = true -> id ∉ (n.answer clientId).map Prod.fst)
    (hin : id ∈ (n.after clientId ran).mem.msgs) :
    (n.after clientId ran).mem.Awaits clientId topicFilter id := by
  cases ran with
  | false => exact hawaits
  | true =>
      rcases hawaits with ⟨msg, hlookup, hnew, hmatch⟩
      rcases Finmap.mem_iff.mp hin with ⟨msg', hlookup'⟩
      refine ⟨msg', hlookup', ?_⟩
      rw [(answers h clientId).marked id, if_neg (hnot rfl)] at hlookup'
      rw [MemState.lookup_of_evict hlookup'] at hlookup
      rw [Option.some.inj hlookup]
      exact ⟨hnew, hmatch⟩

theorem mem_of_mem_after {ran : Bool} (h : n.sys.mem.Indexed)
    (hin : id ∈ (n.after clientId ran).mem.msgs) : id ∈ n.sys.mem.msgs := by
  cases ran with
  | false => exact hin
  | true =>
      rcases Finmap.mem_iff.mp hin with ⟨msg, hlookup⟩
      rw [(answers h clientId).marked id] at hlookup
      split at hlookup
      · rcases Option.map_eq_some_iff.mp hlookup with ⟨old, hold, _⟩
        exact Finmap.mem_of_lookup_eq_some (MemState.lookup_of_evict hold)
      · exact Finmap.mem_of_lookup_eq_some (MemState.lookup_of_evict hlookup)

/-- The marks leave nothing to evict at the same time. -/
theorem rests_after (h : n.sys.mem.Indexed) (clientId : String) :
    MemState.Rests n.cfg n.now (n.after clientId true).mem := by
  have hanswers := answers h clientId
  have hkeys : (n.after clientId true).mem.msgs.keys =
      (n.sys.mem.evict n.cfg n.now).msgs.keys := by
    ext id
    rw [Finmap.mem_keys, Finmap.mem_keys, Finmap.mem_iff, Finmap.mem_iff, hanswers.marked id]
    split
    · simp [Option.map_eq_some_iff]
    · rfl
  have hexpired : forall id, (n.after clientId true).mem.expired n.now id =
      (n.sys.mem.evict n.cfg n.now).expired n.now id := by
    intro id
    unfold MemState.expired
    rw [hanswers.marked id]
    by_cases hid : id ∈ (n.answer clientId).map Prod.fst
    · rw [if_pos hid]
      cases (n.sys.mem.evict n.cfg n.now).msgs.lookup id with
      | none => rfl
      | some msg => rfl
    · rw [if_neg hid]
  have hcap : (n.after clientId true).mem.overCap n.cfg =
      (n.sys.mem.evict n.cfg n.now).overCap n.cfg := by
    unfold MemState.overCap
    rw [hkeys, hanswers.bytes]
  intro id hfront
  rw [hanswers.order] at hfront
  rw [hcap, hexpired]
  exact MemState.rests_evict n.cfg n.now n.sys.mem id hfront

end Member

/-!
## When a load keeps the messages
-/

namespace ClusterLoad

variable {Row : Type} {codec : Codec Row} {load : ClusterLoad Row}

theorem keeps_of_harmless
    (hreached : forall n, n ∈ load.members -> n.1.Reached codec) (h : load.Harmless) :
    load.Keeps codec := by
  intro later hmembers hruns l hl id hawaits hnot hstays now msg hlookup hlive
  have hmem : (l.member, l.ran) ∈ load.members := by
    rw [← hmembers]
    exact List.mem_map.mpr ⟨l, hl, rfl⟩
  have hindexed := Member.indexed_of_reached (hreached _ hmem)
  have hunanswered : l.ran = true -> id ∉ (l.member.answer load.clientId).map Prod.fst := by
    intro hran hid
    rcases h with hall | hnone
    · exact hnot (mem_returned hall hmem hid)
    · exact hnone _ hmem hran id ((Member.mem_answer hindexed).mp hid)
  have hafter := Member.awaits_after hindexed hawaits hunanswered hstays.head
  have hnow := awaits_run (hruns l hl) hstays hafter
  have hindexed' := indexed_quiet (Member.indexed_after hindexed l.ran) (hruns l hl)
  exact ⟨l, hl, fun iter hiter => mem_get_of_awaits hindexed' hnow hlookup hlive hiter⟩

/-- Distinct nodes hold distinct ids. -/
theorem Owned.unique {n k : Member Row load.topicFilter × Bool} {id : MsgId}
    (h : load.Owned) (hn : n ∈ load.members) (hk : k ∈ load.members)
    (hidn : id ∈ n.1.sys.mem.msgs) (hidk : id ∈ k.1.sys.mem.msgs) : n = k := by
  apply List.inj_on_of_nodup_map h.left hn hk
  show n.1.cfg.nodeId = k.1.cfg.nodeId
  rw [← h.right n hn id hidn, ← h.right k hk id hidk]

/-- The nodes as the load leaves them. -/
def atOnce (load : ClusterLoad Row) : List (Later load) :=
  load.members.map (fun n => ⟨n.1, n.2, [], n.1.after load.clientId n.2⟩)

theorem atOnce_members (load : ClusterLoad Row) :
    load.atOnce.map (fun l => (l.member, l.ran)) = load.members := by
  unfold atOnce
  rw [List.map_map]
  exact List.map_id _

theorem atOnce_runs (codec : Codec Row) {l : Later load} (hl : l ∈ load.atOnce) :
    Run (System.step l.member.cfg codec) (Quiet load.clientId)
      (l.member.after load.clientId l.ran) l.events l.sys := by
  rcases List.mem_map.mp hl with ⟨k, _, rfl⟩
  exact Run.nil _

theorem harmless_of_keeps (hreached : forall n, n ∈ load.members -> n.1.Reached codec)
    (howned : load.Owned) (hkeeps : load.Keeps codec) : load.Harmless := by
  by_contra hharm
  rw [Harmless, not_or] at hharm
  rcases hharm with ⟨hnotAll, hsome⟩
  simp only [not_forall, not_not] at hsome
  rcases hsome with ⟨⟨n, ran⟩, hn, hran, id, hready⟩
  change ran = true at hran
  rw [hran] at hn
  have hindexed := Member.indexed_of_reached (hreached _ hn)
  have hmarked := (Member.answers hindexed load.clientId).marked id
  rw [if_pos ((Member.mem_answer hindexed).mpr hready)] at hmarked
  rcases hready with ⟨msg, hlookup, hlive, hnew, hmatch⟩
  rw [hlookup] at hmarked
  have hstays : Throughout (System.step n.cfg codec) (fun s => id ∈ s.mem.msgs)
      (n.after load.clientId true) [] := by
    intro pre post t heq hpre
    rw [(List.append_eq_nil_iff.mp heq.symm).left] at hpre
    cases hpre
    exact Finmap.mem_of_lookup_eq_some hmarked
  have hnone : id ∉ load.returned := by
    rw [returned_eq_nil hnotAll]
    exact List.not_mem_nil
  have hrests := MemState.evict_of_rests (Member.rests_after hindexed load.clientId)
  -- right after the load, at the time of the replay on the node that had the message
  rcases hkeeps load.atOnce load.atOnce_members (fun _ hl => atOnce_runs codec hl)
      ⟨n, true, [], n.after load.clientId true⟩ (List.mem_map.mpr ⟨(n, true), hn, rfl⟩) id
      ⟨msg, MemState.lookup_of_evict hlookup, hnew, hmatch⟩ hnone hstays n.now
      (msg.givenTo load.clientId) (by rw [hrests]; exact hmarked) hlive with ⟨l, hl, hreturns⟩
  rcases List.mem_map.mp hl with ⟨k, hk, rfl⟩
  have hindexedk := Member.indexed_of_reached (hreached k hk)
  have hentry := hreturns _ (Multiset.coe_toList _)
  rcases List.mem_map.mp hentry with ⟨entry, hin, rfl⟩
  rcases MemState.mem_deliver.mp hin with ⟨_, msg', hlookup', _, hnew', _⟩
  have hafter := MemState.lookup_of_evict hlookup'
  have hsame := howned.unique hn hk
    (Finmap.mem_of_lookup_eq_some (MemState.lookup_of_evict hlookup))
    (Member.mem_of_mem_after hindexedk (Finmap.mem_of_lookup_eq_some hafter))
  rw [← hsame] at hafter
  rw [hmarked] at hafter
  rw [← Option.some.inj hafter] at hnew'
  exact hnew' (Finset.mem_insert_self load.clientId msg.deliveredTo)

theorem load_keeps_iff (hreached : forall n, n ∈ load.members -> n.1.Reached codec) :
    (load.Harmless -> load.Keeps codec) ∧
      (load.Owned -> (load.Keeps codec <-> load.Harmless)) :=
  ⟨keeps_of_harmless hreached, fun howned =>
    ⟨harmless_of_keeps hreached howned, keeps_of_harmless hreached⟩⟩

end ClusterLoad

namespace Sample

/-- The first id of node 1. -/
def firstId : MsgId :=
  281474976710656

def holding : List Event :=
  [Event.nextMsgId, Event.store 10 firstId sender (publish "a/b") 100, Event.work 11]

def holder : System (Option StoredMsg) :=
  (exec? (System.step cfg codec) System.SameTopic blank holding).get (by decide +kernel)

def home : Member (Option StoredMsg) "a/b" :=
  { cfg := cfg, sys := holder, now := 20, iter := [firstId], ordered := by decide +kernel }

def peerCfg : Config :=
  { cfg with nodeId := 2 }

def peerSys : System (Option StoredMsg) :=
  (System.openStore peerCfg codec ∅ 9).get (by decide +kernel)

def peer : Member (Option StoredMsg) "a/b" :=
  { cfg := peerCfg, sys := peerSys, now := 21, iter := [], ordered := by decide +kernel }

/-- Node 1 has a message for the client and asks node 2, which has none. -/
def load (outcome : Outcome) : ClusterLoad (Option StoredMsg) :=
  { clientId := "reader", topicFilter := "a/b", home := home, peers := [(peer, outcome)] }

theorem load_reached (outcome : Outcome) :
    forall n, n ∈ (load outcome).members -> n.1.Reached codec := by
  intro n hn
  rcases List.mem_cons.mp hn with rfl | hpeer
  · have hrun := @Run.of_isSome _ _ (System.step cfg codec) System.SameTopic _ blank holding
      (by decide +kernel)
    exact ⟨∅, 9, blank, holding, blank_eq, hrun⟩
  · rw [List.mem_singleton.mp hpeer]
    exact ⟨∅, 9, peerSys, [], (Option.some_get _).symm, Run.nil peerSys⟩

theorem load_owned (outcome : Outcome) : (load outcome).Owned := by
  constructor
  · show [1, 2].Nodup
    decide
  · intro n hn id hid
    rw [← Finmap.mem_keys] at hid
    rcases List.mem_cons.mp hn with rfl | hpeer
    · revert id
      show forall id, id ∈ holder.mem.msgs.keys -> id >>> 48 = 1
      decide +kernel
    · rw [List.mem_singleton.mp hpeer] at hid ⊢
      revert id
      show forall id, id ∈ peerSys.mem.msgs.keys -> id >>> 48 = 2
      decide +kernel

end Sample

namespace ClusterLoad

theorem load_keeps_answered :
    (Sample.load Outcome.answered).Keeps Sample.codec ∧
      (Sample.load Outcome.answered).returned = [Sample.firstId] := by
  have hall : (Sample.load Outcome.answered).Harmless := by
    apply Or.inl
    intro peer hpeer
    rw [List.mem_singleton.mp hpeer]
  exact ⟨(load_keeps_iff (Sample.load_reached _)).left hall, by decide +kernel⟩

/-- The request to the peer times out, and the message on the local node is lost to the client. -/
theorem load_fails :
    ¬ forall load : ClusterLoad (Option StoredMsg),
      (forall n, n ∈ load.members -> n.1.Reached Sample.codec) -> load.Keeps Sample.codec := by
  intro hkeeps
  have hreached := Sample.load_reached (Outcome.failed false "deadline has elapsed")
  rcases harmless_of_keeps hreached (Sample.load_owned _) (hkeeps _ hreached) with hall | hnone
  · cases hall _ (List.mem_singleton_self _)
  · have hready : Sample.firstId ∈ (Sample.home.answer "reader").map Prod.fst := by
      decide +kernel
    have hindexed := Member.indexed_of_reached (hreached _ List.mem_cons_self)
    exact hnone _ List.mem_cons_self rfl _ ((Member.mem_answer hindexed).mp hready)

end ClusterLoad

end Store
end Ciqada
