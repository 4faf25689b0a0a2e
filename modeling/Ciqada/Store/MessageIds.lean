import Ciqada.Foundation.Packing
import Ciqada.Store.Coherence
import Ciqada.Store.Lives

/-!
# Message ids

An id has the number of the node in its high 16 bits and a counter in its low 48
bits.  Opening continues the counter after the largest id of this node in the
table, which it recognises by comparing the high bits with the number of the
node.  A number of more than 16 bits never matches, so its counter starts again
with every run, and it shares its ids with a smaller number.
-/

namespace Ciqada
namespace Store

open Foundation Broker

namespace System

variable {Row : Type} {cfg : Config} {codec : Codec Row} {s s' : System Row}

/-!
## Drawing an id
-/

theorem nextMsgId_fst (cfg : Config) (s : System Row) :
    (s.nextMsgId cfg).1 = pack 64 48 cfg.nodeId s.counter :=
  rfl

/-- The id has the high bits that every id drawn by the node has. -/
def Own (node : Nat) (id : MsgId) : Prop :=
  id >>> 48 = node % 2 ^ 16

/-- The id that an event draws. -/
def drawnBy (cfg : Config) (s : System Row) : Event -> List MsgId
  | Event.nextMsgId => [(s.nextMsgId cfg).1]
  | _ => []

/-- The ids that a run draws, in order. -/
def drawn (cfg : Config) (codec : Codec Row) (s : System Row) (es : List Event) : List MsgId :=
  collect (step cfg codec) (drawnBy cfg) s es

/-- A step draws one id and counts it, or leaves the counter alone. -/
theorem counter_step {e : Event} (hstep : step cfg codec s e = some s') :
    (s.drawnBy cfg e = [pack 64 48 cfg.nodeId s.counter] ∧
        s'.counter = (s.counter + 1) % UInt64.size) ∨
      (s.drawnBy cfg e = [] ∧ s'.counter = s.counter) := by
  cases e with
  | nextMsgId =>
      left
      rw [← Option.some.inj hstep, drawnBy, nextMsgId_fst]
      exact ⟨rfl, rfl⟩
  | store now msgId sender p expiryInterval =>
      right
      rw [← Option.some.inj hstep]
      exact ⟨rfl, rfl⟩
  | work now =>
      right
      rcases of_step_work hstep with ⟨key, msg, rest, _hchannel, _hfits, rfl⟩
      exact ⟨rfl, rfl⟩
  | get now clientId topicFilter iter =>
      right
      rw [of_step_get hstep]
      exact ⟨rfl, rfl⟩
  | flush now commits =>
      right
      rw [← Option.some.inj hstep]
      refine ⟨rfl, ?_⟩
      unfold snapshot
      dsimp only
      split <;> rfl
  | settle i =>
      right
      rcases of_step_settle hstep with ⟨f, _hf, rfl⟩
      exact ⟨rfl, rfl⟩

theorem own_of_drawn {es : List Event} {id : MsgId}
    (hrun : Run (step cfg codec) Always s es s') (hid : id ∈ drawn cfg codec s es) :
    Own cfg.nodeId id := by
  unfold drawn at hid
  induction hrun with
  | nil s => cases hid
  | cons _ hstep _ ih =>
      rw [collect_cons _ hstep] at hid
      rcases List.mem_append.mp hid with hhead | htail
      · rcases counter_step hstep with ⟨hdrawn, _⟩ | ⟨hdrawn, _⟩
        · rw [hdrawn, List.mem_singleton] at hhead
          rw [hhead]
          exact pack_shiftRight (by decide) _ _
        · rw [hdrawn] at hhead
          cases hhead
      · exact ih htail

/-- As long as the counter stays within 48 bits, a run draws consecutive ids. -/
theorem drawn_eq {es : List Event} (hrun : Run (step cfg codec) Always s es s')
    (hbound : s.counter + (drawn cfg codec s es).length ≤ 2 ^ 48) :
    drawn cfg codec s es =
      (List.range' s.counter (drawn cfg codec s es).length).map (pack 64 48 cfg.nodeId) := by
  unfold drawn at hbound ⊢
  induction hrun with
  | nil s => rfl
  | @cons s t r e es _ hstep _ ih =>
      rw [collect_cons es hstep] at hbound ⊢
      rcases counter_step hstep with ⟨hdrawn, hcounter⟩ | ⟨hdrawn, hcounter⟩
      · rw [hdrawn, List.singleton_append, List.length_cons] at hbound ⊢
        have hnext : t.counter = s.counter + 1 := by
          rw [hcounter]
          apply Nat.mod_eq_of_lt
          have hsize : UInt64.size = 2 ^ 64 := rfl
          omega
        rw [List.range'_succ, List.map_cons, ← hnext]
        exact congrArg (List.cons _) (ih (by omega))
      · rw [hdrawn, List.nil_append] at hbound ⊢
        rw [← hcounter] at hbound ⊢
        exact ih hbound

/-- The number of ids that an event draws. -/
def drawCount : Event -> Nat
  | Event.nextMsgId => 1
  | _ => 0

theorem length_drawn {es : List Event} (hrun : Run (step cfg codec) Always s es s') :
    (drawn cfg codec s es).length = (es.map drawCount).sum := by
  unfold drawn
  induction hrun with
  | nil s => rfl
  | @cons s t r e es _ hstep _ ih =>
      have hhead : (s.drawnBy cfg e).length = drawCount e := by
        cases e <;> rfl
      rw [collect_cons es hstep, List.length_append, ih, hhead, List.map_cons, List.sum_cons]

/-!
## The counter after opening
-/

/-- The counter part of an id. -/
def countOf (id : MsgId) : Nat :=
  id &&& counterMask

theorem countOf_pack {node count : Nat} (h : count < 2 ^ 48) :
    countOf (pack 64 48 node count) = count := by
  show pack 64 48 node count &&& (2 ^ 48 - 1) = count
  rw [pack_and (by decide), Nat.mod_eq_of_lt h]

theorem start_le_foldl (ids : List MsgId) (start : Nat) :
    start ≤ ids.foldl (recoverCounter cfg) start := by
  induction ids generalizing start with
  | nil => exact Nat.le_refl start
  | cons id ids ih =>
      refine le_trans ?_ (ih _)
      unfold recoverCounter
      split
      · exact Nat.le_max_left _ _
      · exact Nat.le_refl start

/-- The counter is past every id that is recognised. -/
theorem countOf_lt_foldl {ids : List MsgId} {id : MsgId} (start : Nat) (hid : id ∈ ids)
    (hnode : id >>> 48 = cfg.nodeId) : countOf id < ids.foldl (recoverCounter cfg) start := by
  induction ids generalizing start with
  | nil => cases hid
  | cons first ids ih =>
      rcases List.mem_cons.mp hid with rfl | htail
      · refine lt_of_lt_of_le ?_ (start_le_foldl ids _)
        unfold recoverCounter
        rw [if_pos hnode]
        exact lt_of_lt_of_le (Nat.lt_succ_self _) (Nat.le_max_right _ _)
      · exact ih _ htail

/-- The counter is not moved further than the ids that are recognised. -/
theorem foldl_le_of_forall {ids : List MsgId} {start bound : Nat} (hstart : start ≤ bound)
    (hids : forall id, id ∈ ids -> id >>> 48 = cfg.nodeId -> countOf id < bound) :
    ids.foldl (recoverCounter cfg) start ≤ bound := by
  induction ids generalizing start with
  | nil => exact hstart
  | cons id ids ih =>
      apply ih
      · unfold recoverCounter
        split
        · rename_i hnode
          exact Nat.max_le.mpr ⟨hstart, hids id List.mem_cons_self hnode⟩
        · exact hstart
      · intro id' hid'
        exact hids id' (List.mem_cons_of_mem id hid')

section Opened

variable {disk : Table MsgId Row} {opened : Int}

theorem counter_openStore (hopen : openStore cfg codec disk opened = some s) :
    s.counter = ((Table.rows disk).map Prod.fst).foldl (recoverCounter cfg) 0 := by
  unfold openStore at hopen
  dsimp only at hopen
  split at hopen
  · rw [← Option.some.inj hopen]
  · cases hopen

theorem mem_rowIds {id : MsgId} : id ∈ (Table.rows disk).map Prod.fst <-> id ∈ disk := by
  rw [List.mem_map]
  constructor
  · rintro ⟨⟨id', row⟩, hrow, rfl⟩
    exact Finmap.mem_of_lookup_eq_some (Table.mem_rows.mp hrow)
  · intro hid
    rcases Finmap.mem_iff.mp hid with ⟨row, hrow⟩
    exact ⟨(id, row), Table.mem_rows.mpr hrow, rfl⟩

theorem countOf_lt_counter {id : MsgId} (hopen : openStore cfg codec disk opened = some s)
    (hid : id ∈ disk) (hnode : id >>> 48 = cfg.nodeId) : countOf id < s.counter := by
  rw [counter_openStore hopen]
  exact countOf_lt_foldl 0 (mem_rowIds.mpr hid) hnode

theorem counter_le_of_forall {bound : Nat} (hopen : openStore cfg codec disk opened = some s)
    (hids : forall id, id ∈ disk -> id >>> 48 = cfg.nodeId -> countOf id < bound) :
    s.counter ≤ bound := by
  rw [counter_openStore hopen]
  apply foldl_le_of_forall (Nat.zero_le bound)
  intro id hid
  exact hids id (mem_rowIds.mp hid)

end Opened

/-!
## Tables that earlier runs leave
-/

/-- A run stores an id of its own node only after drawing it. -/
def StoresDrawn (cfg : Config) (codec : Codec Row) (s : System Row) (es : List Event) : Prop :=
  forall pre now id sender p expiryInterval post,
    es = pre ++ Event.store now id sender p expiryInterval :: post -> Own cfg.nodeId id ->
    id ∈ drawn cfg codec s pre

/--
The tables that the runs of a node leave, with the number of ids drawn so far.
Between two runs rows may be lost, damaged or copied in from other nodes, and the
caps may be configured anew.
-/
inductive Left (codec : Codec Row) (node : Nat) : Table MsgId Row -> Nat -> Prop where
  | empty : Left codec node ∅ 0
  | changed {disk disk' : Table MsgId Row} {draws : Nat} :
      Left codec node disk draws ->
      (forall id, id ∈ disk' -> Own node id -> id ∈ disk) ->
      Left codec node disk' draws
  | ran {cfg : Config} {disk : Table MsgId Row} {draws : Nat} {opened : Int}
      {s0 s : System Row} {es : List Event} :
      Left codec node disk draws ->
      cfg.nodeId = node ->
      openStore cfg codec disk opened = some s0 ->
      Run (step cfg codec) Always s0 es s ->
      StoresDrawn cfg codec s0 es ->
      Left codec node s.disk (draws + (drawn cfg codec s0 es).length)

/-- The ids on the channel satisfy a property, and so do all ids of the store. -/
def WithinChannel (P : MsgId -> Prop) (s : System Row) : Prop :=
  Within P s ∧ forall entry, entry ∈ s.channel -> P entry.1

/-- What a step puts on the channel satisfies the property. -/
def Sends (P : MsgId -> Prop) : Event -> Prop
  | Event.store _ id _ _ _ => P id
  | _ => True

theorem withinChannel_step {P : MsgId -> Prop} {e : Event} (h : WithinChannel P s)
    (hsends : Sends P e) (hstep : step cfg codec s e = some s') : WithinChannel P s' := by
  constructor
  · apply within_step h.left ?_ hstep
    intro id hid
    rcases mem_storedBy.mp hid with ⟨now, entry, _, hentry, rfl⟩
    exact h.right entry (List.mem_of_mem_head? hentry)
  · intro entry hentry
    cases e with
    | nextMsgId =>
        rw [← Option.some.inj hstep] at hentry
        exact h.right entry hentry
    | store now msgId sender p expiryInterval =>
        rw [← Option.some.inj hstep] at hentry
        rcases List.mem_append.mp hentry with hold | hnew
        · exact h.right entry hold
        · rw [List.mem_singleton.mp hnew]
          exact hsends
    | work now =>
        rcases of_step_work hstep with ⟨key, msg, rest, hchannel, _hfits, rfl⟩
        apply h.right
        rw [hchannel]
        exact List.mem_cons_of_mem _ hentry
    | get now clientId topicFilter iter =>
        rw [of_step_get hstep] at hentry
        exact h.right entry hentry
    | flush now commits =>
        rw [← Option.some.inj hstep] at hentry
        apply h.right
        revert hentry
        unfold snapshot
        dsimp only
        split <;> exact fun hentry => hentry
    | settle i =>
        rcases of_step_settle hstep with ⟨f, _hf, rfl⟩
        exact h.right entry hentry

theorem channel_openStore {disk : Table MsgId Row} {opened : Int}
    (hopen : openStore cfg codec disk opened = some s) : s.channel = [] := by
  unfold openStore at hopen
  dsimp only at hopen
  split at hopen
  · rw [← Option.some.inj hopen]
  · cases hopen

theorem countOf_lt_of_drawn {es : List Event} {id : MsgId} {bound : Nat}
    (hrun : Run (step cfg codec) Always s es s')
    (hbound : s.counter + (drawn cfg codec s es).length ≤ bound) (hfits : bound ≤ 2 ^ 48)
    (hid : id ∈ drawn cfg codec s es) : s.counter ≤ countOf id ∧ countOf id < bound := by
  rw [drawn_eq hrun (by omega), List.mem_map] at hid
  rcases hid with ⟨count, hcount, rfl⟩
  rw [List.mem_range'_1] at hcount
  rw [countOf_pack (by omega)]
  omega

theorem own_iff {node : Nat} (hnode : node < 2 ^ 16) (id : MsgId) :
    Own node id <-> id >>> 48 = node := by
  unfold Own
  rw [Nat.mod_eq_of_lt hnode]

/-- A row under an id of the node was there at open, or the run has drawn its id. -/
theorem own_row_of_run {disk : Table MsgId Row} {opened : Int} {s0 : System Row}
    {es : List Event} (hopen : openStore cfg codec disk opened = some s0)
    (hrun : Run (step cfg codec) Always s0 es s) (hstores : StoresDrawn cfg codec s0 es) :
    forall id, id ∈ s.disk -> Own cfg.nodeId id -> id ∈ disk ∨ id ∈ drawn cfg codec s0 es := by
  have hsends : Run (step cfg codec) (fun _ => Sends (fun id => Own cfg.nodeId id ->
      id ∈ disk ∨ id ∈ drawn cfg codec s0 es)) s0 es s := by
    apply hrun.meets_iff.mp
    intro pre e post u hes hpre
    cases e with
    | store now id sender p expiryInterval =>
        -- what is stored was drawn in the part of the run before
        intro hown
        right
        rw [hes]
        unfold drawn
        rw [hpre.collect_append]
        apply List.mem_append_left
        exact hstores pre now id sender p expiryInterval post hes hown
    | nextMsgId => trivial
    | work now => trivial
    | get now clientId topicFilter iter => trivial
    | flush now commits => trivial
    | settle i => trivial
  have hinv := hsends.invariant (⟨?_, ?_⟩ : WithinChannel _ s0)
    (fun _ _ _ hinv hmeets hstep => withinChannel_step hinv hmeets hstep)
  · exact hinv.left.disk
  · exact Lives.within_openStore hopen (fun id hid _ => Or.inl hid)
  · rw [channel_openStore hopen]
    intro entry hentry
    cases hentry

/-- The rows under ids of the node were drawn, so their counters are below the draws. -/
theorem Left.countOf_lt {node draws : Nat} {disk : Table MsgId Row}
    (h : Left codec node disk draws) (hnode : node < 2 ^ 16) (hdraws : draws ≤ 2 ^ 48) :
    forall id, id ∈ disk -> Own node id -> countOf id < draws := by
  induction h with
  | empty =>
      intro id hid
      exact absurd hid Finmap.notMem_empty
  | changed _ hkeys ih =>
      intro id hid hown
      exact ih hdraws id (hkeys id hid hown) hown
  | @ran cfg disk draws opened s0 s es _ hcfg hopen hrun hstores ih =>
      have hcounter : s0.counter ≤ draws := by
        apply counter_le_of_forall hopen
        intro id hid hmatch
        rw [hcfg] at hmatch
        exact ih (by omega) id hid ((own_iff hnode id).mpr hmatch)
      intro id hid hown
      rw [← hcfg] at hown
      rcases own_row_of_run hopen hrun hstores id hid hown with hold | hdrawn
      · rw [hcfg] at hown
        have hbefore := ih (by omega) id hold hown
        omega
      · exact (countOf_lt_of_drawn hrun (by omega) hdraws hdrawn).right

/-!
## Uniqueness
-/

/--
On a table that earlier runs left, no run draws an id twice or an id of the
table, as long as fewer than 2^48 ids are drawn in all.
-/
def NeverReused (codec : Codec Row) (node : Nat) : Prop :=
  forall cfg disk draws opened s0 es s, cfg.nodeId = node -> Left codec node disk draws ->
    openStore cfg codec disk opened = some s0 -> Run (step cfg codec) Always s0 es s ->
    draws + (drawn cfg codec s0 es).length < 2 ^ 48 ->
    (drawn cfg codec s0 es).Nodup ∧ forall id, id ∈ drawn cfg codec s0 es -> id ∉ disk

/-- Two nodes, each with its own table and its own runs, never draw the same id. -/
def NeverShared (codec : Codec Row) (node node' : Nat) : Prop :=
  forall cfg disk draws opened s0 es s cfg' disk' draws' opened' s0' es' s',
    cfg.nodeId = node -> Left codec node disk draws ->
    openStore cfg codec disk opened = some s0 -> Run (step cfg codec) Always s0 es s ->
    draws + (drawn cfg codec s0 es).length < 2 ^ 48 ->
    cfg'.nodeId = node' -> Left codec node' disk' draws' ->
    openStore cfg' codec disk' opened' = some s0' -> Run (step cfg' codec) Always s0' es' s' ->
    draws' + (drawn cfg' codec s0' es').length < 2 ^ 48 ->
    forall id, id ∈ drawn cfg codec s0 es -> id ∉ drawn cfg' codec s0' es'

theorem neverReused_of_lt {node : Nat} (hnode : node < 2 ^ 16) : NeverReused codec node := by
  intro cfg disk draws opened s0 es s hcfg hleft hopen hrun hdraws
  have hcounter : s0.counter ≤ draws := by
    apply counter_le_of_forall hopen
    intro id hid hmatch
    rw [hcfg] at hmatch
    exact hleft.countOf_lt hnode (by omega) id hid ((own_iff hnode id).mpr hmatch)
  constructor
  · rw [drawn_eq hrun (by omega)]
    apply List.Nodup.map_on ?_ List.nodup_range'
    intro count hcount count' hcount' heq
    rw [List.mem_range'_1] at hcount hcount'
    exact pack_lo_inj (by decide) _ _ (by omega) (by omega) heq
  · intro id hid hrow
    have hown := own_of_drawn hrun hid
    rw [hcfg, own_iff hnode, ← hcfg] at hown
    have hlow := (countOf_lt_of_drawn hrun (Nat.le_refl _) (by omega) hid).left
    have hhigh := countOf_lt_counter hopen hrow hown
    omega

theorem neverShared_of_lt {node node' : Nat} (hne : node ≠ node') (hnode : node < 2 ^ 16)
    (hnode' : node' < 2 ^ 16) : NeverShared codec node node' := by
  intro cfg disk draws opened s0 es s cfg' disk' draws' opened' s0' es' s' hcfg _ _ hrun _ hcfg' _ _
    hrun' _ id hid hid'
  have hown := own_of_drawn hrun hid
  have hown' := own_of_drawn hrun' hid'
  rw [hcfg, own_iff hnode] at hown
  rw [hcfg', own_iff hnode'] at hown'
  exact hne (hown.symm.trans hown')

/-!
## A number of more than 16 bits

The first message of the node is stored under an id whose high bits are not the
number of the node, so the next run draws the same id.
-/

/-- A node without caps. -/
def uncapped (node : Nat) : Config :=
  { nodeId := node, maxMsgs := 0, maxBytes := 0 }

/-- A message that is stored at time 0 and lives for a second. -/
def greeting : StoredMsg :=
  StoredMsg.new 0 Sample.sender (Sample.publish "a") 1000

/-- One message is stored under the first id of the node. -/
def firstStore (node : Nat) : List Event :=
  [Event.nextMsgId,
    Event.store 0 (pack 64 48 node 0) Sample.sender (Sample.publish "a") 1000, Event.work 0]

theorem insertMsg_vacant (node : Nat) (id : MsgId) :
    MemState.vacant.insertMsg (uncapped node) 0 id greeting = MemState.vacant.put id greeting := by
  apply MemState.evict_of_rests
  intro id' hfront
  have horder : (MemState.vacant.put id greeting).order = [id] := by
    rw [MemState.Coherent.put_order, if_neg (MemState.not_mem_vacant id)]
    rfl
  rw [horder] at hfront
  rw [← Option.some.inj hfront]
  have hlive : (MemState.vacant.put id greeting).expired 0 id = false := by
    unfold MemState.expired
    rw [MemState.put_msgs, Finmap.lookup_insert]
    decide
  rw [hlive]
  rfl

/-- The store after its first message. -/
def afterFirst (node : Nat) : System Row :=
  let id := pack 64 48 node 0
  { vacant with counter := 1 }.withMem (MemState.vacant.put id greeting)

theorem fits_greeting (id : MsgId) : Fits (MemState.vacant.msgs.insert id greeting) := by
  unfold Fits
  rw [Table.total_insert _ (MemState.not_mem_vacant _)]
  decide

theorem run_firstStore (codec : Codec Row) (node : Nat) :
    Run (step (uncapped node) codec) (Careful (uncapped node) codec) vacant (firstStore node)
      (afterFirst node) := by
  refine Run.cons trivial rfl (Run.cons trivial rfl (Run.cons trivial ?_ (Run.nil _)))
  show (if Fits (MemState.vacant.msgs.insert (pack 64 48 node 0) greeting) then _ else none) = _
  rw [if_pos (fits_greeting _)]
  show some (withMem _ (MemState.vacant.insertMsg (uncapped node) 0 _ greeting)) = _
  rw [insertMsg_vacant]
  rfl


/-- The first flush of the node. -/
def firstFlush : List Event :=
  [Event.flush 0 true, Event.settle 0]

theorem lookup_afterFirst (node : Nat) :
    (@afterFirst Row node).mem.msgs.lookup (pack 64 48 node 0) = some greeting := by
  show (MemState.vacant.put (pack 64 48 node 0) greeting).msgs.lookup _ = _
  rw [MemState.put_msgs, Finmap.lookup_insert]

/-- A flush of the first message leaves its row in the table. -/
theorem run_firstFlush (hlaw : codec.RoundTrips) (node : Nat) :
    exists s, Run (step (uncapped node) codec) Always (afterFirst node) firstFlush s ∧
      pack 64 48 node 0 ∈ s.disk := by
  have hevict : (@afterFirst Row node).mem.evict (uncapped node) 0 = (@afterFirst Row node).mem :=
    insertMsg_vacant node _
  have hdirty : pack 64 48 node 0 ∈ (@afterFirst Row node).mem.dirty := by
    show _ ∈ (MemState.vacant.put (pack 64 48 node 0) greeting).dirty
    rw [MemState.put_dirty]
    exact Finset.mem_insert_self _ _
  rcases hlaw greeting with ⟨row, henc, _⟩
  have hbatch : (pack 64 48 node 0, row) ∈
      batchOf codec ((@afterFirst Row node).mem.evict (uncapped node) 0) := by
    rw [hevict]
    exact mem_batchOf.mpr ⟨hdirty, greeting, lookup_afterFirst node, henc⟩
  have hflight : ((afterFirst node).snapshot (uncapped node) codec 0 true).flight =
      [Flush.take codec ((@afterFirst Row node).mem.evict (uncapped node) 0) true] := by
    rw [snapshot_flight, Follows.isEmpty_take_of_batch hbatch]
    rfl
  refine ⟨settle ((afterFirst node).snapshot (uncapped node) codec 0 true) 0
      (Flush.take codec ((@afterFirst Row node).mem.evict (uncapped node) 0) true),
    Run.cons trivial rfl (Run.cons trivial ?_ (Run.nil _)), ?_⟩
  · simp only [step]
    rw [hflight]
    rfl
  · exact Finmap.mem_of_lookup_eq_some (Flush.lookup_apply_of_mem _ hbatch)

theorem storesDrawn_first (codec : Codec Row) (node : Nat) :
    StoresDrawn (uncapped node) codec vacant (firstStore node ++ firstFlush) := by
  intro pre now id sender p expiryInterval post hes _
  have hdrawn : drawn (uncapped node) codec vacant [Event.nextMsgId] = [pack 64 48 node 0] := rfl
  -- the store is the second event, after the draw
  rcases pre with _ | ⟨first, _ | ⟨second, _ | ⟨third, _ | ⟨fourth, _ | ⟨fifth, pre⟩⟩⟩⟩⟩
  all_goals simp [firstStore, firstFlush] at hes
  rw [← hes.left, hdrawn, hes.right.left.right.left]
  exact List.mem_singleton_self _

/-- The first row of the node on its own. -/
theorem left_first (hlaw : codec.RoundTrips) (node : Nat) (row : Row) :
    Left codec node ((∅ : Table MsgId Row).insert (pack 64 48 node 0) row) 1 := by
  have hfirst := (run_firstStore codec node).mono (fun _ _ _ => trivial)
  rcases run_firstFlush hlaw node with ⟨s, hflush, hrow⟩
  have hleft := Left.ran (Left.empty) rfl (openStore_empty (uncapped node) codec 0)
    (hfirst.append hflush) (storesDrawn_first codec node)
  rw [length_drawn (hfirst.append hflush)] at hleft
  refine Left.changed hleft ?_
  intro id hid _
  rw [Finmap.mem_insert] at hid
  rcases hid with rfl | hnone
  · exact hrow
  · exact absurd hnone Finmap.notMem_empty

theorem not_neverReused {node : Nat} (hlaw : codec.RoundTrips) (hnode : 2 ^ 16 ≤ node) :
    ¬ NeverReused codec node := by
  intro hnever
  rcases hlaw greeting with ⟨row, _, hdec⟩
  have hrows : forall id, id ∈ (∅ : Table MsgId Row).insert (pack 64 48 node 0) row ->
      id = pack 64 48 node 0 := by
    intro id hid
    rcases Finmap.mem_insert.mp hid with heq | hnone
    · exact heq
    · exact absurd hnone Finmap.notMem_empty
  have hopen : exists s, openStore (uncapped node) codec
      ((∅ : Table MsgId Row).insert (pack 64 48 node 0) row) 0 = some s := by
    apply openStore_of_fits
    refine le_trans (Table.total_le_of_sub ?_) (fits_greeting (pack 64 48 node 0))
    intro id msg hlookup
    rcases (lookup_load.mp hlookup).left with ⟨row', hrow', hdec'⟩
    rw [Table.lookup_insert_if] at hrow' ⊢
    split at hrow'
    · rename_i heq
      rw [if_pos heq]
      rw [← Option.some.inj hrow', hdec] at hdec'
      exact hdec'
    · cases hrow' 
  rcases hopen with ⟨s, hopen⟩
  have hcounter : s.counter = 0 := by
    apply Nat.le_zero.mp
    apply counter_le_of_forall hopen
    intro id hid hmatch
    rw [hrows id hid, pack_shiftRight (by decide)] at hmatch
    have hlt : node % 2 ^ (64 - 48) < 2 ^ 16 := Nat.mod_lt _ (by decide)
    have heq : node % 2 ^ (64 - 48) = node := hmatch
    omega
  have hdrawn : drawn (uncapped node) codec s [Event.nextMsgId] = [pack 64 48 node 0] := by
    show [pack 64 48 node s.counter] = _
    rw [hcounter]
  have hbudget : 1 + (drawn (uncapped node) codec s [Event.nextMsgId]).length < 2 ^ 48 := by
    rw [hdrawn, List.length_singleton]
    decide
  have hreused := hnever (uncapped node) _ 1 0 s [Event.nextMsgId] _ rfl (left_first hlaw node row)
    hopen (Run.cons trivial rfl (Run.nil _)) hbudget
  rw [hdrawn] at hreused
  exact hreused.right _ (List.mem_singleton_self _) (Finmap.mem_insert.mpr (Or.inl rfl))

theorem not_neverShared {node node' : Nat} (hsame : node % 2 ^ 16 = node' % 2 ^ 16) :
    ¬ NeverShared codec node node' := by
  intro hnever
  have hrun : forall n, Run (step (uncapped n) codec) Always vacant [Event.nextMsgId]
      { vacant with counter := 1 } := by
    intro n
    exact Run.cons trivial rfl (Run.nil _)
  have hdrawn : forall n, drawn (uncapped n) codec vacant [Event.nextMsgId] = [pack 64 48 n 0] := by
    intro n
    rfl
  have hbudget : forall n,
      0 + (drawn (uncapped n) codec vacant [Event.nextMsgId]).length < 2 ^ 48 := by
    intro n
    rw [hdrawn, List.length_singleton]
    decide
  have hid : pack 64 48 node 0 = pack 64 48 node' 0 := by
    rw [pack_eq (by decide), pack_eq (by decide)]
    exact congrArg (fun hi => hi * 2 ^ 48 + 0 % 2 ^ 48) hsame
  refine hnever (uncapped node) ∅ 0 0 vacant _ _ (uncapped node') ∅ 0 0 vacant _ _ rfl Left.empty
    (openStore_empty _ codec 0) (hrun node) (hbudget node) rfl Left.empty
    (openStore_empty _ codec 0) (hrun node') (hbudget node') (pack 64 48 node 0) ?_ ?_
  · rw [hdrawn]
    exact List.mem_singleton_self _
  · rw [hdrawn, hid]
    exact List.mem_singleton_self _

theorem msg_ids_unique_iff {node node' : Nat} (hlaw : codec.RoundTrips) (hne : node ≠ node') :
    (NeverReused codec node ∧ NeverReused codec node' ∧ NeverShared codec node node') <->
      node < 2 ^ 16 ∧ node' < 2 ^ 16 := by
  constructor
  · rintro ⟨hnode, hnode', _⟩
    constructor
    · by_contra hlarge
      exact not_neverReused hlaw (Nat.le_of_not_lt hlarge) hnode
    · by_contra hlarge
      exact not_neverReused hlaw (Nat.le_of_not_lt hlarge) hnode'
  · rintro ⟨hnode, hnode'⟩
    exact ⟨neverReused_of_lt hnode, neverReused_of_lt hnode', neverShared_of_lt hne hnode hnode'⟩

theorem msg_ids_unique_iff_small :
    NeverReused Sample.codec 1 ∧ NeverReused Sample.codec 2 ∧ NeverShared Sample.codec 1 2 :=
  (msg_ids_unique_iff Sample.codec_roundTrips (by decide)).mpr ⟨by decide, by decide⟩

/-- The node 65536 draws the id of a row again, and 65537 draws the ids of 1. -/
theorem msg_ids_unique_fails :
    ¬ NeverReused Sample.codec 65536 ∧ ¬ NeverShared Sample.codec 1 65537 :=
  ⟨not_neverReused Sample.codec_roundTrips (by decide), not_neverShared (by decide)⟩

end System

end Store
end Ciqada
