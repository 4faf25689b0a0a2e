import Ciqada.Store.Coherence
import Ciqada.Store.FailedFlush

/-!
# Two flushes at once

The periodic flush and the flush at shutdown may overlap.  Each takes its
snapshot under the lock, but nothing orders their transactions.  The later
snapshot prevails if its transaction comes second; if it comes first, it
prevails only where the two snapshots agree.
-/

namespace Ciqada
namespace Store

open Foundation Broker

namespace Flush

variable {Row : Type}

/-- What a flush does to an id: write a row, remove it, or not mention it. -/
def outcome (f : Flush Row) (id : MsgId) : Option (Option Row) :=
  match f.batch.lookup id with
  | some row => some (some row)
  | none => if id ∈ f.removed then some none else none

theorem outcome_of_mem {f : Flush Row} {id : MsgId} {row : Row} (h : (id, row) ∈ f.batch) :
    f.outcome id = some (some row) := by
  unfold outcome
  cases hlookup : f.batch.lookup id with
  | none =>
      have hne := List.lookup_eq_none_iff.mp hlookup (id, row) h
      simp at hne
  | some row' =>
      rcases List.lookup_eq_some_iff.mp hlookup with ⟨before, after, hsplit, _⟩
      have hmem : (id, row') ∈ f.batch := by
        rw [hsplit]
        exact List.mem_append_right before List.mem_cons_self
      have hrow := Table.lookup_writeRows_of_mem ∅ f.nodup h
      rw [Table.lookup_writeRows_of_mem ∅ f.nodup hmem] at hrow
      rw [Option.some.inj hrow]

theorem outcome_of_not_mem {f : Flush Row} {id : MsgId} (h : id ∉ f.batch.map Prod.fst) :
    f.outcome id = if id ∈ f.removed then some none else none := by
  have hlookup : f.batch.lookup id = none := by
    rw [List.lookup_eq_none_iff]
    intro entry hentry
    rw [bne_iff_ne]
    intro heq
    apply h
    rw [heq]
    exact List.mem_map.mpr ⟨entry, hentry, rfl⟩
  unfold outcome
  rw [hlookup]

theorem lookup_apply {f : Flush Row} (h : f.commits = true) (disk : Table MsgId Row)
    (id : MsgId) : (f.apply disk).lookup id = (f.outcome id).getD (disk.lookup id) := by
  unfold apply
  rw [if_pos h]
  by_cases hid : id ∈ f.batch.map Prod.fst
  · rcases List.mem_map.mp hid with ⟨⟨id', row⟩, hrow, rfl⟩
    rw [Table.lookup_writeRows_of_mem _ f.nodup hrow, outcome_of_mem hrow]
    rfl
  · rw [Table.lookup_writeRows_of_not_mem _ hid, Table.lookup_eraseKeys, outcome_of_not_mem hid]
    split
    · rfl
    · rfl

end Flush

namespace System

variable {Row : Type} {cfg : Config} {codec : Codec Row} {s s' t final : System Row}

/-- The ids whose rows are to be written or removed. -/
def owed (m : MemState) : Finset MsgId :=
  m.dirty ∪ m.removed

/-- A flush gives each owed id the content it has in memory, or none. -/
theorem outcome_take {m : MemState} (hlaw : codec.RoundTrips) (h : m.Coherent) (id : MsgId) :
    (Flush.take codec m true).outcome id =
      if id ∈ owed m then some ((m.msgs.lookup id).bind codec.enc) else none := by
  unfold owed
  by_cases hdirty : id ∈ m.dirty
  · rcases Finmap.mem_iff.mp (h.dirtyHeld id hdirty) with ⟨msg, hlookup⟩
    rcases hlaw msg with ⟨row, henc, _⟩
    have hrow : (id, row) ∈ (Flush.take codec m true).batch :=
      mem_batchOf.mpr ⟨hdirty, msg, hlookup, henc⟩
    rw [Flush.outcome_of_mem hrow, if_pos (Finset.mem_union_left _ hdirty), hlookup,
      Option.bind_some, henc]
  · have hout : id ∉ (Flush.take codec m true).batch.map Prod.fst := by
      intro hid
      rcases List.mem_map.mp hid with ⟨⟨id', row⟩, hrow, rfl⟩
      exact hdirty (mem_batchOf.mp hrow).left
    rw [Flush.outcome_of_not_mem hout]
    show (if id ∈ ascending m.removed then some none else none) = _
    by_cases hremoved : id ∈ m.removed
    · rw [if_pos (mem_ascending.mpr hremoved), if_pos (Finset.mem_union_right _ hremoved),
        Finmap.lookup_eq_none.mpr (h.removedGone id hremoved)]
      rfl
    · rw [if_neg (fun hin => hremoved (mem_ascending.mp hin)), if_neg]
      intro hin
      rcases Finset.mem_union.mp hin with hin' | hin'
      · exact hdirty hin'
      · exact hremoved hin'

/-!
## The interleaving
-/

/-- The steps that neither start nor end a flush. -/
def MemoryOnly (_s : System Row) : Event -> Prop
  | Event.flush _ _ => False
  | Event.settle _ => False
  | _ => True

instance (s : System Row) : (e : Event) -> Decidable (MemoryOnly s e)
  | Event.flush _ _ => isFalse id
  | Event.settle _ => isFalse id
  | Event.nextMsgId => isTrue trivial
  | Event.store _ _ _ _ _ => isTrue trivial
  | Event.work _ => isTrue trivial
  | Event.get _ _ _ _ => isTrue trivial

/--
Two flushes at once.  The first snapshot is taken at `s`, the second at `t`, and
`i` says which transaction comes first: 0 for that of the first snapshot.
-/
structure Overlap (cfg : Config) (codec : Codec Row) (s : System Row) (now1 : Int)
    (t : System Row) (now2 : Int) (i : Nat) (final : System Row) : Prop where
  idle : s.flight = []
  between : exists es, Run (step cfg codec) MemoryOnly (s.snapshot cfg codec now1 true) es t
  ends : exists es u v es' w,
    Run (step cfg codec) MemoryOnly (t.snapshot cfg codec now2 true) es u ∧
      step cfg codec u (Event.settle i) = some v ∧
      Run (step cfg codec) MemoryOnly v es' w ∧
      step cfg codec w (Event.settle 0) = some final

/--
The later snapshot prevails: each id has the outcome of the later flush that
mentions it, no id evicted by then is on disk, and every message is on disk with
the marks it had.
-/
structure LaterPrevails (codec : Codec Row) (f1 f2 : Flush Row) (s later final : System Row) :
    Prop where
  outcome : forall id, final.disk.lookup id =
    ((f2.outcome id).or (f1.outcome id)).getD (s.disk.lookup id)
  evicted : forall id, id ∈ later.evicted -> final.disk.lookup id = none
  marks : forall id msg, later.mem.msgs.lookup id = some msg -> OnDisk codec final.disk id msg

theorem memoryOnly_step {e : Event} (hmeets : MemoryOnly s e)
    (hstep : step cfg codec s e = some s') : s'.disk = s.disk ∧ s'.flight = s.flight := by
  cases effect_of_step hstep with
  | idle _ channel counter => exact ⟨rfl, rfl⟩
  | memory _ channel hm => exact ⟨rfl, rfl⟩
  | snapshot now commits => exact hmeets.elim
  | settled i hf => exact hmeets.elim

theorem memoryOnly_run {es : List Event} (hrun : Run (step cfg codec) MemoryOnly s es s') :
    s'.disk = s.disk ∧ s'.flight = s.flight := by
  apply @Run.invariant _ _ _ _ (fun u => u.disk = s.disk ∧ u.flight = s.flight) _ _ _ hrun
    ⟨rfl, rfl⟩
  intro u e v hinv hmeets hstep
  rcases memoryOnly_step hmeets hstep with ⟨hdisk, hflight⟩
  exact ⟨hdisk.trans hinv.left, hflight.trans hinv.right⟩

theorem careful_of_memoryOnly {e : Event} (h : MemoryOnly s e) : Careful cfg codec s e := by
  cases e with
  | flush now commits => exact h.elim
  | settle i => trivial
  | nextMsgId => trivial
  | store now msgId sender p expiryInterval => trivial
  | work now => trivial
  | get now clientId topicFilter iter => trivial

theorem coherent_memoryOnly {es : List Event} (h : s.mem.Coherent)
    (hrun : Run (step cfg codec) MemoryOnly s es s') : s'.mem.Coherent := by
  apply @Run.invariant _ _ _ _ (fun u => u.mem.Coherent) _ _ _ hrun h
  intro u e v hinv _ hstep
  exact coherent_step hinv hstep

/-!
## The disk at the end
-/

/-- With both transactions done, there were two of them, and `i` is their order. -/
theorem Overlap.disk {now1 now2 : Int} {i : Nat} (h : Overlap cfg codec s now1 t now2 i final) :
    t.flight = [Flush.take codec (s.mem.evict cfg now1) true] ∧ t.disk = s.disk ∧
      (Flush.take codec (t.mem.evict cfg now2) true).isEmpty = false ∧
      ((i = 0 ∧ final.disk = (Flush.take codec (t.mem.evict cfg now2) true).apply
          ((Flush.take codec (s.mem.evict cfg now1) true).apply s.disk)) ∨
        (i = 1 ∧ final.disk = (Flush.take codec (s.mem.evict cfg now1) true).apply
          ((Flush.take codec (t.mem.evict cfg now2) true).apply s.disk))) := by
  rcases h.between with ⟨es1, hbetween⟩
  rcases h.ends with ⟨es2, u, v, es3, w, hafter, hfirst, hgap, hsecond⟩
  rcases memoryOnly_run hbetween with ⟨htdisk, htflight⟩
  rcases memoryOnly_run hafter with ⟨hudisk, huflight⟩
  rcases memoryOnly_run hgap with ⟨hwdisk, hwflight⟩
  rcases of_step_settle hfirst with ⟨f, hf, rfl⟩
  rcases of_step_settle hsecond with ⟨g, hg, rfl⟩
  rw [snapshot_disk] at htdisk hudisk
  rw [snapshot_flight, h.idle] at htflight
  rw [snapshot_flight, htflight] at huflight
  change w.flight = u.flight.eraseIdx i at hwflight
  change w.disk = f.apply u.disk at hwdisk
  rw [huflight] at hf hwflight
  rw [hwflight] at hg
  rw [hudisk, htdisk] at hwdisk
  show _ ∧ _ ∧ _ ∧ ((i = 0 ∧ g.apply w.disk = _) ∨ (i = 1 ∧ g.apply w.disk = _))
  rw [hwdisk, htflight, htdisk]
  cases hempty1 : (Flush.take codec (s.mem.evict cfg now1) true).isEmpty with
  | true =>
      -- one transaction at most, so there is no second one to finish
      rw [hempty1] at hg
      cases hempty2 : (Flush.take codec (t.mem.evict cfg now2) true).isEmpty with
      | true =>
          rw [hempty2] at hg
          cases hg
      | false =>
          rw [hempty1, hempty2] at hf
          rw [hempty2] at hg
          cases i with
          | zero => cases hg
          | succ i => cases hf
  | false =>
      rw [hempty1] at hf hg
      cases hempty2 : (Flush.take codec (t.mem.evict cfg now2) true).isEmpty with
      | true =>
          rw [hempty2] at hf hg
          cases i with
          | zero => cases hg
          | succ i => cases hf
      | false =>
          rw [hempty2] at hf hg
          refine ⟨rfl, rfl, rfl, ?_⟩
          cases i with
          | zero =>
              rw [← Option.some.inj hf, ← Option.some.inj hg]
              exact Or.inl ⟨rfl, rfl⟩
          | succ i =>
              cases i with
              | zero =>
                  rw [← Option.some.inj hf, ← Option.some.inj hg]
                  exact Or.inr ⟨rfl, rfl⟩
              | succ i => cases hf

/-- Had the first transaction come before the second snapshot, the disk would be up to date. -/
theorem persisted_in_order {f1 : Flush Row} {now : Int} (hlaw : codec.RoundTrips)
    (h : Follows codec t) (hflight : t.flight = [f1])
    (hsome : (Flush.take codec (t.mem.evict cfg now) true).isEmpty = false) :
    (forall id msg, (t.snapshot cfg codec now true).mem.msgs.lookup id = some msg ->
      OnDisk codec ((Flush.take codec (t.mem.evict cfg now) true).apply (f1.apply t.disk)) id msg) ∧
    forall id, id ∈ (t.snapshot cfg codec now true).evicted ->
      ((Flush.take codec (t.mem.evict cfg now) true).apply (f1.apply t.disk)).lookup id = none := by
  have hf : t.flight[0]? = some f1 := by
    rw [hflight]
    rfl
  have hidle : (t.settle 0 f1).flight = [] := by
    show t.flight.eraseIdx 0 = []
    rw [hflight]
    rfl
  have hsnap := @Follows.snapshot_commits _ cfg _ _ (h.settle hf) hlaw hidle now
  have hsnapFlight : ((t.settle 0 f1).snapshot cfg codec now true).flight =
      [Flush.take codec (t.mem.evict cfg now) true] := by
    rw [snapshot_flight, hidle]
    show (if (Flush.take codec (t.mem.evict cfg now) true).isEmpty then _ else _) = _
    rw [hsome]
    rfl
  have hdone := hsnap.settle (i := 0) (by rw [hsnapFlight]; rfl)
  have hpersisted := hdone.persisted (by
      show ((t.settle 0 f1).snapshot cfg codec now true).flight.eraseIdx 0 = []
      rw [hsnapFlight]
      rfl)
    (by
      show ((t.settle 0 f1).snapshot cfg codec now true).mem.dirty = ∅
      rw [snapshot_mem])
    (by
      show ((t.settle 0 f1).snapshot cfg codec now true).mem.removed = ∅
      rw [snapshot_mem])
  have hdisk : (((t.settle 0 f1).snapshot cfg codec now true).settle 0
      (Flush.take codec (t.mem.evict cfg now) true)).disk =
      (Flush.take codec (t.mem.evict cfg now) true).apply (f1.apply t.disk) := by
    show (Flush.take codec (t.mem.evict cfg now) true).apply
      ((t.settle 0 f1).snapshot cfg codec now true).disk = _
    rw [snapshot_disk]
    rfl
  have hmem : ((t.settle 0 f1).snapshot cfg codec now true).mem =
      (t.snapshot cfg codec now true).mem := by
    rw [snapshot_mem, snapshot_mem]
    rfl
  have hevicted : ((t.settle 0 f1).snapshot cfg codec now true).evicted =
      (t.snapshot cfg codec now true).evicted := by
    rw [snapshot_evicted, snapshot_evicted]
    rfl
  rw [← hmem, ← hevicted, ← hdisk]
  exact hpersisted

/-!
## When the later snapshot prevails
-/

theorem enc_injective {msg msg' : StoredMsg} (hlaw : codec.RoundTrips)
    (h : codec.enc msg = codec.enc msg') : msg = msg' := by
  rcases hlaw msg with ⟨row, henc, hdec⟩
  rcases hlaw msg' with ⟨row', henc', hdec'⟩
  rw [henc, henc'] at h
  rw [Option.some.inj h, hdec'] at hdec
  exact (Option.some.inj hdec).symm

/-- Equal outcomes come from equal contents of memory. -/
theorem bind_enc_injective {o o' : Option StoredMsg} (hlaw : codec.RoundTrips)
    (h : o.bind codec.enc = o'.bind codec.enc) : o = o' := by
  cases o with
  | none =>
      cases o' with
      | none => rfl
      | some msg' =>
          rcases hlaw msg' with ⟨row, henc, _⟩
          rw [Option.bind_some, henc] at h
          cases h
  | some msg =>
      cases o' with
      | none =>
          rcases hlaw msg with ⟨row, henc, _⟩
          rw [Option.bind_some, henc] at h
          cases h
      | some msg' =>
          rw [Option.bind_some, Option.bind_some] at h
          rw [enc_injective hlaw h]

theorem lookup_apply_apply {f f' : Flush Row} (h : f.commits = true) (h' : f'.commits = true)
    (disk : Table MsgId Row) (id : MsgId) :
    (f'.apply (f.apply disk)).lookup id =
      ((f'.outcome id).or (f.outcome id)).getD (disk.lookup id) := by
  rw [Flush.lookup_apply h', Flush.lookup_apply h]
  cases f'.outcome id with
  | none => rfl
  | some row => rfl

/-- If the transactions in order bring the disk up to date, the outcomes decide. -/
theorem laterPrevails_iff {f1 f2 : Flush Row} {later : System Row} (h1 : f1.commits = true)
    (h2 : f2.commits = true)
    (hinOrder : (forall id msg, later.mem.msgs.lookup id = some msg ->
        OnDisk codec (f2.apply (f1.apply s.disk)) id msg) ∧
      forall id, id ∈ later.evicted -> (f2.apply (f1.apply s.disk)).lookup id = none) :
    LaterPrevails codec f1 f2 s later final <->
      forall id, final.disk.lookup id =
        ((f2.outcome id).or (f1.outcome id)).getD (s.disk.lookup id) := by
  constructor
  · intro h
    exact h.outcome
  · intro h
    have hdisk : final.disk = f2.apply (f1.apply s.disk) := by
      apply Finmap.ext_lookup
      intro id
      rw [h id, lookup_apply_apply h1 h2]
    rw [← hdisk] at hinOrder
    exact ⟨h, hinOrder.right, hinOrder.left⟩

/-- In the wrong order the outcomes are right where both flushes agree. -/
theorem swapped_iff {f1 f2 : Flush Row} (h1 : f1.commits = true) (h2 : f2.commits = true)
    (disk : Table MsgId Row) (id : MsgId) :
    (f1.apply (f2.apply disk)).lookup id =
        ((f2.outcome id).or (f1.outcome id)).getD (disk.lookup id) <->
      forall row row', f1.outcome id = some row -> f2.outcome id = some row' -> row = row' := by
  rw [lookup_apply_apply h2 h1]
  cases f1.outcome id with
  | none => simp
  | some row =>
      cases f2.outcome id with
      | none => simp
      | some row' => simp

/--
Of two overlapping flushes that both commit, the later snapshot prevails if and
only if the transaction of the earlier one comes first, or every id that both
snapshots owe to the disk has the same content in memory at both.
-/
theorem overlapping_flushes_iff {disk : Table MsgId Row} {opened : Int} {es : List Event}
    {s0 : System Row} {now1 now2 : Int} {i : Nat} (hlaw : codec.RoundTrips)
    (hopen : openStore cfg codec disk opened = some s0)
    (hrun : Run (step cfg codec) (Careful cfg codec) s0 es s)
    (hover : Overlap cfg codec s now1 t now2 i final) :
    LaterPrevails codec (Flush.take codec (s.mem.evict cfg now1) true)
        (Flush.take codec (t.mem.evict cfg now2) true) s (t.snapshot cfg codec now2 true) final <->
      (i = 0 ∨ forall id, id ∈ owed (s.mem.evict cfg now1) -> id ∈ owed (t.mem.evict cfg now2) ->
        (s.mem.evict cfg now1).msgs.lookup id = (t.mem.evict cfg now2).msgs.lookup id) := by
  rcases hover.disk with ⟨htflight, htdisk, hsome, hdisk⟩
  rcases hover.between with ⟨es1, hbetween⟩
  have hs := follows_run hlaw (follows_openStore hopen) hrun
  have ht : Follows codec t := follows_run hlaw (hs.snapshot_commits hlaw hover.idle now1)
    (hbetween.mono (fun _ _ h => careful_of_memoryOnly h))
  have hinOrder := persisted_in_order hlaw ht htflight hsome
  rw [htdisk] at hinOrder
  rw [laterPrevails_iff rfl rfl hinOrder]
  rcases hdisk with ⟨hi, hdisk⟩ | ⟨hi, hdisk⟩
  · constructor
    · intro _
      exact Or.inl hi
    · intro _ id
      rw [hdisk]
      exact lookup_apply_apply rfl rfl s.disk id
  · have hcoherent := coherent_run hopen (hrun.mono (fun _ _ _ => trivial))
    have hsnap : (s.snapshot cfg codec now1 true).mem.Coherent :=
      coherent_step hcoherent (rfl : step cfg codec s (Event.flush now1 true) = _)
    have houtcome1 := outcome_take hlaw (hcoherent.evict cfg now1)
    have houtcome2 := outcome_take hlaw ((coherent_memoryOnly hsnap hbetween).evict cfg now2)
    rw [hdisk, hi]
    constructor
    · intro h
      right
      intro id howed1 howed2
      have hagree := (swapped_iff rfl rfl s.disk id).mp (h id)
      rw [houtcome1, houtcome2, if_pos howed1, if_pos howed2] at hagree
      exact bind_enc_injective hlaw (hagree _ _ rfl rfl)
    · intro h id
      rcases h with hzero | hagree
      · cases hzero
      · rw [swapped_iff rfl rfl]
        intro row row' hrow hrow'
        rw [houtcome1] at hrow
        rw [houtcome2] at hrow'
        split at hrow
        · rename_i howed1
          split at hrow'
          · rename_i howed2
            rw [← Option.some.inj hrow, ← Option.some.inj hrow', hagree id howed1 howed2]
          · cases hrow'
        · cases hrow

end System

namespace Sample

/-- The message of the first snapshot is replayed before the second one. -/
def marked : System (Option StoredMsg) :=
  (exec? (System.step cfg codec) System.MemoryOnly (pending.snapshot cfg codec 12 true)
    [Event.get 13 "reader" "a/b" [7]]).get (by decide +kernel)

def bothTaken : System (Option StoredMsg) :=
  marked.snapshot cfg codec 14 true

/-- The transactions in the order of the snapshots. -/
def inOrder : System (Option StoredMsg) :=
  (exec? (System.step cfg codec) Always bothTaken [Event.settle 0, Event.settle 0]).get
    (by decide +kernel)

/-- The transaction of the second snapshot comes first. -/
def swapped : System (Option StoredMsg) :=
  (exec? (System.step cfg codec) Always bothTaken [Event.settle 1, Event.settle 0]).get
    (by decide +kernel)

end Sample

namespace System

theorem overlap_of_exec {Row : Type} {cfg : Config} {codec : Codec Row}
    {s t final : System Row} {i : Nat} {es : List Event} {now1 now2 : Int}
    (hidle : s.flight = []) (hbetween : Run (step cfg codec) MemoryOnly
      (s.snapshot cfg codec now1 true) es t)
    (hends : exec? (step cfg codec) Always (t.snapshot cfg codec now2 true)
      [Event.settle i, Event.settle 0] = some final) :
    Overlap cfg codec s now1 t now2 i final := by
  refine ⟨hidle, ⟨es, hbetween⟩, ?_⟩
  cases Run.of_exec? hends with
  | @cons _ v _ _ _ _ hfirst htail =>
      cases htail with
      | @cons _ w _ _ _ _ hsecond hnil =>
          cases hnil
          exact ⟨[], _, v, [], v, Run.nil _, hfirst, Run.nil v, hsecond⟩

/-- The sample run up to the first snapshot. -/
theorem run_pending :
    exists es, Run (step Sample.cfg Sample.codec) (Careful Sample.cfg Sample.codec)
      Sample.opened es Sample.pending := by
  have hrun := @Run.of_isSome _ _ (step Sample.cfg Sample.codec) Orderly _ Sample.opened
    [Event.store 10 7 Sample.sender (Sample.publish "a/b") 100, Event.work 11] (by decide +kernel)
  exact ⟨_, hrun.mono (fun _ _ horderly => careful_of_orderly horderly)⟩

theorem overlap_sample {final : System (Option StoredMsg)} {i : Nat}
    (hends : exec? (step Sample.cfg Sample.codec) Always
      Sample.bothTaken [Event.settle i, Event.settle 0] = some final) :
    Overlap Sample.cfg Sample.codec Sample.pending 12 Sample.marked 14 i final := by
  apply overlap_of_exec (List.isEmpty_iff.mp (by decide +kernel)) _ hends
  · exact [Event.get 13 "reader" "a/b" [7]]
  · exact Run.of_isSome (by decide +kernel)

theorem overlapping_flushes_in_order :
    LaterPrevails Sample.codec
      (Flush.take Sample.codec (Sample.pending.mem.evict Sample.cfg 12) true)
      (Flush.take Sample.codec (Sample.marked.mem.evict Sample.cfg 14) true)
      Sample.pending Sample.bothTaken Sample.inOrder ∧
    (Sample.inOrder.disk.lookup 7).isSome = true := by
  rcases run_pending with ⟨es, hrun⟩
  have hover := @overlap_sample Sample.inOrder 0 (Option.some_get _).symm
  exact ⟨(overlapping_flushes_iff Sample.codec_roundTrips Sample.opened_eq hrun hover).mpr
    (Or.inl rfl), by decide +kernel⟩

/--
A message is written by the first flush, marked, and written by the second one,
whose transaction comes first: the mark is missing on disk.
-/
theorem overlapping_flushes_fail :
    ¬ forall es s t final now1 now2 i,
      Run (step Sample.cfg Sample.codec) (Careful Sample.cfg Sample.codec) Sample.opened es s ->
      Overlap Sample.cfg Sample.codec s now1 t now2 i final ->
      LaterPrevails Sample.codec (Flush.take Sample.codec (s.mem.evict Sample.cfg now1) true)
        (Flush.take Sample.codec (t.mem.evict Sample.cfg now2) true) s
        (t.snapshot Sample.cfg Sample.codec now2 true) final := by
  intro h
  rcases run_pending with ⟨es, hrun⟩
  have hover := @overlap_sample Sample.swapped 1 (Option.some_get _).symm
  have hprevails := h es _ _ _ _ _ _ hrun hover
  have hmem : (Sample.bothTaken.mem.msgs.lookup 7).map StoredMsg.deliveredTo =
      some {"reader"} := by decide +kernel
  rcases Option.map_eq_some_iff.mp hmem with ⟨msg, hlookup, hmarks⟩
  rcases hprevails.marks 7 msg hlookup with ⟨row, hrow, hdec⟩
  have hdisk : ((Sample.swapped.disk.lookup 7).bind Sample.codec.dec).map StoredMsg.deliveredTo =
      some ∅ := by decide +kernel
  rw [hrow, Option.bind_some, hdec, Option.map_some, hmarks] at hdisk
  exact absurd (Option.some.inj hdisk) (by decide +kernel)

end System

end Store
end Ciqada
