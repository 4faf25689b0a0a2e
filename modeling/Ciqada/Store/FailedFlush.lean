import Ciqada.Store.DiskFollowsMemory

/-!
# Flushes that fail

A flush empties `dirty` and `removed` before its transaction runs, and a failed
transaction does not put them back.  What it took is lost for the disk, so the
flush is harmless only when the disk already had all of it.
-/

namespace Ciqada
namespace Store

open Foundation Broker

namespace System

variable {Row : Type} {cfg : Config} {codec : Codec Row} {s s' : System Row}

/--
A flush that fails from this state loses nothing: whatever follows, the next
flush that succeeds undisturbed leaves every message on disk as it is in memory,
and no evicted id.
-/
def LosesNothing (cfg : Config) (codec : Codec Row) (s : System Row) (now : Int) : Prop :=
  forall s1 es t t', step cfg codec s (Event.flush now false) = some s1 ->
    Run (step cfg codec) (Careful cfg codec) s1 es t -> Flushed cfg codec t t' ->
    Persisted codec t'

/-!
## The flush right after a failed one
-/

theorem snapshot_again {now : Int} {commits : Bool} (hrests : MemState.Rests cfg now s.mem)
    (hdirty : s.mem.dirty = ∅) (hremoved : s.mem.removed = ∅) (hidle : s.flight = []) :
    (s.snapshot cfg codec now commits).flight = [] ∧
      (s.snapshot cfg codec now commits).mem.msgs = s.mem.msgs := by
  have hevict := MemState.evict_of_rests hrests
  constructor
  · rw [snapshot_flight, hevict, hidle]
    apply if_pos
    show ((batchOf codec s.mem).isEmpty && (ascending s.mem.removed).isEmpty) = true
    unfold batchOf
    rw [hdirty, hremoved]
    rfl
  · rw [snapshot_mem, hevict]

/-- A failed flush takes its changes along: the next one finds nothing to write. -/
theorem persisted_of_losesNothing {now : Int} (htidy : Tidy s) (hidle : s.flight = [])
    (h : LosesNothing cfg codec s now) : Persisted codec (s.withMem (s.mem.evict cfg now)) := by
  have hsettled : exists es t, Run (step cfg codec) (Careful cfg codec)
      (s.snapshot cfg codec now false) es t ∧ t.flight = [] ∧ t.disk = s.disk ∧
      t.mem = (s.snapshot cfg codec now false).mem ∧
      t.evicted = (s.snapshot cfg codec now false).evicted := by
    cases hempty : (Flush.take codec (s.mem.evict cfg now) false).isEmpty with
    | true =>
        refine ⟨[], _, Run.nil _, ?_, snapshot_disk cfg codec s now false, rfl, rfl⟩
        rw [snapshot_flight, hempty, hidle]
        rfl
    | false =>
        have hflight : (s.snapshot cfg codec now false).flight =
            [Flush.take codec (s.mem.evict cfg now) false] := by
          rw [snapshot_flight, hempty, hidle]
          rfl
        have hstep : step cfg codec (s.snapshot cfg codec now false) (Event.settle 0) =
            some ((s.snapshot cfg codec now false).settle 0
              (Flush.take codec (s.mem.evict cfg now) false)) := by
          simp only [step, hflight, List.getElem?_cons_zero]
        refine ⟨[Event.settle 0], _, Run.cons trivial hstep (Run.nil _), ?_, ?_, rfl, rfl⟩
        · show (s.snapshot cfg codec now false).flight.eraseIdx 0 = []
          rw [hflight]
          rfl
        · exact snapshot_disk cfg codec s now false
  rcases hsettled with ⟨es, t, hrun, htidle, htdisk, htmem, htevicted⟩
  have hmem : t.mem = { s.mem.evict cfg now with dirty := ∅, removed := ∅ } := by
    rw [htmem, snapshot_mem]
  have hrests : MemState.Rests cfg now t.mem := by
    rw [hmem]
    exact MemState.rests_evict cfg now s.mem
  have hagain := @snapshot_again _ cfg codec t now true hrests (by rw [hmem]) (by rw [hmem]) htidle
  have hdone := h _ es t (t.snapshot cfg codec now true) rfl hrun
    ⟨now, _, htidle, rfl, Or.inl ⟨hagain.left, rfl⟩⟩
  unfold Persisted at hdone
  rw [hagain.right, snapshot_disk, htdisk, hmem] at hdone
  refine ⟨hdone.left, ?_⟩
  intro id hid
  have hgone : id ∉ (s.mem.evict cfg now).msgs :=
    (htidy.withMem (MemState.moves_evict cfg now s.mem)).gone id hid
  apply hdone.right
  rw [snapshot_evicted, MemState.evict_of_rests hrests, mem_evicted_withMem, htevicted,
    snapshot_evicted, hmem]
  exact Or.inl ⟨hid, hgone⟩

theorem losesNothing_of_persisted {now : Int} (hlaw : codec.RoundTrips) (htidy : Tidy s)
    (hidle : s.flight = []) (hdisk : Persisted codec (s.withMem (s.mem.evict cfg now))) :
    LosesNothing cfg codec s now := by
  intro s1 es t t' hstep hrun hflush
  have hfollows : Follows codec s1 := by
    rw [← Option.some.inj hstep]
    exact Follows.snapshot_fails htidy hlaw hidle hdisk
  exact ((follows_run hlaw hfollows hrun).flushed hlaw hflush).right

/-!
## When nothing is lost
-/

theorem tidy_run {disk : Table MsgId Row} {opened : Int} {es : List Event} {s0 : System Row}
    (hopen : openStore cfg codec disk opened = some s0)
    (hrun : Run (step cfg codec) Always s0 es s) : Tidy s :=
  hrun.invariant (tidy_openStore hopen) (fun _s _e _t hinv _ hstep => tidy_step hinv hstep)

/--
A flush that fails loses nothing if and only if, after the eviction it starts
with, the disk already holds every message in memory and no evicted id.  When
every failing flush of a run is like that, a flush that succeeds undisturbed
leaves the disk up to date.
-/
theorem failed_flush_loses_nothing {disk : Table MsgId Row} {opened : Int} {s0 : System Row}
    (hlaw : codec.RoundTrips) (hopen : openStore cfg codec disk opened = some s0) :
    (forall es s now, Run (step cfg codec) Always s0 es s -> s.flight = [] ->
      (LosesNothing cfg codec s now <-> Persisted codec (s.withMem (s.mem.evict cfg now)))) ∧
    forall es s s', Run (step cfg codec) (Careful cfg codec) s0 es s ->
      Flushed cfg codec s s' -> Persisted codec s' := by
  constructor
  · intro es s now hrun hidle
    have htidy := tidy_run hopen hrun
    constructor
    · intro h
      exact persisted_of_losesNothing htidy hidle h
    · intro hdisk
      exact losesNothing_of_persisted hlaw htidy hidle hdisk
  · intro es s s' hrun hflush
    exact ((follows_run hlaw (follows_openStore hopen) hrun).flushed hlaw hflush).right

end System

namespace Sample

/-- A message that expires before it is ever written. -/
def expire : List Event :=
  [Event.store 10 7 sender (publish "a/b") 1, Event.work 10]

def expired : System (Option StoredMsg) :=
  (exec? (System.step cfg codec) System.Orderly opened expire).get (by decide +kernel)

/-- The store with one message that no flush has seen. -/
def pending : System (Option StoredMsg) :=
  (exec? (System.step cfg codec) System.Orderly opened
    [Event.store 10 7 sender (publish "a/b") 100, Event.work 11]).get (by decide +kernel)

/-- The flush of that message has failed, and a second message came in. -/
def afterFailure : System (Option StoredMsg) :=
  (exec? (System.step cfg codec) System.Orderly (pending.snapshot cfg codec 12 false)
    [Event.settle 0, Event.store 13 8 sender (publish "a/c") 100, Event.work 14]).get
    (by decide +kernel)

/-- The next flush commits undisturbed. -/
def secondFlush : System (Option StoredMsg) :=
  (exec? (System.step cfg codec) System.Orderly afterFailure
    [Event.flush 15 true, Event.settle 0]).get (by decide +kernel)

end Sample

namespace System

/-- The eviction of a message that was never written may fail to reach the disk. -/
theorem failed_flush_loses_nothing_expired :
    LosesNothing Sample.cfg Sample.codec Sample.expired 20 ∧
      Persisted Sample.codec Sample.flushed := by
  have h := failed_flush_loses_nothing Sample.codec_roundTrips Sample.opened_eq
  constructor
  · have hrun := @Run.of_isSome _ _ (step Sample.cfg Sample.codec) Orderly _ Sample.opened
      Sample.expire (by decide +kernel)
    apply (h.left Sample.expire Sample.expired 20 (hrun.mono (fun _ _ _ => trivial))
      (List.isEmpty_iff.mp (by decide +kernel))).mpr
    constructor
    · intro id msg hlookup
      have hkeys : (Sample.expired.mem.evict Sample.cfg 20).msgs.keys = ∅ := by decide +kernel
      have hmem := Finmap.mem_keys.mpr (Finmap.mem_of_lookup_eq_some hlookup)
      change id ∈ (Sample.expired.mem.evict Sample.cfg 20).msgs.keys at hmem
      rw [hkeys] at hmem
      exact absurd hmem (Finset.notMem_empty id)
    · have hdisk : forall id, id ∈ (Sample.expired.withMem
          (Sample.expired.mem.evict Sample.cfg 20)).evicted ->
          (Sample.expired.disk.lookup id).isNone = true := by decide +kernel
      intro id hid
      exact Option.isNone_iff_eq_none.mp (hdisk id hid)
  · have hrun := @Run.of_isSome _ _ (step Sample.cfg Sample.codec) Orderly _ Sample.opened
      Sample.replay (by decide +kernel)
    exact h.right Sample.replay Sample.replayed Sample.flushed
      (hrun.mono (fun _ _ horderly => careful_of_orderly horderly)) Sample.flushed_of_replayed

/--
A message is stored, its flush fails, another message is stored and the next
flush commits: the first message is in memory and not on disk.
-/
theorem failed_flush_fails :
    ¬ forall es s now, Run (step Sample.cfg Sample.codec) Orderly Sample.opened es s ->
      s.flight = [] -> LosesNothing Sample.cfg Sample.codec s now := by
  intro h
  have hrun := @Run.of_isSome _ _ (step Sample.cfg Sample.codec) Orderly _ Sample.opened
    [Event.store 10 7 Sample.sender (Sample.publish "a/b") 100, Event.work 11] (by decide +kernel)
  have hafter := @Run.of_isSome _ _ (step Sample.cfg Sample.codec) Orderly _
    (Sample.pending.snapshot Sample.cfg Sample.codec 12 false)
    [Event.settle 0, Event.store 13 8 Sample.sender (Sample.publish "a/c") 100, Event.work 14]
    (by decide +kernel)
  have hflush : Flushed Sample.cfg Sample.codec Sample.afterFailure Sample.secondFlush := by
    refine ⟨15, Sample.afterFailure.snapshot Sample.cfg Sample.codec 15 true, ?_, rfl,
      Or.inr ⟨[], _, Run.nil _, rfl, rfl, (Option.some_get _).symm⟩⟩
    exact List.isEmpty_iff.mp (by decide +kernel)
  have hdisk := h _ Sample.pending 12 hrun (List.isEmpty_iff.mp (by decide +kernel)) _ _
    Sample.afterFailure Sample.secondFlush rfl
    (hafter.mono (fun _ _ horderly => careful_of_orderly horderly)) hflush
  have hmem : (Sample.secondFlush.mem.msgs.lookup 7).isSome = true := by decide +kernel
  rcases Option.isSome_iff_exists.mp hmem with ⟨msg, hlookup⟩
  rcases hdisk.left 7 msg hlookup with ⟨row, hrow, _⟩
  have hnone : (Sample.secondFlush.disk.lookup 7).isNone = true := by decide +kernel
  rw [Option.isNone_iff_eq_none.mp hnone] at hrow
  cases hrow

end System

end Store
end Ciqada
