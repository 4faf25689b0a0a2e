import Ciqada.Store.Disk

/-!
# Memory, disk and the flush in progress

The invariant of a store whose flushes do not overlap.  A message in memory is
on disk, or dirty, or in the batch that is still to be written; an evicted id
has no row, or its removal is owed by memory or by the flush in progress.
-/

namespace Ciqada
namespace Store

open Foundation Broker

namespace Flush

variable {Row : Type}

/-- The rows that the transaction will write. -/
def writes (f : Flush Row) : List (MsgId × Row) :=
  if f.commits then f.batch else []

theorem writes_sub (f : Flush Row) {entry : MsgId × Row} (h : entry ∈ f.writes) :
    entry ∈ f.batch := by
  unfold writes at h
  split at h
  · exact h
  · cases h

/-- The ids whose rows the transaction will remove. -/
def erases (f : Flush Row) : List MsgId :=
  if f.commits then f.removed else []

theorem apply_eq (f : Flush Row) (disk : Table MsgId Row) :
    f.apply disk = Table.writeRows (Table.eraseKeys disk f.erases) f.writes := by
  unfold apply writes erases
  cases f.commits with
  | false => rfl
  | true => rfl

theorem nodup_writes (f : Flush Row) : (f.writes.map Prod.fst).Nodup := by
  unfold writes
  cases f.commits with
  | false => exact List.nodup_nil
  | true => exact f.nodup

theorem lookup_apply_of_mem {f : Flush Row} {id : MsgId} {row : Row}
    (disk : Table MsgId Row) (hrow : (id, row) ∈ f.writes) :
    (f.apply disk).lookup id = some row := by
  rw [apply_eq]
  exact Table.lookup_writeRows_of_mem _ f.nodup_writes hrow

theorem lookup_apply_of_not_mem {f : Flush Row} {id : MsgId} (disk : Table MsgId Row)
    (hid : id ∉ f.writes.map Prod.fst) :
    (f.apply disk).lookup id = if id ∈ f.erases then none else disk.lookup id := by
  rw [apply_eq, Table.lookup_writeRows_of_not_mem _ hid, Table.lookup_eraseKeys]

/-- A row after the transaction was written by it or was there before. -/
theorem lookup_apply_cases {f : Flush Row} {disk : Table MsgId Row} {id : MsgId} {row : Row}
    (h : (f.apply disk).lookup id = some row) :
    id ∈ f.writes.map Prod.fst ∨ disk.lookup id = some row := by
  by_cases hid : id ∈ f.writes.map Prod.fst
  · exact Or.inl hid
  · rw [lookup_apply_of_not_mem disk hid] at h
    split at h
    · cases h
    · exact Or.inr h

end Flush

namespace System

variable {Row : Type} {cfg : Config} {codec : Codec Row} {s s' : System Row}

/-- The table holds a message under its id. -/
def OnDisk (codec : Codec Row) (disk : Table MsgId Row) (id : MsgId) (msg : StoredMsg) : Prop :=
  exists row, disk.lookup id = some row ∧ codec.dec row = some msg

/-- Every message is on disk as it is in memory, and no evicted id is. -/
def Persisted (codec : Codec Row) (s : System Row) : Prop :=
  (forall id msg, s.mem.msgs.lookup id = some msg -> OnDisk codec s.disk id msg) ∧
    forall id, id ∈ s.evicted -> s.disk.lookup id = none

/-!
## The history of evictions
-/

/-- No evicted id is in memory, and every owed removal was an eviction. -/
structure Tidy (s : System Row) : Prop where
  gone : forall id, id ∈ s.evicted -> id ∉ s.mem.msgs
  recorded : forall id, id ∈ s.mem.removed -> id ∈ s.evicted

theorem mem_evicted_withMem {m : MemState} {id : MsgId} :
    id ∈ (s.withMem m).evicted <-> (id ∈ s.evicted ∧ id ∉ m.msgs) ∨ id ∈ m.removed := by
  show id ∈ (s.evicted \ m.msgs.keys) ∪ m.removed <-> _
  rw [Finset.mem_union, Finset.mem_sdiff, Finmap.mem_keys]

namespace Tidy

theorem apart (h : Tidy s) (id : MsgId) (hid : id ∈ s.mem.removed) : id ∉ s.mem.msgs :=
  h.gone id (h.recorded id hid)

theorem withMem {m : MemState} (h : Tidy s) (hm : s.mem.Moves m) : Tidy (s.withMem m) where
  gone := by
    intro id hid
    rcases mem_evicted_withMem.mp hid with ⟨_, hout⟩ | hremoved
    · exact hout
    · exact hm.apart h.apart id hremoved
  recorded := by
    intro id hid
    exact mem_evicted_withMem.mpr (Or.inr hid)

end Tidy

/-!
## The locked part of a flush
-/

section Snapshot

variable (cfg codec) (now : Int) (commits : Bool) (s)

theorem snapshot_mem :
    (s.snapshot cfg codec now commits).mem =
      { s.mem.evict cfg now with dirty := ∅, removed := ∅ } := by
  unfold snapshot
  dsimp only
  split <;> rfl

theorem snapshot_disk : (s.snapshot cfg codec now commits).disk = s.disk := by
  unfold snapshot
  dsimp only
  split <;> rfl

theorem snapshot_evicted :
    (s.snapshot cfg codec now commits).evicted = (s.withMem (s.mem.evict cfg now)).evicted := by
  unfold snapshot
  dsimp only
  split <;> rfl

theorem snapshot_flight :
    (s.snapshot cfg codec now commits).flight =
      if (Flush.take codec (s.mem.evict cfg now) commits).isEmpty then s.flight
      else s.flight ++ [Flush.take codec (s.mem.evict cfg now) commits] := by
  unfold snapshot
  dsimp only
  split <;> rfl

end Snapshot

/-- A snapshot adds at most its own flush to those under way. -/
theorem of_mem_snapshot_flight {now : Int} {commits : Bool} {f : Flush Row}
    (hf : f ∈ (s.snapshot cfg codec now commits).flight) :
    f ∈ s.flight ∨ f = Flush.take codec (s.mem.evict cfg now) commits := by
  rw [snapshot_flight] at hf
  split at hf
  · exact Or.inl hf
  · rcases List.mem_append.mp hf with hold | hlast
    · exact Or.inl hold
    · exact Or.inr (List.mem_singleton.mp hlast)

theorem Tidy.snapshot (h : Tidy s) (cfg : Config) (codec : Codec Row) (now : Int)
    (commits : Bool) : Tidy (s.snapshot cfg codec now commits) := by
  have hmem := h.withMem (MemState.moves_evict cfg now s.mem)
  constructor
  · rw [snapshot_evicted, snapshot_mem]
    exact hmem.gone
  · rw [snapshot_mem]
    intro id hid
    exact absurd hid (Finset.notMem_empty id)

theorem tidy_step {e : Event} (h : Tidy s) (hstep : step cfg codec s e = some s') : Tidy s' := by
  cases effect_of_step hstep with
  | idle _ channel counter => exact ⟨h.gone, h.recorded⟩
  | memory _ channel hm => exact Tidy.withMem ⟨h.gone, h.recorded⟩ hm
  | snapshot now commits => exact h.snapshot cfg codec now commits
  | settled i hf => exact ⟨h.gone, h.recorded⟩

/-!
## The invariant
-/

structure Follows (codec : Codec Row) (s : System Row) : Prop where
  tidy : Tidy s
  single : s.flight.length ≤ 1
  stored : forall id msg, s.mem.msgs.lookup id = some msg -> id ∉ s.mem.dirty ->
    (forall f, f ∈ s.flight -> id ∉ f.writes.map Prod.fst) -> OnDisk codec s.disk id msg
  batched : forall f, f ∈ s.flight -> forall id row msg, (id, row) ∈ f.writes ->
    s.mem.msgs.lookup id = some msg -> id ∉ s.mem.dirty -> codec.dec row = some msg
  writesKept : forall f, f ∈ s.flight -> forall id, id ∈ f.writes.map Prod.fst ->
    id ∈ s.mem.msgs ∨ id ∈ s.mem.removed
  erasesStored : forall f, f ∈ s.flight -> forall id, id ∈ f.erases -> id ∈ s.mem.msgs ->
    id ∈ s.mem.dirty
  erased : forall id, id ∈ s.evicted ->
    id ∈ s.mem.removed ∨ (exists f, f ∈ s.flight ∧ id ∈ f.erases) ∨ s.disk.lookup id = none

namespace Follows

/-- A message that is still not dirty was covered before the operation. -/
theorem withMem {m : MemState} (h : Follows codec s) (hm : s.mem.Moves m) :
    Follows codec (s.withMem m) where
  tidy := h.tidy.withMem hm
  single := h.single
  stored := by
    intro id msg hlookup hclean hbatch
    rcases hm.kept id msg hlookup hclean with ⟨hlookup', hclean'⟩
    exact h.stored id msg hlookup' hclean' hbatch
  batched := by
    intro f hf id row msg hrow hlookup hclean
    rcases hm.kept id msg hlookup hclean with ⟨hlookup', hclean'⟩
    exact h.batched f hf id row msg hrow hlookup' hclean'
  writesKept := by
    intro f hf id hid
    rcases h.writesKept f hf id hid with hin | hremoved
    · exact hm.left id hin
    · exact hm.owed id hremoved
  erasesStored := by
    intro f hf id hid hin
    by_contra hclean
    rcases Finmap.mem_iff.mp hin with ⟨msg, hlookup⟩
    rcases hm.kept id msg hlookup hclean with ⟨hlookup', hclean'⟩
    exact hclean' (h.erasesStored f hf id hid (Finmap.mem_of_lookup_eq_some hlookup'))
  erased := by
    intro id hid
    rcases mem_evicted_withMem.mp hid with ⟨hevicted, hout⟩ | hremoved
    · rcases h.erased id hevicted with hremoved | hrest
      · rcases hm.owed id hremoved with hin | hremoved'
        · exact absurd hin hout
        · exact Or.inl hremoved'
      · exact Or.inr hrest
    · exact Or.inl hremoved

/-- Opening leaves nothing owed. -/
theorem of_persisted (htidy : Tidy s) (hidle : s.flight = []) (h : Persisted codec s) :
    Follows codec s where
  tidy := htidy
  single := by
    rw [hidle]
    exact Nat.zero_le 1
  stored id msg hlookup _ _ := h.left id msg hlookup
  batched f hf := by
    rw [hidle] at hf
    cases hf
  writesKept f hf := by
    rw [hidle] at hf
    cases hf
  erasesStored f hf := by
    rw [hidle] at hf
    cases hf
  erased id hid := Or.inr (Or.inr (h.right id hid))

/-!
### The transaction
-/

theorem flight_eq {i : Nat} {f : Flush Row} (h : Follows codec s) (hf : s.flight[i]? = some f) :
    s.flight = [f] ∧ i = 0 := by
  have hsingle := h.single
  cases hflight : s.flight with
  | nil =>
      rw [hflight] at hf
      cases hf
  | cons g rest =>
      rw [hflight] at hf hsingle
      have hrest : rest = [] := by
        apply List.eq_nil_of_length_eq_zero
        rw [List.length_cons] at hsingle
        omega
      rw [hrest] at hf ⊢
      cases i with
      | zero =>
          rw [Option.some.inj hf]
          exact ⟨rfl, rfl⟩
      | succ i => cases hf

theorem settle {i : Nat} {f : Flush Row} (h : Follows codec s) (hf : s.flight[i]? = some f) :
    Follows codec (s.settle i f) := by
  rcases h.flight_eq hf with ⟨hflight, rfl⟩
  have hmem : f ∈ s.flight := by
    rw [hflight]
    exact List.mem_singleton_self f
  have hnone : (s.settle 0 f).flight = [] := by
    show s.flight.eraseIdx 0 = []
    rw [hflight]
    rfl
  refine ⟨⟨h.tidy.gone, h.tidy.recorded⟩, by rw [hnone]; exact Nat.zero_le 1, ?_, ?_, ?_, ?_, ?_⟩
  · intro id msg hlookup hclean _
    show OnDisk codec (f.apply s.disk) id msg
    by_cases hid : id ∈ f.writes.map Prod.fst
    · rcases List.mem_map.mp hid with ⟨⟨id', row⟩, hrow, rfl⟩
      exact ⟨row, Flush.lookup_apply_of_mem s.disk hrow,
        h.batched f hmem id' row msg hrow hlookup hclean⟩
    · have hkeep : id ∉ f.erases := by
        intro herases
        exact hclean (h.erasesStored f hmem id herases (Finmap.mem_of_lookup_eq_some hlookup))
      have hother : forall g, g ∈ s.flight -> id ∉ g.writes.map Prod.fst := by
        intro g hg
        rw [hflight, List.mem_singleton] at hg
        rw [hg]
        exact hid
      rcases h.stored id msg hlookup hclean hother with ⟨row, hrow, hdec⟩
      refine ⟨row, ?_, hdec⟩
      rw [Flush.lookup_apply_of_not_mem s.disk hid, if_neg hkeep]
      exact hrow
  · intro g hg
    rw [hnone] at hg
    cases hg
  · intro g hg
    rw [hnone] at hg
    cases hg
  · intro g hg
    rw [hnone] at hg
    cases hg
  · intro id hid
    show id ∈ s.mem.removed ∨ _ ∨ (f.apply s.disk).lookup id = none
    by_cases hwritten : id ∈ f.writes.map Prod.fst
    · -- evicted since the snapshot, so the removal is owed again
      rcases h.writesKept f hmem id hwritten with hin | hremoved
      · exact absurd hin (h.tidy.gone id hid)
      · exact Or.inl hremoved
    · rw [Flush.lookup_apply_of_not_mem s.disk hwritten]
      rcases h.erased id hid with hremoved | ⟨g, hg, herases⟩ | hdisk
      · exact Or.inl hremoved
      · rw [hflight, List.mem_singleton] at hg
        rw [hg] at herases
        exact Or.inr (Or.inr (if_pos herases))
      · right
        right
        rw [hdisk]
        exact ite_self none

/-!
### Starting a flush
-/

theorem mem_writes_take {commits : Bool} {m : MemState} {entry : MsgId × Row}
    (h : entry ∈ (Flush.take codec m commits).writes) : entry ∈ batchOf codec m :=
  Flush.writes_sub _ h

theorem mem_erases_take {commits : Bool} {m : MemState} {id : MsgId}
    (h : id ∈ (Flush.take codec m commits).erases) : id ∈ m.removed := by
  unfold Flush.erases at h
  split at h
  · exact mem_ascending.mp h
  · cases h

theorem mem_flight_snapshot {now : Int} {commits : Bool} {f : Flush Row}
    (hidle : s.flight = []) (hf : f ∈ (s.snapshot cfg codec now commits).flight) :
    f = Flush.take codec (s.mem.evict cfg now) commits := by
  rcases of_mem_snapshot_flight hf with hold | htaken
  · rw [hidle] at hold
    cases hold
  · exact htaken

/-- A snapshot that finds a dirty message or an owed removal starts a transaction. -/
theorem take_mem_flight {now : Int} {commits : Bool} (s : System Row)
    (h : (Flush.take codec (s.mem.evict cfg now) commits).isEmpty = false) :
    Flush.take codec (s.mem.evict cfg now) commits ∈
      (s.snapshot cfg codec now commits).flight := by
  rw [snapshot_flight, h]
  exact List.mem_append_right _ (List.mem_singleton_self _)

theorem isEmpty_take_of_batch {m : MemState} {commits : Bool} {entry : MsgId × Row}
    (h : entry ∈ batchOf codec m) : (Flush.take codec m commits).isEmpty = false := by
  show ((batchOf codec m).isEmpty && _) = false
  rw [List.isEmpty_eq_false_iff_exists_mem.mpr ⟨entry, h⟩]
  rfl

theorem isEmpty_take_of_removed {m : MemState} {commits : Bool} {id : MsgId}
    (h : id ∈ m.removed) : (Flush.take codec m commits).isEmpty = false := by
  show (_ && (ascending m.removed).isEmpty) = false
  rw [List.isEmpty_eq_false_iff_exists_mem.mpr ⟨id, mem_ascending.mpr h⟩]
  exact Bool.and_false _

/-- The part of the invariant that a snapshot gives whether or not it commits. -/
theorem snapshot_of {now : Int} {commits : Bool} (h : Tidy s) (hlaw : codec.RoundTrips)
    (hidle : s.flight = [])
    (hstored : forall id msg, (s.mem.evict cfg now).msgs.lookup id = some msg ->
      (forall f, f ∈ (s.snapshot cfg codec now commits).flight ->
        id ∉ f.writes.map Prod.fst) -> OnDisk codec s.disk id msg)
    (herased : forall id, id ∈ (s.withMem (s.mem.evict cfg now)).evicted ->
      (exists f, f ∈ (s.snapshot cfg codec now commits).flight ∧ id ∈ f.erases) ∨
        s.disk.lookup id = none) :
    Follows codec (s.snapshot cfg codec now commits) := by
  have hevict := h.withMem (MemState.moves_evict cfg now s.mem)
  have hmsgs : (s.snapshot cfg codec now commits).mem.msgs = (s.mem.evict cfg now).msgs := by
    rw [snapshot_mem]
  refine ⟨h.snapshot cfg codec now commits, ?_, ?_, ?_, ?_, ?_, ?_⟩
  · rw [snapshot_flight, hidle]
    split
    · exact Nat.zero_le 1
    · exact Nat.le_refl 1
  · intro id msg hlookup _ hbatch
    rw [hmsgs] at hlookup
    rw [snapshot_disk]
    exact hstored id msg hlookup hbatch
  · intro f hf id row msg hrow hlookup _
    rw [mem_flight_snapshot hidle hf] at hrow
    rw [hmsgs] at hlookup
    rcases mem_batchOf.mp (mem_writes_take hrow) with ⟨_, msg', hlookup', henc⟩
    rw [hlookup] at hlookup'
    rcases hlaw msg with ⟨row', henc', hdec⟩
    rw [← Option.some.inj hlookup', henc'] at henc
    rw [← Option.some.inj henc]
    exact hdec
  · intro f hf id hid
    rw [mem_flight_snapshot hidle hf] at hid
    rcases List.mem_map.mp hid with ⟨⟨id', row⟩, hrow, rfl⟩
    rcases mem_batchOf.mp (mem_writes_take hrow) with ⟨_, msg, hlookup, _⟩
    rw [hmsgs]
    exact Or.inl (Finmap.mem_of_lookup_eq_some hlookup)
  · intro f hf id hid hin
    rw [mem_flight_snapshot hidle hf] at hid
    rw [hmsgs] at hin
    exact absurd hin (hevict.apart id (mem_erases_take hid))
  · intro id hid
    rw [snapshot_evicted] at hid
    rw [snapshot_disk]
    exact Or.inr (herased id hid)

/-- What a committing flush takes covers all that is not on disk. -/
theorem snapshot_commits (h : Follows codec s) (hlaw : codec.RoundTrips) (hidle : s.flight = [])
    (now : Int) : Follows codec (s.snapshot cfg codec now true) := by
  have hevict := h.withMem (MemState.moves_evict cfg now s.mem)
  apply snapshot_of h.tidy hlaw hidle
  · intro id msg hlookup hbatch
    apply hevict.stored id msg hlookup
    · intro hdirty
      rcases hlaw msg with ⟨row, henc, _⟩
      have hrow := mem_batchOf.mpr ⟨hdirty, msg, hlookup, henc⟩
      exact hbatch _ (take_mem_flight s (isEmpty_take_of_batch hrow))
        (List.mem_map.mpr ⟨(id, row), hrow, rfl⟩)
    · intro f hf
      change f ∈ s.flight at hf
      rw [hidle] at hf
      cases hf
  · intro id hid
    rcases hevict.erased id hid with hremoved | ⟨f, hf, _⟩ | hdisk
    · exact Or.inl ⟨_, take_mem_flight s (isEmpty_take_of_removed hremoved),
        mem_ascending.mpr hremoved⟩
    · change f ∈ s.flight at hf
      rw [hidle] at hf
      cases hf
    · exact Or.inr hdisk

/-- A flush that will fail is harmless when the disk already has all that it takes. -/
theorem snapshot_fails {now : Int} (h : Tidy s) (hlaw : codec.RoundTrips)
    (hidle : s.flight = []) (hdisk : Persisted codec (s.withMem (s.mem.evict cfg now))) :
    Follows codec (s.snapshot cfg codec now false) := by
  apply snapshot_of h hlaw hidle
  · intro id msg hlookup _
    exact hdisk.left id msg hlookup
  · intro id hid
    exact Or.inr (hdisk.right id hid)

end Follows

/-!
## Runs whose flushes do not overlap
-/

/--
A flush starts only when none is in progress, and one that will fail only when
the disk already has all that it takes.
-/
def Careful (cfg : Config) (codec : Codec Row) (s : System Row) : Event -> Prop
  | Event.flush now commits =>
      s.flight = [] ∧
        (commits = false -> Persisted codec (s.withMem (s.mem.evict cfg now)))
  | _ => True

theorem careful_of_commits {now : Int} {commits : Bool} (hidle : s.flight = [])
    (hcommits : commits = true) : Careful cfg codec s (Event.flush now commits) := by
  refine ⟨hidle, ?_⟩
  intro hfails
  rw [hcommits] at hfails
  cases hfails

theorem follows_step {e : Event} (hlaw : codec.RoundTrips) (h : Follows codec s)
    (hcareful : Careful cfg codec s e) (hstep : step cfg codec s e = some s') :
    Follows codec s' := by
  cases effect_of_step hstep with
  | idle _ channel counter =>
      exact ⟨⟨h.tidy.gone, h.tidy.recorded⟩, h.single, h.stored, h.batched, h.writesKept,
        h.erasesStored, h.erased⟩
  | memory _ channel hm =>
      have hchannel : Follows codec { s with channel := channel } :=
        ⟨⟨h.tidy.gone, h.tidy.recorded⟩, h.single, h.stored, h.batched, h.writesKept,
          h.erasesStored, h.erased⟩
      exact hchannel.withMem hm
  | snapshot now commits =>
      cases commits with
      | true => exact h.snapshot_commits hlaw hcareful.left now
      | false => exact Follows.snapshot_fails h.tidy hlaw hcareful.left (hcareful.right rfl)
  | settled i hf => exact h.settle hf

theorem follows_run {es : List Event} (hlaw : codec.RoundTrips) (h : Follows codec s)
    (hrun : Run (step cfg codec) (Careful cfg codec) s es s') : Follows codec s' :=
  hrun.invariant h (fun _s _e _t hinv hmeets hstep => follows_step hlaw hinv hmeets hstep)

/-!
## A flush that nothing disturbs
-/

/--
A flush that succeeds with no change since its snapshot: either it found nothing
to write, or its transaction ran while memory stayed as the snapshot left it.
-/
def Flushed (cfg : Config) (codec : Codec Row) (s s' : System Row) : Prop :=
  exists now s1, s.flight = [] ∧ step cfg codec s (Event.flush now true) = some s1 ∧
    ((s1.flight = [] ∧ s' = s1) ∨
      exists es s2, Run (step cfg codec) (Careful cfg codec) s1 es s2 ∧ s2.mem = s1.mem ∧
        s2.flight = s1.flight ∧ step cfg codec s2 (Event.settle 0) = some s')

namespace Follows

/-- With no flush in progress and nothing dirty or owed, the disk is up to date. -/
theorem persisted (h : Follows codec s) (hidle : s.flight = []) (hdirty : s.mem.dirty = ∅)
    (hremoved : s.mem.removed = ∅) : Persisted codec s := by
  constructor
  · intro id msg hlookup
    apply h.stored id msg hlookup
    · rw [hdirty]
      exact Finset.notMem_empty id
    · intro f hf
      rw [hidle] at hf
      cases hf
  · intro id hid
    rcases h.erased id hid with howed | ⟨f, hf, _⟩ | hdisk
    · rw [hremoved] at howed
      exact absurd howed (Finset.notMem_empty id)
    · rw [hidle] at hf
      cases hf
    · exact hdisk

theorem flushed (hlaw : codec.RoundTrips) (h : Follows codec s) (hflush : Flushed cfg codec s s') :
    Follows codec s' ∧ Persisted codec s' := by
  rcases hflush with ⟨now, s1, hidle, hsnap, hcases⟩
  have hfollows := follows_step hlaw h (careful_of_commits hidle rfl) hsnap
  have hmem : s1.mem = { s.mem.evict cfg now with dirty := ∅, removed := ∅ } := by
    rw [← Option.some.inj hsnap, snapshot_mem]
  rcases hcases with ⟨hnone, rfl⟩ | ⟨es, s2, hrun, hmem2, hflight2, hsettle⟩
  · exact ⟨hfollows, hfollows.persisted hnone (by rw [hmem]) (by rw [hmem])⟩
  · have hfollows2 := follows_run hlaw hfollows hrun
    rcases of_step_settle hsettle with ⟨f, hf, rfl⟩
    have hdone := hfollows2.settle hf
    refine ⟨hdone, hdone.persisted ?_ ?_ ?_⟩
    · show s2.flight.eraseIdx 0 = []
      rw [(hfollows2.flight_eq hf).left]
      rfl
    · show s2.mem.dirty = ∅
      rw [hmem2, hmem]
    · show s2.mem.removed = ∅
      rw [hmem2, hmem]

end Follows

end System

end Store
end Ciqada
