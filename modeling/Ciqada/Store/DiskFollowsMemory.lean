import Ciqada.Store.TopicIndex

/-!
# The disk follows memory

Runs in which stored ids are new to memory, flushes do not overlap and every
transaction commits.  A message that is neither dirty nor in the batch of the
flush in progress is on disk as it is in memory.  After a flush that nothing
disturbs, opening the table rebuilds the store.
-/

namespace Ciqada
namespace Store

open Foundation Broker

namespace System

variable {Row : Type} {cfg : Config} {codec : Codec Row} {s s' : System Row}

/-- Ids are fresh, flushes do not overlap, and every transaction commits. -/
def Orderly (s : System Row) : Event -> Prop
  | Event.work _ => s.FreshWork
  | Event.flush _ commits => s.flight = [] ∧ commits = true
  | _ => True

instance (s : System Row) : (e : Event) -> Decidable (Orderly s e)
  | Event.work _ => inferInstanceAs (Decidable s.FreshWork)
  | Event.flush _ commits =>
      decidable_of_iff (s.flight.isEmpty = true ∧ commits = true)
        (and_congr List.isEmpty_iff Iff.rfl)
  | Event.nextMsgId => isTrue trivial
  | Event.store _ _ _ _ _ => isTrue trivial
  | Event.get _ _ _ _ => isTrue trivial
  | Event.settle _ => isTrue trivial

theorem careful_of_orderly {e : Event} (h : Orderly s e) : Careful cfg codec s e := by
  cases e with
  | flush now commits => exact careful_of_commits h.left h.right
  | nextMsgId => trivial
  | store now msgId sender p expiryInterval => trivial
  | work now => trivial
  | get now clientId topicFilter iter => trivial
  | settle i => trivial

theorem freshIds_of_orderly {e : Event} (h : Orderly s e) : FreshIds s e := by
  cases e with
  | work now => exact h
  | nextMsgId => trivial
  | store now msgId sender p expiryInterval => trivial
  | get now clientId topicFilter iter => trivial
  | flush now commits => trivial
  | settle i => trivial

theorem sameTopic_of_orderly {e : Event} (h : Orderly s e) : SameTopic s e :=
  sameTopic_of_freshIds (freshIds_of_orderly h)

/-!
## Ids that the store knows
-/

/-- The id is in memory or was evicted. -/
def Knows (s : System Row) (id : MsgId) : Prop :=
  id ∈ s.mem.msgs ∨ id ∈ s.evicted

theorem Knows.withMem {id : MsgId} {m : MemState} (h : s.Knows id) (hm : s.mem.Moves m) :
    (s.withMem m).Knows id := by
  unfold Knows
  rw [mem_evicted_withMem]
  show id ∈ m.msgs ∨ _
  rcases h with hin | hevicted
  · rcases hm.left id hin with hin' | hremoved
    · exact Or.inl hin'
    · exact Or.inr (Or.inr hremoved)
  · by_cases hin' : id ∈ m.msgs
    · exact Or.inl hin'
    · exact Or.inr (Or.inl ⟨hevicted, hin'⟩)

theorem knows_step {id : MsgId} {e : Event} (h : s.Knows id)
    (hstep : step cfg codec s e = some s') : s'.Knows id := by
  cases effect_of_step hstep with
  | idle _ channel counter => exact h
  | memory _ channel hm => exact Knows.withMem h hm
  | snapshot now commits =>
      unfold Knows
      rw [snapshot_mem, snapshot_evicted]
      exact h.withMem (MemState.moves_evict cfg now s.mem)
  | settled i hf => exact h

/-!
## Rows that opening would load
-/

/-- A row that had not expired when the store was opened belongs to an id it knows. -/
def Known (codec : Codec Row) (opened : Int) (s : System Row) : Prop :=
  forall id msg, OnDisk codec s.disk id msg -> opened < msg.expiryAt ->
    id ∈ s.mem.msgs ∨ id ∈ s.evicted

namespace Known

variable {opened : Int}

theorem withMem {m : MemState} (h : Known codec opened s) (hm : s.mem.Moves m) :
    Known codec opened (s.withMem m) := by
  intro id msg hdisk hlive
  exact Knows.withMem (h id msg hdisk hlive) hm

theorem settle {i : Nat} {f : Flush Row} (hfollows : Follows codec s)
    (h : Known codec opened s) (hf : s.flight[i]? = some f) :
    Known codec opened (s.settle i f) := by
  intro id msg hdisk hlive
  rcases hdisk with ⟨row, hrow, hdec⟩
  rcases Flush.lookup_apply_cases hrow with hwritten | hold
  · rcases hfollows.writesKept f (List.mem_of_getElem? hf) id hwritten with hin | hremoved
    · exact Or.inl hin
    · exact Or.inr (hfollows.tidy.recorded id hremoved)
  · exact h id msg ⟨row, hold, hdec⟩ hlive

theorem step {e : Event} (hfollows : Follows codec s) (h : Known codec opened s)
    (hstep : System.step cfg codec s e = some s') : Known codec opened s' := by
  cases effect_of_step hstep with
  | idle _ channel counter => exact h
  | memory _ channel hm => exact Known.withMem h hm
  | snapshot now commits =>
      unfold Known
      rw [snapshot_disk, snapshot_mem, snapshot_evicted]
      exact h.withMem (MemState.moves_evict cfg now s.mem)
  | settled i hf => exact settle hfollows h hf

end Known

theorem follows_known_run {opened : Int} {es : List Event} (hlaw : codec.RoundTrips)
    (hrun : Run (step cfg codec) (Careful cfg codec) s es s')
    (h : Follows codec s ∧ Known codec opened s) :
    Follows codec s' ∧ Known codec opened s' := by
  apply @Run.invariant _ _ _ _ (fun s => Follows codec s ∧ Known codec opened s) _ _ _ hrun h
  intro s e t hinv hmeets hstep
  exact ⟨follows_step hlaw hinv.left hmeets hstep, Known.step hinv.left hinv.right hstep⟩

theorem known_openStore {disk : Table MsgId Row} {now : Int}
    (hopen : openStore cfg codec disk now = some s) : Known codec now s := by
  rcases of_openStore hopen with ⟨hmsgs, hdisk, _⟩
  intro id msg hon hlive
  left
  rw [hdisk] at hon
  rw [hmsgs]
  exact Finmap.mem_of_lookup_eq_some (lookup_load.mpr ⟨hon, hlive⟩)

theorem known_flushed {opened : Int} (hlaw : codec.RoundTrips) (hfollows : Follows codec s)
    (h : Known codec opened s) (hflush : Flushed cfg codec s s') : Known codec opened s' := by
  rcases hflush with ⟨now, s1, hidle, hsnap, hcases⟩
  have hfollows1 := follows_step hlaw hfollows (careful_of_commits hidle rfl) hsnap
  have hknown1 := Known.step hfollows h hsnap
  rcases hcases with ⟨_, rfl⟩ | ⟨es, s2, hrun, _, _, hsettle⟩
  · exact hknown1
  · rcases follows_known_run hlaw hrun ⟨hfollows1, hknown1⟩ with ⟨hfollows2, hknown2⟩
    exact Known.step hfollows2 hknown2 hsettle

/-!
## Opening an up-to-date table
-/

/-- An up-to-date table loads to the messages that have not expired. -/
theorem load_of_persisted {opened t : Int} (hdisk : Persisted codec s)
    (hknown : Known codec opened s) (ht : opened ≤ t) (id : MsgId) :
    (load codec t s.disk).lookup id =
      (s.mem.msgs.lookup id).filter (fun msg => t < msg.expiryAt) := by
  apply Option.ext
  intro msg
  rw [lookup_load, Option.filter_eq_some_iff, decide_eq_true_eq]
  constructor
  · rintro ⟨hon, hlive⟩
    refine ⟨?_, hlive⟩
    rcases hknown id msg hon (lt_of_le_of_lt ht hlive) with hin | hevicted
    · rcases Finmap.mem_iff.mp hin with ⟨msg', hlookup⟩
      rcases hon with ⟨row, hrow, hdec⟩
      rcases hdisk.left id msg' hlookup with ⟨row', hrow', hdec'⟩
      rw [hrow] at hrow'
      rw [← Option.some.inj hrow', hdec] at hdec'
      rw [hlookup]
      exact hdec'.symm
    · rcases hon with ⟨row, hrow, _⟩
      rw [hdisk.right id hevicted] at hrow
      cases hrow
  · rintro ⟨hlookup, hlive⟩
    exact ⟨hdisk.left id msg hlookup, hlive⟩

theorem indexed_flushed (h : s.mem.Indexed) (hflush : Flushed cfg codec s s') :
    s'.mem.Indexed := by
  rcases hflush with ⟨now, s1, hidle, hsnap, hcases⟩
  have hsame : SameTopic s (Event.flush now true) := trivial
  have hindexed := indexed_step h hsame hsnap
  rcases hcases with ⟨_, rfl⟩ | ⟨es, s2, _, hmem, _, hsettle⟩
  · exact hindexed
  · rcases of_step_settle hsettle with ⟨f, _hf, rfl⟩
    show s2.mem.Indexed
    rw [hmem]
    exact hindexed

/-- An up-to-date table can be opened, since its live messages fitted before. -/
theorem openStore_of_persisted {opened t : Int} (hindexed : s.mem.Indexed)
    (hdisk : Persisted codec s) (hknown : Known codec opened s) (ht : opened ≤ t) :
    exists r, openStore cfg codec s.disk t = some r := by
  apply openStore_of_fits
  refine le_trans (Table.total_le_of_sub ?_) hindexed.fits
  intro id msg hlookup
  rw [load_of_persisted hdisk hknown ht id] at hlookup
  exact (Option.filter_eq_some_iff.mp hlookup).left

theorem disk_follows_memory {disk : Table MsgId Row} {opened : Int} {es : List Event}
    {s0 : System Row} (hlaw : codec.RoundTrips)
    (hopen : openStore cfg codec disk opened = some s0)
    (hrun : Run (step cfg codec) Orderly s0 es s) :
    (forall id msg, s.mem.msgs.lookup id = some msg -> id ∉ s.mem.dirty ->
      (forall f, f ∈ s.flight -> id ∉ f.batch.map Prod.fst) -> OnDisk codec s.disk id msg) ∧
    forall s', Flushed cfg codec s s' -> forall t, opened ≤ t ->
      exists r, openStore cfg codec s'.disk t = some r ∧
        (forall id, r.mem.msgs.lookup id =
          (s'.mem.msgs.lookup id).filter (fun msg => t < msg.expiryAt)) ∧
        r.mem.Indexed ∧
        forall cfg' disk' opened' q0 es' q, openStore cfg' codec disk' opened' = some q0 ->
          Run (step cfg' codec) Orderly q0 es' q -> q.mem.msgs = r.mem.msgs ->
          r.mem.byTopic = q.mem.byTopic ∧ r.mem.bytes = q.mem.bytes := by
  have hcareful : Run (step cfg codec) (Careful cfg codec) s0 es s :=
    hrun.mono (fun _ _ h => careful_of_orderly h)
  rcases follows_known_run hlaw hcareful ⟨follows_openStore hopen, known_openStore hopen⟩ with
    ⟨hfollows, hknown⟩
  have hindexed := indexed_run hopen (hrun.mono (fun _ _ h => sameTopic_of_orderly h))
  constructor
  · intro id msg hlookup hclean hbatch
    apply hfollows.stored id msg hlookup hclean
    intro f hf hwritten
    rcases List.mem_map.mp hwritten with ⟨entry, hentry, heq⟩
    exact hbatch f hf (List.mem_map.mpr ⟨entry, f.writes_sub hentry, heq⟩)
  · intro s' hflush t ht
    have hdisk := (hfollows.flushed hlaw hflush).right
    have hknown' := known_flushed hlaw hfollows hknown hflush
    rcases @openStore_of_persisted _ cfg _ _ _ _ (indexed_flushed hindexed hflush) hdisk
      hknown' ht with ⟨r, hr⟩
    rcases of_openStore hr with ⟨hmsgs, _, hrindexed, _⟩
    refine ⟨r, hr, ?_, hrindexed, ?_⟩
    · intro id
      rw [hmsgs]
      exact load_of_persisted hdisk hknown' ht id
    · intro cfg' disk' opened' q0 es' q hopen' hrun' hsame
      exact hrindexed.determined
        (indexed_run hopen' (hrun'.mono (fun _ _ h => sameTopic_of_orderly h))) hsame.symm

end System

/-!
## A sample store
-/

namespace Sample

/-- A table with an expired message and a row that cannot be decoded. -/
def disk : Table MsgId (Option StoredMsg) :=
  Table.writeRows ∅ [(3, some (StoredMsg.new 0 sender (publish "a/old") 5)), (4, none)]

def opened : System (Option StoredMsg) :=
  (System.openStore cfg codec disk 9).get (by decide +kernel)

theorem opened_eq : System.openStore cfg codec disk 9 = some opened :=
  (Option.some_get _).symm

/-- One message is stored, written, and then replayed to a client. -/
def replay : List Event :=
  [Event.store 10 7 sender (publish "a/b") 100, Event.work 11, Event.flush 12 true,
    Event.settle 0, Event.get 13 "reader" "a/#" [7]]

def replayed : System (Option StoredMsg) :=
  (exec? (System.step cfg codec) System.Orderly opened replay).get (by decide +kernel)

/-- The next flush, which writes the mark. -/
def flushed : System (Option StoredMsg) :=
  (exec? (System.step cfg codec) System.Orderly replayed
    [Event.flush 14 true, Event.settle 0]).get (by decide +kernel)

theorem flushed_of_replayed : System.Flushed cfg codec replayed flushed := by
  refine ⟨14, replayed.snapshot cfg codec 14 true, ?_, rfl, Or.inr ⟨[], _, Run.nil _, rfl, rfl, ?_⟩⟩
  · exact List.isEmpty_iff.mp (by decide +kernel)
  · exact (Option.some_get _).symm

end Sample

namespace System

theorem disk_follows_memory_replayed :
    exists r, openStore Sample.cfg Sample.codec Sample.flushed.disk 20 = some r ∧
      (r.mem.msgs.lookup 7).map StoredMsg.deliveredTo = some {"reader"} := by
  have hrun := @Run.of_isSome _ _ (step Sample.cfg Sample.codec) Orderly _ Sample.opened
    Sample.replay (by decide +kernel)
  rcases (disk_follows_memory Sample.codec_roundTrips Sample.opened_eq hrun).right
    Sample.flushed Sample.flushed_of_replayed 20 (by decide) with ⟨r, hr, hmsgs, _⟩
  refine ⟨r, hr, ?_⟩
  rw [hmsgs 7]
  decide +kernel

end System

end Store
end Ciqada
