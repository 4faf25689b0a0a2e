import Ciqada.Store.Eviction
import Ciqada.Store.Lives

/-!
# Rows that opening skips

The store deletes a row only when its id has been evicted from memory.  A row
that opening does not load, because it has expired or cannot be decoded, never
enters memory.  It stays in the table until its id is stored again.
-/

namespace Ciqada
namespace Store

open Foundation Broker

namespace System

variable {Row : Type} {cfg : Config} {codec : Codec Row} {s s' : System Row} {id : MsgId}

/-- Flushes do not overlap, and every transaction commits. -/
def Committing (s : System Row) : Event -> Prop
  | Event.flush _ commits => s.flight = [] ∧ commits = true
  | _ => True

theorem committing_flush_iff (s : System Row) (now : Int) (commits : Bool) :
    (s.flight.isEmpty = true ∧ commits = true) <-> Committing s (Event.flush now commits) :=
  and_congr List.isEmpty_iff Iff.rfl

instance (s : System Row) : (e : Event) -> Decidable (Committing s e)
  | Event.flush now commits =>
      decidable_of_iff (s.flight.isEmpty = true ∧ commits = true)
        (committing_flush_iff s now commits)
  | Event.nextMsgId => isTrue trivial
  | Event.store _ _ _ _ _ => isTrue trivial
  | Event.work _ => isTrue trivial
  | Event.get _ _ _ _ => isTrue trivial
  | Event.settle _ => isTrue trivial

theorem careful_of_committing {e : Event} (h : Committing s e) : Careful cfg codec s e := by
  cases e with
  | flush now commits => exact careful_of_commits h.left h.right
  | nextMsgId => trivial
  | store now msgId sender p expiryInterval => trivial
  | work now => trivial
  | get now clientId topicFilter iter => trivial
  | settle i => trivial

/-!
## Ids that the store knows
-/

/-- A stored message is in memory, or was evicted at once. -/
theorem of_storedBy {e : Event} (hid : id ∈ s.storedBy e)
    (hstep : step cfg codec s e = some s') : id ∈ s'.mem.msgs ∨ id ∈ s'.mem.removed := by
  rcases mem_storedBy.mp hid with ⟨now, entry, rfl, hentry, hkey⟩
  rcases of_step_work hstep with ⟨key, msg, rest, hchannel, _, rfl⟩
  rw [hchannel] at hentry
  have hentry' : (key, msg) = entry := Option.some.inj hentry
  have hput : key ∈ (s.mem.put key msg).msgs := by
    rw [MemState.put_msgs]
    exact Finmap.mem_insert.mpr (Or.inl rfl)
  rw [← hkey, ← hentry']
  exact (MemState.moves_evict cfg now (s.mem.put key msg)).left key hput

theorem knows_of_stored {e : Event} (hid : id ∈ s.storedBy e) (htidy : Tidy s)
    (hstep : step cfg codec s e = some s') : s'.Knows id := by
  rcases of_storedBy hid hstep with hin | hremoved
  · exact Or.inl hin
  · exact Or.inr ((tidy_step htidy hstep).recorded id hremoved)

theorem knows_run {es : List Event} {meets : System Row -> Event -> Prop}
    (hrun : Run (step cfg codec) meets s es s') (htidy : Tidy s)
    (h : s.Knows id ∨ id ∈ collect (step cfg codec) storedBy s es) : s'.Knows id := by
  induction hrun with
  | nil s =>
      rcases h with hknown | hnone
      · exact hknown
      · cases hnone
  | cons _ hstep _ ih =>
      apply ih (tidy_step htidy hstep)
      rw [collect_cons _ hstep] at h
      rcases h with hknown | hstored
      · exact Or.inl (knows_step hknown hstep)
      · rcases List.mem_append.mp hstored with hnow | hlater
        · exact Or.inl (knows_of_stored hnow htidy hstep)
        · exact Or.inr hlater

/-!
## Ids that the store has no trace of
-/

/-- The id is not in memory, and no removal or write of its row is owed. -/
structure Untraced (s : System Row) (id : MsgId) : Prop where
  msgs : id ∉ s.mem.msgs
  removed : id ∉ s.mem.removed
  batch : forall f, f ∈ s.flight -> id ∉ f.batch.map Prod.fst
  erased : forall f, f ∈ s.flight -> id ∉ f.removed

/-- Only a message in memory is evicted. -/
theorem of_removed_evict {now : Int} (h : s.mem.Coherent)
    (hid : id ∈ (s.mem.evict cfg now).removed) : id ∈ s.mem.removed ∨ id ∈ s.mem.msgs := by
  rcases h.evicted cfg now with ⟨gone, hsplit, hevicted⟩
  rw [hevicted.removed, Finset.mem_union, List.mem_toFinset] at hid
  rcases hid with hold | hgone
  · exact Or.inl hold
  · right
    rw [← h.orderExact id, hsplit]
    exact List.mem_append_left _ hgone

theorem of_removed_step {e : Event} (h : s.mem.Coherent) (hnew : id ∉ s.storedBy e)
    (hstep : step cfg codec s e = some s') (hid : id ∈ s'.mem.removed) :
    id ∈ s.mem.removed ∨ id ∈ s.mem.msgs := by
  cases e with
  | nextMsgId =>
      rw [← Option.some.inj hstep] at hid
      exact Or.inl hid
  | store now msgId sender p expiryInterval =>
      rw [← Option.some.inj hstep] at hid
      exact Or.inl hid
  | work now =>
      rcases of_step_work hstep with ⟨key, msg, rest, hchannel, hfits, rfl⟩
      have hne := ne_of_not_stored hnew hchannel
      rcases @of_removed_evict _ cfg { s with mem := s.mem.put key msg } id now (h.put hfits) hid
        with hold | hin
      · rw [MemState.put_removed] at hold
        exact Or.inl (Finset.mem_of_mem_erase hold)
      · rw [MemState.put_msgs, Finmap.mem_insert] at hin
        exact Or.inr (hin.resolve_left hne)
  | get now clientId topicFilter iter =>
      rw [of_step_get hstep] at hid
      have hframe := MemState.marks_frame clientId
        (((s.mem.evict cfg now).deliver now clientId iter).2.map Prod.fst) (s.mem.evict cfg now)
      exact of_removed_evict h (hframe.right.right.right.left ▸ hid)
  | flush now commits =>
      rw [← Option.some.inj hstep, snapshot_mem] at hid
      exact absurd hid (Finset.notMem_empty id)
  | settle i =>
      rcases of_step_settle hstep with ⟨f, _hf, rfl⟩
      exact Or.inl hid

/-- A snapshot writes and removes no row of the id. -/
theorem Untraced.flight_snapshot (h : s.Untraced id) (hcoherent : s.mem.Coherent) {now : Int}
    {commits : Bool} {f : Flush Row} (hf : f ∈ (s.snapshot cfg codec now commits).flight) :
    id ∉ f.batch.map Prod.fst ∧ id ∉ f.removed := by
  rcases of_mem_snapshot_flight hf with hold | rfl
  · exact ⟨h.batch f hold, h.erased f hold⟩
  · constructor
    · intro hid
      rcases List.mem_map.mp hid with ⟨⟨id', row⟩, hrow, rfl⟩
      rcases mem_batchOf.mp hrow with ⟨_, msg, hlookup, _⟩
      exact h.msgs (Finmap.mem_of_lookup_eq_some (MemState.lookup_of_evict hlookup))
    · intro hid
      rcases of_removed_evict hcoherent (mem_ascending.mp hid) with hremoved | hin
      · exact h.removed hremoved
      · exact h.msgs hin

/-- A transaction under way leaves the row alone. -/
theorem Untraced.lookup_apply (h : s.Untraced id) {f : Flush Row} (hf : f ∈ s.flight) :
    (f.apply s.disk).lookup id = s.disk.lookup id := by
  have hwrites : id ∉ f.writes.map Prod.fst := by
    intro hid
    rcases List.mem_map.mp hid with ⟨entry, hentry, rfl⟩
    exact h.batch f hf (List.mem_map.mpr ⟨entry, f.writes_sub hentry, rfl⟩)
  have herases : id ∉ f.erases := by
    unfold Flush.erases
    split
    · exact h.erased f hf
    · exact List.not_mem_nil
  rw [Flush.lookup_apply_of_not_mem s.disk hwrites, if_neg herases]

/-- A step that does not store the id leaves its row alone. -/
theorem untraced_step {e : Event} (h : s.Untraced id) (hcoherent : s.mem.Coherent)
    (hnew : id ∉ s.storedBy e) (hstep : step cfg codec s e = some s') :
    s'.Untraced id ∧ s'.disk.lookup id = s.disk.lookup id := by
  have hmsgs : id ∉ s'.mem.msgs := by
    intro hin
    rcases Finmap.mem_iff.mp hin with ⟨msg', hlookup⟩
    rcases grown_step hstep hnew hlookup with ⟨msg, hmsg, _⟩
    exact h.msgs (Finmap.mem_of_lookup_eq_some hmsg)
  have hremoved : id ∉ s'.mem.removed := by
    intro hin
    rcases of_removed_step hcoherent hnew hstep hin with hold | hmem
    · exact h.removed hold
    · exact h.msgs hmem
  cases effect_of_step hstep with
  | idle _ channel counter => exact ⟨⟨hmsgs, hremoved, h.batch, h.erased⟩, rfl⟩
  | memory _ channel hm => exact ⟨⟨hmsgs, hremoved, h.batch, h.erased⟩, rfl⟩
  | snapshot now commits =>
      have hflight : forall f, f ∈ (s.snapshot cfg codec now commits).flight ->
          id ∉ f.batch.map Prod.fst ∧ id ∉ f.removed :=
        fun f hf => h.flight_snapshot hcoherent hf
      exact ⟨⟨hmsgs, hremoved, fun f hf => (hflight f hf).left, fun f hf => (hflight f hf).right⟩,
        by rw [snapshot_disk]⟩
  | @settled i f hf =>
      refine ⟨⟨hmsgs, hremoved, ?_, ?_⟩, h.lookup_apply (List.mem_of_getElem? hf)⟩
      · intro g hg
        exact h.batch g (List.mem_of_mem_eraseIdx hg)
      · intro g hg
        exact h.erased g (List.mem_of_mem_eraseIdx hg)

theorem untraced_run {es : List Event} {meets : System Row -> Event -> Prop}
    (hrun : Run (step cfg codec) meets s es s') (h : s.Untraced id) (hcoherent : s.mem.Coherent)
    (hnew : id ∉ collect (step cfg codec) storedBy s es) :
    s'.Untraced id ∧ s'.disk.lookup id = s.disk.lookup id := by
  induction hrun with
  | nil s => exact ⟨h, rfl⟩
  | cons _ hstep _ ih =>
      rw [collect_cons _ hstep, List.mem_append, not_or] at hnew
      rcases untraced_step h hcoherent hnew.left hstep with ⟨hnext, hrow⟩
      rcases ih hnext (coherent_step hcoherent hstep) hnew.right with ⟨hend, hrows⟩
      exact ⟨hend, hrows.trans hrow⟩

theorem within_run {es : List Event} {meets : System Row -> Event -> Prop} {P : MsgId -> Prop}
    (hrun : Run (step cfg codec) meets s es s') (h : Within P s)
    (hstored : forall id, id ∈ collect (step cfg codec) storedBy s es -> P id) : Within P s' := by
  induction hrun with
  | nil s => exact h
  | cons _ hstep _ ih =>
      rw [collect_cons _ hstep] at hstored
      apply ih
      · apply within_step h ?_ hstep
        intro id hid
        exact hstored id (List.mem_append_left _ hid)
      · intro id hid
        exact hstored id (List.mem_append_right _ hid)

/-!
## After a flush
-/

/--
The run ends after a flush that has committed, or had nothing to write, and memory
is as its snapshot left it.
-/
def EndsFlushed (cfg : Config) (codec : Codec Row) (s0 : System Row) (es : List Event)
    (s : System Row) : Prop :=
  exists before now since u s1, es = before ++ Event.flush now true :: since ∧
    Run (step cfg codec) Always s0 before u ∧
    step cfg codec u (Event.flush now true) = some s1 ∧ s.mem = s1.mem ∧ s.flight = []

theorem EndsFlushed.clean {s0 : System Row} {es : List Event}
    (h : EndsFlushed cfg codec s0 es s) :
    s.flight = [] ∧ s.mem.dirty = ∅ ∧ s.mem.removed = ∅ := by
  rcases h with ⟨before, now, since, u, s1, _, _, hsnap, hmem, hidle⟩
  rw [hmem, ← Option.some.inj hsnap, snapshot_mem]
  exact ⟨hidle, rfl, rfl⟩

/-- The usual case: a flush whose transaction follows at once. -/
theorem endsFlushed_of_run {s0 : System Row} {es : List Event} {now : Int}
    (hrun : Run (step cfg codec) Committing s0 (es ++ [Event.flush now true, Event.settle 0]) s)
    (hidle : s.flight = []) :
    EndsFlushed cfg codec s0 (es ++ [Event.flush now true, Event.settle 0]) s := by
  rcases hrun.of_append with ⟨u, hbefore, hrest⟩
  cases hrest with
  | cons _ hsnap hsettle =>
      refine ⟨es, now, [Event.settle 0], u, _, rfl, hbefore.mono (fun _ _ _ => trivial), hsnap, ?_,
        hidle⟩
      cases hsettle with
      | cons _ hstep hnil =>
          rcases of_step_settle hstep with ⟨f, _, rfl⟩
          cases hnil
          rfl

theorem mem_loaded_iff {disk : Table MsgId Row} {opened : Int} {s0 : System Row}
    (hopen : openStore cfg codec disk opened = some s0) (id : MsgId) :
    id ∈ s0.mem.msgs <-> exists msg, OnDisk codec disk id msg ∧ opened < msg.expiryAt := by
  rw [(of_openStore hopen).left, Finmap.mem_iff]
  exact exists_congr (fun msg => lookup_load)

/-- A row that was skipped and is not stored again outlives every run. -/
theorem skipped_row_stays {disk : Table MsgId Row} {opened : Int} {es : List Event}
    {s0 : System Row} {meets : System Row -> Event -> Prop}
    (hopen : openStore cfg codec disk opened = some s0)
    (hrun : Run (step cfg codec) meets s0 es s) (hid : id ∈ disk) (hskipped : id ∉ s0.mem.msgs)
    (hnew : id ∉ collect (step cfg codec) storedBy s0 es) : id ∈ s.disk ∧ id ∉ s.mem.msgs := by
  rcases of_openStore hopen with ⟨_, hdisk, _, hflight, hnone, _⟩
  have huntraced : s0.Untraced id := by
    refine ⟨hskipped, ?_, ?_, ?_⟩
    · rw [hnone]
      exact Finset.notMem_empty id
    · rw [hflight]
      intro f hf
      cases hf
    · rw [hflight]
      intro f hf
      cases hf
  rcases untraced_run hrun huntraced (coherent_openStore hopen) hnew with ⟨hend, hrow⟩
  refine ⟨?_, hend.msgs⟩
  rw [Finmap.mem_iff, hrow, hdisk]
  exact Finmap.mem_iff.mp hid

/-- A row on disk belongs to an id that was there at open or was stored in the run. -/
theorem of_mem_disk {disk : Table MsgId Row} {opened : Int} {es : List Event} {s0 : System Row}
    {meets : System Row -> Event -> Prop} (hopen : openStore cfg codec disk opened = some s0)
    (hrun : Run (step cfg codec) meets s0 es s) (hid : id ∈ s.disk) :
    id ∈ disk ∨ id ∈ collect (step cfg codec) storedBy s0 es := by
  have hwithin : Within (fun id => id ∈ disk ∨ id ∈ collect (step cfg codec) storedBy s0 es) s :=
    within_run hrun (Lives.within_openStore hopen (fun id hid => Or.inl hid))
      (fun id hid => Or.inr hid)
  exact hwithin.disk id hid

theorem disk_keys_exact_iff {disk : Table MsgId Row} {opened : Int} {es : List Event}
    {s0 : System Row} (hlaw : codec.RoundTrips)
    (hopen : openStore cfg codec disk opened = some s0)
    (hrun : Run (step cfg codec) Committing s0 es s)
    (hflushed : EndsFlushed cfg codec s0 es s) :
    (forall id, id ∈ s.disk <-> id ∈ s.mem.msgs) <->
      forall id, id ∈ disk -> (exists msg, OnDisk codec disk id msg ∧ opened < msg.expiryAt) ∨
        id ∈ collect (step cfg codec) storedBy s0 es := by
  rcases hflushed.clean with ⟨hidle, hdirty, hremoved⟩
  have hpersisted := (follows_run hlaw (follows_openStore hopen)
    (hrun.mono (fun _ _ h => careful_of_committing h))).persisted hidle hdirty hremoved
  constructor
  · intro hkeys id hid
    by_contra hdead
    rw [not_or, ← mem_loaded_iff hopen] at hdead
    rcases skipped_row_stays hopen hrun hid hdead.left hdead.right with ⟨hstays, hunloaded⟩
    exact hunloaded ((hkeys id).mp hstays)
  · intro hall id
    constructor
    · intro hid
      have hknown : s.Knows id := by
        apply knows_run hrun (tidy_openStore hopen)
        rcases of_mem_disk hopen hrun hid with hrow | hstored
        · rcases hall id hrow with hlive | hstored
          · exact Or.inl (Or.inl ((mem_loaded_iff hopen id).mpr hlive))
          · exact Or.inr hstored
        · exact Or.inr hstored
      rcases hknown with hin | hevicted
      · exact hin
      · exact absurd hid (Finmap.lookup_eq_none.mp (hpersisted.right id hevicted))
    · intro hin
      rcases Finmap.mem_iff.mp hin with ⟨msg, hlookup⟩
      rcases hpersisted.left id msg hlookup with ⟨row, hrow, _⟩
      exact Finmap.mem_of_lookup_eq_some hrow

end System

namespace Sample

/-- Both rows that opening skipped are stored again, and flushed. -/
def refill : List Event :=
  [Event.store 10 3 sender (publish "a/b") 100, Event.work 11,
    Event.store 12 4 sender (publish "a/b") 100, Event.work 13] ++
    [Event.flush 14 true, Event.settle 0]

/-- Another message is stored and flushed. -/
def newcomer : List Event :=
  [Event.store 10 7 sender (publish "a/b") 100, Event.work 11] ++
    [Event.flush 12 true, Event.settle 0]

end Sample

namespace System

theorem disk_keys_exact_iff_refill :
    exists s, Run (step Sample.cfg Sample.codec) Committing Sample.opened Sample.refill s ∧
      (forall id, id ∈ s.disk <-> id ∈ s.mem.msgs) ∧ s.disk.keys = {3, 4} := by
  have hrun := @Run.of_isSome _ _ (step Sample.cfg Sample.codec) Committing _ Sample.opened
    Sample.refill (by decide +kernel)
  have hflushed := endsFlushed_of_run hrun (List.isEmpty_iff.mp (by decide +kernel))
  refine ⟨_, hrun, ?_, by decide +kernel⟩
  rw [disk_keys_exact_iff Sample.codec_roundTrips Sample.opened_eq hrun hflushed]
  intro id hid
  right
  have hkeys : forall id, id ∈ Sample.disk.keys ->
      id ∈ collect (step Sample.cfg Sample.codec) storedBy Sample.opened Sample.refill := by
    decide +kernel
  exact hkeys id (Finmap.mem_keys.mpr hid)

/-- The rows 3 and 4 outlive a flush, though they were never in memory. -/
theorem disk_keys_exact_fails :
    exists s, Run (step Sample.cfg Sample.codec) Committing Sample.opened Sample.newcomer s ∧
      EndsFlushed Sample.cfg Sample.codec Sample.opened Sample.newcomer s ∧
      s.disk.keys = {3, 4, 7} ∧ s.mem.msgs.keys = {7} := by
  have hrun := @Run.of_isSome _ _ (step Sample.cfg Sample.codec) Committing _ Sample.opened
    Sample.newcomer (by decide +kernel)
  exact ⟨_, hrun, endsFlushed_of_run hrun (List.isEmpty_iff.mp (by decide +kernel)),
    by decide +kernel, by decide +kernel⟩

end System

end Store
end Ciqada
