import Ciqada.Store.Follows

/-!
# Opening the store again

What opening loads from a table, and that a table which a flush has just brought
up to date is opened to the messages in memory.
-/

namespace Ciqada
namespace Store

open Foundation Broker

namespace System

variable {Row : Type} {cfg : Config} {codec : Codec Row}

/-!
## Loading
-/

theorem mem_filterMap_loadRow {now : Int} {rows : List (MsgId × Row)} {id : MsgId}
    {msg : StoredMsg} :
    (id, msg) ∈ rows.filterMap (loadRow codec now) <->
      exists row, (id, row) ∈ rows ∧ codec.dec row = some msg ∧ now < msg.expiryAt := by
  rw [List.mem_filterMap]
  constructor
  · rintro ⟨⟨id', row⟩, hrow, hload⟩
    unfold loadRow at hload
    dsimp only at hload
    split at hload
    · rename_i msg' hdec
      split at hload
      · rename_i hlive
        have heq := Prod.mk.inj (Option.some.inj hload)
        rw [← heq.left, ← heq.right]
        exact ⟨row, hrow, hdec, hlive⟩
      · cases hload
    · cases hload
  · rintro ⟨row, hrow, hdec, hlive⟩
    refine ⟨(id, row), hrow, ?_⟩
    unfold loadRow
    dsimp only
    rw [hdec]
    exact if_pos hlive

theorem nodup_filterMap_loadRow {now : Int} {rows : List (MsgId × Row)}
    (h : (rows.map Prod.fst).Nodup) :
    ((rows.filterMap (loadRow codec now)).map Prod.fst).Nodup := by
  induction rows with
  | nil => exact List.nodup_nil
  | cons entry rows ih =>
      rw [List.map_cons, List.nodup_cons] at h
      rw [List.filterMap_cons]
      split
      · exact ih h.right
      · rename_i loaded hload
        rw [List.map_cons, List.nodup_cons]
        refine ⟨?_, ih h.right⟩
        intro hmem
        rcases List.mem_map.mp hmem with ⟨⟨id, msg⟩, hentry, hid⟩
        rcases mem_filterMap_loadRow.mp hentry with ⟨row, hrow, _⟩
        have hkey : loaded.1 = entry.1 := by
          have hself : (loaded.1, loaded.2) ∈ [entry].filterMap (loadRow codec now) := by
            rw [List.mem_filterMap]
            exact ⟨entry, List.mem_singleton_self entry, hload⟩
          rcases mem_filterMap_loadRow.mp hself with ⟨row', hrow', _⟩
          exact congrArg Prod.fst (List.mem_singleton.mp hrow')
        apply h.left
        rw [← hkey, ← hid]
        exact List.mem_map.mpr ⟨(id, row), hrow, rfl⟩

/-- Opening loads the rows that can be decoded and have not expired. -/
theorem lookup_load {now : Int} {disk : Table MsgId Row} {id : MsgId} {msg : StoredMsg} :
    (load codec now disk).lookup id = some msg <-> OnDisk codec disk id msg ∧ now < msg.expiryAt := by
  have hnodup := @nodup_filterMap_loadRow Row codec now (Table.rows disk) Table.nodup_rows
  unfold load
  constructor
  · intro hlookup
    by_cases hid : id ∈ ((Table.rows disk).filterMap (loadRow codec now)).map Prod.fst
    · rcases List.mem_map.mp hid with ⟨⟨id', msg'⟩, hentry, rfl⟩
      rw [Table.lookup_writeRows_of_mem ∅ hnodup hentry] at hlookup
      rcases mem_filterMap_loadRow.mp hentry with ⟨row, hrow, hdec, hlive⟩
      rw [← Option.some.inj hlookup]
      exact ⟨⟨row, Table.mem_rows.mp hrow, hdec⟩, hlive⟩
    · rw [Table.lookup_writeRows_of_not_mem ∅ hid, Finmap.lookup_empty] at hlookup
      cases hlookup
  · rintro ⟨⟨row, hrow, hdec⟩, hlive⟩
    exact Table.lookup_writeRows_of_mem ∅ hnodup
      (mem_filterMap_loadRow.mpr ⟨row, Table.mem_rows.mpr hrow, hdec, hlive⟩)

/-!
## The rebuilt index
-/

theorem mem_foldl_add {entries : List (MsgId × StoredMsg)} {index : Index String MsgId}
    {topic : String} {id : MsgId} :
    id ∈ Index.entriesOf (entries.foldl
        (fun index entry => Index.add index entry.2.publish.topic entry.1) index) topic <->
      (exists msg, (id, msg) ∈ entries ∧ msg.publish.topic = topic) ∨
        id ∈ Index.entriesOf index topic := by
  induction entries generalizing index with
  | nil => simp
  | cons entry entries ih =>
      rw [List.foldl_cons, ih, Index.mem_add]
      constructor
      · rintro (⟨msg, hmem, htopic⟩ | ⟨htopic, hid⟩ | hold)
        · exact Or.inl ⟨msg, List.mem_cons_of_mem entry hmem, htopic⟩
        · refine Or.inl ⟨entry.2, ?_, htopic.symm⟩
          rw [hid]
          exact List.mem_cons_self
        · exact Or.inr hold
      · rintro (⟨msg, hmem, htopic⟩ | hold)
        · rcases List.mem_cons.mp hmem with heq | htail
          · rw [← heq]
            exact Or.inr (Or.inl ⟨htopic.symm, rfl⟩)
          · exact Or.inl ⟨msg, htail, htopic⟩
        · exact Or.inr (Or.inr hold)

theorem mem_topicIndex {msgs : Table MsgId StoredMsg} {topic : String} {id : MsgId} :
    id ∈ Index.entriesOf (topicIndex msgs) topic <->
      exists msg, msgs.lookup id = some msg ∧ msg.publish.topic = topic := by
  unfold topicIndex
  rw [mem_foldl_add]
  constructor
  · rintro (⟨msg, hmem, htopic⟩ | hnone)
    · exact ⟨msg, Table.mem_rows.mp hmem, htopic⟩
    · unfold Index.entriesOf at hnone
      rw [Finmap.lookup_empty] at hnone
      exact absurd hnone (Finset.notMem_empty id)
  · rintro ⟨msg, hlookup, htopic⟩
    exact Or.inl ⟨msg, Table.mem_rows.mpr hlookup, htopic⟩

theorem noEmpty_topicIndex (msgs : Table MsgId StoredMsg) : Index.NoEmpty (topicIndex msgs) := by
  have hempty : Index.NoEmpty (∅ : Index String MsgId) := by
    intro topic ids hlookup
    rw [Finmap.lookup_empty] at hlookup
    cases hlookup
  exact @List.foldlRecOn (Index String MsgId) (MsgId × StoredMsg) Index.NoEmpty _ _ ∅ hempty
    (fun _index hindex entry _hentry =>
      Index.noEmpty_add hindex entry.2.publish.topic entry.1)

/-!
## The opened store
-/

variable {disk : Table MsgId Row} {now : Int} {s s' : System Row}

theorem of_openStore (hopen : openStore cfg codec disk now = some s) :
    s.mem.msgs = load codec now disk ∧ s.disk = disk ∧ s.mem.Indexed ∧ s.flight = [] ∧
      s.mem.removed = ∅ ∧ s.evicted = ∅ := by
  unfold openStore at hopen
  dsimp only at hopen
  split at hopen
  · rename_i hfits
    rw [← Option.some.inj hopen]
    exact ⟨rfl, rfl, ⟨fun _ _ => mem_topicIndex, noEmpty_topicIndex _, rfl, hfits⟩, rfl, rfl, rfl⟩
  · cases hopen

theorem openStore_of_fits (hfits : Fits (load codec now disk)) :
    exists r, openStore cfg codec disk now = some r := by
  unfold openStore
  dsimp only
  rw [if_pos hfits]
  exact ⟨_, rfl⟩

theorem tidy_openStore (hopen : openStore cfg codec disk now = some s) : Tidy s := by
  rcases of_openStore hopen with ⟨_, _, _, _, hremoved, hevicted⟩
  constructor
  · rw [hevicted]
    intro id hid
    exact absurd hid (Finset.notMem_empty id)
  · rw [hremoved]
    intro id hid
    exact absurd hid (Finset.notMem_empty id)

theorem follows_openStore (hopen : openStore cfg codec disk now = some s) : Follows codec s := by
  rcases of_openStore hopen with ⟨hmsgs, hdisk, _, hflight, _, hevicted⟩
  apply Follows.of_persisted (tidy_openStore hopen) hflight
  constructor
  · intro id msg hlookup
    rw [hmsgs] at hlookup
    rw [hdisk]
    exact (lookup_load.mp hlookup).left
  · rw [hevicted]
    intro id hid
    exact absurd hid (Finset.notMem_empty id)

end System

/-!
## An empty table
-/

/-- Memory without messages. -/
def MemState.vacant : MemState :=
  { msgs := ∅, order := [], byTopic := ∅, bytes := 0, dirty := ∅, removed := ∅ }

theorem MemState.not_mem_vacant (id : MsgId) : id ∉ MemState.vacant.msgs :=
  Finmap.notMem_empty

namespace System

variable {Row : Type}

/-- A store without messages, on a table without rows. -/
def vacant : System Row :=
  { mem := MemState.vacant
    counter := 0
    channel := []
    disk := ∅
    flight := []
    evicted := ∅ }

theorem openStore_empty (cfg : Config) (codec : Codec Row) (now : Int) :
    openStore cfg codec ∅ now = some vacant :=
  rfl

end System

end Store
end Ciqada
