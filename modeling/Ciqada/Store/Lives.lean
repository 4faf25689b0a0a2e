import Ciqada.Store.DiskFollowsMemory
import Ciqada.Store.Replay

/-!
# A store across restarts

A store lives from one opening to the next.  The history of its lives records
which ids were stored, in which order, and which message replay has given to
which client.
-/

namespace Ciqada
namespace Store

open Foundation Broker

/-- How far the marks of replay have come on their way to the disk. -/
inductive Progress where
  | unsaved
  | taken
  | saved
  deriving DecidableEq

inductive Turn where
  | act (e : Event)
  | restart (now : Int)

/--
A store with its history.  `before` are the ids of the table at the very first
opening, `applied` the ids the worker has stored since, in order, and `given`
what replay returned, client by client.
-/
structure Lives (Row : Type) where
  sys : System Row
  before : Finset MsgId
  applied : List MsgId
  given : List (String × MsgId)
  progress : Progress

namespace Lives

variable {Row : Type}

def begin (sys : System Row) : Lives Row :=
  { sys := sys, before := sys.disk.keys, applied := [], given := [], progress := Progress.saved }

/-- The progress after a step that led to the given state. -/
def progressAfter (h : Lives Row) (s : System Row) : Event -> Progress
  | Event.get _ _ _ _ => Progress.unsaved
  | Event.flush _ _ =>
      if h.progress = Progress.saved ∨ s.flight.isEmpty = true then Progress.saved
      else Progress.taken
  | Event.settle _ =>
      if h.progress = Progress.taken then Progress.saved else h.progress
  | _ => h.progress

/-- A restart loses what is only in memory, in the channel or in a transaction. -/
def step (cfg : Config) (codec : Codec Row) (h : Lives Row) : Turn -> Option (Lives Row)
  | Turn.act e =>
      match System.step cfg codec h.sys e with
      | some s =>
          some
            { sys := s
              before := h.before
              applied := h.applied ++ h.sys.storedBy e
              given := h.given ++ h.sys.givenBy cfg e
              progress := h.progressAfter s e }
      | none => none
  | Turn.restart now =>
      match System.openStore cfg codec h.sys.disk now with
      | some s => some { h with sys := s, progress := Progress.saved }
      | none => none

/-- The id was never used, neither in the first table nor by the worker. -/
def NewId (h : Lives Row) (id : MsgId) : Prop :=
  id ∉ h.before ∧ id ∉ h.applied

instance (h : Lives Row) (id : MsgId) : Decidable (h.NewId id) :=
  inferInstanceAs (Decidable (_ ∧ _))

/-- Every stored id is new. -/
def NewWork (h : Lives Row) : Prop :=
  forall entry, entry ∈ h.sys.channel.head? -> h.NewId entry.1

instance (h : Lives Row) : Decidable h.NewWork :=
  inferInstanceAs (Decidable (forall entry, entry ∈ h.sys.channel.head? -> h.NewId entry.1))

/--
Ids are never used twice, flushes commit and do not overlap, and before a
restart there was a flush with no replay after its snapshot.
-/
def Regular (h : Lives Row) : Turn -> Prop
  | Turn.act (Event.work _) => h.NewWork
  | Turn.act (Event.flush _ commits) => h.sys.flight = [] ∧ commits = true
  | Turn.act _ => True
  | Turn.restart _ => h.progress = Progress.saved

instance (h : Lives Row) : (t : Turn) -> Decidable (Regular h t)
  | Turn.act (Event.work _) => inferInstanceAs (Decidable h.NewWork)
  | Turn.act (Event.flush _ commits) =>
      decidable_of_iff (h.sys.flight.isEmpty = true ∧ commits = true)
        (and_congr List.isEmpty_iff Iff.rfl)
  | Turn.act Event.nextMsgId => isTrue trivial
  | Turn.act (Event.store _ _ _ _ _) => isTrue trivial
  | Turn.act (Event.get _ _ _ _) => isTrue trivial
  | Turn.act (Event.settle _) => isTrue trivial
  | Turn.restart _ => inferInstanceAs (Decidable (_ = _))

/-- Ids are never used twice; flushes and restarts are not restricted. -/
def NewIds (h : Lives Row) : Turn -> Prop
  | Turn.act (Event.work _) => h.NewWork
  | _ => True

instance (h : Lives Row) : (t : Turn) -> Decidable (NewIds h t)
  | Turn.act (Event.work _) => inferInstanceAs (Decidable h.NewWork)
  | Turn.act Event.nextMsgId => isTrue trivial
  | Turn.act (Event.store _ _ _ _ _) => isTrue trivial
  | Turn.act (Event.get _ _ _ _) => isTrue trivial
  | Turn.act (Event.flush _ _) => isTrue trivial
  | Turn.act (Event.settle _) => isTrue trivial
  | Turn.restart _ => isTrue trivial

section Inversion

variable {cfg : Config} {codec : Codec Row} {h h' : Lives Row}

theorem of_step_act {e : Event} (hstep : step cfg codec h (Turn.act e) = some h') :
    exists s, System.step cfg codec h.sys e = some s ∧
      h' = { sys := s, before := h.before, applied := h.applied ++ h.sys.storedBy e,
             given := h.given ++ h.sys.givenBy cfg e, progress := h.progressAfter s e } := by
  simp only [step] at hstep
  split at hstep
  · rename_i s hs
    exact ⟨s, hs, (Option.some.inj hstep).symm⟩
  · cases hstep

theorem of_step_restart {now : Int} (hstep : step cfg codec h (Turn.restart now) = some h') :
    exists s, System.openStore cfg codec h.sys.disk now = some s ∧
      h' = { h with sys := s, progress := Progress.saved } := by
  simp only [step] at hstep
  split at hstep
  · rename_i s hs
    exact ⟨s, hs, (Option.some.inj hstep).symm⟩
  · cases hstep

end Inversion

end Lives

namespace System

variable {Row : Type} {cfg : Config} {codec : Codec Row} {s s' : System Row}

/-!
## Where ids come from
-/

/-- All ids of the store satisfy a property. -/
structure Within (P : MsgId -> Prop) (s : System Row) : Prop where
  msgs : forall id, id ∈ s.mem.msgs -> P id
  disk : forall id, id ∈ s.disk -> P id
  batch : forall f, f ∈ s.flight -> forall id, id ∈ f.batch.map Prod.fst -> P id

theorem Within.mono {P Q : MsgId -> Prop} (h : Within P s) (hPQ : forall id, P id -> Q id) :
    Within Q s :=
  ⟨fun id hid => hPQ id (h.msgs id hid), fun id hid => hPQ id (h.disk id hid),
    fun f hf id hid => hPQ id (h.batch f hf id hid)⟩

theorem within_step {P : MsgId -> Prop} {e : Event} (h : Within P s)
    (hstored : forall id, id ∈ s.storedBy e -> P id)
    (hstep : step cfg codec s e = some s') : Within P s' := by
  have hmsgs : forall id, id ∈ s'.mem.msgs -> P id := by
    intro id hid
    by_cases hnew : id ∈ s.storedBy e
    · exact hstored id hnew
    · rcases Finmap.mem_iff.mp hid with ⟨msg', hlookup⟩
      rcases grown_step hstep hnew hlookup with ⟨msg, hmsg, _⟩
      exact h.msgs id (Finmap.mem_of_lookup_eq_some hmsg)
  refine ⟨hmsgs, ?_, ?_⟩
  · cases effect_of_step hstep with
    | idle _ channel counter => exact h.disk
    | memory _ channel hm => exact h.disk
    | snapshot now commits =>
        rw [snapshot_disk]
        exact h.disk
    | @settled i f hf =>
        intro id hid
        rcases Finmap.mem_iff.mp hid with ⟨row, hrow⟩
        rcases Flush.lookup_apply_cases hrow with hwritten | hold
        · rcases List.mem_map.mp hwritten with ⟨entry, hentry, rfl⟩
          exact h.batch f (List.mem_of_getElem? hf) entry.1
            (List.mem_map.mpr ⟨entry, f.writes_sub hentry, rfl⟩)
        · exact h.disk id (Finmap.mem_of_lookup_eq_some hold)
  · cases effect_of_step hstep with
    | idle _ channel counter => exact h.batch
    | memory _ channel hm => exact h.batch
    | snapshot now commits =>
        intro f hf id hid
        rcases of_mem_snapshot_flight hf with hold | rfl
        · exact h.batch f hold id hid
        · rcases List.mem_map.mp hid with ⟨⟨id', row⟩, hrow, rfl⟩
          rcases mem_batchOf.mp hrow with ⟨_, msg, hlookup, _⟩
          exact h.msgs id' (Finmap.mem_of_lookup_eq_some (MemState.lookup_of_evict hlookup))
    | @settled i f hf =>
        intro g hg
        exact h.batch g (List.mem_of_mem_eraseIdx hg)

end System

namespace Lives

variable {Row : Type} {cfg : Config} {codec : Codec Row} {h h' : Lives Row}

def Used (h : Lives Row) (id : MsgId) : Prop :=
  id ∈ h.before ∨ id ∈ h.applied

theorem newId_of_stored {e : Event} {id : MsgId} (hnew : NewIds h (Turn.act e))
    (hid : id ∈ h.sys.storedBy e) : h.NewId id := by
  rcases System.mem_storedBy.mp hid with ⟨now, entry, rfl, hentry, rfl⟩
  exact hnew entry hentry

theorem not_used_of_newId {id : MsgId} (hnew : h.NewId id) : ¬ h.Used id := by
  rintro (hbefore | happlied)
  · exact hnew.left hbefore
  · exact hnew.right happlied

theorem nodup_storedBy (s : System Row) (e : Event) : (s.storedBy e).Nodup := by
  cases e with
  | work now =>
      show (s.channel.head?.toList.map Prod.fst).Nodup
      cases s.channel.head? with
      | none => exact List.nodup_nil
      | some entry => exact List.nodup_singleton entry.1
  | nextMsgId => exact List.nodup_nil
  | store now msgId sender p expiryInterval => exact List.nodup_nil
  | get now clientId topicFilter iter => exact List.nodup_nil
  | flush now commits => exact List.nodup_nil
  | settle i => exact List.nodup_nil

/-!
## Ids along all lives
-/

/-- The index describes memory, all ids are used ones, and each was stored once. -/
structure Sound (h : Lives Row) : Prop where
  indexed : h.sys.mem.Indexed
  within : System.Within h.Used h.sys
  appliedOnce : h.applied.Nodup

theorem Sound.sameTopic {e : Event} (hsound : Sound h) (hnew : NewIds h (Turn.act e)) :
    System.SameTopic h.sys e := by
  cases e with
  | work now =>
      intro entry hentry old hold
      exact absurd (hsound.within.msgs entry.1 (Finmap.mem_of_lookup_eq_some hold))
        (not_used_of_newId (hnew entry hentry))
  | nextMsgId => trivial
  | store now msgId sender p expiryInterval => trivial
  | get now clientId topicFilter iter => trivial
  | flush now commits => trivial
  | settle i => trivial

theorem sound_act {e : Event} (hsound : Sound h) (hnew : NewIds h (Turn.act e))
    (hstep : step cfg codec h (Turn.act e) = some h') : Sound h' := by
  rcases of_step_act hstep with ⟨s, hs, rfl⟩
  constructor
  · exact System.indexed_step hsound.indexed (hsound.sameTopic hnew) hs
  · apply System.within_step (hsound.within.mono ?_) ?_ hs
    · rintro id (hbefore | happlied)
      · exact Or.inl hbefore
      · exact Or.inr (List.mem_append_left _ happlied)
    · intro id hstored
      exact Or.inr (List.mem_append_right _ hstored)
  · apply List.nodup_append.mpr
    refine ⟨hsound.appliedOnce, nodup_storedBy h.sys e, ?_⟩
    rintro id happlied _ hstored rfl
    exact (newId_of_stored hnew hstored).right happlied

/-- A store that is opened holds only ids of its table. -/
theorem within_openStore {P : MsgId -> Prop} {disk : Table MsgId Row} {now : Int}
    {s : System Row} (hopen : System.openStore cfg codec disk now = some s)
    (hP : forall id, id ∈ disk -> P id) : System.Within P s := by
  rcases System.of_openStore hopen with ⟨hmsgs, hdisk, _, hflight, _⟩
  constructor
  · intro id hin
    rcases Finmap.mem_iff.mp hin with ⟨msg, hlookup⟩
    rw [hmsgs] at hlookup
    rcases (System.lookup_load.mp hlookup).left with ⟨row, hrow, _⟩
    exact hP id (Finmap.mem_of_lookup_eq_some hrow)
  · rw [hdisk]
    exact hP
  · rw [hflight]
    intro f hf
    cases hf

theorem sound_restart {now : Int} (hsound : Sound h)
    (hstep : step cfg codec h (Turn.restart now) = some h') : Sound h' := by
  rcases of_step_restart hstep with ⟨s, hopen, rfl⟩
  exact ⟨(System.of_openStore hopen).right.right.left,
    within_openStore hopen hsound.within.disk, hsound.appliedOnce⟩

theorem sound_begin {disk : Table MsgId Row} {opened : Int} {s0 : System Row}
    (hopen : System.openStore cfg codec disk opened = some s0) : Sound (begin s0) := by
  rcases System.of_openStore hopen with ⟨_, hdisk, hindexed, _⟩
  refine ⟨hindexed, within_openStore hopen ?_, List.nodup_nil⟩
  intro id hid
  rw [← hdisk] at hid
  exact Or.inl (Finmap.mem_keys.mpr hid)

theorem sound_run {disk : Table MsgId Row} {opened : Int} {s0 : System Row} {ts : List Turn}
    (hopen : System.openStore cfg codec disk opened = some s0)
    (hrun : Run (step cfg codec) NewIds (begin s0) ts h) : Sound h := by
  apply hrun.invariant (sound_begin hopen)
  intro g t g' hinv hnew hstep
  cases t with
  | act e => exact sound_act hinv hnew hstep
  | restart now => exact sound_restart hinv hstep

end Lives

end Store
end Ciqada
