import Ciqada.Store.Lives

/-!
# Replay is at most once

The mark of a replay stays with its message, in memory and, once a flush has
taken it, across restarts.  So no message is given to a client twice.
-/

namespace Ciqada
namespace Store

open Foundation Broker

namespace System

variable {Row : Type} {cfg : Config} {codec : Codec Row} {s s' : System Row}

/-- A row of an id that the store does not know was there before the step. -/
theorem unknown_step {e : Event} {id : MsgId} {msg : StoredMsg} (h : Follows codec s)
    (hstep : step cfg codec s e = some s') (hin : id ∉ s'.mem.msgs) (hevicted : id ∉ s'.evicted)
    (hon : OnDisk codec s'.disk id msg) :
    id ∉ s.mem.msgs ∧ id ∉ s.evicted ∧ OnDisk codec s.disk id msg := by
  have hmemory : forall m, s.mem.Moves m -> id ∉ m.msgs -> id ∉ (s.withMem m).evicted ->
      id ∉ s.mem.msgs ∧ id ∉ s.evicted := by
    intro m hm hout hnot
    rw [mem_evicted_withMem, not_or] at hnot
    constructor
    · intro hold
      rcases hm.left id hold with hin' | hremoved
      · exact hout hin'
      · exact hnot.right hremoved
    · intro hold
      exact hnot.left ⟨hold, hout⟩
  cases effect_of_step hstep with
  | idle _ channel counter => exact ⟨hin, hevicted, hon⟩
  | memory _ channel hm =>
      rcases hmemory _ hm hin hevicted with ⟨hin', hevicted'⟩
      exact ⟨hin', hevicted', hon⟩
  | snapshot now commits =>
      rw [snapshot_mem] at hin
      rw [snapshot_evicted] at hevicted
      rw [snapshot_disk] at hon
      rcases hmemory _ (MemState.moves_evict cfg now s.mem) hin hevicted with ⟨hin', hevicted'⟩
      exact ⟨hin', hevicted', hon⟩
  | settled i hf =>
      rcases hon with ⟨row, hrow, hdec⟩
      refine ⟨hin, hevicted, ?_⟩
      rcases Flush.lookup_apply_cases hrow with hwritten | hold
      · rcases h.writesKept _ (List.mem_of_getElem? hf) id hwritten with hin' | hremoved
        · exact absurd hin' hin
        · exact absurd (h.tidy.recorded id hremoved) hevicted
      · exact ⟨row, hold, hdec⟩

end System

namespace Lives

variable {Row : Type} {cfg : Config} {codec : Codec Row} {h h' : Lives Row}

/-!
## Marks
-/

/--
A client that was given a message is among those the message was given to: in
memory, and on disk for a message that this life has not loaded.
-/
structure Marked (codec : Codec Row) (h : Lives Row) : Prop extends Sound h where
  follows : System.Follows codec h.sys
  usedGiven : forall clientId id, (clientId, id) ∈ h.given -> h.Used id
  givenOnce : h.given.Nodup
  memory : forall clientId id msg, (clientId, id) ∈ h.given ->
    h.sys.mem.msgs.lookup id = some msg -> clientId ∈ msg.deliveredTo
  unloaded : forall clientId id msg, (clientId, id) ∈ h.given -> id ∉ h.sys.mem.msgs ->
    id ∉ h.sys.evicted -> System.OnDisk codec h.sys.disk id msg -> clientId ∈ msg.deliveredTo

/-- The rows of a table carry the marks of all replays. -/
def MarkedRows (codec : Codec Row) (given : List (String × MsgId)) (disk : Table MsgId Row) :
    Prop :=
  forall clientId id msg, (clientId, id) ∈ given -> System.OnDisk codec disk id msg ->
    clientId ∈ msg.deliveredTo

/-- With the disk up to date, its rows carry the marks. -/
theorem Marked.rows (hmarked : Marked codec h) (hdisk : System.Persisted codec h.sys) :
    MarkedRows codec h.given h.sys.disk := by
  intro clientId id msg hgiven hon
  by_cases hin : id ∈ h.sys.mem.msgs
  · rcases Finmap.mem_iff.mp hin with ⟨msg', hlookup⟩
    rcases hdisk.left id msg' hlookup with ⟨row, hrow, hdec⟩
    rcases hon with ⟨row', hrow', hdec'⟩
    rw [hrow] at hrow'
    rw [← Option.some.inj hrow', hdec] at hdec'
    rw [← Option.some.inj hdec']
    exact hmarked.memory clientId id msg' hgiven hlookup
  · by_cases hevicted : id ∈ h.sys.evicted
    · rcases hon with ⟨row, hrow, _⟩
      rw [hdisk.right id hevicted] at hrow
      cases hrow
    · exact hmarked.unloaded clientId id msg hgiven hin hevicted hon

/-!
## A step of one life
-/

theorem careful_of_regular {e : Event} (hregular : Regular h (Turn.act e)) :
    System.Careful cfg codec h.sys e := by
  cases e with
  | flush now commits => exact System.careful_of_commits hregular.left hregular.right
  | nextMsgId => trivial
  | store now msgId sender p expiryInterval => trivial
  | work now => trivial
  | get now clientId topicFilter iter => trivial
  | settle i => trivial

theorem newIds_of_regular {t : Turn} (hregular : Regular h t) : NewIds h t := by
  cases t with
  | restart now => trivial
  | act e =>
      cases e with
      | work now => exact hregular
      | nextMsgId => trivial
      | store now msgId sender p expiryInterval => trivial
      | get now clientId topicFilter iter => trivial
      | flush now commits => trivial
      | settle i => trivial

theorem marked_act {e : Event} (hlaw : codec.RoundTrips) (hmarked : Marked codec h)
    (hregular : Regular h (Turn.act e)) (hstep : step cfg codec h (Turn.act e) = some h') :
    Marked codec h' := by
  have hsound := sound_act hmarked.toSound (newIds_of_regular hregular) hstep
  rcases of_step_act hstep with ⟨s, hs, rfl⟩
  have hold : forall clientId id, (clientId, id) ∈ h.given -> id ∉ h.sys.storedBy e := by
    intro clientId id hgiven hstored
    exact not_used_of_newId (newId_of_stored (newIds_of_regular hregular) hstored)
      (hmarked.usedGiven clientId id hgiven)
  have hnew : forall clientId id, (clientId, id) ∈ h.sys.givenBy cfg e ->
      exists msg, h.sys.mem.msgs.lookup id = some msg ∧ clientId ∉ msg.deliveredTo ∧
        s.mem.msgs.lookup id = some (msg.givenTo clientId) :=
    fun _ _ hgiven => System.of_givenBy hmarked.indexed hs hgiven
  constructor
  case toSound => exact hsound
  case follows => exact System.follows_step hlaw hmarked.follows (careful_of_regular hregular) hs
  case usedGiven =>
    intro clientId id hgiven
    have hused : h.Used id := by
      rcases List.mem_append.mp hgiven with hbefore | hnow
      · exact hmarked.usedGiven clientId id hbefore
      · rcases hnew clientId id hnow with ⟨msg, hlookup, _, _⟩
        exact hmarked.within.msgs id (Finmap.mem_of_lookup_eq_some hlookup)
    rcases hused with hbefore | happlied
    · exact Or.inl hbefore
    · exact Or.inr (List.mem_append_left _ happlied)
  case givenOnce =>
    apply List.nodup_append.mpr
    refine ⟨hmarked.givenOnce, System.nodup_givenBy hmarked.indexed hs, ?_⟩
    rintro ⟨clientId, id⟩ hbefore _ hnow rfl
    rcases hnew clientId id hnow with ⟨msg, hlookup, hfirst, _⟩
    exact hfirst (hmarked.memory clientId id msg hbefore hlookup)
  case memory =>
    intro clientId id msg' hgiven hlookup'
    rcases List.mem_append.mp hgiven with hbefore | hnow
    · rcases System.grown_step hs (hold clientId id hbefore) hlookup' with
        ⟨msg, hlookup, hgrown⟩
      exact hgrown.deliveredTo (hmarked.memory clientId id msg hbefore hlookup)
    · rcases hnew clientId id hnow with ⟨msg, _, _, hmark⟩
      rw [← Option.some.inj (hmark.symm.trans hlookup')]
      exact Finset.mem_insert_self clientId msg.deliveredTo
  case unloaded =>
    intro clientId id msg hgiven hin hevicted hon
    rcases List.mem_append.mp hgiven with hbefore | hnow
    · rcases System.unknown_step hmarked.follows hs hin hevicted hon with
        ⟨hin', hevicted', hon'⟩
      exact hmarked.unloaded clientId id msg hbefore hin' hevicted' hon'
    · rcases hnew clientId id hnow with ⟨_, _, _, hmark⟩
      exact absurd (Finmap.mem_of_lookup_eq_some hmark) hin

/-!
## The marks on disk
-/

/--
Where the marks of all replays are: on disk once they are saved, and on disk
after the flush in progress once it has taken them.
-/
structure Kept (codec : Codec Row) (h : Lives Row) : Prop where
  onDisk : h.progress = Progress.saved -> MarkedRows codec h.given h.sys.disk
  onWay : h.progress ≠ Progress.unsaved -> forall f, f ∈ h.sys.flight ->
    MarkedRows codec h.given (f.apply h.sys.disk)

theorem Kept.congr (hkept : Kept codec h) (hgiven : h'.given = h.given)
    (hdisk : h'.sys.disk = h.sys.disk) (hflight : h'.sys.flight = h.sys.flight)
    (hprogress : h'.progress = h.progress) : Kept codec h' := by
  constructor
  · rw [hgiven, hdisk, hprogress]
    exact hkept.onDisk
  · rw [hgiven, hdisk, hflight, hprogress]
    exact hkept.onWay

/-- A flush in progress with no change since its snapshot will bring the marks to the disk. -/
theorem marked_apply {f : Flush Row} (cfg : Config) (hlaw : codec.RoundTrips)
    (hmarked : Marked codec h) (hf : f ∈ h.sys.flight) (hdirty : h.sys.mem.dirty = ∅)
    (hremoved : h.sys.mem.removed = ∅) : MarkedRows codec h.given (f.apply h.sys.disk) := by
  rcases List.getElem?_of_mem hf with ⟨i, hi⟩
  rcases hmarked.follows.flight_eq hi with ⟨hflight, rfl⟩
  have hstep : step cfg codec h (Turn.act (Event.settle 0)) =
      some { sys := h.sys.settle 0 f, before := h.before, applied := h.applied ++ [],
             given := h.given ++ [],
             progress := h.progressAfter (h.sys.settle 0 f) (Event.settle 0) } := by
    have hsettle : System.step cfg codec h.sys (Event.settle 0) = some (h.sys.settle 0 f) := by
      simp only [System.step, hi]
    simp only [step, hsettle]
    rfl
  have hdone : System.Persisted codec (h.sys.settle 0 f) := by
    apply (hmarked.follows.settle hi).persisted ?_ hdirty hremoved
    show h.sys.flight.eraseIdx 0 = []
    rw [hflight]
    rfl
  have hregular : Regular h (Turn.act (Event.settle 0)) := trivial
  have hrows := (marked_act hlaw hmarked hregular hstep).rows hdone
  dsimp only at hrows
  rw [List.append_nil] at hrows
  exact hrows

theorem Kept.flush {now : Int} {commits : Bool} (hlaw : codec.RoundTrips) (hkept : Kept codec h)
    (hmarked' : Marked codec h')
    (hstep : step cfg codec h (Turn.act (Event.flush now commits)) = some h') : Kept codec h' := by
  rcases of_step_act hstep with ⟨s, hs, rfl⟩
  have hmem : s.mem = { h.sys.mem.evict cfg now with dirty := ∅, removed := ∅ } := by
    rw [← Option.some.inj hs, System.snapshot_mem]
  have hdisk : s.disk = h.sys.disk := by
    rw [← Option.some.inj hs, System.snapshot_disk]
  have hdirty : s.mem.dirty = ∅ := by rw [hmem]
  have hremoved : s.mem.removed = ∅ := by rw [hmem]
  constructor
  · intro hsaved
    change (if h.progress = Progress.saved ∨ s.flight.isEmpty = true then Progress.saved
      else Progress.taken) = Progress.saved at hsaved
    split at hsaved
    · rename_i hcases
      rcases hcases with hbefore | hempty
      · -- nothing was given since the last flush
        show MarkedRows codec (h.given ++ []) s.disk
        rw [List.append_nil, hdisk]
        exact hkept.onDisk hbefore
      · -- there is nothing to write
        apply hmarked'.rows
        exact hmarked'.follows.persisted (List.isEmpty_iff.mp hempty) hdirty hremoved
    · cases hsaved
  · intro _ f hf
    exact marked_apply cfg hlaw hmarked' hf hdirty hremoved

theorem Kept.settle {i : Nat} (hmarked : Marked codec h) (hkept : Kept codec h)
    (hstep : step cfg codec h (Turn.act (Event.settle i)) = some h') : Kept codec h' := by
  rcases of_step_act hstep with ⟨s, hs, rfl⟩
  rcases System.of_step_settle hs with ⟨f, hf, rfl⟩
  rcases hmarked.follows.flight_eq hf with ⟨hflight, rfl⟩
  constructor
  · intro hsaved
    change (if h.progress = Progress.taken then Progress.saved else h.progress) =
      Progress.saved at hsaved
    have hsent : h.progress ≠ Progress.unsaved := by
      intro hunsaved
      rw [hunsaved, if_neg Progress.noConfusion] at hsaved
      cases hsaved
    show MarkedRows codec (h.given ++ []) (f.apply h.sys.disk)
    rw [List.append_nil]
    exact hkept.onWay hsent f (List.mem_of_getElem? hf)
  · intro _ g hg
    change g ∈ h.sys.flight.eraseIdx 0 at hg
    rw [hflight] at hg
    cases hg

theorem kept_act {e : Event} (hlaw : codec.RoundTrips) (hmarked : Marked codec h)
    (hkept : Kept codec h) (hregular : Regular h (Turn.act e))
    (hstep : step cfg codec h (Turn.act e) = some h') : Kept codec h' := by
  have hmarked' := marked_act hlaw hmarked hregular hstep
  rcases of_step_act hstep with ⟨s, hs, rfl⟩
  cases e with
  | nextMsgId =>
      rw [← Option.some.inj hs]
      exact hkept.congr (List.append_nil _) rfl rfl rfl
  | store now msgId sender p expiryInterval =>
      rw [← Option.some.inj hs]
      exact hkept.congr (List.append_nil _) rfl rfl rfl
  | work now =>
      rcases System.of_step_work hs with ⟨key, msg, rest, _, _, rfl⟩
      exact hkept.congr (List.append_nil _) rfl rfl rfl
  | get now clientId topicFilter iter =>
      constructor
      · intro hsaved
        cases hsaved
      · intro htaken
        exact absurd rfl htaken
  | flush now commits => exact hkept.flush hlaw hmarked' hstep
  | settle i => exact Kept.settle hmarked hkept hstep

/-!
## Restarts and runs
-/

theorem marked_restart {now : Int} (hmarked : Marked codec h) (hkept : Kept codec h)
    (hregular : Regular h (Turn.restart now))
    (hstep : step cfg codec h (Turn.restart now) = some h') :
    Marked codec h' ∧ Kept codec h' := by
  have hsound := sound_restart hmarked.toSound hstep
  rcases of_step_restart hstep with ⟨s, hopen, rfl⟩
  have hrows := hkept.onDisk hregular
  rcases System.of_openStore hopen with ⟨hmsgs, hdisk, _, hflight, _, _⟩
  have hloaded : forall id msg, s.mem.msgs.lookup id = some msg ->
      System.OnDisk codec h.sys.disk id msg := by
    intro id msg hlookup
    rw [hmsgs] at hlookup
    exact (System.lookup_load.mp hlookup).left
  constructor
  · refine ⟨hsound, System.follows_openStore hopen, hmarked.usedGiven, hmarked.givenOnce, ?_, ?_⟩
    · intro clientId id msg hgiven hlookup
      exact hrows clientId id msg hgiven (hloaded id msg hlookup)
    · intro clientId id msg hgiven _ _ hon
      change System.OnDisk codec s.disk id msg at hon
      rw [hdisk] at hon
      exact hrows clientId id msg hgiven hon
  · constructor
    · intro _
      show MarkedRows codec h.given s.disk
      rw [hdisk]
      exact hrows
    · intro _ f hf
      change f ∈ s.flight at hf
      rw [hflight] at hf
      cases hf

theorem marked_begin {disk : Table MsgId Row} {opened : Int} {s0 : System Row}
    (hopen : System.openStore cfg codec disk opened = some s0) :
    Marked codec (begin s0) ∧ Kept codec (begin s0) := by
  constructor
  · refine ⟨sound_begin hopen, System.follows_openStore hopen, ?_, List.nodup_nil, ?_, ?_⟩
    · intro clientId id hgiven
      cases hgiven
    · intro clientId id msg hgiven
      cases hgiven
    · intro clientId id msg hgiven
      cases hgiven
  · constructor
    · intro _ clientId id msg hgiven
      cases hgiven
    · intro _ f hf clientId id msg hgiven
      cases hgiven

theorem marked_run {disk : Table MsgId Row} {opened : Int} {s0 : System Row} {ts : List Turn}
    (hlaw : codec.RoundTrips) (hopen : System.openStore cfg codec disk opened = some s0)
    (hrun : Run (step cfg codec) Regular (begin s0) ts h) : Marked codec h ∧ Kept codec h := by
  apply hrun.invariant (marked_begin hopen)
  intro g t g' hinv hregular hstep
  cases t with
  | act e =>
      exact ⟨marked_act hlaw hinv.left hregular hstep,
        kept_act hlaw hinv.left hinv.right hregular hstep⟩
  | restart now => exact marked_restart hinv.left hinv.right hregular hstep

theorem given_at_most_once {disk : Table MsgId Row} {opened : Int} {s0 : System Row}
    {ts : List Turn} (hlaw : codec.RoundTrips)
    (hopen : System.openStore cfg codec disk opened = some s0)
    (hrun : Run (step cfg codec) Regular (begin s0) ts h) : h.given.Nodup :=
  (marked_run hlaw hopen hrun).left.givenOnce

end Lives

namespace Sample

/-- Two replays to one client and one to another, with a flush and a restart in between. -/
def twoLives : List Turn :=
  [Turn.act (Event.store 10 7 sender (publish "a/b") 100), Turn.act (Event.work 11),
    Turn.act (Event.store 12 8 sender (publish "a/c") 100), Turn.act (Event.work 13),
    Turn.act (Event.get 14 "reader" "a/b" [7]), Turn.act (Event.flush 15 true),
    Turn.act (Event.settle 0), Turn.restart 16, Turn.act (Event.get 17 "reader" "a/+" [8, 7]),
    Turn.act (Event.get 18 "other" "#" [7, 8])]

end Sample

namespace Lives

/-- After the restart the client is given only the message it had not been given. -/
theorem given_at_most_once_restarted :
    exists h, Run (step Sample.cfg Sample.codec) Regular (begin Sample.blank) Sample.twoLives h ∧
      h.given.Nodup ∧ h.given = [("reader", 7), ("reader", 8), ("other", 7), ("other", 8)] := by
  have hrun := @Run.of_isSome _ _ (step Sample.cfg Sample.codec) Regular _ (begin Sample.blank)
    Sample.twoLives (by decide +kernel)
  exact ⟨_, hrun, given_at_most_once Sample.codec_roundTrips Sample.blank_eq hrun,
    by decide +kernel⟩

end Lives

end Store
end Ciqada
