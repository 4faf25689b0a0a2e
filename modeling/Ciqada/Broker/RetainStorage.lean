import Mathlib.Logic.Function.Iterate
import Ciqada.Broker.Relations
import Ciqada.Broker.RetainTree

/-!
# The retained messages

A topic retains the last message that was published to it for that, until an empty
one comes or its time is over.  The storage keeps the messages in a tree and counts
them; what it answers to a filter is compared with a plain table of the topics.
Times count milliseconds.
-/

namespace Ciqada
namespace Broker

open Foundation Mqtt

structure Retain where
  msgId : Option Nat
  sender : From
  publish : Publish
  deriving DecidableEq

/-- A value with the time from which on it is expired. -/
structure TimedValue (V : Type) where
  value : V
  deadline : Option Nat
  deriving DecidableEq

namespace TimedValue

variable {V : Type}

def new (now : Nat) (value : V) (timeout : Option Nat) : TimedValue V :=
  { value := value, deadline := timeout.map (fun t => now + t) }

def isExpired (now : Nat) (tv : TimedValue V) : Bool :=
  tv.deadline.elim false (fun deadline => decide (deadline ≤ now))

end TimedValue

structure RetainStorage where
  messages : RetainTree (TimedValue Retain)
  retaineds : Counter

namespace RetainStorage

def usizeMax : Nat :=
  2 ^ 64 - 1

def new : RetainStorage :=
  { messages := PathTree.empty, retaineds := Counter.new }

def removeExpiredMessages (s : RetainStorage) (now : Nat) : RetainStorage :=
  let kept := s.messages.retain (fun tv => !tv.isExpired now) usizeMax 0
  { messages := kept.1, retaineds := Counter.dec^[kept.2] s.retaineds }

/-- The message takes the place of the old one; without a payload it only takes it out. -/
def setWithTimeout (s : RetainStorage) (now : Nat) (topic : String) (retain : Retain)
    (timeout : Option Nat) : Except TopicError RetainStorage :=
  match Topic.fromStr topic with
  | Except.error e => Except.error e
  | Except.ok t =>
      let removed := s.messages.remove t.levels
      if retain.publish.payload.isEmpty then
        Except.ok
          { messages := removed.1
            retaineds := if removed.2.isSome then s.retaineds.dec else s.retaineds }
      else
        Except.ok
          { messages := removed.1.insert (TimedValue.new now retain timeout) t.levels
            retaineds := if removed.2.isNone then s.retaineds.inc else s.retaineds }

def getMessage (s : RetainStorage) (now : Nat) (topicFilter : String) :
    Except TopicError (List (String × Retain)) :=
  match Topic.fromStr topicFilter with
  | Except.error e => Except.error e
  | Except.ok t =>
      Except.ok ((RetainTree.matched t.levels s.messages).filterMap (fun item =>
        if item.2.isExpired now then none
        else some (Topic.toText { levels := item.1 }, item.2.value)))

inductive Request where
  | setWithTimeout (topic : String) (retain : Retain) (timeout : Option Nat)
  | removeExpiredMessages

/-- A request that fails changes nothing. -/
def serve (s : RetainStorage) (e : Nat × Request) : RetainStorage :=
  match e.2 with
  | Request.setWithTimeout topic retain timeout =>
      match s.setWithTimeout e.1 topic retain timeout with
      | Except.ok s => s
      | Except.error _ => s
  | Request.removeExpiredMessages => s.removeExpiredMessages e.1

def after (es : List (Nat × Request)) : RetainStorage :=
  es.foldl serve new

/-!
## The plain table
-/

/-- What every topic retains. -/
abbrev Held : Type :=
  String -> Option (TimedValue Retain)

def record (h : Held) (e : Nat × Request) : Held :=
  match e.2 with
  | Request.setWithTimeout topic retain timeout =>
      if (Topic.fromStr topic).isOk then
        fun t =>
          if t = topic then
            if retain.publish.payload.isEmpty then none
            else some (TimedValue.new e.1 retain timeout)
          else h t
      else h
  | Request.removeExpiredMessages =>
      fun t => (h t).filter (fun tv => !tv.isExpired e.1)

def heldAfter (es : List (Nat × Request)) : Held :=
  es.foldl record (fun _ => none)

def Request.topics : Request -> List String
  | Request.setWithTimeout topic _ _ => [topic]
  | Request.removeExpiredMessages => []

/-- The topics that retain a message, among those that were ever named. -/
def heldTopics (es : List (Nat × Request)) : Finset String :=
  (es.flatMap (fun e => e.2.topics)).toFinset.filter (fun t => (heldAfter es t).isSome)

/-!
## The storage follows the table
-/

/-- The tree has what the topics hold, and the counter counts it. -/
structure Keeps (s : RetainStorage) (h : Held) : Prop where
  canonical : PathTree.Canonical s.messages
  root : s.messages.value = none
  held : forall t topic, Topic.fromStr t = Except.ok topic ->
    PathTree.find? topic.levels s.messages = h t
  parsed : forall t v, h t = some v -> exists topic, Topic.fromStr t = Except.ok topic
  named : forall path v, PathTree.find? path s.messages = some v ->
    exists t, Topic.fromStr t = Except.ok { levels := path } ∧ hasWildcardChar t = false
  counted : s.retaineds.count = s.messages.valuesSize

/-- A topic without wildcard characters, as a message is published to. -/
def Plain (e : Nat × Request) : Prop :=
  forall t, t ∈ e.2.topics -> hasWildcardChar t = false

theorem levels_ne_nil {t : String} {topic : Topic} (h : Topic.fromStr t = Except.ok topic) :
    topic.levels ≠ [] := by
  intro hnil
  have htexts := Topic.map_toText_of_reads (Topic.reads_of_fromStr h)
  rw [hnil] at htexts
  exact Topic.levels_ne_nil t htexts.symm

theorem fromStr_injective {t t' : String} {topic : Topic}
    (h : Topic.fromStr t = Except.ok topic) (h' : Topic.fromStr t' = Except.ok topic) : t = t' :=
  (Topic.toText_of_fromStr h).symm.trans (Topic.toText_of_fromStr h')

theorem keeps_new : Keeps new (fun _ => none) := by
  constructor
  case canonical => exact PathTree.Canonical.empty
  case root => rfl
  case held =>
    intro t topic _
    exact PathTree.find?_empty topic.levels
  case parsed =>
    intro t v hv
    cases hv
  case named =>
    intro path v hv
    rw [show new.messages = PathTree.empty from rfl, PathTree.find?_empty] at hv
    cases hv
  case counted => rfl

section Steps

variable {s : RetainStorage} {h : Held} {t : String} {topic : Topic}

theorem remove_value (n : RetainTree (TimedValue Retain)) {path : List Level} (hne : path ≠ []) :
    (n.remove path).1.value = n.value := by
  have hroot := PathTree.find?_remove path [] n
  rw [if_neg hne.symm] at hroot
  exact hroot

theorem insert_value (n : RetainTree (TimedValue Retain)) (v : TimedValue Retain)
    {path : List Level} (hne : path ≠ []) : (n.insert v path).value = n.value := by
  have hroot := PathTree.find?_insert v path [] n
  rw [if_neg hne.symm] at hroot
  exact hroot

/-- A message in a topic's place, or none, changes that topic only. -/
theorem Keeps.put (hs : Keeps s h) (htopic : Topic.fromStr t = Except.ok topic)
    (hplain : hasWildcardChar t = false) {n : RetainTree (TimedValue Retain)} {c : Counter}
    (placed : Option (TimedValue Retain)) (hn : PathTree.Canonical n)
    (hroot : n.value = s.messages.value)
    (hfind : forall path, PathTree.find? path n =
      if path = topic.levels then placed else PathTree.find? path s.messages)
    (hcount : c.count = n.valuesSize) :
    Keeps { messages := n, retaineds := c } (fun t' => if t' = t then placed else h t') := by
  constructor
  case canonical => exact hn
  case root => exact hroot.trans hs.root
  case held =>
    intro t' topic' htopic'
    show PathTree.find? topic'.levels n = if t' = t then placed else h t'
    rw [hfind]
    by_cases hsame : t' = t
    · have hlevels : topic' = topic := by
        rw [hsame, htopic] at htopic'
        exact (Except.ok.inj htopic').symm
      rw [if_pos hsame, hlevels, if_pos rfl]
    · have hlevels : topic'.levels ≠ topic.levels := by
        intro heq
        have htopics : topic' = topic := by
          cases topic'
          cases topic
          exact congrArg Topic.mk heq
        rw [htopics] at htopic'
        exact hsame (fromStr_injective htopic' htopic)
      rw [if_neg hsame, if_neg hlevels]
      exact hs.held t' topic' htopic'
  case parsed =>
    intro t' v hv
    by_cases hsame : t' = t
    · exact ⟨topic, hsame ▸ htopic⟩
    · rw [if_neg hsame] at hv
      exact hs.parsed t' v hv
  case named =>
    intro path v hv
    have hv' : PathTree.find? path n = some v := hv
    rw [hfind] at hv'
    by_cases hpath : path = topic.levels
    · exact ⟨t, hpath ▸ htopic, hplain⟩
    · rw [if_neg hpath] at hv'
      exact hs.named path v hv'
  case counted => exact hcount

theorem Keeps.setWithTimeout (hs : Keeps s h) (now : Nat) (htopic : Topic.fromStr t = Except.ok topic)
    (hplain : hasWildcardChar t = false) (retain : Retain) (timeout : Option Nat) :
    exists s', s.setWithTimeout now t retain timeout = Except.ok s' ∧
      Keeps s' (fun t' =>
        if t' = t then
          if retain.publish.payload.isEmpty then none
          else some (TimedValue.new now retain timeout)
        else h t') := by
  have hne := levels_ne_nil htopic
  have hremoved := hs.canonical.remove topic.levels
  have hanswer := PathTree.remove_answer topic.levels s.messages
  have hsize := hs.canonical.valuesSize_remove topic.levels
  have hcounted := hs.counted
  have hroot := remove_value s.messages hne
  unfold RetainStorage.setWithTimeout
  rw [htopic]
  dsimp only
  rw [hanswer]
  cases hpayload : retain.publish.payload.isEmpty with
  | true =>
      rw [if_pos rfl]
      refine ⟨_, rfl, hs.put htopic hplain none hremoved hroot
        (fun path => PathTree.find?_remove topic.levels path s.messages) ?_⟩
      cases hold : (PathTree.find? topic.levels s.messages).isSome with
      | true =>
          rw [hold, if_pos rfl] at hsize
          rw [if_pos rfl]
          show s.retaineds.count - 1 = _
          omega
      | false =>
          rw [hold, if_neg Bool.false_ne_true] at hsize
          rw [if_neg Bool.false_ne_true]
          omega
  | false =>
      rw [if_neg Bool.false_ne_true]
      have hsize' := hremoved.valuesSize_insert (TimedValue.new now retain timeout) topic.levels
      rw [PathTree.find?_remove, if_pos rfl] at hsize'
      refine ⟨_, rfl, hs.put htopic hplain (some (TimedValue.new now retain timeout))
        (hremoved.insert _ _).left ((insert_value _ _ hne).trans hroot) ?_ ?_⟩
      · intro path
        rw [PathTree.find?_insert, PathTree.find?_remove]
        split
        · rfl
        · rfl
      · cases hold : PathTree.find? topic.levels s.messages with
        | some v =>
            rw [hold, Option.isSome_some, if_pos rfl] at hsize
            show (if (some v).isNone = true then _ else s.retaineds : Counter).count = _
            rw [Option.isNone_some, if_neg Bool.false_ne_true]
            simp only [Option.isSome_none, Bool.false_eq_true, if_false] at hsize'
            omega
        | none =>
            rw [hold, Option.isSome_none, if_neg Bool.false_ne_true] at hsize
            rw [Option.isNone_none, if_pos rfl]
            show s.retaineds.count + 1 = _
            simp only [Option.isSome_none, Bool.false_eq_true, if_false] at hsize'
            omega

theorem count_decs (c : Counter) (n : Nat) : (Counter.dec^[n] c).count = c.count - n := by
  induction n generalizing c with
  | zero => exact (Int.sub_zero _).symm
  | succ n ih =>
      rw [Function.iterate_succ_apply, ih]
      show c.count - 1 - n = _
      omega

theorem Keeps.removeExpiredMessages (hs : Keeps s h) (now : Nat)
    (hsize : s.messages.valuesSize < usizeMax) :
    Keeps (s.removeExpiredMessages now)
      (fun t => (h t).filter (fun tv => !tv.isExpired now)) := by
  rcases @PathTree.Canonical.retain_exact Level (TimedValue Retain) _ s.messages
    (fun tv => !tv.isExpired now) usizeMax hs.canonical hsize with ⟨hcanonical, hsizes, hfind⟩
  constructor
  case canonical => exact hcanonical
  case root => exact (PathTree.retain_value 0 s.messages).trans hs.root
  case held =>
    intro t topic htopic
    rw [← hs.held t topic htopic]
    cases hlevels : topic.levels with
    | nil => exact absurd hlevels (levels_ne_nil htopic)
    | cons level path => exact hfind level path
  case parsed =>
    intro t v hv
    exact hs.parsed t v (Option.filter_eq_some_iff.mp hv).left
  case named =>
    intro path v hv
    cases path with
    | nil =>
        have hroot : (s.messages.retain (fun tv => !tv.isExpired now) usizeMax 0).1.value =
            some v := hv
        rw [PathTree.retain_value, hs.root] at hroot
        cases hroot
    | cons level path =>
        have hv' := (hfind level path).symm.trans hv
        exact hs.named (level :: path) v (Option.filter_eq_some_iff.mp hv').left
  case counted =>
    show (Counter.dec^[_] s.retaineds).count = _
    have hcounted := hs.counted
    rw [count_decs]
    show _ = ((s.messages.retain (fun tv => !tv.isExpired now) usizeMax 0).1.valuesSize : Int)
    omega

end Steps

/-!
## Runs
-/

theorem heldAfter_snoc (es : List (Nat × Request)) (e : Nat × Request) :
    heldAfter (es ++ [e]) = record (heldAfter es) e := by
  unfold heldAfter
  rw [List.foldl_append]
  rfl

theorem after_snoc (es : List (Nat × Request)) (e : Nat × Request) :
    after (es ++ [e]) = serve (after es) e := by
  unfold after
  rw [List.foldl_append]
  rfl

/-- Only topics that were named retain anything. -/
theorem mem_of_held {es : List (Nat × Request)} {t : String}
    (h : (heldAfter es t).isSome = true) : t ∈ es.flatMap (fun e => e.2.topics) := by
  induction es using List.reverseRecOn with
  | nil => cases h
  | append_singleton es e ih =>
      rw [List.flatMap_append, List.mem_append]
      rw [heldAfter_snoc] at h
      rcases e with ⟨now, request⟩
      cases request with
      | setWithTimeout topic retain timeout =>
          by_cases hsame : t = topic
          · rw [hsame]
            exact Or.inr List.mem_cons_self
          · left
            apply ih
            unfold record at h
            dsimp only at h
            split at h
            · dsimp only at h
              rw [if_neg hsame] at h
              exact h
            · exact h
      | removeExpiredMessages =>
          left
          apply ih
          rcases Option.isSome_iff_exists.mp h with ⟨v, hv⟩
          exact Option.isSome_iff_exists.mpr ⟨v, (Option.filter_eq_some_iff.mp hv).left⟩

theorem mem_heldTopics {es : List (Nat × Request)} {t : String} :
    t ∈ heldTopics es <-> (heldAfter es t).isSome = true := by
  unfold heldTopics
  rw [Finset.mem_filter, List.mem_toFinset]
  constructor
  · exact And.right
  · intro h
    exact ⟨mem_of_held h, h⟩

theorem card_heldTopics_le (es : List (Nat × Request)) : (heldTopics es).card ≤ es.length := by
  have hnamed : (es.flatMap (fun e => e.2.topics)).length ≤ es.length := by
    induction es with
    | nil => exact Nat.le_refl _
    | cons e es ih =>
        rw [List.flatMap_cons, List.length_append, List.length_cons]
        rcases e with ⟨now, request⟩
        cases request with
        | setWithTimeout topic retain timeout =>
            show 1 + _ ≤ _
            omega
        | removeExpiredMessages =>
            show 0 + _ ≤ _
            omega
  exact (Finset.card_filter_le _ _).trans ((List.toFinset_card_le _).trans hnamed)

/-- The text of a path that holds a value is the topic that retains it. -/
theorem Keeps.text {s : RetainStorage} {h : Held} (hs : Keeps s h) {path : List Level}
    {v : TimedValue Retain} (hv : (path, v) ∈ PathTree.entries s.messages) :
    Topic.fromStr (Topic.toText { levels := path }) = Except.ok { levels := path } ∧
      h (Topic.toText { levels := path }) = some v := by
  have hfind := hs.canonical.mem_entries.mp hv
  rcases hs.named path v hfind with ⟨t, ht, _⟩
  rw [Topic.toText_of_fromStr ht]
  exact ⟨ht, (hs.held t { levels := path } ht).symm.trans hfind⟩

/-- The tree has one value for each topic that retains a message. -/
theorem Keeps.valuesSize_eq {s : RetainStorage} {es : List (Nat × Request)}
    (hs : Keeps s (heldAfter es)) : s.messages.valuesSize = (heldTopics es).card := by
  have himage : heldTopics es = ((PathTree.entries s.messages).map Prod.fst).toFinset.image
      (fun path => Topic.toText { levels := path }) := by
    ext t
    rw [mem_heldTopics, Finset.mem_image]
    constructor
    · intro hheld
      rcases Option.isSome_iff_exists.mp hheld with ⟨v, hv⟩
      rcases hs.parsed t v hv with ⟨topic, htopic⟩
      refine ⟨topic.levels, ?_, Topic.toText_of_fromStr htopic⟩
      rw [hs.canonical.mem_paths, hs.held t topic htopic]
      exact hheld
    · rintro ⟨path, hpath, rfl⟩
      rcases List.mem_map.mp (List.mem_toFinset.mp hpath) with ⟨entry, hentry, rfl⟩
      rw [(hs.text hentry).right]
      rfl
  rw [himage, Finset.card_image_of_injOn, hs.canonical.card_paths]
  intro path hpath path' hpath' heq
  rcases List.mem_map.mp (List.mem_toFinset.mp hpath) with ⟨entry, hentry, rfl⟩
  rcases List.mem_map.mp (List.mem_toFinset.mp hpath') with ⟨entry', hentry', rfl⟩
  have hsame := (hs.text hentry).left
  rw [show Topic.toText { levels := entry.1 } = Topic.toText { levels := entry'.1 } from heq,
    (hs.text hentry').left] at hsame
  exact (congrArg Topic.levels (Except.ok.inj hsame)).symm

theorem Keeps.serve {s : RetainStorage} {h : Held} (hs : Keeps s h)
    (hsize : s.messages.valuesSize < usizeMax) {e : Nat × Request} (hplain : Plain e) :
    Keeps (s.serve e) (record h e) := by
  rcases e with ⟨now, request⟩
  cases request with
  | setWithTimeout topic retain timeout =>
      unfold RetainStorage.serve record
      dsimp only
      cases hparse : Topic.fromStr topic with
      | error e =>
          have hfail : s.setWithTimeout now topic retain timeout = Except.error e := by
            unfold RetainStorage.setWithTimeout
            rw [hparse]
          rw [hfail, if_neg (fun h => by cases h)]
          exact hs
      | ok t =>
          rcases hs.setWithTimeout now hparse (hplain topic List.mem_cons_self) retain
            timeout with ⟨s', hs', hkeeps⟩
          rw [hs', if_pos (show (Except.ok t : Except TopicError Topic).isOk = true from rfl)]
          exact hkeeps
  | removeExpiredMessages => exact hs.removeExpiredMessages now hsize

theorem keeps_after {es : List (Nat × Request)} (hplain : forall e, e ∈ es -> Plain e)
    (hlen : es.length ≤ usizeMax) : Keeps (after es) (heldAfter es) := by
  induction es using List.reverseRecOn with
  | nil => exact keeps_new
  | append_singleton es e ih =>
      rw [List.length_append, List.length_singleton] at hlen
      have hbefore := ih (fun e' he' => hplain e' (List.mem_append_left _ he')) (by omega)
      have hsize := hbefore.valuesSize_eq
      have hcard := card_heldTopics_le es
      rw [after_snoc, heldAfter_snoc]
      exact hbefore.serve (by omega) (hplain e (List.mem_append_right _ List.mem_cons_self))

/-!
## What a filter is answered
-/

theorem hashLast_of_fromStr {f : String} {topic : Topic} (h : Topic.fromStr f = Except.ok topic) :
    RetainTree.HashLast topic.levels := by
  intro pre post heq
  have hvalid := (Topic.fromStr_ok_iff.mp h).right
  unfold Topic.isValid at hvalid
  have hplaced := (Bool.and_eq_true_iff.mp hvalid).right
  rw [List.all_eq_true] at hplaced
  have hmem : (Level.multiWildcard, pre.length) ∈ topic.levels.zipIdx := by
    rw [List.mem_zipIdx_iff_getElem?, heq, List.getElem?_append_right (Nat.le_refl _),
      Nat.sub_self]
    rfl
  have hlast := hplaced _ hmem
  have hpos : pre.length = topic.levels.length - 1 := by simpa [Topic.placed] using hlast
  rw [heq, List.length_append, List.length_cons] at hpos
  exact List.eq_nil_of_length_eq_zero (by omega)

theorem concrete_of_fromStr {t : String} {topic : Topic}
    (h : Topic.fromStr t = Except.ok topic) (hplain : hasWildcardChar t = false) :
    Node.Concrete topic.levels := by
  intro level hlevel
  have htexts := Topic.map_toText_of_reads (Topic.reads_of_fromStr h)
  have hmem : level.toText ∈ Mqtt.levels t := by
    rw [← htexts]
    exact List.mem_map_of_mem hlevel
  have hne := ne_wildcard_of_literal (hasWildcardChar_level hplain hmem)
  constructor
  · rintro rfl
    exact hne.left rfl
  · rintro rfl
    exact hne.right rfl

theorem matched_eq {s : RetainStorage} {h : Held} (hs : Keeps s h) {path : List Level}
    (hlast : RetainTree.HashLast path) (hne : path ≠ []) :
    RetainTree.matched path s.messages =
      (PathTree.entries s.messages).filter (fun e => pathMatches true path e.1) := by
  have hconcrete : forall p v, (p, v) ∈ PathTree.entries s.messages -> Node.Concrete p := by
    intro p v hmem
    rcases hs.named p v (hs.canonical.mem_entries.mp hmem) with ⟨t, ht, hplain⟩
    exact concrete_of_fromStr ht hplain
  have hentries : PathTree.entries s.messages = PathTree.branchEntries s.messages.branches := by
    have hroot := hs.root
    generalize s.messages = n at hroot
    rcases n with ⟨value, branches⟩
    rw [PathTree.entries_mk, show value = none from hroot]
    rfl
  unfold RetainTree.matched
  rw [RetainTree.matchedFrom_eq hs.canonical hconcrete hlast hne, ← hentries]
  exact List.map_id _

/-- What a filter is answered has one topic for each of the entries at most. -/
theorem answered_sublist (now : Nat) (es : List (List Level × TimedValue Retain)) :
    List.Sublist
      ((es.filterMap (fun item => if item.2.isExpired now then none
        else some (Topic.toText { levels := item.1 }, item.2.value))).map Prod.fst)
      ((es.map Prod.fst).map (fun path => Topic.toText { levels := path })) := by
  induction es with
  | nil => exact List.Sublist.refl _
  | cons item es ih =>
      rw [List.filterMap_cons]
      cases hexpired : item.2.isExpired now with
      | true =>
          rw [if_pos rfl]
          exact ih.cons _
      | false =>
          rw [if_neg Bool.false_ne_true]
          exact ih.cons_cons _

/--
After any requests, times included, a filter is answered with the last message of
every topic that it matches and that retains one that is not expired, each once, and
the counter counts the topics that retain a message, the expired ones as long as they
have not been removed.
-/
theorem retained_exact {es : List (Nat × Request)} (hplain : forall e, e ∈ es -> Plain e)
    (hlen : es.length ≤ usizeMax) :
    (after es).retaineds.count = (heldTopics es).card ∧
    (after es).messages.valuesSize = (heldTopics es).card ∧
    forall now topicFilter filter, Topic.fromStr topicFilter = Except.ok filter ->
      exists found, (after es).getMessage now topicFilter = Except.ok found ∧
        (found.map Prod.fst).Nodup ∧
        forall t r, (t, r) ∈ found <-> exists tv, heldAfter es t = some tv ∧ tv.value = r ∧
          tv.isExpired now = false ∧ Routes topicFilter t := by
  have hs := keeps_after hplain hlen
  have hsize := hs.valuesSize_eq
  refine ⟨?_, hsize, ?_⟩
  · rw [hs.counted, hsize]
  · intro now topicFilter filter hfilter
    unfold getMessage
    rw [hfilter]
    dsimp only
    rw [matched_eq hs (hashLast_of_fromStr hfilter) (levels_ne_nil hfilter)]
    refine ⟨_, rfl, ?_, ?_⟩
    · refine (answered_sublist now _).nodup ?_
      refine List.Nodup.map_on ?_
        (hs.canonical.entries_nodup.sublist (List.filter_sublist.map Prod.fst))
      intro path hpath path' hpath' heq
      rcases List.mem_map.mp hpath with ⟨entry, hentry, rfl⟩
      rcases List.mem_map.mp hpath' with ⟨entry', hentry', rfl⟩
      have hsame := (hs.text (List.mem_filter.mp hentry).left).left
      rw [heq, (hs.text (List.mem_filter.mp hentry').left).left] at hsame
      exact (congrArg Topic.levels (Except.ok.inj hsame)).symm
    · intro t r
      rw [List.mem_filterMap]
      constructor
      · rintro ⟨⟨path, tv⟩, hitem, hanswer⟩
        rcases List.mem_filter.mp hitem with ⟨hentry, hmatch⟩
        rcases hs.text hentry with ⟨hparse, hheld⟩
        dsimp only at hanswer
        split at hanswer
        · cases hanswer
        · rcases Prod.mk.inj (Option.some.inj hanswer) with ⟨rfl, rfl⟩
          exact ⟨tv, hheld, rfl, Bool.eq_false_iff.mpr ‹_›, filter, _, hfilter, hparse, hmatch⟩
      · rintro ⟨tv, hheld, rfl, hlive, filter', topic, hfilter', htopic, hmatch⟩
        rw [hfilter] at hfilter'
        rw [← Except.ok.inj hfilter'] at hmatch
        refine ⟨(topic.levels, tv), ?_, ?_⟩
        · apply List.mem_filter.mpr
          refine ⟨?_, hmatch⟩
          rw [hs.canonical.mem_entries, hs.held t topic htopic]
          exact hheld
        · dsimp only
          rw [if_neg (by rw [hlive]; exact Bool.false_ne_true), Topic.toText_of_fromStr htopic]

namespace Sample

def publisher : Id :=
  { nodeId := 1, clientId := "c", username := none, createTime := 0 }

def retain : Retain :=
  { msgId := none, sender := { typ := FromType.custom, id := publisher }
    publish := { dup := false, retain := true, qos := QoS.atMostOnce, topic := "a/b",
                 packetId := none, payload := [1], topicAlias := none,
                 messageExpiryInterval := none, createTime := none } }

/-- A message that lasts ten milliseconds, and a cleaning before its time is over. -/
def requests : List (Nat × Request) :=
  [(0, Request.setWithTimeout "a/b" retain (some 10)), (5, Request.removeExpiredMessages)]

theorem held : heldAfter requests "a/b" = some { value := retain, deadline := some 10 } := by
  decide +kernel

theorem plain : forall e, e ∈ requests -> Plain e := by
  unfold requests Plain
  decide +kernel

end Sample

theorem retained_exact_sample :
    exists found, (after Sample.requests).getMessage 7 "a/+" = Except.ok found ∧
      ("a/b", Sample.retain) ∈ found := by
  have h := (retained_exact Sample.plain (by decide +kernel)).right.right
  rcases h 7 "a/+" { levels := [Level.normal "a", Level.singleWildcard] } (by decide +kernel)
    with ⟨found, hfound, _, hexact⟩
  refine ⟨found, hfound, (hexact _ _).mpr ⟨_, Sample.held, rfl, rfl, ?_⟩⟩
  exact ⟨{ levels := [Level.normal "a", Level.singleWildcard] },
    { levels := [Level.normal "a", Level.normal "b"] }, by decide +kernel, by decide +kernel,
    by decide +kernel⟩

end RetainStorage

end Broker
end Ciqada
