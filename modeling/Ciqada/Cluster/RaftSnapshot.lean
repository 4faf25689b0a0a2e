import Mathlib.Data.Countable.Basic
import Mathlib.Logic.Equiv.List
import Mathlib.Tactic.DeriveCountable
import Ciqada.Cluster.RaftRouter

/-!
# Snapshots of the replicated router

A snapshot is four sections, each behind its length: the relations, the clients
and the two counters.  The first two are packed.  It is read back from the front,
and the state is replaced only once all four sections have been read; the topic
tree is not emptied first.
-/

namespace Ciqada
namespace Cluster

open Foundation Broker

/-- How the sections are written, and how the first two are packed. -/
structure SnapshotCodec where
  relations : ByteCodec (List (String × FilterRelations))
  clientStates : ByteCodec (List (String × ClientStatus))
  counter : ByteCodec Counter
  compression : Option (ByteCodec (List UInt8))

structure Snapshot where
  relations : List (String × FilterRelations)
  clientStates : List (String × ClientStatus)
  topicsCount : Counter
  relationsCount : Counter

inductive RestoreError where
  | panicked
  | refused
  | badTopic (e : TopicError)
  deriving DecidableEq

/-- Lengths and positions are 64 bits wide. -/
abbrev wordSize : Nat := 2 ^ 64

namespace Snapshot

def sections (c : SnapshotCodec) (s : Snapshot) : List (List UInt8) :=
  [(c.relations.packed c.compression).encode s.relations,
    (c.clientStates.packed c.compression).encode s.clientStates,
    c.counter.encode s.topicsCount, c.counter.encode s.relationsCount]

def bytes (c : SnapshotCodec) (s : Snapshot) : List UInt8 :=
  (s.sections c).flatMap frame8

end Snapshot

def readLen (snapshot : List UInt8) (start : Nat) : Except RestoreError Nat :=
  (slice? wordSize snapshot start 8).elim (Except.error RestoreError.panicked)
    (fun slice => Except.ok (fromLe slice))

def readSection (snapshot : List UInt8) (start len : Nat) : Except RestoreError (List UInt8) :=
  (slice? wordSize snapshot start len).elim (Except.error RestoreError.panicked) Except.ok

def decodeSection {A : Type} (c : ByteCodec A) (slice : List UInt8) : Except RestoreError A :=
  (c.decode slice).elim (Except.error RestoreError.refused) Except.ok

/-- The four lengths come first, then the two packed sections, then the counters. -/
def decodeSnapshot (c : SnapshotCodec) (snapshot : List UInt8) :
    Except RestoreError Snapshot := do
  let relationsLen <- readLen snapshot 0
  let relationsStart := 8
  let clientStatesLen <- readLen snapshot ((relationsStart + relationsLen) % wordSize)
  let clientStatesStart := (8 + relationsStart + relationsLen) % wordSize
  let topicsCountLen <- readLen snapshot ((clientStatesStart + clientStatesLen) % wordSize)
  let topicsCountStart := (8 + clientStatesStart + clientStatesLen) % wordSize
  let relationsCountLen <- readLen snapshot ((topicsCountStart + topicsCountLen) % wordSize)
  let relationsCountStart := (8 + topicsCountStart + topicsCountLen) % wordSize
  let relationsSlice <- readSection snapshot relationsStart relationsLen
  let clientStatesSlice <- readSection snapshot clientStatesStart clientStatesLen
  let relations <- decodeSection (c.relations.packed c.compression) relationsSlice
  let clientStates <- decodeSection (c.clientStates.packed c.compression) clientStatesSlice
  let topicsCountSlice <- readSection snapshot topicsCountStart topicsCountLen
  let topicsCount <- decodeSection c.counter topicsCountSlice
  let relationsCountSlice <- readSection snapshot relationsCountStart relationsCountLen
  let relationsCount <- decodeSection c.counter relationsCountSlice
  return { relations := relations, clientStates := clientStates, topicsCount := topicsCount,
           relationsCount := relationsCount }

/-- The filters are written one by one; the first that is no filter ends it. -/
def restoreRelations (r : DefaultRouter) :
    List (String × FilterRelations) -> DefaultRouter × Option TopicError
  | [] => (r, none)
  | (topicFilter, relation) :: rest =>
      match Topic.fromStr topicFilter with
      | Except.error e => (r, some e)
      | Except.ok topic =>
          restoreRelations
            { r with
              relations := r.relations.insert topicFilter relation
              topics := r.topics.insert () topic.levels } rest

namespace ClusterRouter

/-- The tables are listed in any order. -/
def listed (r : ClusterRouter) (relations : Enumeration String FilterRelations)
    (clientStates : Enumeration String ClientStatus) : Snapshot :=
  { relations := relations.list r.inner.relations
    clientStates := clientStates.list r.clientStates
    topicsCount := r.inner.topicsCount
    relationsCount := r.inner.relationsCount }

/-- A snapshot that does not fit in memory cannot be made. -/
def snapshot (c : SnapshotCodec) (r : ClusterRouter)
    (relations : Enumeration String FilterRelations)
    (clientStates : Enumeration String ClientStatus) : Option (List UInt8) :=
  let bytes := (r.listed relations clientStates).bytes c
  if bytes.length < wordSize then some bytes else none

def restore (c : SnapshotCodec) (r : ClusterRouter) (snapshot : List UInt8) :
    ClusterRouter × Except RestoreError Unit :=
  match decodeSnapshot c snapshot with
  | Except.error e => (r, Except.error e)
  | Except.ok s =>
      match restoreRelations { r.inner with topicsCount := s.topicsCount, relations := ∅ }
          s.relations with
      | (inner, some e) => ({ r with inner := inner }, Except.error (RestoreError.badTopic e))
      | (inner, none) =>
          ({ r with
             inner := { inner with relationsCount := s.relationsCount }
             clientStates := Table.writeRows ∅ s.clientStates }, Except.ok ())

end ClusterRouter

/-!
## Reading what was written
-/

section Read

variable {snapshot before data after p : List UInt8} {pos len : Nat}

theorem readLen_frame8 (hsplit : snapshot = before ++ frame8 data ++ after)
    (hword : (before ++ frame8 data).length < wordSize) (hpos : pos = before.length) :
    readLen snapshot pos = Except.ok data.length := by
  have hdata : data.length < 256 ^ 8 := by
    rw [List.length_append, length_frame8] at hword
    exact lt_of_le_of_lt (by omega) hword
  unfold readLen
  rw [hsplit, hpos, slice?_frame8_length hword]
  exact congrArg Except.ok (fromLe_leBytes hdata)

theorem readSection_frame8 (hsplit : snapshot = before ++ frame8 data ++ after)
    (hword : (before ++ frame8 data).length < wordSize) (hpos : pos = before.length + 8)
    (hlen : len = data.length) : readSection snapshot pos len = Except.ok data := by
  unfold readSection
  rw [hsplit, hpos, hlen, slice?_frame8_data hword]
  rfl

/-- The front of some bytes reads as the bytes do, or does not read. -/
theorem readLen_front (hp : p <+: snapshot) (pos : Nat) :
    readLen p pos = Except.error RestoreError.panicked ∨ readLen p pos = readLen snapshot pos := by
  unfold readLen
  cases hslice : slice? wordSize p pos 8 with
  | none => exact Or.inl rfl
  | some found =>
      rw [slice?_front hp hslice]
      exact Or.inr rfl

theorem readSection_front (hp : p <+: snapshot) (pos len : Nat) :
    readSection p pos len = Except.error RestoreError.panicked ∨
      readSection p pos len = readSection snapshot pos len := by
  unfold readSection
  cases hslice : slice? wordSize p pos len with
  | none => exact Or.inl rfl
  | some found =>
      rw [slice?_front hp hslice]
      exact Or.inr rfl

theorem readSection_short (hpos : pos < wordSize) (hlen : len < wordSize)
    (hshort : p.length < pos + len) :
    readSection p pos len = Except.error RestoreError.panicked := by
  unfold readSection
  cases hslice : slice? wordSize p pos len with
  | none => rfl
  | some found => exact absurd (slice?_spec hpos hlen hslice).left (Nat.not_le_of_lt hshort)

theorem decodeSection_encode {A : Type} (c : ByteCodec A) (a : A) :
    decodeSection c (c.encode a) = Except.ok a := by
  unfold decodeSection
  rw [c.decode_encode]
  rfl

/-- Four sections, and where each of them and its length is read. -/
structure Layout (snapshot d1 d2 d3 d4 : List UInt8) : Prop where
  word : 32 + d1.length + d2.length + d3.length + d4.length < wordSize
  len1 : readLen snapshot 0 = Except.ok d1.length
  len2 : readLen snapshot ((8 + d1.length) % wordSize) = Except.ok d2.length
  len3 : readLen snapshot (((8 + 8 + d1.length) % wordSize + d2.length) % wordSize) =
    Except.ok d3.length
  len4 : readLen snapshot (((8 + (8 + 8 + d1.length) % wordSize + d2.length) % wordSize +
    d3.length) % wordSize) = Except.ok d4.length
  section1 : readSection snapshot 8 d1.length = Except.ok d1
  section2 : readSection snapshot ((8 + 8 + d1.length) % wordSize) d2.length = Except.ok d2
  section3 : readSection snapshot ((8 + (8 + 8 + d1.length) % wordSize + d2.length) % wordSize)
    d3.length = Except.ok d3
  section4 : readSection snapshot ((8 + (8 + (8 + 8 + d1.length) % wordSize + d2.length) %
    wordSize + d3.length) % wordSize) d4.length = Except.ok d4

theorem layout_of_frames {d1 d2 d3 d4 : List UInt8} (rest : List UInt8)
    (hword : 32 + d1.length + d2.length + d3.length + d4.length < wordSize) :
    Layout (frame8 d1 ++ (frame8 d2 ++ (frame8 d3 ++ (frame8 d4 ++ rest)))) d1 d2 d3 d4 := by
  have h2 : (8 + 8 + d1.length) % wordSize = 16 + d1.length := Nat.mod_eq_of_lt (by omega)
  have h3 : (8 + (16 + d1.length) + d2.length) % wordSize = 24 + d1.length + d2.length := by
    rw [Nat.mod_eq_of_lt (by omega)]
    omega
  have h4 : (8 + (24 + d1.length + d2.length) + d3.length) % wordSize =
      32 + d1.length + d2.length + d3.length := by
    rw [Nat.mod_eq_of_lt (by omega)]
    omega
  have hs1 : frame8 d1 ++ (frame8 d2 ++ (frame8 d3 ++ (frame8 d4 ++ rest))) =
      [] ++ frame8 d1 ++ (frame8 d2 ++ (frame8 d3 ++ (frame8 d4 ++ rest))) := rfl
  have hs2 : frame8 d1 ++ (frame8 d2 ++ (frame8 d3 ++ (frame8 d4 ++ rest))) =
      frame8 d1 ++ frame8 d2 ++ (frame8 d3 ++ (frame8 d4 ++ rest)) := by
    simp only [List.append_assoc]
  have hs3 : frame8 d1 ++ (frame8 d2 ++ (frame8 d3 ++ (frame8 d4 ++ rest))) =
      frame8 d1 ++ frame8 d2 ++ frame8 d3 ++ (frame8 d4 ++ rest) := by
    simp only [List.append_assoc]
  have hs4 : frame8 d1 ++ (frame8 d2 ++ (frame8 d3 ++ (frame8 d4 ++ rest))) =
      frame8 d1 ++ frame8 d2 ++ frame8 d3 ++ frame8 d4 ++ rest := by
    simp only [List.append_assoc]
  have hw1 : ([] ++ frame8 d1).length < wordSize := by
    rw [List.nil_append, length_frame8]
    omega
  have hw2 : (frame8 d1 ++ frame8 d2).length < wordSize := by
    rw [List.length_append, length_frame8, length_frame8]
    omega
  have hw3 : (frame8 d1 ++ frame8 d2 ++ frame8 d3).length < wordSize := by
    rw [List.length_append, List.length_append, length_frame8, length_frame8, length_frame8]
    omega
  have hw4 : (frame8 d1 ++ frame8 d2 ++ frame8 d3 ++ frame8 d4).length < wordSize := by
    rw [List.length_append, List.length_append, List.length_append, length_frame8,
      length_frame8, length_frame8, length_frame8]
    omega
  constructor
  case word => exact hword
  case len1 => exact readLen_frame8 hs1 hw1 rfl
  case len2 =>
    apply readLen_frame8 hs2 hw2
    rw [Nat.mod_eq_of_lt (by omega), length_frame8]
  case len3 =>
    rw [h2, Nat.mod_eq_of_lt (by omega)]
    apply readLen_frame8 hs3 hw3
    rw [List.length_append, length_frame8, length_frame8]
    omega
  case len4 =>
    rw [h2, h3, Nat.mod_eq_of_lt (by omega)]
    apply readLen_frame8 hs4 hw4
    rw [List.length_append, List.length_append, length_frame8, length_frame8, length_frame8]
    omega
  case section1 => exact readSection_frame8 hs1 hw1 rfl rfl
  case section2 =>
    rw [h2]
    apply readSection_frame8 hs2 hw2 _ rfl
    rw [length_frame8]
    omega
  case section3 =>
    rw [h2, h3]
    apply readSection_frame8 hs3 hw3 _ rfl
    rw [List.length_append, length_frame8, length_frame8]
    omega
  case section4 =>
    rw [h2, h3, h4]
    apply readSection_frame8 hs4 hw4 _ rfl
    rw [List.length_append, List.length_append, length_frame8, length_frame8, length_frame8]
    omega

/-- The last section ends where the bytes end. -/
theorem Layout.last {d1 d2 d3 d4 : List UInt8} (h : Layout snapshot d1 d2 d3 d4)
    (hshort : p.length < 32 + d1.length + d2.length + d3.length + d4.length) :
    readSection p ((8 + (8 + (8 + 8 + d1.length) % wordSize + d2.length) % wordSize +
      d3.length) % wordSize) d4.length = Except.error RestoreError.panicked := by
  have hword := h.word
  rw [show (8 + 8 + d1.length) % wordSize = 16 + d1.length from Nat.mod_eq_of_lt (by omega),
    Nat.mod_eq_of_lt (show 8 + (16 + d1.length) + d2.length < wordSize by omega),
    Nat.mod_eq_of_lt
      (show 8 + (8 + (16 + d1.length) + d2.length) + d3.length < wordSize by omega)]
  apply readSection_short
  · omega
  · omega
  · omega

theorem Snapshot.bytes_eq (c : SnapshotCodec) (s : Snapshot) (rest : List UInt8) :
    s.bytes c ++ rest =
      frame8 ((c.relations.packed c.compression).encode s.relations) ++
        (frame8 ((c.clientStates.packed c.compression).encode s.clientStates) ++
          (frame8 (c.counter.encode s.topicsCount) ++
            (frame8 (c.counter.encode s.relationsCount) ++ rest))) := by
  unfold Snapshot.bytes Snapshot.sections
  simp only [List.flatMap_cons, List.flatMap_nil, List.append_assoc, List.nil_append]

theorem Snapshot.layout {c : SnapshotCodec} {s : Snapshot}
    (hword : (s.bytes c).length < wordSize) (rest : List UInt8) :
    Layout (s.bytes c ++ rest) ((c.relations.packed c.compression).encode s.relations)
      ((c.clientStates.packed c.compression).encode s.clientStates)
      (c.counter.encode s.topicsCount) (c.counter.encode s.relationsCount) := by
  rw [s.bytes_eq c rest]
  apply layout_of_frames
  have hbytes := s.bytes_eq c []
  rw [List.append_nil, List.append_nil] at hbytes
  rw [hbytes, List.length_append, List.length_append, List.length_append, length_frame8,
    length_frame8, length_frame8, length_frame8] at hword
  omega

/-- A snapshot reads back, whatever follows it. -/
theorem decodeSnapshot_bytes {c : SnapshotCodec} {s : Snapshot}
    (hword : (s.bytes c).length < wordSize) (rest : List UInt8) :
    decodeSnapshot c (s.bytes c ++ rest) = Except.ok s := by
  have h := s.layout hword rest
  unfold decodeSnapshot
  rw [h.len1]
  simp only [bind, Except.bind]
  rw [h.len2]
  dsimp only
  rw [h.len3]
  dsimp only
  rw [h.len4]
  dsimp only
  rw [h.section1]
  dsimp only
  rw [h.section2]
  dsimp only
  rw [decodeSection_encode, decodeSection_encode]
  dsimp only
  rw [h.section3]
  dsimp only
  rw [decodeSection_encode]
  dsimp only
  rw [h.section4]
  dsimp only
  rw [decodeSection_encode]
  rfl

theorem bind_panicked {A B : Type} {x : Except RestoreError A} {f : A -> Except RestoreError B}
    {a : A} (hx : x = Except.error RestoreError.panicked ∨ x = Except.ok a)
    (hf : f a = Except.error RestoreError.panicked) :
    (x >>= f) = Except.error RestoreError.panicked := by
  rcases hx with hx | hx
  · rw [hx]
    rfl
  · rw [hx]
    exact hf

/-- A snapshot that has lost its end does not read. -/
theorem decodeSnapshot_truncated {c : SnapshotCodec} {s : Snapshot}
    (hword : (s.bytes c).length < wordSize) (hp : p <+: s.bytes c)
    (hne : p ≠ s.bytes c) :
    decodeSnapshot c p = Except.error RestoreError.panicked := by
  have h := s.layout hword []
  rw [List.append_nil] at h
  have hshort : p.length < (s.bytes c).length := by
    apply lt_of_le_of_ne hp.length_le
    exact fun heq => hne (hp.eq_of_length heq)
  have hlen {pos n : Nat} (hread : readLen (s.bytes c) pos = Except.ok n) :
      readLen p pos = Except.error RestoreError.panicked ∨ readLen p pos = Except.ok n :=
    (readLen_front hp pos).imp_right (fun heq => heq.trans hread)
  have hsection {pos n : Nat} {d : List UInt8}
      (hread : readSection (s.bytes c) pos n = Except.ok d) :
      readSection p pos n = Except.error RestoreError.panicked ∨
        readSection p pos n = Except.ok d :=
    (readSection_front hp pos n).imp_right (fun heq => heq.trans hread)
  unfold decodeSnapshot
  apply bind_panicked (hlen h.len1)
  apply bind_panicked (hlen h.len2)
  apply bind_panicked (hlen h.len3)
  apply bind_panicked (hlen h.len4)
  apply bind_panicked (hsection h.section1)
  apply bind_panicked (hsection h.section2)
  apply bind_panicked (Or.inr (decodeSection_encode _ _))
  apply bind_panicked (Or.inr (decodeSection_encode _ _))
  apply bind_panicked (hsection h.section3)
  apply bind_panicked (Or.inr (decodeSection_encode _ _))
  have hbytes := s.bytes_eq c []
  rw [List.append_nil, List.append_nil] at hbytes
  rw [hbytes, List.length_append, List.length_append, List.length_append, length_frame8,
    length_frame8, length_frame8, length_frame8] at hshort
  have hlast := h.last (show p.length < _ by omega)
  show (readSection p _ _ >>= _) = _
  rw [hlast]
  rfl

end Read

/-!
## Restoring
-/

/-- Filters that all parse are all written, into the table and over the tree. -/
theorem restoreRelations_spec {rows : List (String × FilterRelations)}
    (hparse : forall row, row ∈ rows -> exists topic, Topic.fromStr row.1 = Except.ok topic)
    (r : DefaultRouter) (hr : r.topics.Canonical) :
    exists topics, restoreRelations r rows =
        ({ r with topics := topics, relations := Table.writeRows r.relations rows }, none) ∧
      topics.Canonical ∧
      forall path, topics.holds path () = true <->
        r.topics.holds path () = true ∨
          exists row topic, row ∈ rows ∧ Topic.fromStr row.1 = Except.ok topic ∧
            topic.levels = path := by
  induction rows generalizing r with
  | nil =>
      refine ⟨r.topics, rfl, hr, ?_⟩
      intro path
      constructor
      · exact Or.inl
      · rintro (hold | ⟨row, _topic, hmem, _⟩)
        · exact hold
        · cases hmem
  | cons row rows ih =>
      rcases row with ⟨topicFilter, relation⟩
      rcases hparse _ List.mem_cons_self with ⟨topic, htopic⟩
      rcases ih (fun row hrow => hparse row (List.mem_cons_of_mem _ hrow))
        { r with
          relations := r.relations.insert topicFilter relation
          topics := r.topics.insert () topic.levels }
        (hr.insert () topic.levels).left with ⟨topics, heq, hcanonical, hholds⟩
      refine ⟨topics, ?_, hcanonical, ?_⟩
      · unfold restoreRelations
        dsimp only at htopic
        rw [htopic]
        exact heq
      · intro path
        rw [hholds]
        dsimp only
        rw [Node.holds_insert, Bool.or_eq_true, decide_eq_true_iff]
        constructor
        · rintro ((⟨hnew, _⟩ | hold) | ⟨row, t, hrow, ht, hlevels⟩)
          · exact Or.inr ⟨_, topic, List.mem_cons_self, htopic, hnew.symm⟩
          · exact Or.inl hold
          · exact Or.inr ⟨row, t, List.mem_cons_of_mem _ hrow, ht, hlevels⟩
        · rintro (hold | ⟨row, t, hrow, ht, hlevels⟩)
          · exact Or.inl (Or.inr hold)
          · rcases List.mem_cons.mp hrow with rfl | hrow
            · rw [htopic] at ht
              rw [Except.ok.inj ht]
              exact Or.inl (Or.inl ⟨hlevels.symm, rfl⟩)
            · exact Or.inr ⟨row, t, hrow, ht, hlevels⟩

namespace ClusterRouter

variable {c : SnapshotCodec} {r peer : ClusterRouter} {snapshot : List UInt8}
  {relations : Enumeration String FilterRelations}
  {clientStates : Enumeration String ClientStatus}

/-- The router that takes over the state of another and keeps its own tree below it. -/
structure TakesOver (r peer r' : ClusterRouter) : Prop where
  relations : r'.inner.relations = peer.inner.relations
  topicsCount : r'.inner.topicsCount = peer.inner.topicsCount
  relationsCount : r'.inner.relationsCount = peer.inner.relationsCount
  clientStates : r'.clientStates = peer.clientStates
  tryLockTimeout : r'.tryLockTimeout = r.tryLockTimeout
  canonical : r'.inner.topics.Canonical
  holds : forall path, r'.inner.topics.holds path () = true <->
    r.inner.topics.holds path () = true ∨
      exists f topic, f ∈ peer.inner.relations ∧ Topic.fromStr f = Except.ok topic ∧
        topic.levels = path

theorem snapshot_eq_some (hsnapshot : peer.snapshot c relations clientStates = some snapshot) :
    ((peer.listed relations clientStates).bytes c).length < wordSize ∧
      (peer.listed relations clientStates).bytes c = snapshot := by
  unfold ClusterRouter.snapshot at hsnapshot
  dsimp only at hsnapshot
  split at hsnapshot
  · next hfits => exact ⟨hfits, Option.some.inj hsnapshot⟩
  · cases hsnapshot

theorem restore_snapshot (hr : r.inner.Coherent) (hpeer : peer.inner.Coherent)
    (hsnapshot : peer.snapshot c relations clientStates = some snapshot) (rest : List UInt8) :
    exists r', r.restore c (snapshot ++ rest) = (r', Except.ok ()) ∧ r.TakesOver peer r' := by
  rcases snapshot_eq_some hsnapshot with ⟨hfits, heq⟩
  have hrow : forall f rels, (f, rels) ∈ relations.list peer.inner.relations ->
      f ∈ peer.inner.relations := by
    intro f rels hmem
    exact Table.mem_iff_lookup.mpr ⟨rels, (relations.mem_list _ _ _).mp hmem⟩
  have hparse : forall row, row ∈ relations.list peer.inner.relations ->
      exists topic, Topic.fromStr row.1 = Except.ok topic :=
    fun row hmem => hpeer.parses row.1 (hrow row.1 row.2 hmem)
  rcases restoreRelations_spec hparse
    { r.inner with topicsCount := peer.inner.topicsCount, relations := ∅ } hr.canonical with
    ⟨topics, hrestored, hcanonical, hholds⟩
  let r' : ClusterRouter :=
    { inner :=
        { topics := topics
          topicsCount := peer.inner.topicsCount
          relations := Table.writeRows ∅ (relations.list peer.inner.relations)
          relationsCount := peer.inner.relationsCount }
      clientStates := Table.writeRows ∅ (clientStates.list peer.clientStates)
      tryLockTimeout := r.tryLockTimeout }
  refine ⟨r', ?_, ?_⟩
  · unfold restore
    rw [← heq, decodeSnapshot_bytes hfits]
    unfold listed
    dsimp only
    rw [hrestored]
  · constructor
    case relations => exact relations.writeRows _
    case topicsCount => rfl
    case relationsCount => rfl
    case clientStates => exact clientStates.writeRows _
    case tryLockTimeout => rfl
    case canonical => exact hcanonical
    case holds =>
      intro path
      refine (hholds path).trans (or_congr Iff.rfl ?_)
      constructor
      · rintro ⟨row, topic, hmem, ht, hlevels⟩
        exact ⟨row.1, topic, hrow row.1 row.2 hmem, ht, hlevels⟩
      · rintro ⟨f, topic, hf, ht, hlevels⟩
        rcases Table.mem_iff_lookup.mp hf with ⟨rels, hrels⟩
        exact ⟨(f, rels), topic, (relations.mem_list _ _ _).mpr hrels, ht, hlevels⟩

theorem restore_truncated (hsnapshot : peer.snapshot c relations clientStates = some snapshot)
    {p : List UInt8} (hp : p <+: snapshot) (hne : p ≠ snapshot) :
    r.restore c p = (r, Except.error RestoreError.panicked) := by
  rcases snapshot_eq_some hsnapshot with ⟨hfits, heq⟩
  unfold restore
  rw [decodeSnapshot_truncated hfits (heq ▸ hp) (fun h => hne (h.trans heq))]

/-- What is taken over is as coherent as it was. -/
theorem TakesOver.coherent {r' : ClusterRouter} (h : r.TakesOver peer r')
    (hr : r.inner.Coherent) (hpeer : peer.inner.Coherent) : r'.inner.Coherent := by
  constructor
  case canonical => exact h.canonical
  case parses =>
    rw [h.relations]
    exact hpeer.parses
  case covered =>
    intro f topic hf ht
    rw [h.relations] at hf
    exact (h.holds _).mpr (Or.inr ⟨f, topic, hf, ht, rfl⟩)
  case named =>
    intro path hpath
    rcases (h.holds path).mp hpath with hold | ⟨f, topic, _hf, ht, hlevels⟩
    · exact hr.named path hold
    · exact ⟨f, topic, ht, hlevels⟩
  case inhabited =>
    rw [h.relations]
    exact hpeer.inhabited
  case own =>
    unfold DefaultRouter.relation
    rw [h.relations]
    exact hpeer.own
  case topicsCount =>
    rw [h.topicsCount, h.relations]
    exact hpeer.topicsCount
  case relationsCount =>
    rw [h.relationsCount, h.relations]
    exact hpeer.relationsCount

end ClusterRouter

/-!
## The replicas of a log
-/

/--
How a node has come to its router: from the start by the messages of the log, each
at some reading of its clock, and by snapshots of other nodes.
-/
inductive History where
  | start (tryLockTimeout : Nat)
  | apply (h : History) (now : Int) (m : Message)
  | install (h peer : History) (relations : Enumeration String FilterRelations)
      (clientStates : Enumeration String ClientStatus)

namespace History

def router (c : SnapshotCodec) : History -> ClusterRouter
  | start tryLockTimeout => ClusterRouter.new tryLockTimeout
  | apply h now m => ((h.router c).apply now m).1
  | install h peer relations clientStates =>
      ((peer.router c).snapshot c relations clientStates).elim (h.router c)
        (fun snapshot => ((h.router c).restore c snapshot).1)

/-- The part of the log that the router stands for. -/
def log (c : SnapshotCodec) : History -> List Message
  | start _ => []
  | apply h _ m => h.log c ++ [m]
  | install h peer relations clientStates =>
      ((peer.router c).snapshot c relations clientStates).elim (h.log c) (fun _ => peer.log c)

end History

/-- The requests that the messages of a log make to the tables. -/
def requests (ms : List Message) : List DefaultRouter.Request :=
  ms.filterMap Message.request

theorem requests_snoc (ms : List Message) (m : Message) :
    requests (ms ++ [m]) = requests ms ++ m.request.toList := by
  unfold requests
  rw [List.filterMap_append]
  cases hm : m.request with
  | none => simp [hm]
  | some e => simp [hm]

namespace History

variable {c : SnapshotCodec}

/-- A snapshot, once made, is installed whole. -/
theorem install_cases (h peer : History) (relations : Enumeration String FilterRelations)
    (clientStates : Enumeration String ClientStatus) (hh : (h.router c).inner.Coherent)
    (hpeer : (peer.router c).inner.Coherent) :
    ((h.install peer relations clientStates).router c = h.router c ∧
        (h.install peer relations clientStates).log c = h.log c) ∨
      ((h.router c).TakesOver (peer.router c) ((h.install peer relations clientStates).router c) ∧
        (h.install peer relations clientStates).log c = peer.log c) := by
  have hrouter : (h.install peer relations clientStates).router c =
      ((peer.router c).snapshot c relations clientStates).elim (h.router c)
        (fun snapshot => ((h.router c).restore c snapshot).1) := rfl
  have hlog : (h.install peer relations clientStates).log c =
      ((peer.router c).snapshot c relations clientStates).elim (h.log c)
        (fun _ => peer.log c) := rfl
  rw [hrouter, hlog]
  cases hsnapshot : (peer.router c).snapshot c relations clientStates with
  | none => exact Or.inl ⟨rfl, rfl⟩
  | some snapshot =>
      rcases ClusterRouter.restore_snapshot hh hpeer hsnapshot [] with ⟨r', heq, hover⟩
      rw [List.append_nil] at heq
      right
      rw [Option.elim_some, Option.elim_some, heq]
      exact ⟨hover, rfl⟩

theorem invariant (h : History) :
    (h.router c).inner.Coherent ∧
      (h.router c).inner.relation = DefaultRouter.planAfter (requests (h.log c)) := by
  induction h with
  | start tryLockTimeout => exact ⟨DefaultRouter.Coherent.new, DefaultRouter.relation_new⟩
  | apply h now m ih =>
      rcases ih with ⟨hcoherent, hrelation⟩
      show ((h.router c).apply now m).1.inner.Coherent ∧
        ((h.router c).apply now m).1.inner.relation =
          DefaultRouter.planAfter (requests (h.log c ++ [m]))
      rw [ClusterRouter.apply_inner, requests_snoc]
      cases m.request with
      | none => exact ⟨hcoherent, by rw [Option.toList_none, List.append_nil]; exact hrelation⟩
      | some e =>
          refine ⟨hcoherent.serve e, ?_⟩
          show ((h.router c).inner.serve e).relation = _
          rw [hcoherent.relation_serve, hrelation]
          unfold DefaultRouter.planAfter
          rw [Option.toList_some, List.foldl_append]
          rfl
  | install h peer relations clientStates ihh ihpeer =>
      rcases h.install_cases peer relations clientStates ihh.left ihpeer.left with
        ⟨heq, hlog⟩ | ⟨hover, hlog⟩
      · rw [heq, hlog]
        exact ihh
      · rw [hlog]
        refine ⟨hover.coherent ihh.left ihpeer.left, ?_⟩
        rw [← ihpeer.right]
        unfold DefaultRouter.relation
        rw [hover.relations]

end History

/-!
## A codec
-/

instance countableString : Countable String :=
  haveI : Countable Char := Function.Injective.countable (fun _ _ h => Char.toNat_inj.mp h)
  Function.Injective.countable (fun _ _ h => String.toList_injective h)

instance countableTable {Key Row : Type} [Countable Key] [Countable Row] :
    Countable (Table Key Row) :=
  Function.Injective.countable (fun _ _ h => Finmap.ext h)

deriving instance Countable for QoS
deriving instance Countable for Broker.Id
deriving instance Countable for V5Options
deriving instance Countable for SubscriptionOptions
deriving instance Countable for RelationOptions
deriving instance Countable for Counter
deriving instance Countable for ClientStatus

/-- Sections of an empty router take no bytes. -/
noncomputable def sampleCodec : SnapshotCodec :=
  { relations := ByteCodec.ofCountable []
    clientStates := ByteCodec.ofCountable []
    counter := ByteCodec.ofCountable Counter.new
    compression := none }

theorem sampleCodec_snapshot (tryLockTimeout : Nat) :
    (ClusterRouter.new tryLockTimeout).snapshot sampleCodec Enumeration.inOrder
      Enumeration.inOrder = some (List.replicate 32 0) := by
  have hbytes : ((ClusterRouter.new tryLockTimeout).listed Enumeration.inOrder
      Enumeration.inOrder).bytes sampleCodec = List.replicate 32 0 := by
    have hrelations : (sampleCodec.relations.packed none).encode [] = [] :=
      ByteCodec.ofCountable_first []
    have hclients : (sampleCodec.clientStates.packed none).encode [] = [] :=
      ByteCodec.ofCountable_first []
    have hcounter : sampleCodec.counter.encode Counter.new = [] :=
      ByteCodec.ofCountable_first Counter.new
    show frame8 ((sampleCodec.relations.packed none).encode []) ++
      (frame8 ((sampleCodec.clientStates.packed none).encode []) ++
        (frame8 (sampleCodec.counter.encode Counter.new) ++
          (frame8 (sampleCodec.counter.encode Counter.new) ++ []))) = _
    rw [hrelations, hclients, hcounter]
    decide
  unfold ClusterRouter.snapshot
  dsimp only
  rw [hbytes, if_pos (by decide)]

end Cluster
end Ciqada
