import Ciqada.Foundation.Collect
import Ciqada.Mqtt.Levels

/-!
# Topic patterns of the broker

The pattern type that access rules and the router share.  A pattern is parsed
from text level by level, checked for misplaced wildcards and metadata levels,
and matched against the levels of a text.
-/

namespace Ciqada
namespace Broker

open Mqtt Foundation

inductive Level where
  | normal (s : String)
  | metadata (s : String)
  | blank
  | singleWildcard
  | multiWildcard
  deriving DecidableEq

inductive TopicError where
  | invalidTopic (message : String)
  | invalidLevel (message : String)
  deriving DecidableEq

namespace Level

def isValid : Level -> Bool
  | normal s => !isMetadata s && !hasWildcardChar s
  | metadata s => isMetadata s && !hasWildcardChar s
  | _ => true

def fromStr (s : String) : Except TopicError Level :=
  if s = "+" then Except.ok singleWildcard
  else if s = "#" then Except.ok multiWildcard
  else if s = "" then Except.ok blank
  else if hasWildcardChar s then
    Except.error (TopicError.invalidLevel ("invalid level `" ++ s ++ "` contains +|#"))
  else if isMetadata s then Except.ok (metadata s)
  else Except.ok (normal s)

end Level

/-- How a level of a text matches a pattern level. -/
def matchLevel (s : String) : Level -> Bool
  | Level.normal lhs => !isMetadata s && lhs == s
  | Level.metadata lhs => isMetadata s && lhs == s
  | Level.blank => s.isEmpty
  | Level.singleWildcard => !isMetadata s
  | Level.multiWildcard => !isMetadata s

/-- What the matcher answers once the text is used up or the loop is left. -/
def matchRest : List Level -> Bool
  | Level.multiWildcard :: _ => true
  | _ :: _ => false
  | [] => true

/--
The matching loop.  A single wildcard that does not accept its level leaves the
loop instead of answering, so the rest of the pattern decides.
-/
def matchTexts : List Level -> List String -> Bool
  | lhs, [] => matchRest lhs
  | Level.singleWildcard :: lhs, rhs :: rest =>
      if matchLevel rhs Level.singleWildcard then matchTexts lhs rest
      else matchRest lhs
  | Level.multiWildcard :: _, rhs :: _ => matchLevel rhs Level.multiWildcard
  | level :: lhs, rhs :: rest =>
      if matchLevel rhs level then matchTexts lhs rest else false
  | [], _ :: _ => false

/-- A parsed pattern. -/
structure Topic where
  levels : List Level
  deriving DecidableEq

namespace Topic

/-- The multi wildcard stands last and a metadata level stands first. -/
def placed (len : Nat) : Level × Nat -> Bool
  | (Level.multiWildcard, pos) => pos == len - 1
  | (Level.metadata _, pos) => pos == 0
  | _ => true

def isValid (t : Topic) : Bool :=
  t.levels.all Level.isValid && t.levels.zipIdx.all (placed t.levels.length)

def fromStr (s : String) : Except TopicError Topic :=
  match (Mqtt.levels s).mapM Level.fromStr with
  | Except.error e => Except.error e
  | Except.ok ls =>
      if isValid { levels := ls } then Except.ok { levels := ls }
      else Except.error (TopicError.invalidTopic ("invalid topic `" ++ s ++ "`"))

def matchesStr (t : Topic) (s : String) : Bool :=
  matchTexts t.levels (Mqtt.levels s)

end Topic

/-!
## Patterns as text

Parsing a text and writing the pattern back gives the text, and a pattern accepts
its own text when it is read as a topic.
-/

namespace Level

def toText : Level -> String
  | normal s => s
  | metadata s => s
  | blank => ""
  | singleWildcard => "+"
  | multiWildcard => "#"

/-- What parsing tells about a level and its text. -/
structure Reads (s : String) (l : Level) : Prop where
  text : l.toText = s
  valid : l.isValid = true
  matched : matchLevel s l = true
  hash : l = multiWildcard <-> s = "#"
  reserved : (exists m, l = metadata m) <-> isMetadata s = true

theorem fromStr_isOk_iff (s : String) :
    (exists l, fromStr s = Except.ok l) <-> levelWellFormed s = true := by
  unfold fromStr levelWellFormed
  by_cases hplus : s = "+"
  · simp [hplus]
  · by_cases hhash : s = "#"
    · simp [hhash]
    · by_cases hempty : s = ""
      · rw [hempty]
        simp
        decide
      · rw [if_neg hplus, if_neg hhash, if_neg hempty]
        cases hwild : hasWildcardChar s with
        | true => simp [hplus, hhash]
        | false => cases isMetadata s <;> simp

theorem reads_of_fromStr {s : String} {l : Level} (h : fromStr s = Except.ok l) :
    Reads s l := by
  unfold fromStr at h
  by_cases hplus : s = "+"
  · rw [if_pos hplus] at h
    rw [← Except.ok.inj h, hplus]
    exact { text := rfl, valid := rfl, matched := by decide, hash := by simp,
            reserved := by simp; decide }
  · by_cases hhash : s = "#"
    · rw [if_neg hplus, if_pos hhash] at h
      rw [← Except.ok.inj h, hhash]
      exact { text := rfl, valid := rfl, matched := by decide, hash := by simp,
              reserved := by simp; decide }
    · by_cases hempty : s = ""
      · rw [if_neg hplus, if_neg hhash, if_pos hempty] at h
        rw [← Except.ok.inj h, hempty]
        exact { text := rfl, valid := rfl, matched := by decide, hash := by simp,
                reserved := by simp; decide }
      · rw [if_neg hplus, if_neg hhash, if_neg hempty] at h
        cases hwild : hasWildcardChar s with
        | true => simp [hwild] at h
        | false =>
            cases hmeta : isMetadata s with
            | true =>
                rw [hwild, hmeta] at h
                rw [← Except.ok.inj h]
                exact { text := rfl, valid := by simp [isValid, hwild, hmeta],
                        matched := by simp [matchLevel, hmeta], hash := by simp [hhash],
                        reserved := by simp [hmeta] }
            | false =>
                rw [hwild, hmeta] at h
                rw [← Except.ok.inj h]
                exact { text := rfl, valid := by simp [isValid, hwild, hmeta],
                        matched := by simp [matchLevel, hmeta], hash := by simp [hhash],
                        reserved := by simp [hmeta] }

end Level

namespace Topic

/-- The levels joined by slashes. -/
def toText (t : Topic) : String :=
  String.ofList (List.intercalate ['/'] (t.levels.map (fun l => l.toText.toList)))

theorem fromStr_ok_iff {s : String} {t : Topic} :
    fromStr s = Except.ok t <->
      (Mqtt.levels s).mapM Level.fromStr = Except.ok t.levels ∧ t.isValid = true := by
  unfold fromStr
  cases hlevels : (Mqtt.levels s).mapM Level.fromStr with
  | error e => simp
  | ok ls =>
      dsimp only
      by_cases hvalid : isValid { levels := ls } = true
      · rw [if_pos hvalid]
        constructor
        · intro h
          rw [← Except.ok.inj h]
          exact ⟨rfl, hvalid⟩
        · intro h
          rw [Except.ok.inj h.left]
      · rw [if_neg hvalid]
        constructor
        · intro h
          cases h
        · intro h
          rw [Except.ok.inj h.left] at hvalid
          exact absurd h.right hvalid

theorem reads_of_fromStr {s : String} {t : Topic} (h : fromStr s = Except.ok t) :
    List.Forall₂ Level.Reads (Mqtt.levels s) t.levels :=
  (mapM_ok_iff.mp (fromStr_ok_iff.mp h).left).imp (fun _ _ hl => Level.reads_of_fromStr hl)

theorem map_toText_of_reads {texts : List String} {ls : List Level}
    (hreads : List.Forall₂ Level.Reads texts ls) : ls.map Level.toText = texts := by
  induction hreads with
  | nil => rfl
  | cons hl _ ih => rw [List.map_cons, hl.text, ih]

theorem matchTexts_of_reads {texts : List String} {ls : List Level}
    (hreads : List.Forall₂ Level.Reads texts ls) : matchTexts ls texts = true := by
  induction hreads with
  | nil => rfl
  | @cons text l texts ls hl _ ih =>
      have hmatched := hl.matched
      cases l with
      | singleWildcard => simp [matchTexts, hmatched, ih]
      | multiWildcard => simpa [matchTexts] using hmatched
      | normal s => simp [matchTexts, hmatched, ih]
      | metadata s => simp [matchTexts, hmatched, ih]
      | blank => simp [matchTexts, hmatched, ih]

/-- Writing a parsed pattern gives back the text. -/
theorem toText_of_fromStr {s : String} {t : Topic} (h : fromStr s = Except.ok t) :
    t.toText = s := by
  have htexts := map_toText_of_reads (reads_of_fromStr h)
  have hchars : t.levels.map (fun l => l.toText.toList) = s.toList.splitOn '/' := by
    have hmap := congrArg (List.map String.toList) htexts
    unfold Mqtt.levels at hmap
    simpa [List.map_map, Function.comp_def] using hmap
  unfold toText
  rw [hchars, List.intercalate_splitOn, String.ofList_toList]

/-- A parsed pattern accepts its own text. -/
theorem matchesStr_self {s : String} {t : Topic} (h : fromStr s = Except.ok t) :
    t.matchesStr s = true :=
  matchTexts_of_reads (reads_of_fromStr h)

/-!
Which texts parse: the hash stands last and a reserved level stands first.
-/

theorem placed_iff {s : String} {l : Level} (hl : Level.Reads s l) (len pos : Nat) :
    placed len (l, pos) = true <->
      (s = "#" -> pos = len - 1) ∧ (isMetadata s = true -> pos = 0) := by
  rw [← hl.hash, ← hl.reserved]
  cases l <;> simp [placed]

/-- Behind the first position no reserved level is left. -/
theorem all_placed_iff {texts : List String} {ls : List Level}
    (hreads : List.Forall₂ Level.Reads texts ls) (pos : Nat) :
    (ls.zipIdx (pos + 1)).all (placed (pos + 1 + ls.length)) = true <->
      (forall s, s ∈ texts.dropLast -> s ≠ "#") ∧
        forall s, s ∈ texts -> isMetadata s = false := by
  induction hreads generalizing pos with
  | nil => simp
  | @cons text l texts ls hl hrest ih =>
      have hih := ih (pos + 1)
      have hlen : pos + 1 + (ls.length + 1) = pos + 1 + 1 + ls.length := by omega
      rw [List.zipIdx_cons, List.all_cons, Bool.and_eq_true, List.length_cons, hlen, hih,
        placed_iff hl, List.forall_mem_cons]
      cases hrest with
      | nil => simp
      | cons hl' hrest' =>
          simp only [List.dropLast_cons_cons, List.forall_mem_cons, List.length_cons]
          constructor
          · intro h
            refine ⟨⟨?_, h.right.left⟩, ?_, h.right.right⟩
            · intro hhash
              have hpos := h.left.left hhash
              omega
            · rw [← Bool.not_eq_true]
              intro hmeta
              exact absurd (h.left.right hmeta) (Nat.succ_ne_zero pos)
          · intro h
            refine ⟨⟨?_, ?_⟩, h.left.right, h.right.right⟩
            · intro hhash
              exact absurd hhash h.left.left
            · intro hmeta
              rw [h.right.left] at hmeta
              cases hmeta

theorem levels_ne_nil (s : String) : Mqtt.levels s ≠ [] := by
  unfold Mqtt.levels
  simp [List.splitOn_ne_nil]

theorem filterWellFormed_iff (texts : List String) :
    filterWellFormed texts = true <->
      texts ≠ [] ∧ (forall s, s ∈ texts -> levelWellFormed s = true) ∧
        forall s, s ∈ texts.dropLast -> s ≠ "#" := by
  induction texts with
  | nil => simp [filterWellFormed]
  | cons text texts ih =>
      cases texts with
      | nil => simp [filterWellFormed]
      | cons text' texts =>
          have hstep : filterWellFormed (text :: text' :: texts) =
              (text != "#" && levelWellFormed text && filterWellFormed (text' :: texts)) := rfl
          rw [hstep, Bool.and_eq_true, Bool.and_eq_true, ih, List.dropLast_cons_cons]
          simp only [List.forall_mem_cons, bne_iff_ne]
          constructor
          · intro h
            exact ⟨List.cons_ne_nil _ _, ⟨h.left.right, h.right.right.left⟩, h.left.left,
              h.right.right.right⟩
          · intro h
            exact ⟨⟨h.right.right.left, h.right.left.left⟩, List.cons_ne_nil _ _,
              h.right.left.right, h.right.right.right⟩

theorem all_isValid_of_reads {texts : List String} {ls : List Level}
    (hreads : List.Forall₂ Level.Reads texts ls) : ls.all Level.isValid = true := by
  induction hreads with
  | nil => rfl
  | cons hl _ ih => rw [List.all_cons, hl.valid, ih, Bool.true_and]

theorem isValid_iff {texts : List String} {ls : List Level}
    (hreads : List.Forall₂ Level.Reads texts ls) :
    isValid { levels := ls } = true <->
      (forall s, s ∈ texts.dropLast -> s ≠ "#") ∧
        forall s, s ∈ texts.tail -> isMetadata s = false := by
  unfold isValid
  rw [all_isValid_of_reads hreads, Bool.true_and]
  cases hreads with
  | nil => simp
  | @cons text l texts ls hl hrest =>
      have hall := all_placed_iff hrest 0
      have hlen : (l :: ls).length = 0 + 1 + ls.length := by
        rw [List.length_cons]
        omega
      dsimp only
      rw [List.zipIdx_cons, List.all_cons, Bool.and_eq_true, hlen, hall, placed_iff hl,
        List.tail_cons]
      cases hrest with
      | nil => simp
      | cons hl' hrest' =>
          simp only [List.dropLast_cons_cons, List.forall_mem_cons, List.length_cons]
          constructor
          · intro h
            refine ⟨⟨?_, h.right.left⟩, h.right.right⟩
            intro hhash
            have hpos := h.left.left hhash
            omega
          · intro h
            refine ⟨⟨?_, fun _ => trivial⟩, h.left.right, h.right⟩
            intro hhash
            exact absurd hhash h.left.left

/-- The texts that parse are the filters of MQTT with no reserved level behind the first. -/
theorem fromStr_isOk_iff (s : String) :
    (exists t, fromStr s = Except.ok t) <->
      filterWellFormed (Mqtt.levels s) = true ∧
        forall level, level ∈ (Mqtt.levels s).tail -> isMetadata level = false := by
  have hwell : (exists ls, (Mqtt.levels s).mapM Level.fromStr = Except.ok ls) <->
      forall level, level ∈ Mqtt.levels s -> levelWellFormed level = true := by
    rw [exists_mapM_ok_iff]
    constructor
    · intro h level hlevel
      exact (Level.fromStr_isOk_iff level).mp (h level hlevel)
    · intro h level hlevel
      exact (Level.fromStr_isOk_iff level).mpr (h level hlevel)
  rw [filterWellFormed_iff, ← hwell]
  constructor
  · intro h
    rcases h with ⟨t, ht⟩
    rcases fromStr_ok_iff.mp ht with ⟨hlevels, hvalid⟩
    rcases (isValid_iff (reads_of_fromStr ht)).mp hvalid with ⟨hhash, hmeta⟩
    exact ⟨⟨levels_ne_nil s, ⟨t.levels, hlevels⟩, hhash⟩, hmeta⟩
  · intro h
    rcases h with ⟨⟨_, ⟨ls, hlevels⟩, hhash⟩, hmeta⟩
    have hreads : List.Forall₂ Level.Reads (Mqtt.levels s) ls :=
      (mapM_ok_iff.mp hlevels).imp (fun _ _ hl => Level.reads_of_fromStr hl)
    exact ⟨{ levels := ls },
      fromStr_ok_iff.mpr ⟨hlevels, (isValid_iff hreads).mpr ⟨hhash, hmeta⟩⟩⟩

end Topic

/-!
## Patterns made of literal levels

A text without wildcards followed by a multi wildcard parses to its levels, and
the pattern matches exactly the texts that start with them, as long as the
matched text stays outside the reserved name space.
-/

/-- The pattern level of a text level without wildcards. -/
def literalLevel (s : String) : Level :=
  if s = "" then Level.blank
  else if isMetadata s then Level.metadata s
  else Level.normal s

theorem fromStr_literal {s : String} (hs : hasWildcardChar s = false) :
    Level.fromStr s = Except.ok (literalLevel s) := by
  rcases ne_wildcard_of_literal hs with ⟨hplus, hhash⟩
  unfold Level.fromStr literalLevel
  rw [if_neg hplus, if_neg hhash]
  by_cases hempty : s = ""
  · rw [if_pos hempty, if_pos hempty]
  · rw [if_neg hempty, if_neg hempty, hs]
    cases isMetadata s <;> rfl

theorem mapM_fromStr_literal {ls : List String}
    (hls : forall level, level ∈ ls -> hasWildcardChar level = false) :
    (ls ++ ["#"]).mapM Level.fromStr =
      Except.ok (ls.map literalLevel ++ [Level.multiWildcard]) := by
  induction ls with
  | nil => rfl
  | cons level ls ih =>
      rw [List.cons_append, List.mapM_cons, fromStr_literal (hls level List.mem_cons_self),
        ih (fun l hl => hls l (List.mem_cons_of_mem level hl))]
      rfl

theorem matchLevel_literal {f level : String} (hf : isMetadata f = false) :
    matchLevel f (literalLevel level) = true <-> level = f := by
  unfold literalLevel
  by_cases hempty : level = ""
  · rw [if_pos hempty]
    show f.isEmpty = true <-> level = f
    rw [String.isEmpty_iff, hempty]
    exact eq_comm
  · rw [if_neg hempty]
    cases hmeta : isMetadata level with
    | false => simp [matchLevel, hf]
    | true =>
        simp only [if_true, matchLevel, hf, Bool.false_and, Bool.false_eq_true, false_iff]
        intro heq
        rw [heq, hf] at hmeta
        cases hmeta

theorem matchTexts_literal_cons (level f : String) (lhs : List Level) (rest : List String) :
    matchTexts (literalLevel level :: lhs) (f :: rest) =
      if matchLevel f (literalLevel level) then matchTexts lhs rest else false := by
  unfold literalLevel
  split
  · rfl
  · split <;> rfl

theorem matchRest_literal_cons (level : String) (lhs : List Level) :
    matchRest (literalLevel level :: lhs) = false := by
  unfold literalLevel
  split
  · rfl
  · split <;> rfl

/-- Induction along the levels of the pattern. -/
theorem matchTexts_literal {ls fs : List String}
    (hfs : forall level, level ∈ fs -> isMetadata level = false) :
    matchTexts (ls.map literalLevel ++ [Level.multiWildcard]) fs = true <-> ls <+: fs := by
  induction ls generalizing fs with
  | nil =>
      cases fs with
      | nil => simp [matchTexts, matchRest]
      | cons f fs =>
          have hf := hfs f List.mem_cons_self
          simp [matchTexts, matchLevel, hf]
  | cons level ls ih =>
      cases fs with
      | nil =>
          rw [List.map_cons, List.cons_append]
          simp [matchTexts, matchRest_literal_cons]
      | cons f fs =>
          have hf := hfs f List.mem_cons_self
          have ih' := ih (fun l hl => hfs l (List.mem_cons_of_mem f hl))
          rw [List.map_cons, List.cons_append, matchTexts_literal_cons,
            List.cons_prefix_cons, ← ih', ← matchLevel_literal hf]
          cases matchLevel f (literalLevel level) <;> simp

namespace Topic

theorem isValid_literal {ls : List String}
    (hls : forall level, level ∈ ls -> hasWildcardChar level = false)
    (hplain : forall level, level ∈ ls -> isMetadata level = false) :
    isValid { levels := ls.map literalLevel ++ [Level.multiWildcard] } = true := by
  have hreads : List.Forall₂ Level.Reads (ls ++ ["#"])
      (ls.map literalLevel ++ [Level.multiWildcard]) :=
    (mapM_ok_iff.mp (mapM_fromStr_literal hls)).imp (fun _ _ hl => Level.reads_of_fromStr hl)
  rw [isValid_iff hreads, List.dropLast_concat]
  constructor
  · intro level hlevel
    exact (ne_wildcard_of_literal (hls level hlevel)).right
  · intro level hlevel
    rcases List.mem_append.mp (List.mem_of_mem_tail hlevel) with hmem | hlast
    · exact hplain level hmem
    · rw [List.mem_singleton.mp hlast]
      decide

/-- The pattern of a literal text and a multi wildcard matches by prefix. -/
theorem fromStr_literal_hash {p f : String} (hp : hasWildcardChar p = false)
    (hf : forall level, level ∈ Mqtt.levels f -> isMetadata level = false) :
    (exists t, fromStr (p ++ "/" ++ "#") = Except.ok t ∧ t.matchesStr f = true) <->
      Mqtt.levels p <+: Mqtt.levels f := by
  have hliteral : forall level, level ∈ Mqtt.levels p -> hasWildcardChar level = false :=
    fun level hlevel => hasWildcardChar_level hp hlevel
  have hlevels : Mqtt.levels (p ++ "/" ++ "#") = Mqtt.levels p ++ ["#"] := by
    have hhash : Mqtt.levels "#" = ["#"] := levels_of_no_slash (by decide)
    rw [levels_append_slash, hhash]
  have hparse : fromStr (p ++ "/" ++ "#") =
      if isValid { levels := (Mqtt.levels p).map literalLevel ++ [Level.multiWildcard] } then
        Except.ok { levels := (Mqtt.levels p).map literalLevel ++ [Level.multiWildcard] }
      else Except.error
        (TopicError.invalidTopic ("invalid topic `" ++ (p ++ "/" ++ "#") ++ "`")) := by
    unfold fromStr
    rw [hlevels, mapM_fromStr_literal hliteral]
  constructor
  · intro h
    rcases h with ⟨t, ht, hmatch⟩
    rw [hparse] at ht
    split at ht
    · rw [← Except.ok.inj ht] at hmatch
      exact (matchTexts_literal hf).mp hmatch
    · cases ht
  · intro hfront
    have hplain : forall level, level ∈ Mqtt.levels p -> isMetadata level = false :=
      fun level hlevel => hf level (hfront.mem hlevel)
    refine ⟨{ levels := (Mqtt.levels p).map literalLevel ++ [Level.multiWildcard] }, ?_, ?_⟩
    · rw [hparse, if_pos (isValid_literal hliteral hplain)]
    · exact (matchTexts_literal hf).mpr hfront

end Topic

end Broker
end Ciqada
