import Ciqada.Foundation.Bytes
import Mathlib.Data.List.Infix

/-!
# Password hashes, verifiers and cache keys

The cryptographic primitives come from outside the repository and are a
parameter of the development.  What the server relies on is stated as one
structure of laws.  Digests are byte lists of no fixed length, because the laws
exclude collisions.
-/

namespace Ciqada
namespace Api

open Foundation

/-- The primitives: salted password hashing, SHA-256 and HMAC-SHA-256. -/
structure Crypto where
  hashPassword : String -> String -> String
  verifyPassword : String -> String -> Bool
  sha256 : List UInt8 -> List UInt8
  hmacSha256 : List UInt8 -> List UInt8 -> List UInt8

namespace Crypto

/-- The stored hash was made from the password under some salt. -/
def MadeFrom (c : Crypto) (hash password : String) : Prop :=
  exists salt, c.hashPassword salt password = hash

/-- What the primitives are relied on for. -/
structure Laws (c : Crypto) : Prop where
  verify_hash : forall salt p q, c.verifyPassword (c.hashPassword salt p) q = true <-> p = q
  verify_made : forall hash q, c.verifyPassword hash q = true -> c.MadeFrom hash q
  sha256_inj : forall m m', c.sha256 m = c.sha256 m' -> m = m'
  hmac_inj : forall key key' m m', c.hmacSha256 key m = c.hmacSha256 key' m' -> m = m'

def computeVerifier (c : Crypto) (pepper : List UInt8) (username password : String) :
    List UInt8 :=
  c.hmacSha256 pepper (frame username password)

/-- Comparison that looks at every byte: the differences are accumulated. -/
def ctEq (a b : List UInt8) : Bool :=
  if a.length ≠ b.length then false
  else (List.zip a b).foldl (fun diff xy => diff ||| (xy.1 ^^^ xy.2)) 0 == 0

def verifyFast (c : Crypto) (pepper : List UInt8) (username password : String)
    (stored : List UInt8) : Bool :=
  ctEq (c.computeVerifier pepper username password) stored

def authKey (c : Crypto) (username password : String) : List UInt8 :=
  c.sha256 (frame username password)

/-!
## Constant time comparison is equality
-/

theorem or_eq_zero {a b : UInt8} (h : a ||| b = 0) : a = 0 ∧ b = 0 := by
  have hbv : a.toBitVec ||| b.toBitVec = 0#8 := by
    simpa using congrArg UInt8.toBitVec h
  rcases BitVec.or_eq_zero_iff.mp hbv with ⟨ha, hb⟩
  exact ⟨UInt8.toBitVec_inj.mp ha, UInt8.toBitVec_inj.mp hb⟩

theorem foldl_diff_eq_zero {pairs : List (UInt8 × UInt8)} {diff : UInt8} :
    pairs.foldl (fun diff xy => diff ||| (xy.1 ^^^ xy.2)) diff = 0 <->
      diff = 0 ∧ forall xy, xy ∈ pairs -> xy.1 = xy.2 := by
  induction pairs generalizing diff with
  | nil => simp
  | cons xy pairs ih =>
      rw [List.foldl_cons, ih]
      constructor
      · intro h
        rcases h with ⟨hdiff, hrest⟩
        rcases or_eq_zero hdiff with ⟨hzero, hxor⟩
        refine ⟨hzero, ?_⟩
        intro p hp
        rcases List.mem_cons.mp hp with hhead | htail
        · rw [hhead]
          exact UInt8.xor_eq_zero_iff.mp hxor
        · exact hrest p htail
      · intro h
        rcases h with ⟨hzero, hall⟩
        refine ⟨?_, fun p hp => hall p (List.mem_cons_of_mem xy hp)⟩
        rw [hzero, hall xy List.mem_cons_self]
        simp

theorem forall_mem_zip_iff {a b : List UInt8} (hlen : a.length = b.length) :
    (forall xy, xy ∈ List.zip a b -> xy.1 = xy.2) <-> a = b := by
  induction a generalizing b with
  | nil =>
      cases b with
      | nil => simp
      | cons y b => cases hlen
  | cons x a ih =>
      cases b with
      | nil => cases hlen
      | cons y b =>
          have hlen' : a.length = b.length := by simpa using hlen
          rw [List.zip_cons_cons, List.forall_mem_cons, ih hlen', List.cons.injEq]

theorem ctEq_iff (a b : List UInt8) : ctEq a b = true <-> a = b := by
  unfold ctEq
  by_cases hlen : a.length = b.length
  · rw [if_neg (not_not_intro hlen), beq_iff_eq, foldl_diff_eq_zero]
    simpa using forall_mem_zip_iff hlen
  · rw [if_pos hlen]
    constructor
    · intro h
      cases h
    · intro h
      exact absurd (congrArg List.length h) hlen

theorem verifyFast_iff (c : Crypto) (pepper : List UInt8) (u p : String)
    (stored : List UInt8) :
    c.verifyFast pepper u p stored = true <-> stored = c.computeVerifier pepper u p := by
  unfold verifyFast
  rw [ctEq_iff]
  exact eq_comm

/-!
## Consequences of the laws
-/

namespace Laws

variable {c : Crypto}

theorem verify_iff (hc : c.Laws) (hash q : String) :
    c.verifyPassword hash q = true <-> c.MadeFrom hash q := by
  constructor
  · exact hc.verify_made hash q
  · intro hmade
    rcases hmade with ⟨salt, hsalt⟩
    rw [← hsalt]
    exact (hc.verify_hash salt q q).mpr rfl

theorem madeFrom_unique (hc : c.Laws) {hash p q : String}
    (hp : c.MadeFrom hash p) (hq : c.MadeFrom hash q) : p = q := by
  rcases hp with ⟨salt, hsalt⟩
  have hverify := (hc.verify_iff hash q).mpr hq
  rw [← hsalt] at hverify
  exact (hc.verify_hash salt p q).mp hverify

theorem authKey_inj (hc : c.Laws) {u v p q : String} (hu : NulFree u) (hv : NulFree v)
    (h : c.authKey u p = c.authKey v q) : u = v ∧ p = q :=
  frame_inj hu hv (hc.sha256_inj _ _ h)

theorem computeVerifier_inj (hc : c.Laws) {key key' : List UInt8} {u p q : String}
    (h : c.computeVerifier key u p = c.computeVerifier key' u q) : p = q :=
  frame_right_inj (hc.hmac_inj _ _ _ _ h)

end Laws

/-!
## Primitives that satisfy the laws

Each element of the message is preceded by a mark and the end has another one,
so the message can be read back and the salt or key follows it.
-/

def marked {α : Type*} (more stop : α) (message tail : List α) : List α :=
  message.flatMap (fun x => [more, x]) ++ stop :: tail

theorem marked_inj {α : Type*} {more stop : α} (hne : more ≠ stop)
    {m m' t t' : List α} (h : marked more stop m t = marked more stop m' t') :
    m = m' ∧ t = t' := by
  induction m generalizing m' with
  | nil =>
      cases m' with
      | nil => simpa [marked] using h
      | cons y m' =>
          have hstop : stop = more := by
            simp [marked] at h
            exact h.left
          exact absurd hstop.symm hne
  | cons x m ih =>
      cases m' with
      | nil =>
          have hmore : more = stop := by
            simp [marked] at h
            exact h.left
          exact absurd hmore hne
      | cons y m' =>
          have hcons : x = y ∧ marked more stop m t = marked more stop m' t' := by
            simpa [marked] using h
          rcases ih hcons.right with ⟨hm, ht⟩
          exact ⟨by rw [hcons.left, hm], ht⟩

/-- Primitives that keep the message readable. -/
def transparent : Crypto where
  hashPassword salt password :=
    String.ofList (marked '1' '0' password.toList salt.toList)
  verifyPassword hash password :=
    (marked '1' '0' password.toList []).isPrefixOf hash.toList
  sha256 message := message
  hmacSha256 key message := marked 1 0 message key

theorem marked_prefix_iff {m : List Char} {text : List Char} :
    (marked '1' '0' m []).isPrefixOf text = true <-> exists t, text = marked '1' '0' m t := by
  rw [List.isPrefixOf_iff_prefix]
  constructor
  · intro h
    rcases h with ⟨t, ht⟩
    refine ⟨t, ?_⟩
    rw [← ht]
    simp [marked]
  · intro h
    rcases h with ⟨t, ht⟩
    refine ⟨t, ?_⟩
    rw [ht]
    simp [marked]

theorem transparent_laws : transparent.Laws where
  verify_hash := by
    intro salt p q
    show (marked '1' '0' q.toList []).isPrefixOf
      (String.ofList (marked '1' '0' p.toList salt.toList)).toList = true <-> p = q
    rw [marked_prefix_iff, String.toList_ofList]
    constructor
    · intro h
      rcases h with ⟨t, ht⟩
      exact String.toList_inj.mp (marked_inj (by decide) ht).left
    · intro h
      exact ⟨salt.toList, by rw [h]⟩
  verify_made := by
    intro hash q h
    rcases marked_prefix_iff.mp h with ⟨t, ht⟩
    refine ⟨String.ofList t, ?_⟩
    show String.ofList (marked '1' '0' q.toList (String.ofList t).toList) = hash
    rw [String.toList_ofList, ← ht, String.ofList_toList]
  sha256_inj := fun _ _ h => h
  hmac_inj := by
    intro key key' m m' h
    exact (marked_inj (by decide) h).left

end Crypto

end Api
end Ciqada
