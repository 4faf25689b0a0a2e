import Mathlib.Data.List.Basic
import Mathlib.Logic.Function.Basic
import Mathlib.Tactic.Common

/-!
# Bytes of strings and separator framing

Strings are compared through their UTF-8 bytes when they are hashed.  Encoding
is injective, and a zero byte occurs in an encoding only where the string has
the null character, so a zero byte can separate two strings unambiguously as
long as the first one has none.
-/

namespace Ciqada
namespace Foundation

/-- The UTF-8 bytes of a string. -/
def asBytes (s : String) : List UInt8 :=
  s.toList.flatMap String.utf8EncodeChar

theorem asBytes_injective : Function.Injective asBytes := by
  intro s t hst
  have hbytes : s.toList.utf8Encode = t.toList.utf8Encode := by
    unfold List.utf8Encode
    exact congrArg List.toByteArray hst
  rw [String.utf8Encode_toList, String.utf8Encode_toList] at hbytes
  exact String.toByteArray_inj.mp hbytes

/-- The string has no null character. -/
def NulFree (s : String) : Prop :=
  '\x00' ∉ s.toList

theorem zero_ne_ofNat {n : Nat} (hpos : 0 < n) (hlt : n < 256) :
    (0 : UInt8) ≠ UInt8.ofNat n := by
  intro h
  have hn := congrArg UInt8.toNat h
  simp [UInt8.toNat_ofNat'] at hn
  omega

theorem zero_mem_utf8EncodeChar {c : Char}
    (hzero : (0 : UInt8) ∈ String.utf8EncodeChar c) : c = '\x00' := by
  unfold String.utf8EncodeChar at hzero
  dsimp only at hzero
  by_cases hascii : c.val.toNat ≤ 0x7f
  · rw [if_pos hascii] at hzero
    have hbyte : (0 : UInt8) = UInt8.ofNat c.val.toNat := by simpa using hzero
    have hval : c.val.toNat = 0 := by
      by_contra hpos
      exact zero_ne_ofNat (Nat.pos_of_ne_zero hpos) (by omega) hbyte
    apply Char.ext
    apply UInt32.toNat_inj.mp
    exact hval
  · -- every byte of a longer encoding carries a nonzero marker
    exfalso
    rw [if_neg hascii] at hzero
    split at hzero
    · simp only [List.mem_cons, List.not_mem_nil, or_false] at hzero
      rcases hzero with h | h <;> exact zero_ne_ofNat (by omega) (by omega) h
    · split at hzero
      · simp only [List.mem_cons, List.not_mem_nil, or_false] at hzero
        rcases hzero with h | h | h <;> exact zero_ne_ofNat (by omega) (by omega) h
      · simp only [List.mem_cons, List.not_mem_nil, or_false] at hzero
        rcases hzero with h | h | h | h <;> exact zero_ne_ofNat (by omega) (by omega) h

theorem zero_not_mem_asBytes {s : String} (hs : NulFree s) :
    (0 : UInt8) ∉ asBytes s := by
  intro hzero
  rcases List.mem_flatMap.mp hzero with ⟨c, hc, hbyte⟩
  rw [zero_mem_utf8EncodeChar hbyte] at hc
  exact hs hc

/-- Two strings joined by a zero byte. -/
def frame (u p : String) : List UInt8 :=
  asBytes u ++ [0] ++ asBytes p

theorem append_cons_inj {α : Type*} {sep : α} {u v p q : List α}
    (hu : sep ∉ u) (hv : sep ∉ v) (h : u ++ sep :: p = v ++ sep :: q) :
    u = v ∧ p = q := by
  induction u generalizing v with
  | nil =>
      cases v with
      | nil => exact ⟨rfl, (List.cons.inj h).right⟩
      | cons b v =>
          have hb : sep = b := (List.cons.inj h).left
          exact absurd (hb ▸ List.mem_cons_self) hv
  | cons a u ih =>
      cases v with
      | nil =>
          have ha : a = sep := (List.cons.inj h).left
          exact absurd (ha ▸ List.mem_cons_self) hu
      | cons b v =>
          rcases List.cons.inj h with ⟨hab, htail⟩
          have hu' : sep ∉ u := fun hmem => hu (List.mem_cons_of_mem a hmem)
          have hv' : sep ∉ v := fun hmem => hv (List.mem_cons_of_mem b hmem)
          rcases ih hu' hv' htail with ⟨huv, hpq⟩
          exact ⟨by rw [hab, huv], hpq⟩

theorem frame_inj {u v p q : String} (hu : NulFree u) (hv : NulFree v)
    (h : frame u p = frame v q) : u = v ∧ p = q := by
  have hsplit : asBytes u ++ 0 :: asBytes p = asBytes v ++ 0 :: asBytes q := by
    simpa [frame] using h
  rcases append_cons_inj (zero_not_mem_asBytes hu) (zero_not_mem_asBytes hv) hsplit
    with ⟨huv, hpq⟩
  exact ⟨asBytes_injective huv, asBytes_injective hpq⟩

theorem frame_right_inj {u p q : String} (h : frame u p = frame u q) : p = q := by
  have hpq : asBytes p = asBytes q := by
    simpa [frame] using h
  exact asBytes_injective hpq

end Foundation
end Ciqada
