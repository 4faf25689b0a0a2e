import Mathlib.Data.Countable.Defs
import Mathlib.Data.List.Basic
import Mathlib.Data.Nat.Basic
import Mathlib.Tactic.Ring

/-!
# Length-prefixed sections

A number is written as a fixed count of bytes, lowest first, and a section is
written behind its length.  Positions and lengths are machine words, so that sums
of them wrap; a slice outside the bytes does not exist.
-/

namespace Ciqada
namespace Foundation

def leBytes : Nat -> Nat -> List UInt8
  | 0, _ => []
  | width + 1, n => UInt8.ofNat (n % 256) :: leBytes width (n / 256)

def fromLe : List UInt8 -> Nat
  | [] => 0
  | b :: bytes => b.toNat + 256 * fromLe bytes

theorem length_leBytes (width n : Nat) : (leBytes width n).length = width := by
  induction width generalizing n with
  | zero => rfl
  | succ width ih =>
      unfold leBytes
      rw [List.length_cons, ih]

theorem fromLe_leBytes {width n : Nat} (hn : n < 256 ^ width) :
    fromLe (leBytes width n) = n := by
  induction width generalizing n with
  | zero =>
      have hzero : n = 0 := by simpa using hn
      rw [hzero]
      rfl
  | succ width ih =>
      have hdiv : n / 256 < 256 ^ width := by
        rw [Nat.div_lt_iff_lt_mul (by decide)]
        rw [pow_succ] at hn
        exact hn
      have hbyte : (UInt8.ofNat (n % 256)).toNat = n % 256 := by
        rw [UInt8.toNat_ofNat']
        exact Nat.mod_mod n 256
      unfold leBytes fromLe
      rw [hbyte, ih hdiv]
      exact Nat.mod_add_div n 256

/-- The bytes from one position up to another, which must not be before it. -/
def slice? (word : Nat) (bytes : List UInt8) (start len : Nat) : Option (List UInt8) :=
  let stop := (start + len) % word
  if start ≤ stop ∧ stop ≤ bytes.length then some ((bytes.drop start).take (stop - start))
  else none

section Slice

variable {word start len : Nat} {bytes p found : List UInt8}

/-- A sum that wraps ends before it starts. -/
theorem slice?_spec (hstart : start < word) (hlen : len < word)
    (h : slice? word bytes start len = some found) :
    start + len ≤ bytes.length ∧ found = (bytes.drop start).take len := by
  unfold slice? at h
  dsimp only at h
  split at h
  · next hrange =>
      have hsum : (start + len) % word = start + len := by
        apply Nat.mod_eq_of_lt
        by_contra hwrap
        have hmod : (start + len) % word = start + len - word := by
          rw [Nat.mod_eq_sub_mod (Nat.le_of_not_lt hwrap)]
          exact Nat.mod_eq_of_lt (by omega)
        omega
      rw [hsum, Nat.add_sub_cancel_left] at h
      rw [hsum] at hrange
      exact ⟨hrange.right, (Option.some.inj h).symm⟩
  · cases h

theorem slice?_middle (before after : List UInt8) (hword : (before ++ found).length < word) :
    slice? word (before ++ found ++ after) before.length found.length = some found := by
  rw [List.length_append] at hword
  unfold slice?
  dsimp only
  rw [Nat.mod_eq_of_lt hword, if_pos ⟨Nat.le_add_right _ _, by simp⟩, Nat.add_sub_cancel_left,
    List.append_assoc, List.drop_left, List.take_left]

theorem slice?_front (hp : p <+: bytes) (h : slice? word p start len = some found) :
    slice? word bytes start len = some found := by
  rcases hp with ⟨rest, rfl⟩
  unfold slice? at h
  unfold slice?
  dsimp only at h
  dsimp only
  split at h
  · next hrange =>
      rw [if_pos ⟨hrange.left, by rw [List.length_append]; omega⟩, ← h,
        List.drop_append_of_le_length (by omega), List.take_append_of_le_length (by simp; omega)]
  · cases h

end Slice

/-- A section behind its length. -/
def frame8 (data : List UInt8) : List UInt8 :=
  leBytes 8 data.length ++ data

section Frame

variable {word : Nat} {before data after : List UInt8}

theorem length_frame8 (data : List UInt8) : (frame8 data).length = 8 + data.length := by
  unfold frame8
  rw [List.length_append, length_leBytes]

theorem slice?_frame8_length (hword : (before ++ frame8 data).length < word) :
    slice? word (before ++ frame8 data ++ after) before.length 8 =
      some (leBytes 8 data.length) := by
  have hfront : (before ++ leBytes 8 data.length).length < word := by
    rw [List.length_append, length_frame8] at hword
    rw [List.length_append, length_leBytes]
    omega
  have hslice := slice?_middle before (data ++ after) hfront
  rw [length_leBytes] at hslice
  unfold frame8
  rw [← hslice]
  simp only [List.append_assoc]

theorem slice?_frame8_data (hword : (before ++ frame8 data).length < word) :
    slice? word (before ++ frame8 data ++ after) (before.length + 8) data.length =
      some data := by
  have hfront : (before ++ leBytes 8 data.length ++ data).length < word := by
    rw [List.append_assoc]
    exact hword
  have hslice := slice?_middle (before ++ leBytes 8 data.length) after hfront
  rw [List.length_append, length_leBytes] at hslice
  unfold frame8
  rw [← hslice]
  simp only [List.append_assoc]

end Frame

/-- A way to write values as bytes that can be read back. -/
structure ByteCodec (A : Type) where
  encode : A -> List UInt8
  decode : List UInt8 -> Option A
  decode_encode : forall a, decode (encode a) = some a

namespace ByteCodec

variable {A : Type}

/-- Values are written and then packed, if there is a packing. -/
def packed (c : ByteCodec A) (packing : Option (ByteCodec (List UInt8))) : ByteCodec A :=
  { encode := fun a => packing.elim (c.encode a) (fun p => p.encode (c.encode a))
    decode := fun bytes => (packing.elim (some bytes) (fun p => p.decode bytes)).bind c.decode
    decode_encode := by
      intro a
      cases packing with
      | none => exact c.decode_encode a
      | some p =>
          show (p.decode (p.encode (c.encode a))).bind c.decode = some a
          rw [p.decode_encode]
          exact c.decode_encode a }

/-- The values of a countable type can be numbered from any of them on. -/
theorem exists_numbering [Countable A] (first : A) :
    exists number : A -> Nat, Function.Injective number ∧ number first = 0 := by
  rcases exists_injective_nat A with ⟨number, hnumber⟩
  classical
  refine ⟨fun a => if a = first then 0 else number a + 1, ?_, if_pos rfl⟩
  intro a b hab
  dsimp only at hab
  split at hab
  · next ha =>
      split at hab
      · next hb => exact ha.trans hb.symm
      · cases hab
  · split at hab
    · cases hab
    · exact hnumber (Nat.add_right_cancel hab)

/-- A value is written as so many bytes as its number tells. -/
noncomputable def ofCountable [Countable A] (first : A) : ByteCodec A :=
  { encode := fun a => List.replicate (Classical.choose (exists_numbering first) a) 0
    decode := fun bytes =>
      Function.partialInv (Classical.choose (exists_numbering first)) bytes.length
    decode_encode := by
      intro a
      rw [List.length_replicate]
      exact Function.partialInv_left (Classical.choose_spec (exists_numbering first)).left a }

theorem ofCountable_first [Countable A] (first : A) : (ofCountable first).encode first = [] := by
  show List.replicate (Classical.choose (exists_numbering first) first) 0 = []
  rw [(Classical.choose_spec (exists_numbering first)).right]
  rfl

end ByteCodec

end Foundation
end Ciqada
