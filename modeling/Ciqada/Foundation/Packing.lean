import Mathlib.Data.Nat.Bitwise
import Mathlib.Tactic.Common

/-!
# Two numbers in one word

A word of fixed width holds a number in its high bits and another one in its low
bits.  Both are cut to their part of the word, so packing forgets what does not
fit, and two pairs are packed alike exactly when they agree in what is kept.
-/

namespace Ciqada
namespace Foundation

/-- The high part shifted into place, the low part masked. -/
def pack (word low hi lo : Nat) : Nat :=
  ((hi <<< low) % 2 ^ word) ||| (lo &&& (2 ^ low - 1))

section Packing

variable {word low : Nat} (hle : low ≤ word) (hi lo : Nat)

include hle

theorem pack_eq : pack word low hi lo = hi % 2 ^ (word - low) * 2 ^ low + lo % 2 ^ low := by
  have hword : 2 ^ word = 2 ^ (word - low) * 2 ^ low := by
    rw [← Nat.pow_add, Nat.sub_add_cancel hle]
  have hlo : lo % 2 ^ low < 2 ^ low := Nat.mod_lt lo (Nat.two_pow_pos low)
  unfold pack
  rw [Nat.and_two_pow_sub_one_eq_mod, Nat.shiftLeft_eq, hword, Nat.mul_mod_mul_right,
    ← Nat.shiftLeft_eq, ← Nat.shiftLeft_add_eq_or_of_lt hlo]

/-- The high part as it is read back. -/
theorem pack_shiftRight : pack word low hi lo >>> low = hi % 2 ^ (word - low) := by
  have hlo : lo % 2 ^ low < 2 ^ low := Nat.mod_lt lo (Nat.two_pow_pos low)
  rw [pack_eq hle, Nat.shiftRight_eq_div_pow, Nat.mul_comm,
    Nat.mul_add_div (Nat.two_pow_pos low), Nat.div_eq_of_lt hlo, Nat.add_zero]

/-- The low part as it is read back. -/
theorem pack_and : pack word low hi lo &&& (2 ^ low - 1) = lo % 2 ^ low := by
  rw [pack_eq hle, Nat.and_two_pow_sub_one_eq_mod, Nat.mul_add_mod_self_right, Nat.mod_mod]

theorem pack_lo_inj {lo' : Nat} (hlo : lo < 2 ^ low) (hlo' : lo' < 2 ^ low) {hi' : Nat}
    (h : pack word low hi lo = pack word low hi' lo') : lo = lo' := by
  have hread := congrArg (fun w => w &&& (2 ^ low - 1)) h
  rw [pack_and hle, pack_and hle, Nat.mod_eq_of_lt hlo, Nat.mod_eq_of_lt hlo'] at hread
  exact hread

end Packing

end Foundation
end Ciqada
