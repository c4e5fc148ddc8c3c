import Mathlib.Data.Nat.Bitwise

/-!
# Masks

A contiguous run of one bits selects a range of bits of a number: `x &&& (2 ^ w - 2 ^ k)` keeps
the bits of `x` from `k` up to `w`, which is a division and a remainder.
-/

namespace Bits

/-- A mask with the bits from `k` up to `w` set. -/
theorem and_mask {x k w : Nat} (hkw : k ≤ w) :
    x &&& (2 ^ w - 2 ^ k) = x % 2 ^ w / 2 ^ k * 2 ^ k := by
  have hmask : 2 ^ w - 2 ^ k = (2 ^ (w - k) - 1) <<< k := by
    rw [Nat.shiftLeft_eq, Nat.sub_mul, ← pow_add, Nat.sub_add_cancel hkw, Nat.one_mul]
  apply Nat.eq_of_testBit_eq
  intro i
  rw [hmask, Nat.testBit_and, Nat.testBit_shiftLeft, Nat.testBit_two_pow_sub_one,
    ← Nat.shiftLeft_eq, Nat.testBit_shiftLeft, Nat.testBit_div_two_pow, Nat.testBit_mod_two_pow]
  by_cases hk : k ≤ i
  · have hlt : (i - k < w - k) ↔ (i < w) := by omega
    simp [hk, hlt, Bool.and_comm]
  · simp [hk]

/-- The mask that clears the `k` low bits of a `w`-bit number. -/
theorem and_mask_of_lt {x k w : Nat} (hkw : k ≤ w) (hx : x < 2 ^ w) :
    x &&& (2 ^ w - 2 ^ k) = x / 2 ^ k * 2 ^ k := by
  rw [and_mask hkw, Nat.mod_eq_of_lt hx]

end Bits
