import Mathlib.Data.Nat.Bitwise

/-!
# Bit fields

A word holds fields of consecutive bits. `get` reads the field of `len` bits from bit `lo` on, and
`put` stores the low `len` bits of a value there. A field that was stored is read back, and a field
beside it is not changed. Both are shown bit by bit.
-/

namespace BitField

def get (w lo len : Nat) : Nat := w / 2 ^ lo % 2 ^ len

def put (w lo len v : Nat) : Nat :=
  2 ^ lo * (2 ^ len * (w / 2 ^ (lo + len)) + v % 2 ^ len) + w % 2 ^ lo

variable {w lo len v : Nat}

theorem testBit_get (w lo len i : Nat) :
    (get w lo len).testBit i = (decide (i < len) && w.testBit (lo + i)) := by
  rw [get, Nat.testBit_mod_two_pow, Nat.testBit_div_two_pow, Nat.add_comm]

/-- The bits of the field come from the value, and all other bits stay. -/
theorem testBit_put (w lo len v i : Nat) :
    (put w lo len v).testBit i
      = if lo ≤ i ∧ i < lo + len then v.testBit (i - lo) else w.testBit i := by
  have hlow : w % 2 ^ lo < 2 ^ lo := Nat.mod_lt _ (Nat.two_pow_pos lo)
  have hmid : v % 2 ^ len < 2 ^ len := Nat.mod_lt _ (Nat.two_pow_pos len)
  rw [put, Nat.testBit_two_pow_mul_add _ hlow]
  by_cases hi : i < lo
  · rw [if_pos hi, if_neg (by omega), Nat.testBit_mod_two_pow]
    simp [hi]
  · rw [if_neg hi, Nat.testBit_two_pow_mul_add _ hmid]
    by_cases hlen : i - lo < len
    · rw [if_pos hlen, if_pos (by omega), Nat.testBit_mod_two_pow]
      simp [hlen]
    · rw [if_neg hlen, if_neg (by omega), Nat.testBit_div_two_pow]
      congr 1
      omega

/-- A field that was written reads back as the value, cut to the length of the field. -/
@[simp] theorem get_put_self (w lo len v : Nat) : get (put w lo len v) lo len = v % 2 ^ len := by
  apply Nat.eq_of_testBit_eq
  intro i
  rw [testBit_get, testBit_put, Nat.testBit_mod_two_pow]
  by_cases hi : i < len
  · rw [if_pos (by omega), Nat.add_sub_cancel_left]
  · simp [hi]

theorem get_add_mul {n : Nat} (h : lo + len ≤ n) (w v : Nat) :
    get (w + 2 ^ n * v) lo len = get w lo len := by
  obtain ⟨d, rfl⟩ := Nat.exists_eq_add_of_le h
  rw [get, get, Nat.pow_add, Nat.pow_add, Nat.mul_assoc, Nat.mul_assoc,
    Nat.add_mul_div_left _ _ (Nat.two_pow_pos lo), Nat.add_mul_mod_self_left]

/-- A field that does not meet the written one reads as before. -/
theorem get_put_of_disjoint {lo' len' : Nat} (h : lo' + len' ≤ lo ∨ lo + len ≤ lo') :
    get (put w lo len v) lo' len' = get w lo' len' := by
  apply Nat.eq_of_testBit_eq
  intro i
  rw [testBit_get, testBit_get, testBit_put]
  by_cases hi : i < len'
  · rw [if_neg (by omega)]
  · simp [hi]

/-- A field inside a word of `n` bits leaves it a word of `n` bits. -/
theorem put_lt {n : Nat} (hw : w < 2 ^ n) (hn : lo + len ≤ n) : put w lo len v < 2 ^ n := by
  refine Nat.lt_pow_two_of_testBit _ fun i hi => ?_
  rw [testBit_put, if_neg (by omega)]
  exact Nat.testBit_lt_two_pow (Nat.lt_of_lt_of_le hw (Nat.pow_le_pow_right (by omega) hi))

end BitField
