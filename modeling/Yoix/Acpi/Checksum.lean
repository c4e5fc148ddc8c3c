import Yoix.Acpi.FindTable
import Mathlib.Algebra.BigOperators.Group.Finset.Piecewise
import Mathlib.Data.UInt

/-!
# The checksum of a table

`doChecksum` adds up all bytes of a table, as many as its length says, and accepts the table when the
last eight bits of the sum are 0. The index has the type `int`, while the length is unsigned: from a
length of `2 ^ 31` on the index overflows, which C leaves undefined.

`checksum_guards_each_byte`: below that, each byte but those of the length itself is decided by the
others. So a table that is accepted is no longer accepted when one of these bytes has changed. The four
bytes of the length are another matter: with another length other bytes are added up.
-/

namespace Yoix

open Memory

/-- The loop of `doChecksum` from byte `i` on, with `n` bytes to go. It is `none` when `i` overflows. -/
def checksumLoop (bytes : Nat → UInt8) : Nat → Nat → UInt8 → Option UInt8
  | 0, _, sum => some sum
  | n + 1, i, sum =>
    let sum := sum + bytes i
    if i + 1 < 2 ^ 31 then checksumLoop bytes n (i + 1) sum else none

def doChecksum (mem : Nat → UInt8) (tableHeader : Nat) : Option Bool := do
  let sum ← checksumLoop (bytesAt mem tableHeader) (sdtLength mem tableHeader) 0 0
  return sum == 0

/-! ## The sum

The loop adds the bytes of a table modulo 256. Its index is an `int`, so that tables from `2 ^ 31`
bytes on make it overflow. -/

/-- The loop ends exactly when the index does not overflow, and its result is the sum of all bytes. -/
theorem checksumLoop_eq (bytes : Nat → UInt8) (n i : Nat) (sum : UInt8) :
    checksumLoop bytes n i sum
      = if n = 0 ∨ i + n < 2 ^ 31 then some (sum + ∑ j ∈ Finset.range n, bytes (i + j)) else none := by
  induction n generalizing i sum with
  | zero =>
    rw [if_pos (Or.inl rfl), Finset.range_zero, Finset.sum_empty, add_zero]
    rfl
  | succ n ih =>
    have hshift : ∑ j ∈ Finset.range n, bytes (i + (j + 1)) = ∑ j ∈ Finset.range n, bytes (i + 1 + j) :=
      Finset.sum_congr rfl fun j _ => by rw [show i + (j + 1) = i + 1 + j by omega]
    rw [checksumLoop, ih, Finset.sum_range_succ', hshift]
    by_cases hfits : i + (n + 1) < 2 ^ 31
    · rw [if_pos (by omega), if_pos (by omega), if_pos (Or.inr hfits), add_assoc,
        add_comm (bytes i)]
      rfl
    · rw [if_neg (show ¬ (n + 1 = 0 ∨ i + (n + 1) < 2 ^ 31) by omega)]
      split
      · rw [if_neg (by omega)]
      · rfl

/-- The check is a sum over all bytes of the table. -/
theorem doChecksum_eq (mem : Nat → UInt8) (tableHeader : Nat) :
    doChecksum mem tableHeader
      = if sdtLength mem tableHeader < 2 ^ 31 then
          some (∑ i ∈ Finset.range (sdtLength mem tableHeader), bytesAt mem tableHeader i == 0)
        else none := by
  unfold doChecksum
  rw [checksumLoop_eq]
  simp only [zero_add]
  by_cases hfits : sdtLength mem tableHeader < 2 ^ 31
  · rw [if_pos (Or.inr hfits), if_pos hfits]
    rfl
  · rw [if_neg (by omega), if_neg hfits]
    rfl

/-! ## One byte

A byte that is not part of the length changes one term of the sum, and every term but one leaves one
value for it. -/

/-- Another byte at offset `k`. -/
def setByte (mem : Nat → UInt8) (p k : Nat) (v : UInt8) : Nat → UInt8 :=
  Function.update mem ((p + k) % 2 ^ 64) v

theorem bytesAt_setByte (mem : Nat → UInt8) (p : Nat) (v : UInt8) {k i : Nat} (hk : k < 2 ^ 32)
    (hi : i < 2 ^ 32) : bytesAt (setByte mem p k v) p i = Function.update (bytesAt mem p) k v i := by
  unfold bytesAt setByte
  by_cases hik : i = k
  · rw [hik, Function.update_self, Function.update_self]
  · rw [Function.update_of_ne hik, Function.update_of_ne (by omega)]

theorem sdtLength_setByte (mem : Nat → UInt8) (p : Nat) (v : UInt8) {k : Nat} (hk : k < 2 ^ 32)
    (hfield : k < 4 ∨ 8 ≤ k) : sdtLength (setByte mem p k v) p = sdtLength mem p := by
  refine readLE_congr fun i hlo hhi => ?_
  rw [bytesAt_setByte mem p v hk (by omega), Function.update_of_ne (by omega)]

/-- With another byte at `k` the sum is that byte and the sum of the others. -/
theorem sum_setByte (mem : Nat → UInt8) (p : Nat) (v : UInt8) {k n : Nat} (hk : k < n) (hn : n < 2 ^ 32) :
    ∑ i ∈ Finset.range n, bytesAt (setByte mem p k v) p i
      = v + ∑ i ∈ Finset.range n \ {k}, bytesAt mem p i := by
  rw [← Finset.sum_update_of_mem (Finset.mem_range.mpr hk)]
  refine Finset.sum_congr rfl fun i hi => ?_
  have hlt := Finset.mem_range.mp hi
  exact bytesAt_setByte mem p v (by omega) (by omega)

/-- **Each byte is guarded.** `doChecksum` is defined for the lengths below `2 ^ 31`, and of a table with
such a length, each byte outside of the length has exactly one value with which the table is accepted. -/
theorem checksum_guards_each_byte (mem : Nat → UInt8) (p : Nat) :
    (doChecksum mem p ≠ none ↔ sdtLength mem p < 2 ^ 31) ∧
    (sdtLength mem p < 2 ^ 31 → ∀ k < sdtLength mem p, k < 4 ∨ 8 ≤ k →
      ∃! v, doChecksum (setByte mem p k v) p = some true) := by
  constructor
  · rw [doChecksum_eq]
    split
    · next hfits => exact iff_of_true (by simp) hfits
    · next hfits => exact iff_of_false (by simp) hfits
  · intro hfits k hk hfield
    have haccepted : ∀ v, doChecksum (setByte mem p k v) p = some true ↔
        v = - ∑ i ∈ Finset.range (sdtLength mem p) \ {k}, bytesAt mem p i := by
      intro v
      rw [doChecksum_eq, sdtLength_setByte mem p v (by omega) hfield, if_pos hfits,
        sum_setByte mem p v hk (by omega), Option.some.injEq, beq_iff_eq, add_eq_zero_iff_eq_neg]
    exact ⟨_, (haccepted _).mpr rfl, fun v hv => (haccepted v).mp hv⟩

end Yoix
