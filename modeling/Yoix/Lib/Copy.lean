import Mathlib.Logic.Function.Basic

/-!
# Copying loops

A memory is a function from addresses. Copying `n` cells one after the other, from the first one on or
from the last one on, changes cells that are still to be read when the two ranges overlap. `moved` is
the copy that a reader of the old memory expects.

* `copyUp_of_apart`, `copyDown_of_apart`: each direction gives the expected copy when it reads every
  cell before it writes to it.
* `copyUp_of_lt`: upwards into a higher range, the first cells are repeated.
-/

namespace Copy

variable {α : Type}

/-- Copy `n` cells upwards, from the `i`-th one on. -/
def copyUp (dest src : Nat) : Nat → (Nat → α) → Nat → Nat → α
  | 0, m, _ => m
  | n + 1, m, i => copyUp dest src n (Function.update m (dest + i) (m (src + i))) (i + 1)

/-- Copy `n` cells downwards. -/
def copyDown (dest src : Nat) : Nat → (Nat → α) → Nat → α
  | 0, m => m
  | n + 1, m => copyDown dest src n (Function.update m (dest + n) (m (src + n)))

/-- The cells from `dest` on hold what the cells from `src` on have held. -/
def moved (dest src n : Nat) (m : Nat → α) : Nat → α := fun a =>
  if dest ≤ a ∧ a < dest + n then m (src + (a - dest)) else m a

/-- Copy upwards, with the first `i` cells copied already. -/
theorem copyUp_from {dest src n i : Nat} (h : dest ≤ src ∨ src + (i + n) ≤ dest) (m : Nat → α)
    (a : Nat) : copyUp dest src n m i a
      = if dest + i ≤ a ∧ a < dest + (i + n) then m (src + (a - dest)) else m a := by
  induction n generalizing m i with
  | zero => rw [copyUp, if_neg (by omega)]
  | succ n ih =>
    rw [copyUp, ih (by omega)]
    by_cases hlater : dest + (i + 1) ≤ a ∧ a < dest + (i + 1 + n)
    · -- the cell to read has not been written
      rw [if_pos hlater, if_pos (by omega), Function.update_of_ne (by omega)]
    · rw [if_neg hlater]
      by_cases hnow : a = dest + i
      · rw [if_pos (by omega), hnow, Function.update_self, Nat.add_sub_cancel_left]
      · rw [if_neg (by omega), Function.update_of_ne hnow]

/-- A copy from the low end upwards is right when the destination is not above the source, or behind
its end. -/
theorem copyUp_of_apart {dest src n : Nat} (h : dest ≤ src ∨ src + n ≤ dest) (m : Nat → α) :
    copyUp dest src n m 0 = moved dest src n m := by
  funext a
  rw [copyUp_from (by omega), moved]
  simp only [Nat.add_zero, Nat.zero_add]

/-- A copy from the high end downwards is right when the destination is not below the source, or
ends in front of it. -/
theorem copyDown_of_apart {dest src n : Nat} (h : src ≤ dest ∨ dest + n ≤ src) (m : Nat → α) :
    copyDown dest src n m = moved dest src n m := by
  induction n generalizing m with
  | zero =>
    funext a
    rw [copyDown, moved, if_neg (by omega)]
  | succ n ih =>
    funext a
    rw [copyDown, ih (by omega), moved, moved]
    by_cases hlater : dest ≤ a ∧ a < dest + n
    · rw [if_pos hlater, if_pos (by omega), Function.update_of_ne (by omega)]
    · rw [if_neg hlater]
      by_cases hnow : a = dest + n
      · rw [if_pos (by omega), hnow, Function.update_self, Nat.add_sub_cancel_left]
      · rw [if_neg (by omega), Function.update_of_ne hnow]

section Overlap

variable {dest src : Nat} (hlt : src < dest) {m₀ : Nat → α}

include hlt

/-- The cells that have been copied repeat the first `dest - src` cells of the source. -/
theorem copyUp_repeats {n i : Nat} {m : Nat → α}
    (hin : ∀ j < i, m (dest + j) = m₀ (src + j % (dest - src)))
    (hout : ∀ a, a < dest ∨ dest + i ≤ a → m a = m₀ a) :
    (∀ j < i + n, copyUp dest src n m i (dest + j) = m₀ (src + j % (dest - src))) ∧
      ∀ a, a < dest ∨ dest + (i + n) ≤ a → copyUp dest src n m i a = m₀ a := by
  induction n generalizing i m with
  | zero => exact ⟨hin, hout⟩
  | succ n ih =>
    -- the next cell of the source is an old one, or a copy
    have hread : m (src + i) = m₀ (src + i % (dest - src)) := by
      by_cases hold : i < dest - src
      · rw [hout (src + i) (by omega), Nat.mod_eq_of_lt hold]
      · have hcopy := hin (i - (dest - src)) (by omega)
        rw [show dest + (i - (dest - src)) = src + i by omega] at hcopy
        rw [hcopy, ← Nat.mod_eq_sub_mod (by omega)]
    have hstep := @ih (i + 1) (Function.update m (dest + i) (m (src + i))) (fun j hj => by
      by_cases hlast : j = i
      · rw [hlast, Function.update_self, hread]
      · rw [Function.update_of_ne (by omega), hin j (by omega)]) (fun a ha => by
      rw [Function.update_of_ne (by omega), hout a (by omega)])
    rw [show i + (n + 1) = i + 1 + n by omega, copyUp]
    exact hstep

/-- With the destination a little above the source, an upward copy repeats the first bytes of the
source over and over. -/
theorem copyUp_of_lt (n : Nat) (m : Nat → α) (a : Nat) : copyUp dest src n m 0 a
    = if dest ≤ a ∧ a < dest + n then m (src + (a - dest) % (dest - src)) else m a := by
  have hnone : ∀ j < 0, m (dest + j) = m (src + j % (dest - src)) := fun j hj =>
    absurd hj (Nat.not_lt_zero j)
  obtain ⟨hin, hout⟩ := copyUp_repeats hlt hnone (fun _ _ => rfl) (n := n)
  rw [Nat.zero_add] at hin hout
  split
  · next ha =>
    have hcopy := hin (a - dest) (by omega)
    rwa [show dest + (a - dest) = a by omega] at hcopy
  · next ha => exact hout a (by omega)

/-- Upwards gives the expected copy exactly when the source repeats itself. -/
theorem copyUp_eq_moved_iff (n : Nat) (m : Nat → α) :
    (∀ a, dest ≤ a → a < dest + n → copyUp dest src n m 0 a = moved dest src n m a) ↔
      ∀ j < n, m (src + j) = m (src + j % (dest - src)) := by
  constructor
  · intro h j hj
    have hcopy := h (dest + j) (by omega) (by omega)
    rw [copyUp_of_lt hlt, moved, if_pos (by omega), if_pos (by omega), Nat.add_sub_cancel_left] at hcopy
    exact hcopy.symm
  · intro h a hlo hhi
    rw [copyUp_of_lt hlt, moved, if_pos ⟨hlo, hhi⟩, if_pos ⟨hlo, hhi⟩, h (a - dest) (by omega)]

end Overlap

end Copy
