import Mathlib.Data.List.Basic

/-!
# The last write wins

A run of steps on some state is observed through `read`. If each step either overwrites what is
observed with a value of its own or leaves it alone, then what is observed after the run is the
value of the last step that overwrote it, or what was there before.
-/

namespace LastWrite

variable {S A V : Type} {P : A → Bool} {value : A → V}

/-- The value of the last element of the list that satisfies `P`, or `old`. -/
def last (P : A → Bool) (value : A → V) (l : List A) (old : V) : V :=
  ((l.filter P).getLast?.map value).getD old

theorem last_cons_of_pos {a : A} (h : P a = true) (l : List A) (old : V) :
    last P value (a :: l) old = last P value l (value a) := by
  rw [last, last, List.filter_cons_of_pos h, List.getLast?_cons]
  cases (l.filter P).getLast? with
  | none => rfl
  | some b => rfl

theorem last_cons_of_neg {a : A} (h : P a = false) (l : List A) (old : V) :
    last P value (a :: l) old = last P value l old := by
  rw [last, last, List.filter_cons_of_neg (by simp [h])]

/-- A list with an element that satisfies `P` decides the value alone. -/
theorem exists_last (P : A → Bool) (value : A → V) {l : List A} {a : A} (ha : a ∈ l)
    (hP : P a = true) :
    ∃ b ∈ l, P b = true ∧ ∀ old, last P value l old = value b := by
  cases hlast : (l.filter P).getLast? with
  | none =>
    rw [List.getLast?_eq_none_iff, List.filter_eq_nil_iff] at hlast
    exact absurd hP (hlast a ha)
  | some b =>
    obtain ⟨hb, hPb⟩ := List.mem_filter.mp (List.mem_of_getLast? hlast)
    refine ⟨b, hb, hPb, fun old => ?_⟩
    rw [last, hlast]
    rfl

/-- **What is observed after a run.** If each step either sets the value or leaves it, the value is
that of the last step that sets it. -/
theorem read_foldl (step : S → A → S) (read : S → V) {l : List A}
    (hstep : ∀ s, ∀ a ∈ l, read (step s a) = if P a then value a else read s) (s : S) :
    read (l.foldl step s) = last P value l (read s) := by
  induction l generalizing s with
  | nil => rfl
  | cons a l ih =>
    rw [List.foldl_cons, ih fun s b hb => hstep s b (List.mem_cons_of_mem a hb),
      hstep s a List.mem_cons_self]
    cases hP : P a with
    | true =>
      rw [if_pos rfl]
      exact (last_cons_of_pos hP l _).symm
    | false =>
      rw [if_neg (by simp)]
      exact (last_cons_of_neg hP l _).symm

/-- A run of steps that leave what is observed alone. -/
theorem read_foldl_same (step : S → A → S) (read : S → V) {l : List A}
    (hstep : ∀ s, ∀ a ∈ l, read (step s a) = read s) (s : S) : read (l.foldl step s) = read s := by
  induction l generalizing s with
  | nil => rfl
  | cons a l ih =>
    rw [List.foldl_cons, ih fun s b hb => hstep s b (List.mem_cons_of_mem a hb)]
    exact hstep s a List.mem_cons_self

end LastWrite
