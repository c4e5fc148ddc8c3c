import Mathlib.Data.Finset.Max
import Mathlib.Order.Monotone.Defs

/-!
# Priority controllers

A controller collects requests and hands them to a processor one at a time, the highest one first. A
request is handed out only when its level is above the levels of all that are being served, and the
processor tells the controller when it is done, but not with which of them: the controller takes it to be
the highest one that is being served.

`finish_accept`: this is the right one when the processor is done with the last one it was given.
-/

namespace Priority

variable {α κ : Type} [LinearOrder α] [LinearOrder κ]

/-- The greatest element. -/
def highest (s : Finset α) : Option α := if h : s.Nonempty then some (s.max' h) else none

/-- The highest element is the one in the set that no other element exceeds. -/
theorem highest_eq_some_iff {s : Finset α} {a : α} :
    highest s = some a ↔ a ∈ s ∧ ∀ b ∈ s, b ≤ a := by
  unfold highest
  constructor
  · intro h
    split at h
    · next hs =>
      obtain rfl := Option.some.inj h
      exact ⟨s.max'_mem hs, fun b hb => s.le_max' b hb⟩
    · cases h
  · rintro ⟨ha, hmax⟩
    have hs : s.Nonempty := ⟨a, ha⟩
    rw [dif_pos hs]
    exact congrArg some (le_antisymm (hmax _ (s.max'_mem hs)) (s.le_max' a ha))

/-- An element above all of a set is the highest one once it is put into the set. -/
theorem highest_insert {s : Finset α} {a : α} (h : ∀ b ∈ s, b ≤ a) :
    highest (insert a s) = some a :=
  highest_eq_some_iff.mpr ⟨Finset.mem_insert_self a s, fun b hb => by
    cases Finset.mem_insert.mp hb with
    | inl hb => exact hb.le
    | inr hb => exact h b hb⟩

structure Controller (α : Type) where
  pending : Finset α
  serving : Finset α
  deriving DecidableEq

namespace Controller

/-- The request that is handed out next. -/
def next (level : α → κ) (c : Controller α) : Option α :=
  (highest c.pending).filter fun a => ∀ b ∈ c.serving, level b < level a

def request (c : Controller α) (a : α) : Controller α := { c with pending := insert a c.pending }

/-- The processor takes a request. -/
def accept (c : Controller α) (a : α) : Controller α where
  pending := c.pending.erase a
  serving := insert a c.serving

/-- The processor is done. -/
def finish (c : Controller α) : Controller α :=
  match highest c.serving with
  | none => c
  | some a => { c with serving := c.serving.erase a }

variable {level : α → κ} {c : Controller α} {a : α}

theorem next_eq_some_iff :
    c.next level = some a ↔ highest c.pending = some a ∧ ∀ b ∈ c.serving, level b < level a := by
  rw [next, Option.filter_eq_some_iff, decide_eq_true_iff]

/-- Nothing holds a request back when nothing is served. -/
theorem next_of_idle (h : c.serving = ∅) : c.next level = highest c.pending := by
  cases hhigh : highest c.pending with
  | none => rw [next, hhigh, Option.filter_none]
  | some a =>
    refine next_eq_some_iff.mpr ⟨hhigh, fun b hb => ?_⟩
    rw [h] at hb
    exact absurd hb (Finset.notMem_empty b)

theorem finish_eq (h : highest c.serving = some a) :
    c.finish = { c with serving := c.serving.erase a } := by
  unfold finish
  rw [h]

/-- What was handed out last is what the processor is done with first. -/
theorem finish_accept (h : ∀ b ∈ c.serving, b < a) :
    (c.accept a).finish = { c with pending := c.pending.erase a } := by
  have hhigh : highest (c.accept a).serving = some a := highest_insert fun b hb => (h b hb).le
  have hnew : a ∉ c.serving := fun ha => lt_irrefl a (h a ha)
  rw [finish_eq hhigh, accept, Finset.erase_insert hnew]

theorem lt_of_next (hlevel : Monotone level) (h : c.next level = some a) : ∀ b ∈ c.serving, b < a :=
  fun b hb => hlevel.reflect_lt ((next_eq_some_iff.mp h).2 b hb)

end Controller

end Priority
