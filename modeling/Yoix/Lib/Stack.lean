import Mathlib.Algebra.Group.Nat.Defs
import Mathlib.Logic.Function.Basic

/-!
# Descending stacks

A stack of 64-bit words in a memory of words, each word named by the address of its first byte. The
stack pointer is the address of the word that was pushed last, and a push moves it down by 8.
`Holds` says what the words from an address on are. Addresses are computed on 64 bits, so a stack
may wrap around; it only has to be shorter than the address space.
-/

namespace Stack

variable {α : Type} {mem : BitVec 64 → α} {sp : BitVec 64} {ws : List α} {v : α}

/-- The address of the word at index `i` of a stack. -/
def slot (sp : BitVec 64) (i : Nat) : BitVec 64 := sp + BitVec.ofNat 64 (8 * i)

/-- The words from `sp` on are `ws`. -/
def Holds (mem : BitVec 64 → α) (sp : BitVec 64) (ws : List α) : Prop :=
  ∀ i v, ws[i]? = some v → mem (slot sp i) = v

theorem slot_zero (sp : BitVec 64) : slot sp 0 = sp := by
  simp [slot]

theorem slot_add (sp : BitVec 64) (i j : Nat) : slot (slot sp i) j = slot sp (i + j) := by
  simp only [slot]
  bv_omega

theorem slot_sub_succ (sp : BitVec 64) (i : Nat) : slot (sp - 8) (i + 1) = slot sp i := by
  simp only [slot]
  bv_omega

/-- A push does not reach the words that are on the stack already. -/
theorem slot_ne_push {i : Nat} (hi : i < 2 ^ 60) : slot sp i ≠ sp - 8 := by
  simp only [slot]
  bv_omega

theorem holds_nil (mem : BitVec 64 → α) (sp : BitVec 64) : Holds mem sp [] := by
  intro i v hv
  simp at hv

/-- A push puts its word on top of the words that the stack holds. The length is bounded so that the
stack does not run around the memory into itself. -/
theorem Holds.push (h : Holds mem sp ws) (hlen : ws.length < 2 ^ 60) (v : α) :
    Holds (Function.update mem (sp - 8) v) (sp - 8) (v :: ws) := by
  intro i u hu
  cases i with
  | zero =>
    rw [slot_zero, Function.update_self]
    exact Option.some.inj hu
  | succ i =>
    rw [List.getElem?_cons_succ] at hu
    have hi : i < ws.length := (List.getElem?_eq_some_iff.mp hu).1
    rw [slot_sub_succ, Function.update_of_ne (slot_ne_push (by omega))]
    exact h i u hu

theorem Holds.head (h : Holds mem sp (v :: ws)) : mem sp = v := by
  have hfirst := h 0 v rfl
  rwa [slot_zero] at hfirst

/-- A stack pointer that is moved past `n` words holds the words below them. -/
theorem Holds.drop {n : Nat} (h : Holds mem sp ws) : Holds mem (slot sp n) (ws.drop n) := by
  intro i u hu
  rw [slot_add]
  exact h (n + i) u (by rwa [List.getElem?_drop] at hu)

theorem Holds.tail (h : Holds mem sp (v :: ws)) : Holds mem (sp + 8) ws := by
  have hrest : Holds mem (slot sp 1) ((v :: ws).drop 1) := h.drop
  exact hrest

theorem Holds.congr {mem' : BitVec 64 → α} (h : Holds mem sp ws)
    (hsame : ∀ i < ws.length, mem' (slot sp i) = mem (slot sp i)) : Holds mem' sp ws := by
  intro i u hu
  rw [hsame i (List.getElem?_eq_some_iff.mp hu).1]
  exact h i u hu

end Stack
