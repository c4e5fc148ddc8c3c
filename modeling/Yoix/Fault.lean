/-!
# Faults

The C code indexes fixed-size arrays without a check, divides by a field of a page header and
follows pointers through the direct map. The model makes each of these steps explicit: it
either succeeds or ends in a `Fault`. A function that is shown to return `.ok` has therefore
stayed inside its arrays, has not divided by zero and has ended.
-/

namespace Yoix

/-- The four arrays of the page allocator. -/
inductive Table where
  | pageState
  | freeList
  | freeNext
  | freePrev
  deriving DecidableEq, Repr

inductive Fault where
  /-- an array was indexed past its end -/
  | outOfBounds (table : Table) (index : Nat)
  /-- an 8-bit order was decremented below 0 -/
  | orderWrap
  /-- a size was divided by a zero `object_size` -/
  | divideByZero
  /-- a direct-map pointer was followed although the bootloader gave no direct map -/
  | noDirectMap
  /-- a list was followed for more steps than there are addresses -/
  | diverges
  deriving DecidableEq, Repr

@[simp] theorem ok_bind {α β : Type} (a : α) (f : α → Except Fault β) :
    (Except.ok a >>= f) = f a := rfl

@[simp] theorem error_bind {α β : Type} (e : Fault) (f : α → Except Fault β) :
    ((Except.error e : Except Fault α) >>= f) = Except.error e := rfl

theorem ok_unique {α : Type} {x : Except Fault α} {a b : α} (h : x = .ok a) (h' : x = .ok b) :
    a = b := Except.ok.inj (h.symm.trans h')

/-- The same for the functions that return a value and the next state. -/
theorem ok_unique_pair {α β : Type} {x : Except Fault (α × β)} {a a' : α} {b b' : β}
    (h : x = .ok (a, b)) (h' : x = .ok (a', b')) : a = a' ∧ b = b' :=
  Prod.mk.inj (ok_unique h h')

/-- A computation succeeds exactly when its first step does and the rest does after it. -/
theorem bind_eq_ok {α β : Type} {x : Except Fault α} {f : α → Except Fault β} {b : β} :
    (x >>= f) = Except.ok b ↔ ∃ a, x = Except.ok a ∧ f a = Except.ok b := by
  cases x with
  | error e => simp
  | ok a => simp

end Yoix
