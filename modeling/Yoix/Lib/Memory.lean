import Mathlib.Algebra.Group.Nat.Defs

/-!
# Byte-addressed memory

A memory is a function from addresses to bytes. `readLE` and `writeLE` access it as
little-endian numbers of a given width. A write is read back, and a read that does not meet the
written range is not changed by it.
-/

namespace Memory

/-- The `n`-byte little-endian number at `a`. -/
def readLE (m : Nat → UInt8) (a : Nat) : Nat → Nat
  | 0 => 0
  | n + 1 => (m a).toNat + 256 * readLE m (a + 1) n

/-- Store the low `n` bytes of `v` at `a`. -/
def writeLE (m : Nat → UInt8) (a n v : Nat) : Nat → UInt8 := fun x =>
  if a ≤ x ∧ x < a + n then UInt8.ofNat (v / 256 ^ (x - a)) else m x

/-- Set `n` bytes from `a` on to `v`. -/
def fill (m : Nat → UInt8) (a n : Nat) (v : UInt8) : Nat → UInt8 := fun x =>
  if a ≤ x ∧ x < a + n then v else m x

/-- The two memories agree at the `n` addresses from `a` on. -/
def SameAt (m m' : Nat → UInt8) (a n : Nat) : Prop := ∀ x, a ≤ x → x < a + n → m x = m' x

theorem SameAt.mono {m m' : Nat → UInt8} {a n b k : Nat} (h : SameAt m m' a n) (hlo : a ≤ b)
    (hhi : b + k ≤ a + n) : SameAt m m' b k :=
  fun x h1 h2 => h x (by omega) (by omega)

/-- The two memories differ at most at the `n` addresses from `a` on. -/
def SameOutside (m m' : Nat → UInt8) (a n : Nat) : Prop := ∀ x, x < a ∨ a + n ≤ x → m x = m' x

theorem SameOutside.trans {m m' m'' : Nat → UInt8} {a n : Nat} (h : SameOutside m m' a n)
    (h' : SameOutside m' m'' a n) : SameOutside m m'' a n := fun x hx => (h x hx).trans (h' x hx)

theorem SameOutside.mono {m m' : Nat → UInt8} {a n b k : Nat} (h : SameOutside m m' b k)
    (hlo : a ≤ b) (hhi : b + k ≤ a + n) : SameOutside m m' a n := fun x hx => h x (by omega)

theorem SameOutside.sameAt {m m' : Nat → UInt8} {a n b k : Nat} (h : SameOutside m m' a n)
    (hb : b + k ≤ a ∨ a + n ≤ b) : SameAt m m' b k := fun x h1 h2 => h x (by omega)

theorem writeLE_of_notMem {m : Nat → UInt8} {a n v x : Nat} (h : x < a ∨ a + n ≤ x) :
    writeLE m a n v x = m x := by
  rw [writeLE, if_neg (by omega)]

theorem sameAt_writeLE {m : Nat → UInt8} {a n v b k : Nat} (h : b + k ≤ a ∨ a + n ≤ b) :
    SameAt (writeLE m a n v) m b k := fun x h1 h2 => writeLE_of_notMem (by omega)

theorem sameOutside_writeLE (m : Nat → UInt8) (a n v : Nat) :
    SameOutside (writeLE m a n v) m a n := fun _ hx => writeLE_of_notMem hx

theorem sameOutside_fill (m : Nat → UInt8) (a n : Nat) (v : UInt8) :
    SameOutside (fill m a n v) m a n := fun x hx => by
  rw [fill, if_neg (by omega)]

/-- A number is read from its own bytes, so memories that agree on these give the same number. -/
theorem readLE_congr {m m' : Nat → UInt8} {n a : Nat} (h : SameAt m m' a n) :
    readLE m a n = readLE m' a n := by
  induction n generalizing a with
  | zero => rfl
  | succ n ih =>
    rw [readLE, readLE, h a (by omega) (by omega), ih (h.mono (by omega) (by omega))]

theorem readLE_lt (m : Nat → UInt8) (a n : Nat) : readLE m a n < 256 ^ n := by
  induction n generalizing a with
  | zero => exact Nat.one_pos
  | succ n ih =>
    have hbyte : (m a).toNat < 256 := UInt8.toNat_lt (m a)
    have hrest := ih (a + 1)
    rw [readLE, Nat.pow_succ']
    omega

/-- Bytes that spell out `v` are read as `v`. -/
theorem readLE_eq_mod {m : Nat → UInt8} {n a v : Nat}
    (h : ∀ i < n, m (a + i) = UInt8.ofNat (v / 256 ^ i)) : readLE m a n = v % 256 ^ n := by
  induction n generalizing a v with
  | zero => simp [readLE, Nat.mod_one]
  | succ n ih =>
    have hrest : readLE m (a + 1) n = v / 256 % 256 ^ n := by
      refine ih fun i hi => ?_
      rw [show a + 1 + i = a + (i + 1) from by omega, h (i + 1) (by omega), Nat.pow_succ',
        Nat.div_div_eq_div_mul]
    have hfirst : (m a).toNat = v % 256 := by
      have := h 0 (by omega)
      rw [Nat.add_zero, Nat.pow_zero, Nat.div_one] at this
      rw [this, UInt8.toNat_ofNat']
    rw [readLE, hfirst, hrest, Nat.pow_succ', Nat.mod_mul]

theorem readLE_of_zero {m : Nat → UInt8} {a n : Nat} (h : ∀ i < n, m (a + i) = 0) :
    readLE m a n = 0 := by
  have hzero : readLE m a n = 0 % 256 ^ n := readLE_eq_mod fun i hi => by
    rw [h i hi, Nat.zero_div]
    rfl
  rw [hzero, Nat.zero_mod]

theorem readLE_writeLE_self (m : Nat → UInt8) (a n v : Nat) :
    readLE (writeLE m a n v) a n = v % 256 ^ n := by
  refine readLE_eq_mod fun i hi => ?_
  rw [writeLE, if_pos (by omega), Nat.add_sub_cancel_left]

theorem readLE_writeLE_of_lt {m : Nat → UInt8} {a n v : Nat} (h : v < 256 ^ n) :
    readLE (writeLE m a n v) a n = v := by
  rw [readLE_writeLE_self, Nat.mod_eq_of_lt h]

theorem readLE_fill_zero {m : Nat → UInt8} {a n b k : Nat} (hlo : a ≤ b) (hhi : b + k ≤ a + n) :
    readLE (fill m a n 0) b k = 0 := by
  refine readLE_of_zero fun i hi => ?_
  rw [fill, if_pos (by omega)]

theorem readLE_writeLE_of_disjoint {m : Nat → UInt8} {a n v b k : Nat}
    (h : b + k ≤ a ∨ a + n ≤ b) : readLE (writeLE m a n v) b k = readLE m b k :=
  readLE_congr (sameAt_writeLE h)

end Memory
