import Mathlib.Algebra.Group.Nat.Defs
import Mathlib.Logic.Function.Basic

/-!
# The picture (`main.c`)

`kmain` begins by painting the first frame buffer, which it takes to have pixels of 32 bits. A row
begins `pitch` bytes after the one before it. All numbers have 64 bits, and a pixel has 32.

`drawPattern_paints`: in a frame buffer whose rows do not overlap and begin at whole pixels, each pixel
gets the color for its place, in the low byte for the column and in the next one for the row, and nothing
else is written. The code divides `pitch` by the four bytes of a pixel, so with any other `pitch` it would
leave the rows.
-/

namespace Yoix

/-- The fields of `struct limine_framebuffer` that are read. -/
structure Framebuffer where
  width : Nat
  height : Nat
  pitch : Nat
  deriving DecidableEq, Repr

/-- The pixels from `address` on. -/
abbrev Pixels : Type := Nat → UInt32

namespace Framebuffer

variable (fb : Framebuffer)

/-- `nX` or `nY`: the place `i` of `n` as a number of 32 bits. -/
def shade (i n : Nat) : UInt32 := UInt32.ofNat (i * 255 % 2 ^ 64 / n)

/-- Where the code finds a pixel. -/
def place (x y : Nat) : Nat := (y * (fb.pitch / 4) % 2 ^ 64 + x) % 2 ^ 64

/-- The loop over a row, from column `x` on with `n` columns to go. -/
def rowLoop (y : Nat) : Nat → Pixels → Nat → Pixels
  | 0, pixels, _ => pixels
  | n + 1, pixels, x =>
    let nX := shade x fb.width
    let nY := shade y fb.height
    rowLoop y n (Function.update pixels (fb.place x y) (nY <<< 8 ||| nX)) (x + 1)

/-- The loop over the rows, from row `y` on with `n` rows to go. -/
def rowsLoop : Nat → Pixels → Nat → Pixels
  | 0, pixels, _ => pixels
  | n + 1, pixels, y => rowsLoop n (fb.rowLoop y fb.width pixels 0) (y + 1)

/-- The picture that `kmain` paints. -/
def drawPattern (pixels : Pixels) : Pixels := fb.rowsLoop fb.height pixels 0

/-- Where a pixel is, in bytes from the first one on. -/
def byteOffset (x y : Nat) : Nat := y * fb.pitch + 4 * x

/-- A frame buffer in physical memory, with rows of whole pixels that do not overlap. -/
structure Fits : Prop where
  row : 4 * fb.width ≤ fb.pitch
  aligned : 4 ∣ fb.pitch
  memory : fb.pitch * fb.height ≤ 2 ^ 52

/-- The color for a place: the column, and 256 times the row, both scaled to 255. -/
def color (x y : Nat) : UInt32 := UInt32.ofNat (256 * (255 * y / fb.height) + 255 * x / fb.width)

end Framebuffer

namespace Framebuffer.Fits

variable {fb : Framebuffer} (h : fb.Fits)

include h

theorem width_le {y : Nat} (hy : y < fb.height) : fb.width ≤ fb.pitch / 4 ∧ fb.pitch ≤ 2 ^ 52 := by
  have hpitch : fb.pitch * 1 ≤ fb.pitch * fb.height := Nat.mul_le_mul_left _ (by omega)
  have hrow := h.row
  have hmemory := h.memory
  omega

/-- The frame buffer is not too large for the arithmetic of the source. -/
theorem rows_le : fb.height * (fb.pitch / 4) ≤ 2 ^ 52 := by
  have hquarter : fb.height * (fb.pitch / 4) ≤ fb.pitch * fb.height := by
    rw [Nat.mul_comm fb.pitch]
    exact Nat.mul_le_mul_left _ (Nat.div_le_self _ _)
  exact Nat.le_trans hquarter h.memory

theorem byteOffset_eq (x y : Nat) : fb.byteOffset x y = 4 * (y * (fb.pitch / 4) + x) := by
  have hpitch : 4 * (fb.pitch / 4) = fb.pitch := Nat.mul_div_cancel' h.aligned
  rw [Framebuffer.byteOffset, Nat.mul_add, Nat.mul_left_comm, hpitch]

/-- The place of a pixel as the source computes it in machine words is the one in numbers: nothing
wraps around. -/
theorem place_eq {x y : Nat} (hx : x < fb.width) (hy : y < fb.height) :
    fb.place x y = y * (fb.pitch / 4) + x := by
  have hwidth := h.width_le hy
  have hrows := h.rows_le
  have hrow : y * (fb.pitch / 4) ≤ fb.height * (fb.pitch / 4) := Nat.mul_le_mul_right _ (Nat.le_of_lt hy)
  unfold Framebuffer.place
  rw [Nat.mod_eq_of_lt (a := y * (fb.pitch / 4)) (by omega), Nat.mod_eq_of_lt (by omega)]

end Framebuffer.Fits

namespace Framebuffer

variable {fb : Framebuffer}

/-- A shade is the position in 255ths, with nothing lost to the 64-bit product. -/
theorem shade_toNat {i n : Nat} (hi : i < n) (hn : n ≤ 2 ^ 52) :
    (shade i n).toNat = 255 * i / n ∧ 255 * i / n < 255 := by
  have hlt : 255 * i / n < 255 := (Nat.div_lt_iff_lt_mul (by omega)).mpr (by omega)
  refine ⟨?_, hlt⟩
  unfold shade
  rw [Nat.mod_eq_of_lt (by omega), UInt32.toNat_ofNat', Nat.mul_comm i, Nat.mod_eq_of_lt (by omega)]

/-- The two shades do not meet: each fits one byte, so the word has green from the row and blue from
the column. -/
theorem shades_eq_color (h : fb.Fits) {x y : Nat} (hx : x < fb.width) (hy : y < fb.height) :
    (shade y fb.height <<< 8 ||| shade x fb.width) = fb.color x y := by
  have hwidth := h.width_le hy
  have hheight : 1 * fb.height ≤ fb.pitch * fb.height := Nat.mul_le_mul_right _ (by omega)
  have hmemory := h.memory
  obtain ⟨hX, hXlt⟩ := shade_toNat hx (by omega)
  obtain ⟨hY, hYlt⟩ := shade_toNat hy (by omega)
  apply UInt32.toNat.inj
  unfold color
  rw [UInt32.toNat_or, UInt32.toNat_shiftLeft, hX, hY, UInt32.toNat_ofNat']
  generalize 255 * x / fb.width = nX at hXlt ⊢
  generalize 255 * y / fb.height = nY at hYlt ⊢
  show nY <<< 8 % 2 ^ 32 ||| nX = _
  rw [Nat.shiftLeft_eq, Nat.mod_eq_of_lt (by omega), Nat.mod_eq_of_lt (by omega), Nat.mul_comm,
    Nat.two_pow_add_eq_or_of_lt (i := 8) (by omega)]

/-! ## The loops

A row is written from left to right, and the rows from the top. Rows do not meet, so a pixel keeps
its color once it is written. -/

/-- A row from column `x` on: the pixels from there to the end get their colors, all others stay.
Induction on the pixels that are left. -/
theorem rowLoop_apply (h : fb.Fits) {x y n : Nat} (hx : x + n ≤ fb.width) (hy : y < fb.height)
    (pixels : Pixels) (i : Nat) :
    fb.rowLoop y n pixels x i =
      if y * (fb.pitch / 4) + x ≤ i ∧ i < y * (fb.pitch / 4) + (x + n) then
        fb.color (i - y * (fb.pitch / 4)) y
      else pixels i := by
  induction n generalizing x pixels with
  | zero => rw [rowLoop, if_neg (by omega)]
  | succ n ih =>
    rw [rowLoop, ih (by omega), shades_eq_color h (by omega) hy, h.place_eq (by omega) hy]
    by_cases hlater : y * (fb.pitch / 4) + (x + 1) ≤ i ∧ i < y * (fb.pitch / 4) + (x + 1 + n)
    · rw [if_pos hlater, if_pos (by omega)]
    · rw [if_neg hlater]
      by_cases hnow : i = y * (fb.pitch / 4) + x
      · rw [if_pos (by omega), hnow, Function.update_self, Nat.add_sub_cancel_left]
      · rw [if_neg (by omega), Function.update_of_ne hnow]

/-- What is no pixel of the rows from `y` on keeps its value. -/
theorem rowsLoop_of_outside (h : fb.Fits) {y n i : Nat} (hy : y + n ≤ fb.height) (pixels : Pixels)
    (hi : ∀ x' y', x' < fb.width → y ≤ y' → y' < y + n → i ≠ y' * (fb.pitch / 4) + x') :
    fb.rowsLoop n pixels y i = pixels i := by
  induction n generalizing y pixels with
  | zero => rfl
  | succ n ih =>
    rw [rowsLoop, ih (by omega) _ fun x' y' hx' hle hlt => hi x' y' hx' (by omega) (by omega),
      rowLoop_apply h (by omega) (by omega), if_neg]
    intro hrow
    exact hi (i - y * (fb.pitch / 4)) y (by omega) (Nat.le_refl y) (by omega) (by omega)

/-- A pixel is written by the loop over its row, and no later row meets it. Induction on the rows.
-/
theorem rowsLoop_of_inside (h : fb.Fits) {x' y' y n : Nat} (hx' : x' < fb.width) (hle : y ≤ y')
    (hlt : y' < y + n) (hy : y + n ≤ fb.height) (pixels : Pixels) :
    fb.rowsLoop n pixels y (y' * (fb.pitch / 4) + x') = fb.color x' y' := by
  induction n generalizing y pixels with
  | zero => omega
  | succ n ih =>
    rw [rowsLoop]
    by_cases hnow : y' = y
    · -- the rows that follow begin behind this one
      have hwidth := (h.width_le (show y < fb.height by omega)).1
      have hnext : ∀ x₁ y₁, x₁ < fb.width → y + 1 ≤ y₁ → y₁ < y + 1 + n →
          y' * (fb.pitch / 4) + x' ≠ y₁ * (fb.pitch / 4) + x₁ := by
        intro x₁ y₁ _ hle₁ _
        have hrows : (y + 1) * (fb.pitch / 4) ≤ y₁ * (fb.pitch / 4) := Nat.mul_le_mul_right _ hle₁
        rw [Nat.succ_mul] at hrows
        rw [hnow]
        omega
      rw [rowsLoop_of_outside h (by omega) _ hnext, rowLoop_apply h (by omega) (by omega), hnow,
        if_pos (by omega), Nat.add_sub_cancel_left]
    · exact ih (by omega) (by omega) (by omega) _

end Framebuffer

/-- **The picture.** In a frame buffer with rows of whole pixels that do not overlap, each pixel gets the
color for its place. The rest of a row, between its last pixel and the next row, keeps what it has held,
and so does all memory behind the last row. Pixel `i` of memory is the one at byte `4 * i`. -/
theorem drawPattern_paints {fb : Framebuffer} (h : fb.Fits) (pixels : Pixels) :
    (∀ x y i, x < fb.width → y < fb.height → 4 * i = fb.byteOffset x y →
      fb.drawPattern pixels i = fb.color x y) ∧
    ∀ i, (∀ x y, x < fb.width → y < fb.height → 4 * i ≠ fb.byteOffset x y) →
      fb.drawPattern pixels i = pixels i := by
  unfold Framebuffer.drawPattern
  constructor
  · intro x y i hx hy hi
    obtain rfl : i = y * (fb.pitch / 4) + x := by
      rw [h.byteOffset_eq] at hi
      omega
    exact Framebuffer.rowsLoop_of_inside h hx (Nat.zero_le y) (by omega) (by omega) pixels
  · intro i hi
    apply Framebuffer.rowsLoop_of_outside h (by omega)
    rintro x' y' hx' - hlt rfl
    exact hi x' y' hx' (by omega) (h.byteOffset_eq x' y').symm

/-- A screen of 1280 to 800 pixels, with rows of 5376 bytes. -/
theorem drawPattern_paints_screen :
    (Framebuffer.mk 1280 800 5376).drawPattern (fun _ => 0) (799 * 1344 + 1279) = 0xFEFE ∧
      (Framebuffer.mk 1280 800 5376).drawPattern (fun _ => 0) (1280 + 63) = 0 := by
  have hfits : (Framebuffer.mk 1280 800 5376).Fits := ⟨by decide, by decide, by decide⟩
  obtain ⟨hpixels, hrest⟩ := drawPattern_paints hfits fun _ => 0
  constructor
  · exact hpixels 1279 799 _ (by decide) (by decide) (by decide)
  · apply hrest
    intro x y hx hy
    dsimp only [Framebuffer.byteOffset] at *
    omega

end Yoix
