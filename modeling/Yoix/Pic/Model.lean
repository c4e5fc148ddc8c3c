import Mathlib.Algebra.GroupWithZero.Nat
import Mathlib.Order.Fin.Basic
import Yoix.Lib.Priority

/-!
# The legacy interrupt controllers (`system/interrupt/PIC/pic.c`)

Two 8259 chips with eight lines each, the second one behind line 2 of the first one. A chip has two
ports. A byte written to the command port starts the initialization, ends an interrupt or selects a
register to read; a byte written to the data port is the next word of the initialization, or the mask.

`Pic` is a chip with what the driver makes use of: no rotation of priorities, no special mask mode, no
polling and no automatic end of interrupt. The functions of the driver follow it.
-/

namespace Yoix

open Priority OrderDual

abbrev Byte : Type := BitVec 8

/-! ## A chip

The lines of one 8259, the stage of its initialisation, and what its command and data ports do. -/

instance neZeroLineCount : NeZero (8 : Nat) := ⟨Nat.succ_ne_zero 7⟩

/-- A line of a chip. Line 0 has the highest priority. -/
abbrev Line : Type := (Fin 8)ᵒᵈ

/-- The byte with a bit for each line of the set. -/
def lineByte (s : Finset Line) : Byte :=
  (BitVec.ofBoolListLE (List.ofFn fun i : Fin 8 => decide (toDual i ∈ s))).cast List.length_ofFn

/-- The word that a chip expects at its data port. -/
inductive PicStage where
  /-- initialized: the mask -/
  | ready
  | icw2
  | icw3
  | icw4
  deriving DecidableEq, Repr

structure Pic where
  stage : PicStage
  /-- from ICW1: no other chip, so no ICW3 -/
  single : Bool
  /-- from ICW1: there is an ICW4 -/
  needsIcw4 : Bool
  /-- from ICW2: the vector of line 0 -/
  offset : Byte
  icw3 : Byte
  icw4 : Byte
  imr : Byte
  /-- the request and the in-service registers -/
  lines : Controller Line
  /-- from OCW3: the register that the command port reads -/
  readIsr : Bool

namespace Pic

def writeCommand (pic : Pic) (v : Byte) : Pic :=
  if v.getLsbD 4 then
    -- ICW1 also clears the mask and all requests
    { pic with
      stage := .icw2
      single := v.getLsbD 1
      needsIcw4 := v.getLsbD 0
      icw4 := 0
      imr := 0
      lines := ⟨∅, ∅⟩
      readIsr := false }
  else if v.getLsbD 3 then
    -- OCW3
    if v.getLsbD 1 then { pic with readIsr := v.getLsbD 0 } else pic
  else if v = 0x20 then
    -- OCW2: the end of an interrupt
    { pic with lines := pic.lines.finish }
  else pic

def writeData (pic : Pic) (v : Byte) : Pic :=
  let last := if pic.needsIcw4 then PicStage.icw4 else .ready
  match pic.stage with
  | .ready => { pic with imr := v }
  | .icw2 => { pic with offset := v &&& 0xF8, stage := if pic.single then last else .icw3 }
  | .icw3 => { pic with icw3 := v, stage := last }
  | .icw4 => { pic with icw4 := v, stage := .ready }

def readCommand (pic : Pic) : Byte :=
  lineByte (if pic.readIsr then pic.lines.serving else pic.lines.pending)

/-- The line for which the chip asks for an interrupt. -/
def next (pic : Pic) : Option Line :=
  Controller.next id
    { pic.lines with pending :=
        pic.lines.pending.filter fun a => pic.imr.getLsbD (ofDual a : Fin 8) = false }

def accept (pic : Pic) (a : Line) : Pic := { pic with lines := pic.lines.accept a }

end Pic

/-! ## Both chips

The second chip asks on line 2 of the first one. -/

structure Pics where
  pic1 : Pic
  pic2 : Pic

namespace Pics

/-- Line 2 of the first chip is the output of the second one. -/
def wired (pics : Pics) : Pics :=
  let pending := pics.pic1.lines.pending.erase (toDual 2)
  { pics with pic1 := { pics.pic1 with lines := { pics.pic1.lines with
      pending := if pics.pic2.next.isSome then insert (toDual 2) pending else pending } } }

/-- The processor acknowledges an interrupt: its line, counted over both chips, and the vector that it
is given. -/
def acknowledge (pics : Pics) : Option (Nat × Byte × Pics) := do
  let a ← pics.wired.pic1.next
  let line : Fin 8 := ofDual a
  -- the second chip answers when it is told to be behind this line
  if pics.pic1.icw3.getLsbD line ∧ pics.pic2.icw3 = BitVec.ofNat 8 line then
    let b ← pics.pic2.next
    let line2 : Fin 8 := ofDual b
    return (8 + line2, pics.pic2.offset + BitVec.ofNat 8 line2,
      ⟨pics.wired.pic1.accept a, pics.pic2.accept b⟩)
  else
    return (line, pics.pic1.offset + BitVec.ofNat 8 line, { pics with pic1 := pics.wired.pic1.accept a })

/-- The devices have raised and lowered lines. -/
def setLines (pics : Pics) (s1 s2 : Finset Line) : Pics where
  pic1 := { pics.pic1 with lines := { pics.pic1.lines with pending := s1 } }
  pic2 := { pics.pic2 with lines := { pics.pic2.lines with pending := s2 } }

end Pics

/-! ## The driver -/

abbrev pic1Command : Nat := 0x20
abbrev pic1Data : Nat := 0x21
abbrev pic2Command : Nat := 0xA0
abbrev pic2Data : Nat := 0xA1
abbrev picEoi : Byte := 0x20
abbrev icw1Icw4 : Byte := 0x01
abbrev icw1Init : Byte := 0x10
abbrev icw48086 : Byte := 0x01
abbrev cascadeIrq : Nat := 2
abbrev picReadIrr : Byte := 0x0A
abbrev picReadIsr : Byte := 0x0B

/-- No other port has to do with the chips. -/
def outb (pics : Pics) (port : Nat) (v : Byte) : Pics :=
  if port = pic1Command then { pics with pic1 := pics.pic1.writeCommand v }
  else if port = pic1Data then { pics with pic1 := pics.pic1.writeData v }
  else if port = pic2Command then { pics with pic2 := pics.pic2.writeCommand v }
  else if port = pic2Data then { pics with pic2 := pics.pic2.writeData v }
  else pics

/-- The four ports of the chips. -/
def inb (pics : Pics) (port : Nat) : Byte :=
  if port = pic1Command then pics.wired.pic1.readCommand
  else if port = pic1Data then pics.pic1.imr
  else if port = pic2Command then pics.pic2.readCommand
  else pics.pic2.imr

def ioWait (pics : Pics) : Pics := outb pics 0x80 0

def picSendEoi (pics : Pics) (irq : Nat) : Pics :=
  let pics := if irq ≥ 8 then outb pics pic2Command picEoi else pics
  outb pics pic1Command picEoi

def picRemap (pics : Pics) (offset1 offset2 : Int) : Pics :=
  let pics := ioWait (outb pics pic1Command (icw1Init ||| icw1Icw4))
  let pics := ioWait (outb pics pic2Command (icw1Init ||| icw1Icw4))
  let pics := ioWait (outb pics pic1Data (BitVec.ofInt 8 offset1))
  let pics := ioWait (outb pics pic2Data (BitVec.ofInt 8 offset2))
  let pics := ioWait (outb pics pic1Data (1 <<< cascadeIrq))
  let pics := ioWait (outb pics pic2Data (BitVec.ofNat 8 cascadeIrq))
  let pics := ioWait (outb pics pic1Data icw48086)
  let pics := ioWait (outb pics pic2Data icw48086)
  outb (outb pics pic1Data 0) pic2Data 0

def picDisable (pics : Pics) : Pics := outb (outb pics pic1Data 0xFF) pic2Data 0xFF

/-- `1 << n` as an `int`, which C leaves undefined from 31 on. -/
def shiftedOne (n : Nat) : Option (BitVec 32) := if n < 31 then some ((1 : BitVec 32) <<< n) else none

/-- The data port of a line, and the number of the line there. -/
def irqPort (irqLine : Nat) : Nat × Nat :=
  if irqLine < 8 then (pic1Data, irqLine) else (pic2Data, irqLine - 8)

/-- The body of the two functions below: read a mask, change it by the bit of the line, and write its
low byte back. -/
def irqWriteMask (change : BitVec 32 → BitVec 32 → BitVec 32) (pics : Pics) (irqLine : Nat) :
    Option Pics :=
  let (port, line) := irqPort irqLine
  (shiftedOne line).map fun bit =>
    outb pics port ((change ((inb pics port).setWidth 32) bit).setWidth 8)

def irqSetMask (pics : Pics) (irqLine : Nat) : Option Pics :=
  irqWriteMask (fun value bit => value ||| bit) pics irqLine

def irqClearMask (pics : Pics) (irqLine : Nat) : Option Pics :=
  irqWriteMask (fun value bit => value &&& ~~~bit) pics irqLine

/-- `__pic_get_irq_reg`. -/
def picGetIrqReg (pics : Pics) (ocw3 : Byte) : BitVec 16 × Pics :=
  let pics := outb (outb pics pic1Command ocw3) pic2Command ocw3
  ((inb pics pic2Command).setWidth 16 <<< 8 ||| (inb pics pic1Command).setWidth 16, pics)

def picGetIrr (pics : Pics) : BitVec 16 × Pics := picGetIrqReg pics picReadIrr

def picGetIsr (pics : Pics) : BitVec 16 × Pics := picGetIrqReg pics picReadIsr

end Yoix
