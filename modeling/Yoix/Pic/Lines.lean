import Yoix.Pic.Model

/-!
# Sixteen lines

Seen from the kernel, the two chips are one controller with sixteen lines: each line is masked or not,
and the handlers that have not ended yet form a stack. `IrqLines` is that controller.

* `picRemap_eq`: the state of the chips after `PIC_remap`, whatever they were doing before.
* `PicRun.inv`: the chips follow the controller, over all calls of the driver, all that happens on the
  lines and all interrupts.
* `pic_refines_lines`: what a caller sees of that.

The lines of a chip have the priority of their number, 0 being the highest, and those of the second chip
come in the place of line 2. A request on one of them needs line 2 unmasked as well, which the driver
does not see to. Spurious interrupts are not modelled: a chip that finds no request when it is
acknowledged would give the vector of its last line, 7 or 15.
-/

namespace Yoix

open Priority OrderDual

structure IrqLines where
  masked : Nat → Bool
  /-- the lines whose handlers run, the innermost one first -/
  active : List Nat

/-- The line of the first chip through which a line reaches the processor. -/
def firstLine (line : Nat) : Nat := if line < 8 then line else 2

/-- The runs of the chips beside the controller, from `PIC_remap` on. A handler ends with `PIC_sendEOI`
for its own line. -/
inductive PicRun (offset1 offset2 : Int) : Pics → IrqLines → Prop where
  | remap (pics : Pics) : PicRun offset1 offset2 (picRemap pics offset1 offset2) ⟨fun _ => false, []⟩
  | setLines {pics : Pics} {irqs : IrqLines} (s1 s2 : Finset Line)
      (run : PicRun offset1 offset2 pics irqs) : PicRun offset1 offset2 (pics.setLines s1 s2) irqs
  | acknowledge {pics pics' : Pics} {irqs : IrqLines} {line : Nat} {vector : Byte}
      (run : PicRun offset1 offset2 pics irqs) (h : pics.acknowledge = some (line, vector, pics')) :
      PicRun offset1 offset2 pics' { irqs with active := line :: irqs.active }
  | handlerEnds {pics : Pics} {masked : Nat → Bool} {line : Nat} {rest : List Nat}
      (run : PicRun offset1 offset2 pics ⟨masked, line :: rest⟩) :
      PicRun offset1 offset2 (picSendEoi pics line) ⟨masked, rest⟩
  | setMask {pics pics' : Pics} {irqs : IrqLines} {irqLine : Nat}
      (run : PicRun offset1 offset2 pics irqs) (h : irqSetMask pics irqLine = some pics') :
      PicRun offset1 offset2 pics' { irqs with masked := Function.update irqs.masked irqLine true }
  | clearMask {pics pics' : Pics} {irqs : IrqLines} {irqLine : Nat}
      (run : PicRun offset1 offset2 pics irqs) (h : irqClearMask pics irqLine = some pics') :
      PicRun offset1 offset2 pics' { irqs with masked := Function.update irqs.masked irqLine false }
  | disable {pics : Pics} {irqs : IrqLines} (run : PicRun offset1 offset2 pics irqs) :
      PicRun offset1 offset2 (picDisable pics) { irqs with masked := fun _ => true }
  | getIrqReg {pics : Pics} {irqs : IrqLines} (ocw3 : Byte)
      (hocw3 : ocw3 = picReadIrr ∨ ocw3 = picReadIsr) (run : PicRun offset1 offset2 pics irqs) :
      PicRun offset1 offset2 (picGetIrqReg pics ocw3).2 irqs

/-! ## Ports -/

section

variable (pics : Pics) (v : Byte)

theorem outb_pic1Data : outb pics pic1Data v = { pics with pic1 := pics.pic1.writeData v } := rfl

theorem outb_pic2Data : outb pics pic2Data v = { pics with pic2 := pics.pic2.writeData v } := rfl

end

/-- A chip that has been initialized. -/
structure Pic.Ready (pic : Pic) (offset : Int) (icw3 : Byte) : Prop where
  stage : pic.stage = .ready
  offset : pic.offset = BitVec.ofInt 8 offset &&& 0xF8
  icw3 : pic.icw3 = icw3

theorem Pic.Ready.writeData {pic : Pic} {offset : Int} {icw3 : Byte} (h : pic.Ready offset icw3)
    (v : Byte) : pic.writeData v = { pic with imr := v } := by
  unfold Pic.writeData
  rw [h.stage]

/-- `PIC_remap` works in every state of the chips, also in the middle of an initialization. -/
theorem picRemap_eq (pics : Pics) (offset1 offset2 : Int) :
    let after := picRemap pics offset1 offset2
    after.pic1.Ready offset1 4 ∧ after.pic2.Ready offset2 2 ∧ after.pic1.imr = 0 ∧
      after.pic2.imr = 0 ∧ after.pic1.lines = ⟨∅, ∅⟩ ∧ after.pic2.lines = ⟨∅, ∅⟩ :=
  ⟨⟨rfl, rfl, rfl⟩, ⟨rfl, rfl, rfl⟩, rfl, rfl, rfl, rfl⟩

/-! ## Registers -/

/-- A bit of a register is set for the lines in it. -/
theorem getLsbD_lineByte (s : Finset Line) (i : Fin 8) :
    (lineByte s).getLsbD i = decide (toDual i ∈ s) := by
  unfold lineByte
  rw [BitVec.getLsbD_cast, BitVec.getLsbD_ofBoolListLE, List.getD_eq_getElem?_getD,
    List.getElem?_ofFn, dif_pos i.isLt]
  rfl

section

variable (imr : Byte) {i : Nat} (hi : i < 8) (n : Nat)

include hi

theorem getLsbD_setBit : ((imr.setWidth 32 ||| (1 : BitVec 32) <<< n).setWidth 8).getLsbD i
    = (imr.getLsbD i || decide (i = n)) := by
  simp only [BitVec.getLsbD_setWidth, BitVec.getLsbD_or, BitVec.getLsbD_shiftLeft]
  grind

theorem getLsbD_clearBit : ((imr.setWidth 32 &&& ~~~((1 : BitVec 32) <<< n)).setWidth 8).getLsbD i
    = (imr.getLsbD i && !decide (i = n)) := by
  simp only [BitVec.getLsbD_setWidth, BitVec.getLsbD_and, BitVec.getLsbD_not,
    BitVec.getLsbD_shiftLeft]
  grind

end

/-- What a chip asks for is requested, not masked, and above all that it has in service. -/
theorem Pic.of_next {pic : Pic} {a : Line} (h : pic.next = some a) :
    a ∈ pic.lines.pending ∧ pic.imr.getLsbD (ofDual a : Fin 8) = false ∧
      ∀ b ∈ pic.lines.serving, (ofDual a : Fin 8) < ofDual b := by
  have habove := Controller.lt_of_next monotone_id h
  obtain ⟨hin, -⟩ := highest_eq_some_iff.mp (Controller.next_eq_some_iff.mp h).1
  obtain ⟨hpending, hmask⟩ := Finset.mem_filter.mp hin
  exact ⟨hpending, hmask, habove⟩

/-! ## The invariant

The running handlers are what the two chips have in service. The chips serve the highest of them,
and each handler that ends takes its own line out of service. -/

/-- The chips are in the state that the controller tells. -/
structure PicInv (offset1 offset2 : Int) (pics : Pics) (irqs : IrqLines) : Prop where
  ready1 : pics.pic1.Ready offset1 4
  ready2 : pics.pic2.Ready offset2 2
  mask1 : ∀ i < 8, pics.pic1.imr.getLsbD i = irqs.masked i
  mask2 : ∀ i < 8, pics.pic2.imr.getLsbD i = irqs.masked (8 + i)
  serving1 : ∀ i : Fin 8, toDual i ∈ pics.pic1.lines.serving ↔ ∃ l ∈ irqs.active, firstLine l = i
  serving2 : ∀ i : Fin 8, toDual i ∈ pics.pic2.lines.serving ↔ 8 + i.val ∈ irqs.active
  order : irqs.active.Pairwise fun l m => firstLine l < firstLine m
  range : ∀ l ∈ irqs.active, l < 16

/-- The interrupts that the chips can give, as lines of the controller. -/
inductive Acknowledged (offset1 offset2 : Int) (pics : Pics) : Nat → Byte → Pics → Prop where
  | first (i : Fin 8) (hi : i ≠ 2) (h : pics.wired.pic1.next = some (toDual i)) :
      Acknowledged offset1 offset2 pics i ((BitVec.ofInt 8 offset1 &&& 0xF8) + BitVec.ofNat 8 i)
        { pics with pic1 := pics.wired.pic1.accept (toDual i) }
  | second (i : Fin 8) (h : pics.wired.pic1.next = some (toDual 2))
      (h2 : pics.pic2.next = some (toDual i)) :
      Acknowledged offset1 offset2 pics (8 + i) ((BitVec.ofInt 8 offset2 &&& 0xF8) + BitVec.ofNat 8 i)
        ⟨pics.wired.pic1.accept (toDual 2), pics.pic2.accept (toDual i)⟩

section

variable {offset1 offset2 : Int} {pics pics' : Pics} {irqs : IrqLines}

/-- The second chip is behind line 2. -/
theorem PicInv.cascade_iff (h : PicInv offset1 offset2 pics irqs) (i : Fin 8) :
    (pics.pic1.icw3.getLsbD i ∧ pics.pic2.icw3 = BitVec.ofNat 8 i) ↔ i = 2 := by
  have hall : ∀ i : Fin 8, ((4 : Byte).getLsbD i = true ∧ (2 : Byte) = BitVec.ofNat 8 i) ↔ i = 2 := by
    decide
  rw [h.ready1.icw3, h.ready2.icw3]
  exact hall i

/-- An interrupt comes from a line of the first chip, or from one of the second chip by way of line
2. -/
theorem PicInv.acknowledge_cases (h : PicInv offset1 offset2 pics irqs) {line : Nat} {vector : Byte}
    (hack : pics.acknowledge = some (line, vector, pics')) :
    Acknowledged offset1 offset2 pics line vector pics' := by
  obtain ⟨a, ha, hrest⟩ := Option.bind_eq_some_iff.mp hack
  have hcascade := h.cascade_iff (ofDual a)
  dsimp only at hrest
  by_cases htwo : (ofDual a : Fin 8) = 2
  · rw [if_pos (hcascade.mpr htwo)] at hrest
    obtain ⟨b, hb, hlast⟩ := Option.bind_eq_some_iff.mp hrest
    obtain rfl : a = toDual 2 := htwo
    cases hlast
    rw [h.ready2.offset]
    exact .second (ofDual b) ha hb
  · rw [if_neg (fun hc => htwo (hcascade.mp hc))] at hrest
    cases hrest
    rw [h.ready1.offset]
    exact .first (ofDual a) htwo ha

theorem firstLine_val (i : Fin 8) : firstLine i = i := if_pos i.isLt

theorem firstLine_second (i : Fin 8) : firstLine (8 + i) = 2 := if_neg (by omega)

namespace PicInv

/-- A line of the first chip above all that it has in service is above all handlers. -/
theorem above (h : PicInv offset1 offset2 pics irqs) {i : Fin 8}
    (hi : ∀ b ∈ pics.pic1.lines.serving, i < ofDual b) : ∀ l ∈ irqs.active, i.val < firstLine l := by
  intro l hl
  have hlt : firstLine l < 8 := by
    unfold firstLine
    split <;> omega
  exact hi (toDual ⟨firstLine l, hlt⟩) ((h.serving1 ⟨firstLine l, hlt⟩).mpr ⟨l, hl, rfl⟩)

theorem serving1_accept (h : PicInv offset1 offset2 pics irqs) (line : Nat) (j : Fin 8)
    (hj : firstLine line = j) (i : Fin 8) :
    toDual i ∈ insert (toDual j) pics.pic1.lines.serving ↔
      ∃ l ∈ line :: irqs.active, firstLine l = i := by
  rw [Finset.mem_insert, h.serving1 i, List.exists_mem_cons_iff, hj]
  refine or_congr_left ?_
  rw [toDual_inj, Fin.ext_iff, eq_comm]

/-- A handler that starts is above all that run, so it is the next one to end. -/
theorem acknowledge (h : PicInv offset1 offset2 pics irqs) {line : Nat} {vector : Byte}
    (hack : Acknowledged offset1 offset2 pics line vector pics') :
    PicInv offset1 offset2 pics' { irqs with active := line :: irqs.active } := by
  cases hack with
  | first i hi hnext =>
    obtain ⟨-, -, hover⟩ := Pic.of_next hnext
    refine ⟨⟨h.ready1.stage, h.ready1.offset, h.ready1.icw3⟩, h.ready2, h.mask1, h.mask2,
      h.serving1_accept i i (firstLine_val i), fun j => ?_, ?_, ?_⟩
    · rw [h.serving2 j, List.mem_cons]
      exact (or_iff_right (by omega)).symm
    · refine List.pairwise_cons.mpr ⟨fun l hl => ?_, h.order⟩
      rw [firstLine_val]
      exact h.above hover l hl
    · exact List.forall_mem_cons.mpr ⟨by omega, h.range⟩
  | second i hnext hnext2 =>
    obtain ⟨-, -, hover⟩ := Pic.of_next hnext
    refine ⟨⟨h.ready1.stage, h.ready1.offset, h.ready1.icw3⟩,
      ⟨h.ready2.stage, h.ready2.offset, h.ready2.icw3⟩, h.mask1, h.mask2,
      h.serving1_accept (8 + i) 2 (firstLine_second i), fun j => ?_, ?_, ?_⟩
    · show toDual j ∈ insert (toDual i) pics.pic2.lines.serving ↔ _
      rw [Finset.mem_insert, h.serving2 j, List.mem_cons, toDual_inj, Fin.ext_iff]
      exact or_congr_left (by omega)
    · refine List.pairwise_cons.mpr ⟨fun l hl => ?_, h.order⟩
      rw [firstLine_second]
      exact h.above hover l hl
    · exact List.forall_mem_cons.mpr ⟨by omega, h.range⟩

section

variable {masked : Nat → Bool} {line : Nat} {rest : List Nat}
  (h : PicInv offset1 offset2 pics ⟨masked, line :: rest⟩)

include h

/-- The innermost handler is the one that the first chip takes out of service. -/
theorem finish1 (i : Fin 8) :
    toDual i ∈ pics.pic1.lines.finish.serving ↔ ∃ l ∈ rest, firstLine l = i := by
  obtain ⟨hinner, -⟩ := List.pairwise_cons.mp h.order
  have hlt : firstLine line < 8 := by
    unfold firstLine
    split <;> omega
  -- the handler that ends is the innermost, so its line is the highest in service
  have hhigh : highest pics.pic1.lines.serving = some (toDual ⟨firstLine line, hlt⟩) := by
    refine highest_eq_some_iff.mpr
      ⟨(h.serving1 _).mpr ⟨line, List.mem_cons_self, rfl⟩, fun b hb => ?_⟩
    obtain ⟨l, hl, hline⟩ := (h.serving1 (ofDual b)).mp hb
    show firstLine line ≤ (ofDual b : Fin 8).val
    cases List.mem_cons.mp hl with
    | inl heq => rw [← hline, heq]
    | inr hin =>
      rw [← hline]
      exact (hinner l hin).le
  rw [Controller.finish_eq hhigh]
  show toDual i ∈ pics.pic1.lines.serving.erase _ ↔ _
  rw [Finset.mem_erase, h.serving1 i, Ne, toDual_inj, Fin.ext_iff]
  constructor
  · rintro ⟨hne, l, hl, hline⟩
    refine ⟨l, (List.mem_cons.mp hl).resolve_left ?_, hline⟩
    rintro rfl
    exact hne hline.symm
  · rintro ⟨l, hl, hline⟩
    refine ⟨?_, l, List.mem_cons_of_mem _ hl, hline⟩
    have hlower := hinner l hl
    dsimp only
    omega

/-- The second chip has nothing else in service: two handlers of that chip never run at once, as
both come in at line 2. -/
theorem finish2 (hsecond : 8 ≤ line) (i : Fin 8) :
    toDual i ∈ pics.pic2.lines.finish.serving ↔ 8 + i.val ∈ rest := by
  obtain ⟨hinner, -⟩ := List.pairwise_cons.mp h.order
  have hline : line < 16 := h.range line List.mem_cons_self
  have hnone : ∀ j : Fin 8, 8 + j.val ∉ rest := by
    intro j hj
    have hlower := hinner _ hj
    rw [firstLine_second, firstLine, if_neg (by omega)] at hlower
    omega
  have hserving : ∀ j : Fin 8, toDual j ∈ pics.pic2.lines.serving ↔ 8 + j.val = line := by
    intro j
    rw [h.serving2 j, List.mem_cons]
    exact or_iff_left (hnone j)
  have hhigh : highest pics.pic2.lines.serving = some (toDual ⟨line - 8, by omega⟩) := by
    refine highest_eq_some_iff.mpr ⟨(hserving _).mpr (by dsimp only; omega), fun b hb => ?_⟩
    have heq := (hserving (ofDual b)).mp hb
    show line - 8 ≤ (ofDual b : Fin 8).val
    omega
  rw [Controller.finish_eq hhigh]
  show toDual i ∈ pics.pic2.lines.serving.erase _ ↔ _
  rw [Finset.mem_erase, hserving i, Ne, toDual_inj, Fin.ext_iff]
  refine iff_of_false (fun hin => hin.1 ?_) (hnone i)
  dsimp only
  omega

/-- The handler that started last ends, with the commands of `PIC_sendEOI` for its line. -/
theorem handlerEnds : PicInv offset1 offset2 (picSendEoi pics line) ⟨masked, rest⟩ := by
  obtain ⟨-, horder⟩ := List.pairwise_cons.mp h.order
  obtain ⟨-, hrange⟩ := List.forall_mem_cons.mp h.range
  by_cases hsecond : 8 ≤ line
  · have heq : picSendEoi pics line = ⟨{ pics.pic1 with lines := pics.pic1.lines.finish },
        { pics.pic2 with lines := pics.pic2.lines.finish }⟩ := by
      unfold picSendEoi
      rw [if_pos hsecond]
      rfl
    rw [heq]
    exact ⟨⟨h.ready1.stage, h.ready1.offset, h.ready1.icw3⟩,
      ⟨h.ready2.stage, h.ready2.offset, h.ready2.icw3⟩, h.mask1, h.mask2, h.finish1,
      h.finish2 hsecond, horder, hrange⟩
  · have heq : picSendEoi pics line
        = { pics with pic1 := { pics.pic1 with lines := pics.pic1.lines.finish } } := by
      unfold picSendEoi
      rw [if_neg hsecond]
      rfl
    rw [heq]
    refine ⟨⟨h.ready1.stage, h.ready1.offset, h.ready1.icw3⟩, h.ready2, h.mask1, h.mask2, h.finish1,
      fun i => ?_, horder, hrange⟩
    rw [h.serving2 i, List.mem_cons]
    exact or_iff_right (by omega)

end

theorem withMasks (h : PicInv offset1 offset2 pics irqs) (imr1 imr2 : Byte) {masked : Nat → Bool}
    (h1 : ∀ i < 8, imr1.getLsbD i = masked i) (h2 : ∀ i < 8, imr2.getLsbD i = masked (8 + i)) :
    PicInv offset1 offset2 ⟨{ pics.pic1 with imr := imr1 }, { pics.pic2 with imr := imr2 }⟩
      { irqs with masked } :=
  ⟨⟨h.ready1.stage, h.ready1.offset, h.ready1.icw3⟩, ⟨h.ready2.stage, h.ready2.offset, h.ready2.icw3⟩,
    h1, h2, h.serving1, h.serving2, h.order, h.range⟩

/-- Both mask functions read the register of a chip, change one bit and write it back. -/
theorem irqWriteMask_eq {change : BitVec 32 → BitVec 32 → BitVec 32} {irqLine : Nat}
    (h : irqWriteMask change pics irqLine = some pics') :
    pics' = outb pics (irqPort irqLine).1
      ((change ((inb pics (irqPort irqLine).1).setWidth 32)
        ((1 : BitVec 32) <<< (irqPort irqLine).2)).setWidth 8) := by
  unfold irqWriteMask at h
  generalize irqPort irqLine = port at h ⊢
  obtain ⟨bit, hbit, rfl⟩ := Option.map_eq_some_iff.mp h
  obtain ⟨-, hbit⟩ := Option.ite_none_right_eq_some.mp hbit
  rw [← Option.some.inj hbit]

/-- `IRQ_set_mask` and `IRQ_clear_mask`: a bit of one of the masks changes, or none for a line that
there is not. -/
theorem writeMask (h : PicInv offset1 offset2 pics irqs) {irqLine : Nat} {value : Bool}
    {change : BitVec 32 → BitVec 32 → BitVec 32}
    (hchange : ∀ (imr : Byte) n i, i < 8 →
      ((change (imr.setWidth 32) ((1 : BitVec 32) <<< n)).setWidth 8).getLsbD i
        = if i = n then value else imr.getLsbD i)
    (hwrite : irqWriteMask change pics irqLine = some pics') :
    PicInv offset1 offset2 pics' { irqs with masked := Function.update irqs.masked irqLine value } := by
  rw [irqWriteMask_eq hwrite]
  by_cases hfirst : irqLine < 8
  · have heq : irqPort irqLine = (pic1Data, irqLine) := if_pos hfirst
    rw [heq, outb_pic1Data, h.ready1.writeData]
    refine h.withMasks _ pics.pic2.imr (fun i hi => ?_) (fun i hi => ?_)
    · rw [hchange _ _ i hi, Function.update_apply, ← h.mask1 i hi]
      rfl
    · rw [Function.update_of_ne (by omega), h.mask2 i hi]
  · have heq : irqPort irqLine = (pic2Data, irqLine - 8) := if_neg hfirst
    rw [heq, outb_pic2Data, h.ready2.writeData]
    refine h.withMasks pics.pic1.imr _ (fun i hi => ?_) (fun i hi => ?_)
    · rw [Function.update_of_ne (by omega), h.mask1 i hi]
    · rw [hchange _ _ i hi, Function.update_apply, ← h.mask2 i hi]
      by_cases hi' : i = irqLine - 8
      · rw [if_pos hi', if_pos (by omega)]
      · rw [if_neg hi', if_neg (by omega)]
        rfl

theorem setMask (h : PicInv offset1 offset2 pics irqs) {irqLine : Nat}
    (hset : irqSetMask pics irqLine = some pics') :
    PicInv offset1 offset2 pics' { irqs with masked := Function.update irqs.masked irqLine true } := by
  refine h.writeMask (fun imr n i hi => ?_) hset
  rw [getLsbD_setBit imr hi n]
  by_cases hin : i = n
  · rw [if_pos hin, decide_eq_true hin, Bool.or_true]
  · rw [if_neg hin, decide_eq_false hin, Bool.or_false]

theorem clearMask (h : PicInv offset1 offset2 pics irqs) {irqLine : Nat}
    (hclear : irqClearMask pics irqLine = some pics') :
    PicInv offset1 offset2 pics' { irqs with masked := Function.update irqs.masked irqLine false } := by
  refine h.writeMask (fun imr n i hi => ?_) hclear
  rw [getLsbD_clearBit imr hi n]
  by_cases hin : i = n
  · rw [if_pos hin, decide_eq_true hin, Bool.not_true, Bool.and_false]
  · rw [if_neg hin, decide_eq_false hin, Bool.not_false, Bool.and_true]

theorem disable (h : PicInv offset1 offset2 pics irqs) :
    PicInv offset1 offset2 (picDisable pics) { irqs with masked := fun _ => true } := by
  have hones : ∀ i < 8, (0xFF : Byte).getLsbD i = true := by decide
  unfold picDisable
  rw [outb_pic1Data, h.ready1.writeData, outb_pic2Data, h.ready2.writeData]
  exact h.withMasks 0xFF 0xFF hones hones

/-- Reading a register changes nothing that the lines show. -/
theorem getIrqReg (h : PicInv offset1 offset2 pics irqs) {ocw3 : Byte}
    (hocw3 : ocw3 = picReadIrr ∨ ocw3 = picReadIsr) :
    PicInv offset1 offset2 (picGetIrqReg pics ocw3).2 irqs := by
  have hcommand : ∀ pic : Pic, ∃ b, pic.writeCommand ocw3 = { pic with readIsr := b } := by
    intro pic
    cases hocw3 with
    | inl heq => exact ⟨false, by rw [heq]; rfl⟩
    | inr heq => exact ⟨true, by rw [heq]; rfl⟩
  obtain ⟨b1, h1⟩ := hcommand pics.pic1
  obtain ⟨b2, h2⟩ := hcommand pics.pic2
  show PicInv offset1 offset2 ⟨pics.pic1.writeCommand ocw3, pics.pic2.writeCommand ocw3⟩ irqs
  rw [h1, h2]
  exact ⟨⟨h.ready1.stage, h.ready1.offset, h.ready1.icw3⟩,
    ⟨h.ready2.stage, h.ready2.offset, h.ready2.icw3⟩, h.mask1, h.mask2, h.serving1, h.serving2,
    h.order, h.range⟩

end PicInv

/-- **Every run.** In each state of a run the chips agree with the lines that the kernel masks and
serves. Induction on the run, with one of the lemmas above for each call. -/
theorem PicRun.inv (run : PicRun offset1 offset2 pics irqs) : PicInv offset1 offset2 pics irqs := by
  induction run with
  | remap pics =>
    obtain ⟨h1, h2, hmask1, hmask2, hlines1, hlines2⟩ := picRemap_eq pics offset1 offset2
    have hzero : ∀ i < 8, (0 : Byte).getLsbD i = false := by decide
    exact ⟨h1, h2, hmask1 ▸ hzero, hmask2 ▸ hzero, by simp [hlines1], by simp [hlines2], .nil, by simp⟩
  | setLines s1 s2 _ ih =>
    exact ⟨⟨ih.ready1.stage, ih.ready1.offset, ih.ready1.icw3⟩,
      ⟨ih.ready2.stage, ih.ready2.offset, ih.ready2.icw3⟩, ih.mask1, ih.mask2, ih.serving1,
      ih.serving2, ih.order, ih.range⟩
  | acknowledge _ h ih => exact ih.acknowledge (ih.acknowledge_cases h)
  | handlerEnds _ ih => exact ih.handlerEnds
  | setMask _ h ih => exact ih.setMask h
  | clearMask _ h ih => exact ih.clearMask h
  | disable _ ih => exact ih.disable
  | getIrqReg ocw3 hocw3 _ ih => exact ih.getIrqReg hocw3

/-! ## What a caller sees

The chips seen from outside: when an interrupt comes, and what `pic_get_isr` returns. -/

theorem Pics.mem_wired (pics : Pics) {i : Fin 8} (hi : i ≠ 2) :
    toDual i ∈ pics.wired.pic1.lines.pending ↔ toDual i ∈ pics.pic1.lines.pending := by
  have hne : toDual i ≠ toDual 2 := fun heq => hi heq
  show toDual i ∈ (if _ then _ else _) ↔ _
  split
  · rw [Finset.mem_insert, or_iff_right hne, Finset.mem_erase, and_iff_right hne]
  · rw [Finset.mem_erase, and_iff_right hne]

/-- A chip has something to ask for when an unmasked request is above all that it has in service. -/
theorem Pic.next_of_request {pic : Pic} {a : Line} (hpending : a ∈ pic.lines.pending)
    (hmask : pic.imr.getLsbD (ofDual a : Fin 8) = false) (habove : ∀ b ∈ pic.lines.serving, b < a) :
    ∃ a', pic.next = some a' ∧ a ≤ a' := by
  have hin : a ∈ pic.lines.pending.filter fun a => pic.imr.getLsbD (ofDual a : Fin 8) = false :=
    Finset.mem_filter.mpr ⟨hpending, hmask⟩
  cases hhigh : highest (pic.lines.pending.filter fun a => pic.imr.getLsbD (ofDual a : Fin 8) = false) with
  | none =>
    unfold highest at hhigh
    rw [dif_pos ⟨a, hin⟩] at hhigh
    cases hhigh
  | some a' =>
    have hle := (highest_eq_some_iff.mp hhigh).2 a hin
    exact ⟨a', Controller.next_eq_some_iff.mpr ⟨hhigh, fun b hb => (habove b hb).trans_le hle⟩, hle⟩

namespace PicInv

/-- A line above all running handlers is above what the first chip has in service. -/
theorem lt_of_serving1 (h : PicInv offset1 offset2 pics irqs) {i : Fin 8}
    (habove : ∀ m ∈ irqs.active, i.val < firstLine m) :
    ∀ b ∈ pics.pic1.lines.serving, b < toDual i := by
  intro b hb
  obtain ⟨l, hl, hline⟩ := (h.serving1 (ofDual b)).mp hb
  show i.val < (ofDual b : Fin 8).val
  rw [← hline]
  exact habove l hl

/-- A request at the first chip, the second chip's included, is answered. For the second chip it is
answered by what that chip asks for. -/
theorem acknowledge_of_wired (h : PicInv offset1 offset2 pics irqs) {i : Fin 8}
    (hpending : toDual i ∈ pics.wired.pic1.lines.pending) (hmask : irqs.masked i = false)
    (habove : ∀ m ∈ irqs.active, i.val < firstLine m) :
    ∃ line vector pics', pics.acknowledge = some (line, vector, pics') ∧ firstLine line ≤ i ∧
      ∀ b, pics.pic2.next = some b → firstLine line = 2 → line = 8 + (ofDual b : Fin 8).val := by
  have hbit : pics.wired.pic1.imr.getLsbD i = false := (h.mask1 i i.isLt).trans hmask
  obtain ⟨a, hnext, hle⟩ := Pic.next_of_request hpending hbit (h.lt_of_serving1 habove)
  have hcascade := h.cascade_iff (ofDual a)
  unfold Pics.acknowledge
  rw [hnext]
  show ∃ line vector pics', (if pics.pic1.icw3.getLsbD (ofDual a : Fin 8) ∧
    pics.pic2.icw3 = BitVec.ofNat 8 (ofDual a : Fin 8) then _ else _) = _ ∧ _
  by_cases htwo : (ofDual a : Fin 8) = 2
  · rw [if_pos (hcascade.mpr htwo)]
    -- line 2 is up only when the second chip asks for something
    obtain ⟨b, hb⟩ : ∃ b, pics.pic2.next = some b := by
      cases hnext2 : pics.pic2.next with
      | some b => exact ⟨b, rfl⟩
      | none =>
        have hin := (Pic.of_next hnext).1
        rw [show a = toDual 2 from htwo, Pics.wired, hnext2] at hin
        exact absurd hin (Finset.notMem_erase _ _)
    rw [hb]
    refine ⟨_, _, _, rfl, ?_, fun b' hb' _ => ?_⟩
    · have hval : (ofDual a : Fin 8).val ≤ i.val := hle
      rw [htwo] at hval
      rw [firstLine_second]
      exact hval
    · rw [Option.some.inj hb']
  · rw [if_neg fun hc => htwo (hcascade.mp hc)]
    refine ⟨_, _, _, rfl, ?_, fun b _ hline => ?_⟩
    · rw [firstLine_val]
      exact hle
    · rw [firstLine_val] at hline
      exact absurd (Fin.ext hline) htwo

end PicInv

/-- The line is answered before the other one, or is the same. -/
def Precedes (line line' : Nat) : Prop :=
  firstLine line < firstLine line' ∨ firstLine line = firstLine line' ∧ line ≤ line'

/-- A device on this line asks for an interrupt. -/
def Pics.Requests (pics : Pics) (line : Nat) : Prop :=
  (∃ i : Fin 8, i ≠ 2 ∧ line = i.val ∧ toDual i ∈ pics.pic1.lines.pending) ∨
    ∃ i : Fin 8, line = 8 + i.val ∧ toDual i ∈ pics.pic2.lines.pending

/-- A request that nothing stands in the way of is answered. On the second chip it goes through line
2, which then has to be unmasked. -/
theorem PicInv.acknowledge_of_requests (h : PicInv offset1 offset2 pics irqs) {line : Nat}
    (hrequest : pics.Requests line) (hmask : irqs.masked line = false)
    (hfirst : irqs.masked (firstLine line) = false)
    (habove : ∀ m ∈ irqs.active, firstLine line < firstLine m) :
    ∃ line' vector pics', pics.acknowledge = some (line', vector, pics') ∧ Precedes line' line := by
  rcases hrequest with ⟨i, hi, rfl, hpending⟩ | ⟨i, rfl, hpending⟩
  · rw [firstLine_val] at *
    obtain ⟨line', vector, pics', hack, hle, -⟩ :=
      h.acknowledge_of_wired ((pics.mem_wired hi).mpr hpending) hmask habove
    refine ⟨line', vector, pics', hack, ?_⟩
    have htwo : i.val ≠ 2 := fun heq => hi (Fin.ext heq)
    unfold Precedes
    rw [firstLine_val]
    rcases Nat.lt_or_eq_of_le hle with hlt | heq
    · exact Or.inl hlt
    · -- a line of the second chip comes in the place of line 2
      unfold firstLine at heq
      split at heq
      · exact Or.inr ⟨by rw [firstLine, if_pos (by omega)]; exact heq, Nat.le_of_eq heq⟩
      · omega
  · rw [firstLine_second] at *
    -- no handler of the second chip runs
    have hidle : ∀ b ∈ pics.pic2.lines.serving, b < toDual i := by
      intro b hb
      have hlower := habove _ ((h.serving2 (ofDual b)).mp hb)
      rw [firstLine_second] at hlower
      omega
    obtain ⟨b, hnext2, hle2⟩ := Pic.next_of_request hpending ((h.mask2 i i.isLt).trans hmask) hidle
    have hwired : toDual 2 ∈ pics.wired.pic1.lines.pending := by
      show toDual 2 ∈ if pics.pic2.next.isSome then _ else _
      rw [hnext2]
      exact Finset.mem_insert_self _ _
    obtain ⟨line', vector, pics', hack, hle, hsecond⟩ :=
      h.acknowledge_of_wired (i := 2) hwired hfirst habove
    refine ⟨line', vector, pics', hack, ?_⟩
    unfold Precedes
    rw [firstLine_second]
    rcases Nat.lt_or_eq_of_le hle with hlt | heq
    · exact Or.inl hlt
    · have hb : (ofDual b : Fin 8).val ≤ i.val := hle2
      have hline := hsecond b hnext2 heq
      exact Or.inr ⟨heq, by omega⟩

/-- The in-service registers of both chips, as `pic_get_isr` puts them together. -/
theorem picGetIsr_eq (pics : Pics) : (picGetIsr pics).1
    = (lineByte pics.pic2.lines.serving).setWidth 16 <<< 8
      ||| (lineByte pics.pic1.lines.serving).setWidth 16 := rfl

/-- The register that `pic_get_isr` returns, bit by bit. The high byte is the second chip as it is;
in the low byte bit 2 stands for all handlers of the second chip. -/
theorem PicInv.getIsr (h : PicInv offset1 offset2 pics irqs) {l : Nat} (hl : l < 16) :
    (picGetIsr pics).1.getLsbD l = true ↔
      l ∈ irqs.active ∨ l = 2 ∧ ∃ m ∈ irqs.active, 8 ≤ m := by
  rw [picGetIsr_eq]
  by_cases hfirst : l < 8
  · -- the low byte is the register of the first chip, where line 2 stands for all of the second
    have hbit : ((lineByte pics.pic2.lines.serving).setWidth 16 <<< 8
        ||| (lineByte pics.pic1.lines.serving).setWidth 16).getLsbD l
        = (lineByte pics.pic1.lines.serving).getLsbD l := by
      simp [hfirst, hl]
    rw [hbit, getLsbD_lineByte _ ⟨l, hfirst⟩, decide_eq_true_iff, h.serving1]
    dsimp only
    constructor
    · rintro ⟨m, hm, hline⟩
      by_cases hm8 : m < 8
      · rw [firstLine, if_pos hm8] at hline
        exact Or.inl (hline ▸ hm)
      · rw [firstLine, if_neg hm8] at hline
        exact Or.inr ⟨hline.symm, m, hm, by omega⟩
    · rintro (hm | ⟨rfl, m, hm, hm8⟩)
      · exact ⟨l, hm, if_pos hfirst⟩
      · exact ⟨m, hm, if_neg (by omega)⟩
  · have hbit : ((lineByte pics.pic2.lines.serving).setWidth 16 <<< 8
        ||| (lineByte pics.pic1.lines.serving).setWidth 16).getLsbD l
        = (lineByte pics.pic2.lines.serving).getLsbD (l - 8) := by
      have hzero := BitVec.getLsbD_of_ge (lineByte pics.pic1.lines.serving) l (by omega)
      simp [hfirst, hl, hzero]
    rw [hbit, getLsbD_lineByte _ ⟨l - 8, by omega⟩, decide_eq_true_iff, h.serving2]
    dsimp only
    rw [show 8 + (l - 8) = l by omega]
    exact (or_iff_left (by omega)).symm

/-- **Two chips as one controller.** In every run after `PIC_remap`, whatever the chips did before it:
`pic_get_isr` tells the lines whose handlers run, and line 2 for those of the second chip. An interrupt
comes for an unmasked line above all handlers that run, with the vector that `PIC_remap` gave it. And a
request for such a line is answered, if not by one of higher priority, as long as line 2 is unmasked too
when the line is one of the second chip. -/
theorem pic_refines_lines (run : PicRun offset1 offset2 pics irqs) :
    (∀ l < 16, (picGetIsr pics).1.getLsbD l = true ↔
      l ∈ irqs.active ∨ l = 2 ∧ ∃ m ∈ irqs.active, 8 ≤ m) ∧
    (∀ line vector pics', pics.acknowledge = some (line, vector, pics') →
      pics.Requests line ∧ irqs.masked line = false ∧ irqs.masked (firstLine line) = false ∧
      (∀ m ∈ irqs.active, firstLine line < firstLine m) ∧
      vector = if line < 8 then (BitVec.ofInt 8 offset1 &&& 0xF8) + BitVec.ofNat 8 line
        else (BitVec.ofInt 8 offset2 &&& 0xF8) + BitVec.ofNat 8 (line - 8)) ∧
    ∀ line, pics.Requests line → irqs.masked line = false → irqs.masked (firstLine line) = false →
      (∀ m ∈ irqs.active, firstLine line < firstLine m) →
      ∃ line' vector pics', pics.acknowledge = some (line', vector, pics') ∧ Precedes line' line := by
  have h := run.inv
  refine ⟨fun l hl => h.getIsr hl, fun line vector pics' hack => ?_,
    fun line hrequest hmask hfirst habove => h.acknowledge_of_requests hrequest hmask hfirst habove⟩
  cases h.acknowledge_cases hack with
  | first i hi hnext =>
    obtain ⟨hpending, hmask, hover⟩ := Pic.of_next hnext
    have hunmasked : irqs.masked i = false := (h.mask1 i i.isLt).symm.trans hmask
    rw [firstLine_val, if_pos i.isLt]
    exact ⟨Or.inl ⟨i, hi, rfl, (pics.mem_wired hi).mp hpending⟩, hunmasked, hunmasked,
      h.above hover, rfl⟩
  | second i hnext hnext2 =>
    obtain ⟨-, hmask, hover⟩ := Pic.of_next hnext
    obtain ⟨hpending2, hmask2, -⟩ := Pic.of_next hnext2
    rw [firstLine_second, if_neg (by omega), Nat.add_sub_cancel_left]
    exact ⟨Or.inr ⟨i, rfl, hpending2⟩, (h.mask2 i i.isLt).symm.trans hmask2,
      (h.mask1 2 (by decide)).symm.trans hmask, h.above hover, rfl⟩

end

/-- A chip in the middle of an initialization. -/
def strayPic : Pic where
  stage := .icw3
  single := true
  needsIcw4 := false
  offset := 0x70
  icw3 := 0
  icw4 := 3
  imr := 0xA5
  lines := ⟨{toDual 3}, {toDual 5}⟩
  readIsr := true

/-- The lines 3 and 12 ask for an interrupt, and 12 is answered first. -/
theorem pic_refines_lines_stray :
    ∃ pics pics', PicRun 0x20 0x28 pics ⟨fun _ => false, []⟩ ∧
      pics.acknowledge = some (12, 0x2C, pics') ∧ (picGetIsr pics').1.getLsbD 12 = true ∧
      (picGetIsr pics').1.getLsbD 2 = true := by
  have run : PicRun 0x20 0x28 _ ⟨fun _ => false, []⟩ :=
    .setLines {toDual 3} {toDual 4} (.remap ⟨strayPic, strayPic⟩)
  obtain ⟨pics', hack⟩ : ∃ pics', (Pics.setLines (picRemap ⟨strayPic, strayPic⟩ 0x20 0x28) {toDual 3}
      {toDual 4}).acknowledge = some (12, 0x2C, pics') := ⟨_, rfl⟩
  have hisr := (pic_refines_lines (.acknowledge run hack)).1
  refine ⟨_, pics', run, hack, (hisr 12 (by decide)).mpr (Or.inl List.mem_cons_self),
    (hisr 2 (by decide)).mpr (Or.inr ⟨rfl, 12, List.mem_cons_self, by decide⟩)⟩

end Yoix
