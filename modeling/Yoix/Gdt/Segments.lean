import Yoix.Gdt.Model
import Yoix.Interrupt.Frames
import Mathlib.Data.Nat.Bitwise

/-!
# What the descriptors say

A descriptor that `encodeGDTEntry` has written is read back by the processor, cut to the widths of
its fields (`readDescriptor_encodeGdtEntry`). `GdtReady` is the table that `initGdt` leaves, and from
it follows which of all selectors the processor accepts. There is one for 64-bit code, `0x08`: the
access bytes of the two user segments are exchanged, so the segment that is meant for user code is
one for data, and the other one is 32-bit code.
-/

namespace Yoix

open Memory Stack

/-! ## Round trips

A descriptor that was written is the one that the processor reads, field by field, cut to the bits
that the field has. -/

section

variable (mem : Nat → UInt8) (a base limit access flags : Nat)

theorem encodeGdtEntry_sameOutside :
    SameOutside (encodeGdtEntry mem a base limit access flags) mem a gdtEntrySize := by
  intro x hx
  simp only [gdtEntrySize] at hx
  simp only [encodeGdtEntry]
  iterate 6 rw [writeLE_of_notMem (by omega)]

/-- The byte with the upper bits of the limit and the flags. -/
theorem limit_flags_byte :
    limit >>> 16 &&& 0x0F ||| flags <<< 4 = 2 ^ 4 * flags + limit / 2 ^ 16 % 2 ^ 4 := by
  have hlow : limit >>> 16 &&& 0x0F = limit / 2 ^ 16 % 2 ^ 4 := by
    rw [Nat.shiftRight_eq_div_pow]
    exact Nat.and_two_pow_sub_one_eq_mod _ 4
  have hlt : limit / 2 ^ 16 % 2 ^ 4 < 2 ^ 4 := Nat.mod_lt _ (by decide)
  rw [hlow, Nat.lor_comm, ← Nat.shiftLeft_add_eq_or_of_lt hlt, Nat.shiftLeft_eq, Nat.mul_comm]

theorem readDescriptor_encodeGdtEntry :
    readDescriptor (encodeGdtEntry mem a base limit access flags) a
      = ⟨base % 2 ^ 32, limit % 2 ^ 20, access % 2 ^ 8, flags % 2 ^ 4⟩ := by
  have hword : ∀ x, x &&& 0xFFFF = x % 2 ^ 16 := fun x => Nat.and_two_pow_sub_one_eq_mod x 16
  have hbyte : ∀ x, x &&& 0xFF = x % 2 ^ 8 := fun x => Nat.and_two_pow_sub_one_eq_mod x 8
  simp (disch := omega) only [readDescriptor, encodeGdtEntry, readLE_writeLE_of_disjoint,
    readLE_writeLE_self, hword, hbyte, limit_flags_byte, Descriptor.mk.injEq]
  simp only [Nat.shiftRight_eq_div_pow]
  omega

/-- The descriptor of the task state segment is written inside its sixteen bytes. -/
theorem encodeTssEntry_sameOutside :
    SameOutside (encodeTssEntry mem a base limit access flags) mem a tssEntrySize := by
  intro x hx
  simp only [tssEntrySize] at hx
  simp only [encodeTssEntry]
  iterate 2 rw [writeLE_of_notMem (by omega)]
  exact encodeGdtEntry_sameOutside mem a base limit access flags x (by simp only [gdtEntrySize]; omega)

end

section

variable {m m' : Nat → UInt8} {a b n : Nat}

theorem readDescriptor_congr (h : SameAt m m' a gdtEntrySize) :
    readDescriptor m a = readDescriptor m' a := by
  have hread : ∀ i k, i + k ≤ 8 → readLE m (a + i) k = readLE m' (a + i) k := fun i k hik =>
    readLE_congr (h.mono (by omega) (by simp only [gdtEntrySize]; omega))
  have hlimit : readLE m a 2 = readLE m' a 2 := hread 0 2 (by decide)
  simp only [readDescriptor, hlimit, hread 2 2 (by decide), hread 4 1 (by decide),
    hread 5 1 (by decide), hread 6 1 (by decide), hread 7 1 (by decide)]

theorem readLE_fill_of_disjoint {v : UInt8} {k : Nat} (h : a + k ≤ b ∨ b + n ≤ a) :
    readLE (fill m b n v) a k = readLE m a k :=
  readLE_congr ((sameOutside_fill m b n v).sameAt h)

-- a descriptor beside the bytes that were written

theorem readDescriptor_writeLE {v : Nat} (h : a + 8 ≤ b ∨ b + n ≤ a) :
    readDescriptor (writeLE m b n v) a = readDescriptor m a :=
  readDescriptor_congr (sameAt_writeLE h)

theorem readDescriptor_fill {v : UInt8} (h : a + 8 ≤ b ∨ b + n ≤ a) :
    readDescriptor (fill m b n v) a = readDescriptor m a :=
  readDescriptor_congr ((sameOutside_fill m b n v).sameAt h)

theorem readDescriptor_encodeGdtEntry_apart {base limit access flags : Nat}
    (h : a + 8 ≤ b ∨ b + 8 ≤ a) :
    readDescriptor (encodeGdtEntry m b base limit access flags) a = readDescriptor m a :=
  readDescriptor_congr ((encodeGdtEntry_sameOutside m b base limit access flags).sameAt h)

theorem readDescriptor_encodeTssEntry_apart {base limit access flags : Nat}
    (h : a + 8 ≤ b ∨ b + 16 ≤ a) :
    readDescriptor (encodeTssEntry m b base limit access flags) a = readDescriptor m a :=
  readDescriptor_congr ((encodeTssEntry_sameOutside m b base limit access flags).sameAt h)

end

/-! ## The table

The six descriptors of the table. The stores that come after a descriptor is written do not touch
it. -/

/-- The five segment descriptors of `initGdt`. -/
def gdtContents : List Descriptor :=
  [⟨0, 0, 0, 0⟩, ⟨0, 0xFFFFF, kernelCode, flagCode64⟩, ⟨0, 0xFFFFF, kernelData, flagData64⟩,
    ⟨0, 0xFFFFF, userData, flagData64⟩, ⟨0, 0xFFFFF, userCode, flagCode64⟩]

/-- The table is in memory at `gdt`; the access byte of the task state segment changes when it is
loaded. -/
structure GdtReady (mem : Nat → UInt8) (gdt tssAccess : Nat) : Prop where
  segments : ∀ i < gdtCount, readDescriptor mem (gdt + YoixGdt.entry i) = gdtContents.getD i ⟨0, 0, 0, 0⟩
  tss : readDescriptor mem (gdt + YoixGdt.entryTss)
    = ⟨(gdt + YoixGdt.tss) % 2 ^ 32, tssSize - 1, tssAccess, 0⟩
  upper : readLE mem (gdt + YoixGdt.entryTss + 8) 4 = (gdt + YoixGdt.tss) / 2 ^ 32 % 2 ^ 32
  reserved : readLE mem (gdt + YoixGdt.entryTss + 13) 1 = 0

theorem entryTss_eq : YoixGdt.entryTss = 56 := rfl

/-- The table depends on the 56 bytes of its descriptors only. -/
theorem GdtReady.congr {m m' : Nat → UInt8} {gdt tssAccess : Nat} (h : GdtReady m gdt tssAccess)
    (hsame : SameAt m' m (gdt + YoixGdt.entry 0) 56) : GdtReady m' gdt tssAccess := by
  simp only [YoixGdt.entry, gdtEntrySize] at hsame
  refine ⟨fun i hi => ?_, ?_, ?_, ?_⟩
  · rw [← h.segments i hi]
    apply readDescriptor_congr
    simp only [YoixGdt.entry, gdtEntrySize, gdtCount] at *
    exact hsame.mono (by omega) (by omega)
  · rw [← h.tss]
    exact readDescriptor_congr (hsame.mono (by rw [entryTss_eq]; omega)
      (by simp only [entryTss_eq, gdtEntrySize]; omega))
  · rw [← h.upper]
    exact readLE_congr (hsame.mono (by rw [entryTss_eq]; omega) (by rw [entryTss_eq]; omega))
  · rw [← h.reserved]
    exact readLE_congr (hsame.mono (by rw [entryTss_eq]; omega) (by rw [entryTss_eq]; omega))

/-- The register that `initGdt` loads. -/
def gdtrOf (gdt : Nat) : TableReg := ⟨gdt + YoixGdt.entry 0, 55⟩

/-- The table holds its six descriptors. Each is read past the stores that follow it. -/
theorem initGdtTables_ready (mem : Nat → UInt8) (gdt : Nat) :
    GdtReady (initGdtTables mem gdt) gdt tssAccessByte := by
  have hmask : ∀ x, x &&& 0xFFFFFFFF = x % 2 ^ 32 := fun x => Nat.and_two_pow_sub_one_eq_mod x 32
  simp only [initGdtTables, YoixGdt.entry, YoixGdt.entryTss, YoixGdt.tss, YoixGdt.tssRsp0,
    YoixGdt.ptrBase, YoixGdt.ptrLimit, gdtEntrySize, gdtCount, tssEntrySize, tssSize]
  refine ⟨fun i hi => ?_, ?_, ?_, ?_⟩ <;>
    simp only [YoixGdt.entry, YoixGdt.entryTss, YoixGdt.tss, gdtEntrySize, gdtCount]
  · match i, hi with
    | 0, _ | 1, _ | 2, _ | 3, _ | 4, _ =>
      simp (disch := omega) only [readDescriptor_writeLE, readDescriptor_fill,
        readDescriptor_encodeTssEntry_apart, readDescriptor_encodeGdtEntry_apart,
        readDescriptor_encodeGdtEntry]
      rfl
  · simp (disch := omega) only [readDescriptor_writeLE, readDescriptor_fill, encodeTssEntry,
      readDescriptor_encodeGdtEntry]
    rfl
  · simp (disch := omega) only [readLE_writeLE_of_disjoint, readLE_fill_of_disjoint, encodeTssEntry,
      readLE_writeLE_self, hmask, Nat.shiftRight_eq_div_pow]
    omega
  · simp (disch := omega) only [readLE_writeLE_of_disjoint, readLE_fill_of_disjoint, encodeTssEntry]
    refine readLE_of_zero fun j hj => ?_
    rw [writeLE, if_pos (by omega), Nat.zero_div]
    rfl

/-- All stores are inside the structure, so that whatever lies beside the tables is kept. -/
theorem initGdtTables_sameOutside (mem : Nat → UInt8) (gdt : Nat) :
    SameOutside (initGdtTables mem gdt) mem gdt YoixGdt.size := by
  intro x hx
  simp only [YoixGdt.size] at hx
  have hseg : ∀ i < gdtCount, x < gdt + YoixGdt.entry i ∨ gdt + YoixGdt.entry i + gdtEntrySize ≤ x := by
    intro i hi
    simp only [YoixGdt.entry, gdtEntrySize, gdtCount] at *
    omega
  have htss : x < gdt + YoixGdt.entryTss ∨ gdt + YoixGdt.entryTss + tssEntrySize ≤ x := by
    simp only [entryTss_eq, tssEntrySize]
    omega
  simp only [initGdtTables, YoixGdt.tss, YoixGdt.tssRsp0, YoixGdt.ptrBase, YoixGdt.ptrLimit]
  iterate 3 rw [writeLE_of_notMem (by omega)]
  rw [sameOutside_fill _ _ _ _ x (by simp only [tssSize]; omega),
    encodeTssEntry_sameOutside _ _ _ _ _ _ x htss,
    encodeGdtEntry_sameOutside _ _ _ _ _ _ x (hseg 4 (by decide)),
    encodeGdtEntry_sameOutside _ _ _ _ _ _ x (hseg 3 (by decide)),
    encodeGdtEntry_sameOutside _ _ _ _ _ _ x (hseg 2 (by decide)),
    encodeGdtEntry_sameOutside _ _ _ _ _ _ x (hseg 1 (by decide)),
    encodeGdtEntry_sameOutside _ _ _ _ _ _ x (hseg 0 (by decide))]

/-- `lgdt` gets the address and the size of the table. -/
theorem initGdtTables_gdtr (mem : Nat → UInt8) {gdt : Nat} (h : gdt + YoixGdt.size ≤ 2 ^ 64) :
    loadTableReg (initGdtTables mem gdt) (gdt + YoixGdt.ptrLimit) = gdtrOf gdt := by
  simp only [YoixGdt.size] at h
  simp only [loadTableReg, initGdtTables, gdtrOf, YoixGdt.entry, YoixGdt.entryTss, YoixGdt.tss,
    YoixGdt.tssRsp0, YoixGdt.ptrBase, YoixGdt.ptrLimit, gdtEntrySize, gdtCount, tssEntrySize,
    TableReg.mk.injEq, Nat.add_zero]
  simp (disch := omega) only [readLE_writeLE_of_disjoint, readLE_writeLE_self]
  omega

/-! ## Selectors

Which selectors load a code segment, a stack or a data segment, over all 65536 of them. -/

section

variable {mem : Nat → UInt8} {gdt tssAccess : Nat}

theorem gdtr_entry (gdt i : Nat) :
    (gdtrOf gdt).base + gdtEntrySize * i = gdt + YoixGdt.entry i := by
  simp only [gdtrOf, YoixGdt.entry]
  omega

/-- What a selector finds: one of the four segments, a half of the descriptor of the task state
segment, or nothing. -/
theorem GdtReady.find (h : GdtReady mem gdt tssAccess) {s : Selector} {d : Descriptor}
    (hd : findDescriptor mem (gdtrOf gdt) s = some d) :
    s.toNat / 4 % 2 = 0 ∧
      (1 ≤ s.toNat / 8 ∧ s.toNat / 8 ≤ 4 ∧ d = gdtContents.getD (s.toNat / 8) ⟨0, 0, 0, 0⟩ ∨
      d.access = tssAccess ∨ d.access = 0) := by
  unfold findDescriptor at hd
  dsimp only at hd
  split at hd
  · exact absurd hd (by simp)
  · next hcond =>
    push Not at hcond
    obtain ⟨hnull, hlocal, hlimit⟩ := hcond
    rw [gdtr_entry, Option.some.injEq] at hd
    rw [Nat.testBit_eq_decide_div_mod_eq] at hlocal
    simp only [gdtrOf, gdtEntrySize] at hlimit
    refine ⟨by simpa using hlocal, ?_⟩
    have hindex : s.toNat / 8 ≤ 4 ∨ s.toNat / 8 = 5 ∨ s.toNat / 8 = 6 := by omega
    rcases hindex with hle | heq | heq
    · exact Or.inl ⟨by omega, hle, by rw [← hd, h.segments _ (Nat.lt_succ_of_le hle)]⟩
    · refine Or.inr (Or.inl ?_)
      rw [← hd, heq]
      exact congrArg Descriptor.access h.tss
    · -- the byte read as the access byte lies in the reserved word behind the base
      refine Or.inr (Or.inr ?_)
      rw [← hd, heq]
      exact h.reserved

theorem GdtReady.find_segment (h : GdtReady mem gdt tssAccess) {s : Selector}
    (hlocal : s.toNat / 4 % 2 = 0) (hlo : 1 ≤ s.toNat / 8) (hhi : s.toNat / 8 ≤ 4) :
    findDescriptor mem (gdtrOf gdt) s = some (gdtContents.getD (s.toNat / 8) ⟨0, 0, 0, 0⟩) := by
  unfold findDescriptor
  dsimp only
  rw [if_neg, gdtr_entry, h.segments _ (Nat.lt_succ_of_le hhi)]
  rw [Nat.testBit_eq_decide_div_mod_eq]
  simp only [gdtrOf, gdtEntrySize, decide_eq_true_eq]
  omega

/-- The access byte of a task state segment, free or in use. -/
def IsTssAccess (access : Nat) : Prop := access = 0x89 ∨ access = 0x8B

/-- A selector that finds a half of the task state segment finds no segment. -/
theorem not_segment {d : Descriptor} {tssAccess : Nat} (hacc : IsTssAccess tssAccess)
    (hd : d.access = tssAccess ∨ d.access = 0) : d.segment = false := by
  unfold Descriptor.segment
  rcases hd with hd | hd
  · rcases hacc with hacc | hacc <;> rw [hd, hacc] <;> decide
  · rw [hd]
    decide

/-- `0x08` is the only selector for 64-bit code, at any privilege level. -/
theorem GdtReady.codeLoads_iff (h : GdtReady mem gdt tssAccess) (hacc : IsTssAccess tssAccess)
    (s : Selector) (cpl : Nat) :
    codeLoads mem (gdtrOf gdt) s cpl = true ↔ s = 0x08 ∧ cpl = 0 := by
  constructor
  · intro hloads
    unfold codeLoads at hloads
    cases hfind : findDescriptor mem (gdtrOf gdt) s with
    | none =>
      rw [hfind] at hloads
      exact absurd hloads Bool.false_ne_true
    | some d =>
      rw [hfind] at hloads
      simp only [Bool.and_eq_true, decide_eq_true_eq] at hloads
      obtain ⟨⟨hcode, hruns⟩, hrpl⟩ := hloads
      obtain ⟨hlocal, ⟨hlo, hhi, rfl⟩ | hother⟩ := h.find hfind
      · have hindex : s.toNat / 8 = 1 ∨ s.toNat / 8 = 2 ∨ s.toNat / 8 = 3 ∨ s.toNat / 8 = 4 := by
          omega
        rcases hindex with heq | heq | heq | heq <;> rw [heq] at hcode hruns
        · have hcpl : 0 = cpl := of_decide_eq_true hruns
          exact ⟨BitVec.eq_of_toNat_eq (show s.toNat = 8 by omega), hcpl.symm⟩
        · exact absurd hcode (by decide)
        · exact absurd hcode (by decide)
        · exact absurd hcode (by decide)
      · rw [Descriptor.isCode64, not_segment hacc hother] at hcode
        simp at hcode
  · rintro ⟨rfl, rfl⟩
    rw [codeLoads, h.find_segment (by decide) (by decide) (by decide)]
    decide

/-- A stack is loaded from `0x10` in the kernel and from `0x23` for a user. -/
theorem GdtReady.stackLoads_iff (h : GdtReady mem gdt tssAccess) (hacc : IsTssAccess tssAccess)
    (s : Selector) (cpl : Nat) :
    stackLoads mem (gdtrOf gdt) s cpl = true ↔ s = 0x10 ∧ cpl = 0 ∨ s = 0x23 ∧ cpl = 3 := by
  constructor
  · intro hloads
    unfold stackLoads at hloads
    cases hfind : findDescriptor mem (gdtrOf gdt) s with
    | none =>
      rw [hfind] at hloads
      exact absurd hloads Bool.false_ne_true
    | some d =>
      rw [hfind] at hloads
      simp only [Bool.and_eq_true, decide_eq_true_eq] at hloads
      obtain ⟨⟨hdata, hdpl⟩, hrpl⟩ := hloads
      obtain ⟨hlocal, ⟨hlo, hhi, rfl⟩ | hother⟩ := h.find hfind
      · have hindex : s.toNat / 8 = 1 ∨ s.toNat / 8 = 2 ∨ s.toNat / 8 = 3 ∨ s.toNat / 8 = 4 := by
          omega
        rcases hindex with heq | heq | heq | heq <;> rw [heq] at hdata hdpl
        · exact absurd hdata (by decide)
        · have hcpl : 0 = cpl := hdpl
          exact Or.inl ⟨BitVec.eq_of_toNat_eq (show s.toNat = 16 by omega), hcpl.symm⟩
        · exact absurd hdata (by decide)
        · have hcpl : 3 = cpl := hdpl
          exact Or.inr ⟨BitVec.eq_of_toNat_eq (show s.toNat = 35 by omega), hcpl.symm⟩
      · rw [Descriptor.isWritableData, not_segment hacc hother] at hdata
        simp at hdata
  · rintro (⟨rfl, rfl⟩ | ⟨rfl, rfl⟩) <;>
      rw [stackLoads, h.find_segment (by decide) (by decide) (by decide)] <;> decide

theorem GdtReady.dataLoads_kernel (h : GdtReady mem gdt tssAccess) :
    dataLoads mem (gdtrOf gdt) 0x10 0 = true := by
  rw [dataLoads, if_neg (by decide), h.find_segment (by decide) (by decide) (by decide)]
  decide

/-! ## The segment registers

The routine that reloads them. Each instruction finds its descriptor, so none of them faults. -/

theorem segOk_bind {α β : Type} (a : α) (f : α → Except SegFault β) :
    (Except.ok a >>= f) = f a := rfl

/-- What `reloadSegments` leaves: the new selectors, the caller's stack, and `rax` overwritten. -/
structure Reloaded (m m' : Machine) : Prop where
  cs : m'.cs = 0x08
  ss : m'.ss = 0x10
  seg : ∀ s, m'.seg s = 0x10
  rip : m'.rip = m.mem m.rsp
  rsp : m'.rsp = m.rsp + 8
  gpr : ∀ r, r ≠ .rax → m'.gpr r = m.gpr r
  rflags : m'.rflags = m.rflags
  above : ∀ i < 2 ^ 59, m'.mem (slot m.rsp i) = m.mem (slot m.rsp i)

theorem ax_setAx (m : Machine) (v : Selector) : (m.setAx v).ax = v := by
  have hrax : (m.setAx v).gpr .rax = ((m.gpr .rax).extractLsb' 16 48 ++ v).setWidth 64 :=
    Function.update_self Reg.rax _ m.gpr
  apply BitVec.eq_of_toNat_eq
  have hlt := v.isLt
  rw [Machine.ax, hrax]
  simp only [BitVec.toNat_setWidth, BitVec.toNat_append]
  rw [← Nat.shiftLeft_add_eq_or_of_lt hlt, Nat.shiftLeft_eq]
  omega

theorem GdtReady.loadSeg (h : GdtReady mem gdt tssAccess) {m : Machine} (hax : m.ax = 0x10)
    (s : Seg) : m.loadSeg mem (gdtrOf gdt) s = .ok (m.setSeg s 0x10) := by
  rw [Machine.loadSeg, hax, h.dataLoads_kernel, if_pos rfl]

theorem GdtReady.loadSs (h : GdtReady mem gdt tssAccess) (hacc : IsTssAccess tssAccess)
    {m : Machine} (hax : m.ax = 0x10) : m.loadSs mem (gdtrOf gdt) = .ok { m with ss := 0x10 } := by
  rw [Machine.loadSs, hax, (h.stackLoads_iff hacc 0x10 0).mpr (Or.inl ⟨rfl, rfl⟩), if_pos rfl]

/-- The far return pops what the two pushes before it put there. -/
theorem GdtReady.retfq (h : GdtReady mem gdt tssAccess) (hacc : IsTssAccess tssAccess)
    {m : Machine} {reloadCs : Word} (hstack : Holds m.mem m.rsp [reloadCs, 0x08]) :
    m.retfq mem (gdtrOf gdt) = .ok { m with rip := reloadCs, cs := 0x08, rsp := slot m.rsp 2 } := by
  have hrip : m.mem (slot m.rsp 0) = reloadCs := hstack 0 _ rfl
  have hcs : m.mem (slot m.rsp 1) = 0x08 := hstack 1 _ rfl
  rw [Machine.retfq, hrip, hcs]
  exact if_pos ((h.codeLoads_iff hacc 0x08 0).mpr ⟨rfl, rfl⟩)

/-- The far return loads the code segment, and the loads that follow give all data registers and the
stack the kernel's data segment. The words that were pushed are gone from the stack again. -/
theorem GdtReady.reloadSegments (h : GdtReady mem gdt tssAccess) (hacc : IsTssAccess tssAccess)
    (reloadCs : Word) (m : Machine) :
    ∃ m', Yoix.reloadSegments mem (gdtrOf gdt) reloadCs m = .ok m' ∧ Reloaded m m' := by
  set m₂ := ((m.push 0x08).setReg .rax reloadCs).push reloadCs with hm₂
  have hstack : Holds m₂.mem m₂.rsp [reloadCs, 0x08] :=
    ((holds_nil m.mem m.rsp).push (by decide) 0x08).push (by decide) reloadCs
  have hrsp : slot m₂.rsp 2 = m.rsp := by
    show slot (m.rsp - 8 - 8) 2 = m.rsp
    rw [slot_sub_succ, slot_sub_succ, slot_zero]
  set m₃ := ({ m₂ with rip := reloadCs, cs := 0x08, rsp := slot m₂.rsp 2 } : Machine) with hm₃
  have habove : ∀ i < 2 ^ 59, m₂.mem (slot m.rsp i) = m.mem (slot m.rsp i) := by
    intro i hi
    show Function.update (Function.update m.mem (m.rsp - 8) 0x08) (m.rsp - 8 - 8) reloadCs _ = _
    rw [Function.update_of_ne, Function.update_of_ne (slot_ne_push (by omega))]
    rw [← slot_sub_succ]
    exact slot_ne_push (by omega)
  set a := m₃.setAx 0x10 with ha
  have hax : a.ax = 0x10 := ax_setAx m₃ 0x10
  have hrax : ((m.push 0x08).setReg .rax reloadCs).gpr .rax = reloadCs :=
    Function.update_self Reg.rax _ m.gpr
  refine ⟨({ (((a.setSeg .ds 0x10).setSeg .es 0x10).setSeg .fs 0x10).setSeg .gs 0x10
    with ss := 0x10 } : Machine).ret, ?_, ?_⟩
  · unfold Yoix.reloadSegments
    dsimp only
    -- a load into a segment register leaves `ax` as it is
    rw [hrax, ← hm₂, h.retfq hacc hstack, segOk_bind, ← hm₃, if_neg (fun hne => hne rfl), ← ha,
      h.loadSeg hax, segOk_bind, h.loadSeg (m := a.setSeg .ds 0x10) hax, segOk_bind,
      h.loadSeg (m := (a.setSeg .ds 0x10).setSeg .es 0x10) hax, segOk_bind,
      h.loadSeg (m := ((a.setSeg .ds 0x10).setSeg .es 0x10).setSeg .fs 0x10) hax, segOk_bind,
      h.loadSs (m := (((a.setSeg .ds 0x10).setSeg .es 0x10).setSeg .fs 0x10).setSeg .gs 0x10) hacc
        hax, segOk_bind]
  · refine ⟨rfl, rfl, fun s => by cases s <;> rfl, ?_, ?_, fun r hr => ?_, rfl, habove⟩
    · show m₂.mem (slot m₂.rsp 2) = m.mem m.rsp
      rw [hrsp, ← slot_zero m.rsp]
      exact habove 0 (by decide)
    · show slot m₂.rsp 2 + 8 = m.rsp + 8
      rw [hrsp]
    · show Function.update (Function.update m.gpr .rax reloadCs) .rax _ r = m.gpr r
      rw [Function.update_of_ne hr, Function.update_of_ne hr]

/-! ## The task register

`ltr` finds an available task state segment and marks it as busy. -/

theorem readDescriptor_setAccess (mem : Nat → UInt8) (a v : Nat) :
    readDescriptor (writeLE mem (a + 5) 1 v) a
      = { readDescriptor mem a with access := v % 2 ^ 8 } := by
  simp (disch := omega) only [readDescriptor, readLE_writeLE_of_disjoint, readLE_writeLE_self]
  rfl

/-- Marking the task state segment as in use leaves the rest of the table alone. -/
theorem GdtReady.setBusy (h : GdtReady mem gdt tssAccess) :
    GdtReady (writeLE mem (gdt + YoixGdt.entryTss + 5) 1 0x8B) gdt 0x8B := by
  refine ⟨fun i hi => ?_, ?_, ?_, ?_⟩
  · rw [readDescriptor_writeLE, h.segments i hi]
    simp only [YoixGdt.entryTss, YoixGdt.entry, gdtEntrySize, gdtCount] at *
    omega
  · rw [readDescriptor_setAccess, h.tss]
    rfl
  · rw [readLE_writeLE_of_disjoint (by omega), h.upper]
  · rw [readLE_writeLE_of_disjoint (by omega), h.reserved]

/-- The task register covers the task state segment, and the load marks its descriptor busy. -/
theorem GdtReady.ltr (h : GdtReady mem gdt tssAccessByte) (hroom : gdt + YoixGdt.size ≤ 2 ^ 64) :
    Yoix.ltr mem (gdtrOf gdt) 0x28 = .ok (⟨gdt + YoixGdt.tss, tssSize - 1⟩,
      writeLE mem (gdt + YoixGdt.entryTss + 5) 1 0x8B) := by
  have hindex : (0x28 : Selector).toNat / 8 = gdtCount := by decide
  have hbase : readTssBase mem (gdt + YoixGdt.entryTss) = gdt + YoixGdt.tss := by
    rw [readTssBase, h.tss, h.upper]
    simp only [YoixGdt.size, YoixGdt.tss] at *
    omega
  have haddr : (gdtrOf gdt).base + gdtEntrySize * gdtCount = gdt + YoixGdt.entryTss :=
    gdtr_entry gdt gdtCount
  unfold Yoix.ltr
  dsimp only
  rw [hindex, haddr, hbase, h.tss, if_neg]
  · show Except.ok (_, writeLE mem _ 1 (tssAccessByte ||| 2)) = _
    rw [show tssAccessByte ||| 2 = 0x8B by decide]
  · show ¬ (gdtCount = 0 ∨ (0x28 : Selector).toNat.testBit 2 = true ∨
      55 < gdtEntrySize * gdtCount + 15 ∨ tssAccessByte % 32 ≠ 0x09 ∨
      (!tssAccessByte.testBit 7) = true)
    decide

/-- What `initGdt` leaves: the table, its registers, and the machine as its caller has it but for
the selectors and `rax`. -/
structure Initialised (mem : Nat → UInt8) (gdt : Nat) (ret₂ : Word) (m : Machine) (l : GdtLoaded) :
    Prop where
  ready : GdtReady l.mem gdt 0x8B
  gdtr : l.gdtr = gdtrOf gdt
  tr : l.tr = ⟨gdt + YoixGdt.tss, tssSize - 1⟩
  outside : SameOutside l.mem mem gdt YoixGdt.size
  cs : l.machine.cs = 0x08
  ss : l.machine.ss = 0x10
  seg : ∀ s, l.machine.seg s = 0x10
  rip : l.machine.rip = ret₂
  rsp : l.machine.rsp = m.rsp
  rflags : l.machine.rflags = m.rflags
  gpr : ∀ r, r ≠ .rax → l.machine.gpr r = m.gpr r
  above : ∀ i < 2 ^ 58, l.machine.mem (slot m.rsp i) = m.mem (slot m.rsp i)

/-- `initGdt` as a whole: the stores, `lgdt`, and the two routines on the table that was stored. -/
theorem initGdt_spec (mem : Nat → UInt8) {gdt : Nat} (hroom : gdt + YoixGdt.size ≤ 2 ^ 64)
    (reloadCs ret₁ ret₂ : Word) (m : Machine) :
    ∃ l, initGdt mem gdt reloadCs ret₁ ret₂ m = .ok l ∧ Initialised mem gdt ret₂ m l := by
  have hready := initGdtTables_ready mem gdt
  obtain ⟨m₁, hrun₁, hr⟩ := hready.reloadSegments (Or.inl rfl) reloadCs (m.push ret₁)
  -- each routine is entered by a `call` and left by its `ret`
  have hrsp : (m.push ret₁).rsp + 8 = m.rsp := by
    show m.rsp - 8 + 8 = m.rsp
    bv_omega
  set a := (m₁.push ret₂).setAx 0x28 with ha
  have hax : a.ax = 0x28 := ax_setAx (m₁.push ret₂) 0x28
  refine ⟨⟨a.ret, writeLE (initGdtTables mem gdt) (gdt + YoixGdt.entryTss + 5) 1 0x8B, gdtrOf gdt,
    ⟨gdt + YoixGdt.tss, tssSize - 1⟩⟩, ?_, ⟨hready.setBusy, rfl, rfl, fun x hx => ?_, hr.cs, hr.ss,
    hr.seg, ?_, ?_, hr.rflags, fun r hne => ?_, fun i hi => ?_⟩⟩
  · rw [initGdt]
    dsimp only
    rw [initGdtTables_gdtr mem hroom, hrun₁, segOk_bind, flushTss]
    dsimp only
    rw [← ha, hax, hready.ltr hroom]
    rfl
  · rw [← initGdtTables_sameOutside mem gdt x hx]
    apply writeLE_of_notMem
    simp only [YoixGdt.size, entryTss_eq] at *
    omega
  · exact Function.update_self (m₁.rsp - 8) _ m₁.mem
  · -- the stack pointer is back
    show m₁.rsp - 8 + 8 = m.rsp
    rw [hr.rsp, hrsp]
    bv_omega
  · show Function.update m₁.gpr .rax _ r = m.gpr r
    rw [Function.update_of_ne hne, hr.gpr r hne]
    rfl
  · show Function.update m₁.mem (m₁.rsp - 8) ret₂ (slot m.rsp i) = m.mem (slot m.rsp i)
    -- what lay on the stack is above both return addresses
    have hm₁ : m₁.rsp = m.rsp := by rw [hr.rsp, hrsp]
    rw [hm₁, Function.update_of_ne (slot_ne_push (by omega)), ← slot_sub_succ]
    show m₁.mem (slot (m.push ret₁).rsp (i + 1)) = _
    rw [hr.above _ (by omega)]
    show Function.update m.mem (m.rsp - 8) ret₁ (slot (m.rsp - 8) (i + 1)) = _
    rw [slot_sub_succ, Function.update_of_ne (slot_ne_push (by omega))]

/-- **The segments of the kernel.** From any state, wherever the structure lies: `initGdt` ends with
`cs` set to `0x08`, all other segment registers to `0x10` and the task register to the task state
segment. The two assembly routines that it calls leave the stack and all registers but `rax` as they were;
the C code of `initGdt` around them is taken for its stores only, and its compiled form may use the
registers that a caller saves. From then on `0x08` is the only selector through which 64-bit code can run,
so there is none for a user, while a user's stack may be loaded from `0x23`. -/
theorem initGdt_loads_segments (mem : Nat → UInt8) {gdt : Nat}
    (hroom : gdt + YoixGdt.size ≤ 2 ^ 64) (reloadCs ret₁ ret₂ : Word) (m : Machine) :
    ∃ l, initGdt mem gdt reloadCs ret₁ ret₂ m = .ok l ∧
      l.machine.cs = 0x08 ∧ l.machine.ss = 0x10 ∧ (∀ s, l.machine.seg s = 0x10) ∧
      l.machine.rip = ret₂ ∧ l.machine.rsp = m.rsp ∧ l.machine.rflags = m.rflags ∧
      (∀ r, r ≠ .rax → l.machine.gpr r = m.gpr r) ∧
      (∀ i < 2 ^ 58, l.machine.mem (slot m.rsp i) = m.mem (slot m.rsp i)) ∧
      l.tr = ⟨gdt + YoixGdt.tss, tssSize - 1⟩ ∧
      (∀ s cpl, codeLoads l.mem l.gdtr s cpl = true ↔ s = 0x08 ∧ cpl = 0) ∧
      ∀ s cpl, stackLoads l.mem l.gdtr s cpl = true ↔ s = 0x10 ∧ cpl = 0 ∨ s = 0x23 ∧ cpl = 3 := by
  obtain ⟨l, hrun, hl⟩ := initGdt_spec mem hroom reloadCs ret₁ ret₂ m
  refine ⟨l, hrun, hl.cs, hl.ss, hl.seg, hl.rip, hl.rsp, hl.rflags, hl.gpr, hl.above, hl.tr, ?_, ?_⟩
  · rw [hl.gdtr]
    exact hl.ready.codeLoads_iff (Or.inr rfl)
  · rw [hl.gdtr]
    exact hl.ready.stackLoads_iff (Or.inr rfl)

/-- The idle kernel with a table in the upper half. -/
theorem initGdt_loads_segments_idle :
    ∃ l, initGdt (fun _ => 0) 0xFFFFFFFF80010000 0xFFFFFFFF80000100 0xFFFFFFFF80000200
        0xFFFFFFFF80000205 idleMachine = .ok l ∧
      l.machine.cs = 0x08 ∧ l.tr = ⟨0xFFFFFFFF80010050, 107⟩ := by
  obtain ⟨l, hrun, hcs, -, -, -, -, -, -, -, htr, -⟩ := initGdt_loads_segments (fun _ => 0)
    (show 0xFFFFFFFF80010000 + YoixGdt.size ≤ 2 ^ 64 by decide) 0xFFFFFFFF80000100
    0xFFFFFFFF80000200 0xFFFFFFFF80000205 idleMachine
  exact ⟨l, hrun, hcs, htr⟩

end

end Yoix
