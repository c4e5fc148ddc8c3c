import Yoix.Gdt.Segments
import Yoix.Interrupt.Transparency

/-!
# The gates (`system/interrupt/idt.c`)

`idt_init` writes a gate for each of the vectors 0 to 48 and for 255, and leaves the others, which
the loader has cleared, as they are. The processor reads the gate of a vector, and the code segment
that it names, from memory. Both together take an interrupt to its stub as `deliver` has it, and
exactly for these vectors (`interrupts_reach_stubs`).
-/

namespace Yoix

open Memory Stack

/-! ## Writing gates

`idt_init` writes 50 gates, in the order of the source. All others keep what the table held before,
which is 0. -/

/-- `sizeof(idt_entry_t)`. -/
abbrev idtEntrySize : Nat := 16

/-- The seven fields of `idt[vector]`, in the order in which the source assigns them. -/
def idtSetDescriptor (mem : Nat → UInt8) (idt vector isr flags : Nat) : Nat → UInt8 :=
  let descriptor := idt + idtEntrySize * vector
  let mem := writeLE mem descriptor 2 (isr &&& 0xFFFF)
  let mem := writeLE mem (descriptor + 2) 2 0x08
  let mem := writeLE mem (descriptor + 4) 1 0
  let mem := writeLE mem (descriptor + 5) 1 flags
  let mem := writeLE mem (descriptor + 6) 2 (isr >>> 16 &&& 0xFFFF)
  let mem := writeLE mem (descriptor + 8) 4 (isr >>> 32 &&& 0xFFFFFFFF)
  writeLE mem (descriptor + 12) 4 0

/-- The loop of `idt_init`, with `n` vectors from `vector` on to go. -/
def idtInitLoop (stubs : Nat → Word) (idt : Nat) : Nat → (Nat → UInt8) → Nat → Nat → UInt8
  | 0, mem, _ => mem
  | n + 1, mem, vector =>
    idtInitLoop stubs idt n (idtSetDescriptor mem idt vector (stubs vector).toNat 0x8E) (vector + 1)

/-- What `idt_init` stores, with `idtr` at `idtrPtr`. -/
def idtInitTables (stubs : Nat → Word) (mem : Nat → UInt8) (idt idtrPtr : Nat) : Nat → UInt8 :=
  let mem := writeLE mem (idtrPtr + 2) 8 idt
  let mem := writeLE mem idtrPtr 2 (idtEntrySize * 256 - 1)
  let mem := idtInitLoop stubs idt 49 mem 0
  idtSetDescriptor mem idt 255 (stubs 255).toNat 0x8E

/-! ## Taking an interrupt through a gate

The processor reads the gate of the vector, and the descriptor of the code segment that it names.
Whatever it does not accept is a fault. -/

/-- What the processor reads from a gate. -/
structure Gate where
  offset : Nat
  selector : Nat
  ist : Nat
  attributes : Nat
  deriving DecidableEq, Repr

def readGate (mem : Nat → UInt8) (a : Nat) : Gate where
  offset := readLE mem a 2 + 2 ^ 16 * readLE mem (a + 6) 2 + 2 ^ 32 * readLE mem (a + 8) 4
  selector := readLE mem (a + 2) 2
  ist := readLE mem (a + 4) 1 % 8
  attributes := readLE mem (a + 5) 1

inductive GateFault where
  | generalProtection
  | notPresent
  deriving DecidableEq, Repr

/-- The processor takes an interrupt: the gate has to lie in the table, to be present and to be an
interrupt gate without a stack of its own, and its selector to be one for code at privilege level 0.
Gates of other kinds are left out. -/
def deliverThrough (mem : Nat → UInt8) (idtr gdtr : TableReg) (m : Machine) (vector : Nat)
    (errorCode : Word) : Except GateFault Machine :=
  if idtr.limit < idtEntrySize * vector + 15 then .error .generalProtection
  else
    let gate := readGate mem (idtr.base + idtEntrySize * vector)
    let selector := BitVec.ofNat 16 gate.selector
    if gate.attributes % 32 ≠ 0x0E ∨ gate.ist ≠ 0 then .error .generalProtection
    else if !gate.attributes.testBit 7 then .error .notPresent
    else if !codeLoads mem gdtr selector 0 then .error .generalProtection
    else
      let m' := m.pushFrame
      let m' := if pushesErrorCode vector then m'.push errorCode else m'
      .ok { m' with
        rip := BitVec.ofNat 64 gate.offset
        rflags := m.rflags &&& ~~~gateFlags
        cs := selector
        ss := if Selector.rpl m.cs = 0 then m.ss else 0 }

/-! ## What the gates hold -/

section

variable (mem : Nat → UInt8) (idt vector isr flags : Nat)

theorem idtSetDescriptor_sameOutside :
    SameOutside (idtSetDescriptor mem idt vector isr flags) mem (idt + idtEntrySize * vector)
      idtEntrySize := by
  intro x hx
  simp only [idtEntrySize] at hx
  simp only [idtSetDescriptor, idtEntrySize]
  iterate 7 rw [writeLE_of_notMem (by omega)]

/-- The processor reads the address back, all 64 bits of it. -/
theorem readGate_idtSetDescriptor :
    readGate (idtSetDescriptor mem idt vector isr flags) (idt + idtEntrySize * vector)
      = ⟨isr % 2 ^ 64, 0x08, 0, flags % 2 ^ 8⟩ := by
  have hword : ∀ x, x &&& 0xFFFF = x % 2 ^ 16 := fun x => Nat.and_two_pow_sub_one_eq_mod x 16
  have hlong : ∀ x, x &&& 0xFFFFFFFF = x % 2 ^ 32 := fun x => Nat.and_two_pow_sub_one_eq_mod x 32
  simp (disch := omega) only [readGate, idtSetDescriptor, readLE_writeLE_of_disjoint,
    readLE_writeLE_self, hword, hlong, Gate.mk.injEq, Nat.shiftRight_eq_div_pow]
  omega

end

section

variable {m m' : Nat → UInt8} {a : Nat}

theorem readGate_congr (h : SameAt m m' a idtEntrySize) : readGate m a = readGate m' a := by
  have hread : ∀ i k, i + k ≤ 16 → readLE m (a + i) k = readLE m' (a + i) k := fun i k hik =>
    readLE_congr (h.mono (by omega) (by simp only [idtEntrySize]; omega))
  have hlow : readLE m a 2 = readLE m' a 2 := hread 0 2 (by decide)
  simp only [readGate, hlow, hread 2 2 (by decide), hread 4 1 (by decide), hread 5 1 (by decide),
    hread 6 2 (by decide), hread 8 4 (by decide)]

theorem readGate_of_zero (h : ∀ i < idtEntrySize, m (a + i) = 0) : readGate m a = ⟨0, 0, 0, 0⟩ := by
  have hread : ∀ i k, i + k ≤ 16 → readLE m (a + i) k = 0 := fun i k hik =>
    readLE_of_zero fun j hj => by
      rw [Nat.add_assoc]
      exact h (i + j) (by simp only [idtEntrySize]; omega)
  have hlow : readLE m a 2 = 0 := hread 0 2 (by decide)
  simp only [readGate, hlow, hread 2 2 (by decide), hread 4 1 (by decide), hread 5 1 (by decide),
    hread 6 2 (by decide), hread 8 4 (by decide)]
  rfl

end

/-- The gate for a stub. -/
def stubGate (stubs : Nat → Word) (vector : Nat) : Gate := ⟨(stubs vector).toNat, 0x08, 0, 0x8E⟩

section

variable (stubs : Nat → Word) (idt : Nat)

theorem readGate_idtSetDescriptor_of_ne (mem : Nat → UInt8) {v vector isr flags : Nat}
    (h : v ≠ vector) :
    readGate (idtSetDescriptor mem idt vector isr flags) (idt + idtEntrySize * v)
      = readGate mem (idt + idtEntrySize * v) := by
  refine readGate_congr ((idtSetDescriptor_sameOutside mem idt vector isr flags).sameAt ?_)
  simp only [idtEntrySize]
  omega

/-- **The loop.** The vectors from `vector` on get their gates, and all other bytes stay. -/
theorem idtInitLoop_spec (n : Nat) (mem : Nat → UInt8) (vector : Nat) :
    (∀ v, readGate (idtInitLoop stubs idt n mem vector) (idt + idtEntrySize * v)
      = if vector ≤ v ∧ v < vector + n then stubGate stubs v
        else readGate mem (idt + idtEntrySize * v)) ∧
    SameOutside (idtInitLoop stubs idt n mem vector) mem (idt + idtEntrySize * vector)
      (idtEntrySize * n) := by
  induction n generalizing mem vector with
  | zero =>
    refine ⟨fun v => ?_, fun x _ => rfl⟩
    rw [if_neg (by omega)]
    rfl
  | succ n ih =>
    obtain ⟨hgates, hout⟩ := ih (idtSetDescriptor mem idt vector (stubs vector).toNat 0x8E) (vector + 1)
    refine ⟨fun v => ?_, fun x hx => ?_⟩
    · rw [idtInitLoop, hgates v]
      by_cases hv : v = vector
      · subst hv
        rw [if_neg (by omega), if_pos (by omega), readGate_idtSetDescriptor]
        show Gate.mk ((stubs v).toNat % 2 ^ 64) 0x08 0 0x8E = stubGate stubs v
        rw [Nat.mod_eq_of_lt (stubs v).isLt]
        rfl
      · rw [readGate_idtSetDescriptor_of_ne idt mem hv]
        by_cases hin : vector ≤ v ∧ v < vector + (n + 1)
        · rw [if_pos hin, if_pos (by omega)]
        · rw [if_neg hin, if_neg (by omega)]
    · simp only [idtEntrySize] at hx
      rw [idtInitLoop, hout x (by simp only [idtEntrySize]; omega)]
      exact idtSetDescriptor_sameOutside _ _ _ _ _ x (by simp only [idtEntrySize]; omega)

/-- A vector that `idt_init` gives a gate. -/
def HasGate (vector : Nat) : Prop := vector < 49 ∨ vector = 255

instance (vector : Nat) : Decidable (HasGate vector) := inferInstanceAs (Decidable (_ ∨ _))

/-- The table in memory: a gate for each of these vectors, and nothing for the others. -/
def IdtReady (mem : Nat → UInt8) : Prop :=
  ∀ v < 256, readGate mem (idt + idtEntrySize * v)
    = if HasGate v then stubGate stubs v else ⟨0, 0, 0, 0⟩

/-- The two structures do not overlap. -/
def Apart (a n b k : Nat) : Prop := a + n ≤ b ∨ b + k ≤ a

/-- All 50 gates lead to their stubs, and the others are not present. -/
theorem idtInitTables_ready {mem : Nat → UInt8} {idtrPtr : Nat}
    (hzero : ∀ i < idtEntrySize * 256, mem (idt + i) = 0)
    (hapart : Apart idt (idtEntrySize * 256) idtrPtr 10) :
    IdtReady stubs idt (idtInitTables stubs mem idt idtrPtr) := by
  intro v hv
  simp only [Apart, idtEntrySize] at hapart
  set mem₁ := writeLE (writeLE mem (idtrPtr + 2) 8 idt) idtrPtr 2 (idtEntrySize * 256 - 1) with hmem₁
  have hzero₁ : ∀ i < idtEntrySize * 256, mem₁ (idt + i) = 0 := by
    intro i hi
    simp only [idtEntrySize] at hi
    rw [hmem₁, writeLE_of_notMem (by omega), writeLE_of_notMem (by omega)]
    exact hzero i (by simp only [idtEntrySize]; omega)
  show readGate (idtSetDescriptor (idtInitLoop stubs idt 49 mem₁ 0) idt 255 (stubs 255).toNat 0x8E)
    _ = _
  by_cases hlast : v = 255
  · subst hlast
    rw [readGate_idtSetDescriptor, if_pos (show HasGate 255 from Or.inr rfl),
      Nat.mod_eq_of_lt (stubs 255).isLt]
    rfl
  · rw [readGate_idtSetDescriptor_of_ne idt _ hlast, (idtInitLoop_spec stubs idt 49 mem₁ 0).1 v]
    by_cases hfirst : v < 49
    · rw [if_pos ⟨Nat.zero_le v, by omega⟩, if_pos (show HasGate v from Or.inl hfirst)]
    · rw [if_neg (by omega), if_neg (by unfold HasGate; omega)]
      refine readGate_of_zero fun i hi => ?_
      rw [Nat.add_assoc]
      exact hzero₁ _ (by simp only [idtEntrySize] at *; omega)

/-- `idt_init` writes to the table and to the structure for `lidt`. -/
theorem idtInitTables_of_notMem (mem : Nat → UInt8) {idtrPtr x : Nat}
    (hidt : x < idt ∨ idt + idtEntrySize * 256 ≤ x) (hptr : x < idtrPtr ∨ idtrPtr + 10 ≤ x) :
    idtInitTables stubs mem idt idtrPtr x = mem x := by
  simp only [idtEntrySize] at hidt
  simp only [idtInitTables]
  rw [idtSetDescriptor_sameOutside _ _ _ _ _ x (by simp only [idtEntrySize]; omega),
    (idtInitLoop_spec stubs idt 49 _ 0).2 x (by simp only [idtEntrySize]; omega),
    writeLE_of_notMem (by omega), writeLE_of_notMem (by omega)]

/-- `lidt` gets the address and the size of the table. -/
theorem idtInitTables_idtr (mem : Nat → UInt8) {idtrPtr : Nat} (hroom : idt < 2 ^ 64)
    (hapart : Apart idt (idtEntrySize * 256) idtrPtr 10) :
    loadTableReg (idtInitTables stubs mem idt idtrPtr) idtrPtr = ⟨idt, idtEntrySize * 256 - 1⟩ := by
  set mem₁ := writeLE (writeLE mem (idtrPtr + 2) 8 idt) idtrPtr 2 (idtEntrySize * 256 - 1) with hmem₁
  have hsame : SameAt (idtInitTables stubs mem idt idtrPtr) mem₁ idtrPtr 10 := by
    intro x hlo hhi
    simp only [Apart, idtEntrySize] at hapart
    simp only [idtInitTables]
    rw [idtSetDescriptor_sameOutside _ _ _ _ _ x (by simp only [idtEntrySize]; omega),
      (idtInitLoop_spec stubs idt 49 _ 0).2 x (by simp only [idtEntrySize]; omega)]
  rw [loadTableReg, readLE_congr (hsame.mono (by omega) (by omega)),
    readLE_congr (hsame.mono (by omega) (by omega)), hmem₁,
    readLE_writeLE_of_disjoint (by omega), readLE_writeLE_of_lt (by omega), readLE_writeLE_self]
  rfl

end

/-! ## From the tables to the stubs

The gates lead to the kernel's code segment, which `initGdt` has put there. -/

section

variable {stubs : Nat → Word} {mem : Nat → UInt8} {idt gdt tssAccess : Nat}

/-- The processor finds the stub of a vector with a gate, and nothing for the others. -/
theorem deliverThrough_eq (hidt : IdtReady stubs idt mem) (hgdt : GdtReady mem gdt tssAccess)
    (hacc : IsTssAccess tssAccess) {cpu : Cpu} (hcpu : cpu.isrStubTable = stubs) (m : Machine)
    {vector : Nat} (hv : vector < 256) (errorCode : Word) :
    deliverThrough mem ⟨idt, idtEntrySize * 256 - 1⟩ (gdtrOf gdt) m vector errorCode
      = if HasGate vector then .ok (deliver cpu m vector errorCode)
        else .error .generalProtection := by
  have hlimit : ¬ idtEntrySize * 256 - 1 < idtEntrySize * vector + 15 := by
    simp only [idtEntrySize]
    omega
  unfold deliverThrough
  rw [if_neg hlimit]
  dsimp only
  rw [hidt vector hv]
  by_cases hgate : HasGate vector
  · -- a gate that is present: an interrupt gate of the kernel's code segment, on the current stack
    have hcode := (hgdt.codeLoads_iff hacc 0x08 0).mpr ⟨rfl, rfl⟩
    have hselector : BitVec.ofNat 16 (stubGate stubs vector).selector = 0x08 := rfl
    have hkind : ¬ ((stubGate stubs vector).attributes % 32 ≠ 0x0E ∨
        (stubGate stubs vector).ist ≠ 0) := by
      rintro (hattr | hist)
      · exact hattr (show 0x8E % 32 = 0x0E by decide)
      · exact hist rfl
    have hpresent : (stubGate stubs vector).attributes.testBit 7 = true := by
      show Nat.testBit 0x8E 7 = true
      decide
    have hoffset : BitVec.ofNat 64 (stubGate stubs vector).offset = stubs vector := by
      show BitVec.ofNat 64 (stubs vector).toNat = stubs vector
      rw [BitVec.ofNat_toNat, BitVec.setWidth_eq]
    rw [if_pos hgate, if_pos hgate, if_neg hkind, hpresent, hselector, hcode, hoffset]
    rw [deliver, hcpu]
    rfl
  · -- a gate that was never set is no gate at all, as its type is 0
    rw [if_neg hgate, if_neg hgate]
    exact if_pos (Or.inl (by decide))

/-- **Interrupts reach their stubs.** After `initGdt` and `idt_init`, wherever the tables lie and
whatever the stubs' addresses are, the processor takes an interrupt with one of the vectors 0 to 48
and 255 to its stub, in the kernel's code segment, and raises a general protection fault for every
other vector. -/
theorem interrupts_reach_stubs (cpu : Cpu) (mem₀ : Nat → UInt8) {idtrPtr : Nat}
    (hgdt : gdt + YoixGdt.size ≤ 2 ^ 64) (hidt : idt < 2 ^ 64)
    (hzero : ∀ i < idtEntrySize * 256, mem₀ (idt + i) = 0)
    (hgdtIdt : Apart gdt YoixGdt.size idt (idtEntrySize * 256))
    (hgdtPtr : Apart gdt YoixGdt.size idtrPtr 10)
    (hidtPtr : Apart idt (idtEntrySize * 256) idtrPtr 10)
    (reloadCs ret₁ ret₂ : Word) (m₀ : Machine) :
    ∃ l, initGdt mem₀ gdt reloadCs ret₁ ret₂ m₀ = .ok l ∧
      ∀ (m : Machine) (vector : Nat) (errorCode : Word), vector < 256 →
        deliverThrough (idtInitTables cpu.isrStubTable l.mem idt idtrPtr)
          (loadTableReg (idtInitTables cpu.isrStubTable l.mem idt idtrPtr) idtrPtr) l.gdtr m vector
          errorCode
        = if HasGate vector then .ok (deliver cpu m vector errorCode)
          else .error .generalProtection := by
  obtain ⟨l, hrun, hl⟩ := initGdt_spec mem₀ hgdt reloadCs ret₁ ret₂ m₀
  refine ⟨l, hrun, fun m vector errorCode hv => ?_⟩
  simp only [Apart, YoixGdt.size, idtEntrySize] at hgdtIdt hgdtPtr
  have hzero' : ∀ i < idtEntrySize * 256, l.mem (idt + i) = 0 := by
    intro i hi
    rw [hl.outside _ (by simp only [YoixGdt.size, idtEntrySize] at *; omega)]
    exact hzero i hi
  have hready : GdtReady (idtInitTables cpu.isrStubTable l.mem idt idtrPtr) gdt 0x8B := by
    refine hl.ready.congr fun x hlo hhi => ?_
    simp only [YoixGdt.entry] at hlo hhi
    exact idtInitTables_of_notMem _ _ _ (by simp only [idtEntrySize]; omega) (by omega)
  rw [hl.gdtr, idtInitTables_idtr _ _ _ hidt hidtPtr]
  exact deliverThrough_eq (idtInitTables_ready _ _ hzero' hidtPtr) hready (Or.inr rfl) rfl m hv errorCode

/-- The timer interrupt of the idle kernel is delivered as it is without the tables. -/
theorem interrupts_reach_stubs_idle :
    ∃ l, initGdt (fun _ => 0) 0xFFFFFFFF80010000 0xFFFFFFFF80000100 0xFFFFFFFF80000200
        0xFFFFFFFF80000205 idleMachine = .ok l ∧
      deliverThrough (idtInitTables plainCpu.isrStubTable l.mem 0xFFFFFFFF80020000 0xFFFFFFFF80030000)
        (loadTableReg (idtInitTables plainCpu.isrStubTable l.mem 0xFFFFFFFF80020000
          0xFFFFFFFF80030000) 0xFFFFFFFF80030000) l.gdtr idleMachine 0x20 0
        = .ok (deliver plainCpu idleMachine 0x20 0) := by
  obtain ⟨l, hrun, hgates⟩ := interrupts_reach_stubs plainCpu (fun _ => 0)
    (show 0xFFFFFFFF80010000 + YoixGdt.size ≤ 2 ^ 64 by decide)
    (show 0xFFFFFFFF80020000 < 2 ^ 64 by decide) (fun _ _ => rfl) (Or.inl (by decide))
    (show Apart _ _ 0xFFFFFFFF80030000 10 from Or.inl (by decide)) (Or.inl (by decide))
    0xFFFFFFFF80000100 0xFFFFFFFF80000200 0xFFFFFFFF80000205 idleMachine
  refine ⟨l, hrun, ?_⟩
  rw [hgates idleMachine 0x20 0 (by decide), if_pos (show HasGate 0x20 from Or.inl (by decide))]

end

end Yoix
