import Yoix.Interrupt.Frames

/-!
# Hardware interrupts

The interrupts of the hardware have the vectors 32 to 47. Their handler counts the ticks of the timer
and acknowledges the interrupt, and returns. The interrupted code then goes on as if nothing had
happened: its registers, its selectors, its flags and its stack are what they were
(`takeIrq_spec`). `isr_common` saves only one of the four data selectors, so this needs them to be
equal, as `reloadSegments` makes them. A run in which interrupts are taken between steps of other code
counts the timer interrupts (`IrqRun.tick`).
-/

namespace Yoix

open Stack

/-- A vector of a hardware interrupt. -/
def IsIrq (vector : Nat) : Prop := 32 ≤ vector ∧ vector < 48

/-- No error code is pushed for a hardware interrupt. -/
def takeIrq (cpu : Cpu) (m : Machine) (vector : Nat) : Option Machine :=
  takeInterrupt cpu m vector 0

/-- The compiled handler does what `interrupt_handler` says with the structure that `rdi` points to,
follows the System V ABI and leaves that structure alone. -/
def HandlerCompiled (cpu : Cpu) : Prop :=
  ∀ (c : Machine) (vars : KernelVars),
    interruptHandler (Registers.read c.mem (c.gpr .rdi)) c.vars = some vars →
    ∃ h, cpu.handler c = some h ∧ AbiReturn c h ∧ h.vars = vars

/-- The data selectors are equal. -/
def SameSegments (m : Machine) : Prop := ∀ s, m.seg s = m.seg .ds

/-- The variables of the kernel after an interrupt: a tick for the timer, and one end of interrupt
for the local APIC. -/
def irqVars (vector : Nat) (vars : KernelVars) : KernelVars where
  tick := if vector = 0x20 then vars.tick + 1 else vars.tick
  stores := vars.stores ++ [((vars.gVirtApic + 0xB0) % 2 ^ 64, 0)]
  gVirtApic := vars.gVirtApic

/-- The interrupted state is back, but for the variables of the kernel and the memory below the
stack. -/
structure Resumed (m m' : Machine) (vector : Nat) : Prop where
  gpr : m'.gpr = m.gpr
  seg : m'.seg = m.seg
  rip : m'.rip = m.rip
  cs : m'.cs = m.cs
  rflags : m'.rflags = m.rflags
  rsp : m'.rsp = m.rsp
  ss : m'.ss = m.ss
  vars : m'.vars = irqVars vector m.vars

/-! ## The handler

For a hardware interrupt it counts a tick or nothing, acknowledges the interrupt and returns. -/

/-- The handler ends for a hardware interrupt, with one store that acknowledges it. -/
theorem interruptHandler_irq {vector : Nat} (hv : IsIrq vector) {reg : Registers}
    (hreg : reg.vectors = BitVec.ofNat 64 vector) (vars : KernelVars) :
    interruptHandler reg vars = some (irqVars vector vars) := by
  obtain ⟨hlow, hhigh⟩ := hv
  have hirq : reg.vectors > 31 ∧ reg.vectors < 48 := by
    rw [hreg]
    constructor
    · bv_omega
    · bv_omega
  have hno : ¬ reg.vectors < 32 := by
    rw [hreg]
    bv_omega
  have htimer : (reg.vectors = 0x20) ↔ vector = 0x20 := by
    rw [hreg]
    constructor
    · intro h
      bv_omega
    · rintro rfl
      rfl
  rw [interruptHandler]
  simp only [if_pos hirq, if_neg hno]
  congr 1
  simp only [irqHandler, htimer, irqVars]
  split
  · rfl
  · rfl

theorem irq_stubAgrees {vector : Nat} (hv : IsIrq vector) : StubAgrees vector := by
  have hall : ∀ v < 48, 32 ≤ v → StubAgrees v := by decide
  exact hall vector hv.2 hv.1

/-- A stub with a call: its pushes, the call, its pops and `iretq`. -/
theorem isrStub_eq {vector : Nat} (h : stubKind vector ≠ .reserved) :
    isrStub vector = isrEntry vector ++ .callHandler :: (isrUnwind ++ [.iretq]) := by
  have hstub : isrStub vector = stubPushes vector ++ isrCommon := by
    unfold isrStub
    split
    · next hkind => exact absurd hkind h
    · rfl
  rw [hstub, isrCommon, isrEntry, List.append_assoc]

theorem irq_stubKind {vector : Nat} (hv : IsIrq vector) : stubKind vector ≠ .reserved := by
  have hall : ∀ v < 48, stubKind v ≠ .reserved := by decide
  exact hall vector hv.2

/-! ## One interrupt

Delivery, the stub, the handler and `iretq`, from one instruction of the interrupted code to the
next. -/

/-- `iretq` on the frame of an interrupted state takes it back. -/
theorem iretq_of_holds {m t : Machine} (h : Holds t.mem t.rsp m.frameWords) :
    t.iretq.rip = m.rip ∧ t.iretq.cs = m.cs ∧ t.iretq.rflags = m.rflags ∧ t.iretq.rsp = m.rsp ∧
      t.iretq.ss = m.ss := by
  refine ⟨h 0 _ rfl, ?_, h 2 _ rfl, h 3 _ rfl, ?_⟩
  · show (t.mem (slot t.rsp 1)).setWidth 16 = m.cs
    rw [h 1 _ rfl, setWidth_selector]
  · show (t.mem (slot t.rsp 4)).setWidth 16 = m.ss
    rw [h 4 _ rfl, setWidth_selector]

/-- The handler is given the interrupted state, and the interrupted code goes on. -/
theorem takeIrq_spec {cpu : Cpu} (hcpu : HandlerCompiled cpu) {m : Machine} {vector : Nat}
    (hv : IsIrq vector) (hseg : SameSegments m) :
    ∃ e m', run cpu (deliver cpu m vector 0) (isrEntry vector) = some e ∧
      (handlerArg cpu e).Are m (BitVec.ofNat 64 vector) 0 ∧
      takeIrq cpu m vector = some m' ∧ Resumed m m' vector := by
  have hagree := irq_stubAgrees hv
  have hpush : frameErrorCode vector 0 = 0 := ite_self 0
  obtain ⟨e, hentry, hholds, -, hrdi, hvars⟩ := run_isrEntry cpu m vector 0
  have hare := registers_of_agree cpu m hagree 0 hholds hrdi
  rw [hpush] at hare
  -- the handler returns, with the structure still on the stack
  have hhandler := interruptHandler_irq hv hare.vectors (e.push cpu.returnAddress).vars
  obtain ⟨h, hcall, hreturn, hhvars⟩ := hcpu _ _ hhandler
  obtain ⟨t, hunwind, htgpr, htseg, hframe, -, htvars⟩ := hreturn.unwind hholds hrdi
  rw [stubWords_of_agree hagree] at hframe
  obtain ⟨hrip, hcs, hrflags, hrspm, hss⟩ := iretq_of_holds hframe
  refine ⟨e, t.iretq, hentry, hare, ?_, ?_⟩
  · rw [takeIrq, takeInterrupt, isrStub_eq (irq_stubKind hv), run_append, hentry, Option.bind_some,
      run, exec, hcall, Option.bind_some, run_append, hunwind, Option.bind_some]
    rfl
  · refine ⟨htgpr, ?_, hrip, hcs, hrflags, hrspm, hss, ?_⟩
    · funext s
      show t.seg s = m.seg s
      rw [htseg, hseg s]
    · show t.vars = irqVars vector m.vars
      rw [htvars, hhvars]
      show irqVars vector e.vars = _
      rw [hvars]

/-! ## Runs -/

/-- A run of the machine: interrupts are taken in this order, between steps of other code, which
leaves `tick` alone. -/
inductive IrqRun (cpu : Cpu) : Machine → List Nat → Machine → Prop where
  | done (m : Machine) : IrqRun cpu m [] m
  | code {m m₁ m' : Machine} {vectors : List Nat} (htick : m₁.vars.tick = m.vars.tick)
      (hrest : IrqRun cpu m₁ vectors m') : IrqRun cpu m vectors m'
  | irq {m m₁ m' : Machine} {vector : Nat} {vectors : List Nat} (hv : IsIrq vector)
      (hseg : SameSegments m) (htake : takeIrq cpu m vector = some m₁)
      (hrest : IrqRun cpu m₁ vectors m') : IrqRun cpu m (vector :: vectors) m'

/-- One interrupt adds 1 to `tick` when it is the timer's. -/
theorem takeIrq_tick {cpu : Cpu} (hcpu : HandlerCompiled cpu) {m m' : Machine} {vector : Nat}
    (hv : IsIrq vector) (hseg : SameSegments m) (htake : takeIrq cpu m vector = some m') :
    m'.vars.tick = m.vars.tick + BitVec.ofNat 64 ([vector].count 0x20) := by
  obtain ⟨e, m'', -, -, htake', hresumed⟩ := takeIrq_spec hcpu hv hseg
  obtain rfl : m'' = m' := Option.some.inj (htake'.symm.trans htake)
  rw [hresumed.vars, irqVars]
  by_cases htimer : vector = 0x20
  · simp [htimer]
  · simp [htimer]

/-- `tick` counts the interrupts of the timer, modulo `2 ^ 64`. -/
theorem IrqRun.tick {cpu : Cpu} (hcpu : HandlerCompiled cpu) {m m' : Machine}
    {vectors : List Nat} (h : IrqRun cpu m vectors m') :
    m'.vars.tick = m.vars.tick + BitVec.ofNat 64 (vectors.count 0x20) := by
  induction h with
  | done m => simp
  | code htick _ ih => rw [ih, htick]
  | @irq m m₁ m' vector vectors hv hseg htake _ ih =>
    have hcount : (vector :: vectors).count 0x20 = [vector].count 0x20 + vectors.count 0x20 := by
      rw [← List.count_append, List.singleton_append]
    rw [ih, takeIrq_tick hcpu hv hseg htake, hcount, BitVec.ofNat_add, BitVec.add_assoc]

/-- A handler that does nothing beyond what the source says is one that was compiled from it. -/
theorem plainCpu_compiled : HandlerCompiled plainCpu := by
  intro c vars hvars
  refine ⟨{ c.setReg .rax 0 with rsp := c.rsp + 8, vars }, ?_, ⟨rfl, ?_, fun _ _ => rfl⟩, rfl⟩
  · show plainHandler c = _
    rw [plainHandler, hvars, Option.map_some]
  · intro r hr
    refine Function.update_of_ne ?_ _ _
    rintro rfl
    exact absurd hr (by decide)

end Yoix
