import Yoix.Interrupt.Stubs

/-!
# Exception frames

A stub and the processor have to agree on who pushes the error code. Where they do, the handler
gets a structure whose fields are what they are called, and the code behind the call ends at the
frame of the processor (`frameDecodes_of_agree`). The stubs of vectors 21 and 29 push a 0 although
the processor pushes an error code for these, so everything behind the vector is one word off
(`frameDecodes_iff`).

What the compiled handler leaves behind is not fixed: `AbiReturn` is what its calling convention
promises, together with the frame being left alone.
-/

namespace Yoix

open Stack

/-! ## The call

What the compiled handler may change and what it has to bring back, as the calling convention has
it. -/

/-- The registers that a function of the System V ABI preserves. -/
def calleeSaved : List Reg := [.rbx, .rbp, .r12, .r13, .r14, .r15]

/-- What the handler leaves when it returns, `c` being the state at its first instruction: the
return address is off the stack, the preserved registers are as they were, and so is the structure
that `rdi` pointed to. -/
structure AbiReturn (c h : Machine) : Prop where
  rsp : h.rsp = c.rsp + 8
  calleeSaved : ∀ r ∈ calleeSaved, h.gpr r = c.gpr r
  frame : ∀ i < registersSize, h.mem (slot (c.gpr .rdi) i) = c.mem (slot (c.gpr .rdi) i)

section

variable {e h : Machine} {ws : List Word} {ret : Word}

/-- The return address lies below the words that were on the stack. -/
theorem call_holds (hholds : Holds e.mem e.rsp ws) (hlen : ws.length < 2 ^ 60) (ret : Word) :
    Holds (e.push ret).mem e.rsp ws := by
  have htail := (hholds.push hlen ret).tail
  rwa [show e.rsp - 8 + 8 = e.rsp from by bv_omega] at htail

/-- Behind the call the stack pointer is as before it, and the structure is still there. -/
theorem AbiReturn.holds (hreturn : AbiReturn (e.push ret) h) (hrdi : e.gpr .rdi = e.rsp)
    (hholds : Holds e.mem e.rsp ws) (hlen : ws.length < 2 ^ 60) :
    h.rsp = e.rsp ∧ Holds h.mem h.rsp (ws.take registersSize) := by
  have hrsp : h.rsp = e.rsp := by
    rw [hreturn.rsp]
    show e.rsp - 8 + 8 = e.rsp
    bv_omega
  refine ⟨hrsp, ?_⟩
  rw [hrsp]
  have hcall : Holds (e.push ret).mem e.rsp (ws.take registersSize) := by
    intro i v hv
    obtain ⟨hi, -⟩ := List.getElem?_eq_some_iff.mp hv
    rw [List.length_take] at hi
    rw [List.getElem?_take_of_lt (by omega)] at hv
    exact call_holds hholds hlen ret i v hv
  refine hcall.congr fun i hi => ?_
  rw [List.length_take] at hi
  have hframe := hreturn.frame i (by omega)
  rwa [show (e.push ret).gpr .rdi = e.rsp from hrdi] at hframe

end

/-! ## The structure

The fields of `Registers` are the words that the processor and the stub have pushed, in this order.
-/

/-- The structure that the handler gets when it is called in state `e`. -/
def handlerArg (cpu : Cpu) (e : Machine) : Registers :=
  let c := e.push cpu.returnAddress
  Registers.read c.mem (c.gpr .rdi)

/-- The fields of the structure, when the words on the stack are these. -/
structure Registers.Are (reg : Registers) (m : Machine) (vectors errorcode : Word) : Prop where
  ds : reg.ds = (m.seg .ds).setWidth 64
  regs : ∀ r, reg.reg r = m.gpr r
  vectors : reg.vectors = vectors
  errorcode : reg.errorcode = errorcode
  rip : reg.rip = m.rip
  cs : reg.cs = m.cs.setWidth 64
  rflags : reg.rflags = m.rflags
  rsp : reg.rsp = m.rsp
  ss : reg.ss = m.ss.setWidth 64

/-- Read from its first word on, a stack with two words between the registers and the frame is the
structure. -/
theorem Registers.read_are {m : Machine} {mem : Word → Word} {p v ec : Word}
    (h : Holds mem p ((m.seg .ds).setWidth 64 ::
      ((pushOrder.map m.gpr).reverse ++ [v, ec] ++ m.frameWords))) :
    (Registers.read mem p).Are m v ec where
  ds := h 0 _ rfl
  regs r := by
    cases r with
    | rax => exact h 15 _ rfl
    | rbx => exact h 14 _ rfl
    | rcx => exact h 13 _ rfl
    | rdx => exact h 12 _ rfl
    | rsi => exact h 11 _ rfl
    | rdi => exact h 10 _ rfl
    | rbp => exact h 9 _ rfl
    | r8 => exact h 8 _ rfl
    | r9 => exact h 7 _ rfl
    | r10 => exact h 6 _ rfl
    | r11 => exact h 5 _ rfl
    | r12 => exact h 4 _ rfl
    | r13 => exact h 3 _ rfl
    | r14 => exact h 2 _ rfl
    | r15 => exact h 1 _ rfl
  vectors := h 16 _ rfl
  errorcode := h 17 _ rfl
  rip := h 18 _ rfl
  cs := h 19 _ rfl
  rflags := h 20 _ rfl
  rsp := h 21 _ rfl
  ss := h 22 _ rfl

/-! ## Stubs that agree with the processor

A stub pushes an error code of its own exactly where the processor pushes none. Two of them do not.
-/

/-- The error code in the frame of a vector. -/
def frameErrorCode (vector : Nat) (errorCode : Word) : Word :=
  if pushesErrorCode vector then errorCode else 0

/-- Exactly one of the stub and the processor pushes an error code. -/
def StubAgrees (vector : Nat) : Prop :=
  if pushesErrorCode vector then stubKind vector = .err else stubKind vector = .noErr

instance (vector : Nat) : Decidable (StubAgrees vector) :=
  inferInstanceAs (Decidable (if pushesErrorCode vector then stubKind vector = .err
    else stubKind vector = .noErr))

/-- Under the saved registers are the vector and an error code. -/
theorem stubWords_of_agree {vector : Nat} (h : StubAgrees vector) (errorCode : Word) :
    stubWords vector errorCode
      = [BitVec.ofNat 64 vector, frameErrorCode vector errorCode] := by
  unfold StubAgrees at h
  unfold stubWords cpuWords frameErrorCode
  split at h
  · next hpush => rw [h, if_pos hpush, if_pos hpush]
  · next hpush => rw [h, if_neg hpush, if_neg hpush]

theorem registers_of_agree (cpu : Cpu) (m : Machine) {vector : Nat} (h : StubAgrees vector)
    (errorCode : Word) {e : Machine}
    (hholds : Holds e.mem e.rsp (savedWords m vector errorCode ++ m.frameWords))
    (hrdi : e.gpr .rdi = e.rsp) :
    (handlerArg cpu e).Are m (BitVec.ofNat 64 vector) (frameErrorCode vector errorCode) := by
  have hcall := call_holds hholds (by
    rw [savedWords, stubWords_of_agree h]
    simp [pushOrder, Machine.frameWords]) cpu.returnAddress
  rw [savedWords, stubWords_of_agree h, ← hrdi] at hcall
  exact Registers.read_are hcall

/-! ## Exceptions

With a stub that agrees the handler reads the vector, the error code and the frame. With the others
all fields are shifted by one word. -/

/-- For an exception with this error code, the handler gets the vector, the error code and the
interrupted state, and the code behind the call leaves `rsp` at the frame of the processor. -/
def FrameDecodes (cpu : Cpu) (m : Machine) (vector : Nat) (errorCode : Word) : Prop :=
  ∃ e, run cpu (deliver cpu m vector errorCode) (isrEntry vector) = some e ∧
    let reg := handlerArg cpu e
    reg.vectors = BitVec.ofNat 64 vector ∧
      reg.errorcode = frameErrorCode vector errorCode ∧
      (reg.rip = m.rip ∧ reg.cs = m.cs.setWidth 64 ∧ reg.rflags = m.rflags ∧ reg.rsp = m.rsp ∧
        reg.ss = m.ss.setWidth 64) ∧
      ∀ h, AbiReturn (e.push cpu.returnAddress) h →
        ∃ t, run cpu h isrUnwind = some t ∧ t.rsp = m.returnFrame

theorem setWidth_selector (sel : Selector) : (sel.setWidth 64).setWidth 16 = sel := by
  apply BitVec.eq_of_toNat_eq
  rw [BitVec.toNat_setWidth, BitVec.toNat_setWidth]
  omega

/-- Behind the call the registers are restored, and the stack pointer ends 18 words above the
structure, with what the structure holds from there on still on the stack. -/
theorem AbiReturn.unwind {cpu : Cpu} {m e h : Machine} {vector : Nat} {errorCode : Word}
    (hreturn : AbiReturn (e.push cpu.returnAddress) h)
    (hholds : Holds e.mem e.rsp (savedWords m vector errorCode ++ m.frameWords))
    (hrdi : e.gpr .rdi = e.rsp) :
    ∃ t, run cpu h isrUnwind = some t ∧ t.gpr = m.gpr ∧ (∀ s, t.seg s = m.seg .ds) ∧
      Holds t.mem t.rsp (((stubWords vector errorCode ++ m.frameWords).take 7).drop 2) ∧
      t.rsp = slot e.rsp 18 ∧ t.vars = h.vars := by
  have hlen := length_stubWords vector errorCode
  obtain ⟨hrsp, hstack⟩ := hreturn.holds hrdi hholds (by
    simp only [savedWords, List.length_append, List.length_cons, List.length_reverse,
      List.length_map]
    show 15 + _ + 1 + 5 < 2 ^ 60
    omega)
  have htake : (savedWords m vector errorCode ++ m.frameWords).take registersSize
      = (m.seg .ds).setWidth 64 :: ((pushOrder.map m.gpr).reverse
          ++ (stubWords vector errorCode ++ m.frameWords).take 7) := by
    rw [savedWords, List.cons_append, List.append_assoc]
    rfl
  rw [htake] at hstack
  obtain ⟨t, hrun, hgpr, hseg, hmem, ht, hvars⟩ := run_isrUnwind cpu hstack
  refine ⟨t, hrun, hgpr, fun s => ?_, ?_, by rw [ht, hrsp], hvars⟩
  · rw [hseg, setWidth_selector]
  · have hrest : Holds h.mem (slot h.rsp 18) _ := hstack.drop
    rw [hmem, ht]
    exact hrest

theorem frameDecodes_of_agree (cpu : Cpu) (m : Machine) {vector : Nat} (h : StubAgrees vector)
    (errorCode : Word) : FrameDecodes cpu m vector errorCode := by
  obtain ⟨e, hrun, hholds, hframe, hrdi, -⟩ := run_isrEntry cpu m vector errorCode
  have hare := registers_of_agree cpu m h errorCode hholds hrdi
  refine ⟨e, hrun, hare.vectors, hare.errorcode,
    ⟨hare.rip, hare.cs, hare.rflags, hare.rsp, hare.ss⟩, fun h' hreturn => ?_⟩
  obtain ⟨t, hunwind, -, -, -, ht, -⟩ := hreturn.unwind hholds hrdi
  refine ⟨t, hunwind, ?_⟩
  rw [ht, ← hframe, savedWords, stubWords_of_agree h]
  rfl

/-- With a stub that pushes a 0 on top of an error code the stack pointer ends one word below the
frame, in every state. -/
theorem not_frameDecodes (cpu : Cpu) (m : Machine) {vector : Nat} (hkind : stubKind vector = .noErr)
    (hpush : pushesErrorCode vector = true) (errorCode : Word) :
    ¬ FrameDecodes cpu m vector errorCode := by
  rintro ⟨e', hrun', -, -, -, hunwind'⟩
  obtain ⟨e, hrun, hholds, hframe, hrdi, -⟩ := run_isrEntry cpu m vector errorCode
  obtain rfl : e' = e := Option.some.inj (hrun'.symm.trans hrun)
  -- a handler that only returns
  let c := e'.push cpu.returnAddress
  have hreturn : AbiReturn c { c with rsp := c.rsp + 8 } :=
    ⟨rfl, fun _ _ => rfl, fun _ _ => rfl⟩
  obtain ⟨t', hrun₁, ht'⟩ := hunwind' _ hreturn
  obtain ⟨t, hrun₂, -, -, -, ht, -⟩ := hreturn.unwind hholds hrdi
  obtain rfl : t' = t := Option.some.inj (hrun₁.symm.trans hrun₂)
  have hwords : (savedWords m vector errorCode).length = 19 := by
    rw [savedWords, stubWords, hkind, cpuWords, if_pos hpush]
    rfl
  rw [hwords] at hframe
  rw [ht, ← hframe] at ht'
  simp only [slot] at ht'
  bv_omega

/-- The frame of every exception but 21 and 29 is decoded, in every state and for every error
code. -/
theorem frameDecodes_iff (cpu : Cpu) (m : Machine) (vector : Fin 32) (errorCode : Word) :
    FrameDecodes cpu m vector errorCode ↔ vector ≠ 21 ∧ vector ≠ 29 := by
  have hagree : ∀ v : Fin 32, v ≠ 21 ∧ v ≠ 29 → StubAgrees v := by decide
  have hwrong : ∀ v : Fin 32, ¬ (v ≠ 21 ∧ v ≠ 29) →
      stubKind v = .noErr ∧ pushesErrorCode v = true := by decide
  constructor
  · intro h
    by_contra hv
    obtain ⟨hkind, hpush⟩ := hwrong vector hv
    exact not_frameDecodes cpu m hkind hpush errorCode h
  · intro hv
    exact frameDecodes_of_agree cpu m (hagree vector hv) errorCode

/-- A handler that changes `rax` and the variables of the kernel, and returns. -/
def plainHandler (c : Machine) : Option Machine :=
  (interruptHandler (Registers.read c.mem (c.gpr .rdi)) c.vars).map fun vars =>
    { c.setReg .rax 0 with rsp := c.rsp + 8, vars }

def plainCpu : Cpu where
  isrStubTable := fun vector => 0xFFFFFFFF80001000 + BitVec.ofNat 64 (16 * vector)
  flagsAfter := fun _ m => m.rflags
  returnAddress := 0xFFFFFFFF80000100
  handler := plainHandler

/-- The kernel in its idle loop, with interrupts enabled. -/
def idleMachine : Machine where
  gpr := fun _ => 0
  rsp := 0xFFFF800000008008
  rip := 0xFFFFFFFF80002000
  rflags := 0x202
  seg := fun _ => 0x10
  cs := 0x08
  ss := 0x10
  mem := fun _ => 0
  rsp0 := 0
  vars := ⟨0, [], 0xFFFF8000FEE00000⟩

/-- A control protection exception with error code 3 is not decoded. -/
theorem controlProtection_not_decoded : ¬ FrameDecodes plainCpu idleMachine 21 3 :=
  not_frameDecodes plainCpu idleMachine (by decide) (by decide) 3

end Yoix
