import Yoix.Interrupt.Machine

/-!
# The interrupt stubs (`system/interrupt/asm/idt.asm`, `idt.c` and `idt.h`)

Every vector has a stub. It pushes what the processor did not push, so that there is an error code
and a vector on top of the interrupt frame, and goes on to `isr_common`, which saves the registers,
calls `interrupt_handler` with a pointer to all that was pushed, and undoes its pushes.

* `run_isrEntry`: what is on the stack when the handler is called, for every stub.
* `run_isrUnwind`: what the code behind the call does with such a stack.
-/

namespace Yoix

open Stack

/-! ## Code -/

/-- The order in which `isr_common` pushes the general registers. -/
def pushOrder : List Reg :=
  [.rax, .rbx, .rcx, .rdx, .rsi, .rdi, .rbp, .r8, .r9, .r10, .r11, .r12, .r13, .r14, .r15]

/-- The order in which it pops them. -/
def popOrder : List Reg :=
  [.r15, .r14, .r13, .r12, .r11, .r10, .r9, .r8, .rbp, .rdi, .rsi, .rdx, .rcx, .rbx, .rax]

/-- `isr_common` behind its pushes, up to the call. -/
def isrSwitch : List Instr :=
  [.xorRax, .movAxSeg .ds, .pushReg .rax, .movAxImm 0x10, .movSegAx .ds, .movSegAx .es,
    .movSegAx .fs, .movSegAx .gs, .movRdiRsp]

/-- `isr_common` up to the call. -/
def isrSave : List Instr := pushOrder.map .pushReg ++ isrSwitch

/-- `isr_common` behind the call, up to the `iretq`. -/
def isrUnwind : List Instr :=
  [.popReg .rax, .movSegAx .ds, .movSegAx .es, .movSegAx .fs, .movSegAx .gs]
    ++ (popOrder.map .popReg ++ [.addRsp 16])

def isrCommon : List Instr := isrSave ++ .callHandler :: (isrUnwind ++ [.iretq])

/-- The macros that the stubs are made with. -/
inductive StubKind where
  | err
  | noErr
  | reserved
  deriving DecidableEq, Repr

/-- The macro of each stub. -/
def stubKind (vector : Nat) : StubKind :=
  if vector ∈ [8, 10, 11, 12, 13, 14, 17, 30] then .err
  else if vector < 48 then .noErr
  else .reserved

/-- The pushes of a stub. -/
def stubPushes (vector : Nat) : List Instr :=
  match stubKind vector with
  | .err => [.pushImm (BitVec.ofNat 64 vector)]
  | .noErr => [.pushImm 0, .pushImm (BitVec.ofNat 64 vector)]
  | .reserved => []

def isrStub (vector : Nat) : List Instr :=
  match stubKind vector with
  | .reserved => [.iretq]
  | _ => stubPushes vector ++ isrCommon

/-- A stub up to the call. -/
def isrEntry (vector : Nat) : List Instr := stubPushes vector ++ isrSave

/-- The interrupt from the moment it is taken until the stub has returned. -/
def takeInterrupt (cpu : Cpu) (m : Machine) (vector : Nat) (errorCode : Word) : Option Machine :=
  run cpu (deliver cpu m vector errorCode) (isrStub vector)

/-! ## The argument of the handler

The handler gets a pointer to the saved registers, which is a structure on the stack. -/

/-- `Registers`. -/
structure Registers where
  ds : Word
  r15 : Word
  r14 : Word
  r13 : Word
  r12 : Word
  r11 : Word
  r10 : Word
  r9 : Word
  r8 : Word
  rbp : Word
  rdi : Word
  rsi : Word
  rdx : Word
  rcx : Word
  rbx : Word
  rax : Word
  vectors : Word
  errorcode : Word
  rip : Word
  cs : Word
  rflags : Word
  rsp : Word
  ss : Word
  deriving DecidableEq, Repr

/-- The number of its words. -/
abbrev registersSize : Nat := 23

namespace Registers

/-- The structure at an address. -/
def read (mem : Word → Word) (p : Word) : Registers where
  ds := mem (slot p 0)
  r15 := mem (slot p 1)
  r14 := mem (slot p 2)
  r13 := mem (slot p 3)
  r12 := mem (slot p 4)
  r11 := mem (slot p 5)
  r10 := mem (slot p 6)
  r9 := mem (slot p 7)
  r8 := mem (slot p 8)
  rbp := mem (slot p 9)
  rdi := mem (slot p 10)
  rsi := mem (slot p 11)
  rdx := mem (slot p 12)
  rcx := mem (slot p 13)
  rbx := mem (slot p 14)
  rax := mem (slot p 15)
  vectors := mem (slot p 16)
  errorcode := mem (slot p 17)
  rip := mem (slot p 18)
  cs := mem (slot p 19)
  rflags := mem (slot p 20)
  rsp := mem (slot p 21)
  ss := mem (slot p 22)

/-- The field that has the name of a register. -/
def reg (r : Registers) : Reg → Word
  | .rax => r.rax
  | .rbx => r.rbx
  | .rcx => r.rcx
  | .rdx => r.rdx
  | .rsi => r.rsi
  | .rdi => r.rdi
  | .rbp => r.rbp
  | .r8 => r.r8
  | .r9 => r.r9
  | .r10 => r.r10
  | .r11 => r.r11
  | .r12 => r.r12
  | .r13 => r.r13
  | .r14 => r.r14
  | .r15 => r.r15

end Registers

def irqHandler (reg : Registers) (vars : KernelVars) : KernelVars :=
  if reg.vectors = 0x20 then { vars with tick := vars.tick + 1 } else vars

/-- `interrupt_handler`; `none` when it halts the processor. -/
def interruptHandler (reg : Registers) (vars : KernelVars) : Option KernelVars :=
  let vars :=
    if reg.vectors > 31 ∧ reg.vectors < 48 then
      let vars := irqHandler reg vars
      { vars with stores := apicEoi vars.stores vars.gVirtApic }
    else vars
  if reg.vectors < 32 then none else some vars

/-! ## Pushes -/

/-- The frame that the processor returns with, as words. -/
def Machine.frameWords (m : Machine) : List Word :=
  [m.rip, m.cs.setWidth 64, m.rflags, m.rsp, m.ss.setWidth 64]

/-- The address of that frame. -/
def Machine.returnFrame (m : Machine) : Word := m.frameBase - 40

/-- In the state `d` the words `ws` are on the stack on top of the frame of the interrupted state
`m`, and the registers are still those of `m`. -/
structure OnStack (m d : Machine) (ws : List Word) : Prop where
  holds : Holds d.mem d.rsp (ws ++ m.frameWords)
  frame : slot d.rsp ws.length = m.returnFrame
  gpr : d.gpr = m.gpr
  seg : d.seg = m.seg
  vars : d.vars = m.vars

/-- The words that the processor pushes on top of the frame. -/
def cpuWords (vector : Nat) (errorCode : Word) : List Word :=
  if pushesErrorCode vector then [errorCode] else []

/-- The words between the registers and the frame: the vector, the 0 that a stub pushes in place of
an error code, and the error code that the processor pushes. -/
def stubWords (vector : Nat) (errorCode : Word) : List Word :=
  match stubKind vector with
  | .err => BitVec.ofNat 64 vector :: cpuWords vector errorCode
  | .noErr => BitVec.ofNat 64 vector :: 0 :: cpuWords vector errorCode
  | .reserved => cpuWords vector errorCode

section

variable {m d : Machine} {ws : List Word}

/-- A push puts its word on top, and leaves the others and the frame as they were. -/
theorem OnStack.push (h : OnStack m d ws) (hlen : ws.length < 2 ^ 59) (v : Word) :
    OnStack m (d.push v) (v :: ws) where
  holds := h.holds.push (by
    rw [List.length_append]
    show ws.length + 5 < 2 ^ 60
    omega) v
  frame := by
    show slot (d.rsp - 8) (ws.length + 1) = m.returnFrame
    rw [slot_sub_succ, h.frame]
  gpr := h.gpr
  seg := h.seg
  vars := h.vars

/-- The processor has pushed its frame, and the stub has pushed nothing yet. -/
theorem pushFrame_onStack (m : Machine) : OnStack m m.pushFrame [] where
  holds := by
    have hss := (holds_nil m.mem m.frameBase).push (by simp) (m.ss.setWidth 64)
    have hrsp := hss.push (by simp) m.rsp
    have hrflags := hrsp.push (by simp) m.rflags
    have hcs := hrflags.push (by simp) (m.cs.setWidth 64)
    exact hcs.push (by simp) m.rip
  frame := by
    show slot (m.frameBase - 8 - 8 - 8 - 8 - 8) 0 = m.frameBase - 40
    rw [slot_zero]
    bv_omega
  gpr := rfl
  seg := rfl
  vars := rfl

/-- What the processor has pushed when the stub starts. -/
theorem deliver_onStack (cpu : Cpu) (m : Machine) (vector : Nat) (errorCode : Word) :
    OnStack m (deliver cpu m vector errorCode) (cpuWords vector errorCode) := by
  unfold deliver cpuWords
  dsimp only
  split
  · have h := (pushFrame_onStack m).push (by simp) errorCode
    exact ⟨h.holds, h.frame, h.gpr, h.seg, h.vars⟩
  · have h := pushFrame_onStack m
    exact ⟨h.holds, h.frame, h.gpr, h.seg, h.vars⟩

theorem length_cpuWords (vector : Nat) (errorCode : Word) :
    (cpuWords vector errorCode).length ≤ 1 := by
  unfold cpuWords
  split <;> simp

/-- A stub pushes three words at most before it saves the registers. -/
theorem length_stubWords (vector : Nat) (errorCode : Word) :
    (stubWords vector errorCode).length ≤ 3 := by
  have hcpu := length_cpuWords vector errorCode
  unfold stubWords
  split
  · rw [List.length_cons]
    omega
  · rw [List.length_cons, List.length_cons]
    omega
  · omega

theorem run_stubPushes (cpu : Cpu) (m : Machine) (vector : Nat) (errorCode : Word) :
    ∃ d, run cpu (deliver cpu m vector errorCode) (stubPushes vector) = some d ∧
      OnStack m d (stubWords vector errorCode) := by
  have h := deliver_onStack cpu m vector errorCode
  have hlen := length_cpuWords vector errorCode
  unfold stubPushes stubWords
  split
  · exact ⟨_, rfl, h.push (by omega) _⟩
  · have hzero := h.push (by omega) 0
    exact ⟨_, rfl, hzero.push (by rw [List.length_cons]; omega) _⟩
  · exact ⟨_, rfl, h⟩

/-- Pushing registers puts them on the stack, the last one on top. -/
theorem OnStack.pushRegs (cpu : Cpu) (regs : List Reg) (h : OnStack m d ws)
    (hlen : ws.length + regs.length < 2 ^ 59) :
    ∃ d', run cpu d (regs.map .pushReg) = some d' ∧
      OnStack m d' ((regs.map m.gpr).reverse ++ ws) := by
  induction regs generalizing d ws with
  | nil => exact ⟨d, rfl, h⟩
  | cons r rest ih =>
    rw [List.length_cons] at hlen
    have hpush := h.push (by omega) (d.gpr r)
    obtain ⟨d', hrun, h'⟩ := ih hpush (by
      rw [List.length_cons]
      omega)
    refine ⟨d', hrun, ?_⟩
    rw [List.map_cons, List.reverse_cons, List.append_assoc, List.singleton_append, ← h.gpr]
    rw [← h.gpr] at h'
    exact h'

end

/-- `mov ax, sel` behind `xor rax, rax` is the selector, extended by zeros. -/
theorem setAx_zero (sel : Selector) :
    (((0 : Word).extractLsb' 16 48 ++ sel).setWidth 64 : Word) = sel.setWidth 64 := by
  have hzero : (0 : Word).extractLsb' 16 48 = 0#48 := by decide
  apply BitVec.eq_of_toNat_eq
  rw [hzero, BitVec.toNat_setWidth, BitVec.toNat_setWidth, BitVec.toNat_append, BitVec.toNat_zero,
    Nat.zero_shiftLeft, Nat.zero_or]

/-- What is on the stack when the handler is called. -/
def savedWords (m : Machine) (vector : Nat) (errorCode : Word) : List Word :=
  (m.seg .ds).setWidth 64 :: ((pushOrder.map m.gpr).reverse ++ stubWords vector errorCode)

/-- The state in which `isr_common` calls the handler: the saved words are on the stack, and `rdi`
points to them. -/
theorem run_isrEntry (cpu : Cpu) (m : Machine) (vector : Nat) (errorCode : Word) :
    ∃ e, run cpu (deliver cpu m vector errorCode) (isrEntry vector) = some e ∧
      Holds e.mem e.rsp (savedWords m vector errorCode ++ m.frameWords) ∧
      slot e.rsp (savedWords m vector errorCode).length = m.returnFrame ∧
      e.gpr .rdi = e.rsp ∧ e.vars = m.vars := by
  have hlen := length_stubWords vector errorCode
  obtain ⟨d₁, hrun₁, h₁⟩ := run_stubPushes cpu m vector errorCode
  obtain ⟨d₂, hrun₂, h₂⟩ := h₁.pushRegs cpu pushOrder (by
    show _ + 15 < 2 ^ 59
    omega)
  have hpush := h₂.push (by
    rw [List.length_append, List.length_reverse, List.length_map]
    show 15 + _ < 2 ^ 59
    omega) ((m.seg .ds).setWidth 64)
  rw [isrEntry, isrSave, run_append, hrun₁, Option.bind_some, run_append, hrun₂,
    Option.bind_some]
  refine ⟨_, rfl, ?_, ?_, ?_, ?_⟩
  · simp only [Machine.push, Machine.setReg, Machine.setAx, Machine.setSeg, Function.update_self,
      h₂.seg, setAx_zero]
    exact hpush.holds
  · exact hpush.frame
  · rfl
  · exact h₂.vars

/-! ## Pops

The stub takes back what it has pushed, so that `iretq` finds the frame of the processor. -/

section

variable {m : Machine} {ws : List Word}

/-- Popping registers off a stack that holds `f` of them gives each one its value. -/
theorem run_popRegs (cpu : Cpu) (f : Reg → Word) (regs : List Reg)
    (h : Holds m.mem m.rsp (regs.map f ++ ws)) :
    ∃ m', run cpu m (regs.map .popReg) = some m' ∧
      (∀ r, m'.gpr r = if r ∈ regs then f r else m.gpr r) ∧ m'.rsp = slot m.rsp regs.length ∧
      m'.mem = m.mem ∧ m'.seg = m.seg ∧ m'.vars = m.vars := by
  induction regs generalizing m with
  | nil => exact ⟨m, rfl, fun r => by simp, (slot_zero m.rsp).symm, rfl, rfl, rfl⟩
  | cons r rest ih =>
    rw [List.map_cons, List.cons_append] at h
    have hhead : m.mem m.rsp = f r := h.head
    obtain ⟨m', hrun, hgpr, hrsp, hmem, hseg, hvars⟩ :=
      ih (m := { m.setReg r (m.mem m.rsp) with rsp := m.rsp + 8 }) h.tail
    refine ⟨m', hrun, fun r' => ?_, ?_, hmem, hseg, hvars⟩
    · rw [hgpr r']
      simp only [Machine.setReg, hhead, Function.update_apply, List.mem_cons]
      by_cases hr : r' = r
      · simp [hr]
      · simp [hr]
    · rw [hrsp, List.length_cons, Nat.add_comm, ← slot_add]
      rfl

theorem popOrder_eq_reverse : popOrder = pushOrder.reverse := rfl

theorem mem_popOrder (r : Reg) : r ∈ popOrder := by
  cases r <;> decide

/-- `isr_common` behind the call, on a stack that holds a selector and the registers: these are
restored, and the stack pointer is two words behind them. -/
theorem run_isrUnwind (cpu : Cpu) {f : Reg → Word} {d : Word}
    (h : Holds m.mem m.rsp (d :: ((pushOrder.map f).reverse ++ ws))) :
    ∃ t, run cpu m isrUnwind = some t ∧ t.gpr = f ∧ (∀ s, t.seg s = d.setWidth 16) ∧
      t.mem = m.mem ∧ t.rsp = slot m.rsp 18 ∧ t.vars = m.vars := by
  have hhead : m.mem m.rsp = d := h.head
  -- the state behind the four `mov seg, ax`
  obtain ⟨m₁, hrun₁, hseg₁, hrsp₁, hmem₁, hvars₁⟩ : ∃ m₁, run cpu m
      [.popReg .rax, .movSegAx .ds, .movSegAx .es, .movSegAx .fs, .movSegAx .gs] = some m₁ ∧
      (∀ s, m₁.seg s = d.setWidth 16) ∧ m₁.rsp = m.rsp + 8 ∧ m₁.mem = m.mem ∧
      m₁.vars = m.vars := by
    refine ⟨_, rfl, fun s => ?_, rfl, rfl, rfl⟩
    rw [← hhead]
    cases s <;> rfl
  have hregs : Holds m₁.mem m₁.rsp (popOrder.map f ++ ws) := by
    rw [hmem₁, hrsp₁, popOrder_eq_reverse, List.map_reverse]
    exact h.tail
  obtain ⟨m₂, hrun₂, hgpr₂, hrsp₂, hmem₂, hseg₂, hvars₂⟩ := run_popRegs cpu f popOrder hregs
  rw [isrUnwind, run_append, hrun₁, Option.bind_some, run_append, hrun₂, Option.bind_some]
  refine ⟨_, rfl, ?_, ?_, ?_, ?_, ?_⟩
  · funext r
    show m₂.gpr r = f r
    rw [hgpr₂, if_pos (mem_popOrder r)]
  · intro s
    show m₂.seg s = _
    rw [hseg₂, hseg₁]
  · show m₂.mem = m.mem
    rw [hmem₂, hmem₁]
  · show m₂.rsp + 16 = slot m.rsp 18
    rw [hrsp₂, hrsp₁]
    show slot (slot (slot m.rsp 1) 15) 2 = slot m.rsp 18
    rw [slot_add, slot_add]
  · show m₂.vars = m.vars
    rw [hvars₂, hvars₁]

end

end Yoix
