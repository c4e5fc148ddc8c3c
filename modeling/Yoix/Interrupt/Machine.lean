import Yoix.Apic.Model
import Yoix.Lib.Stack

/-!
# The processor

The part of an x86-64 processor that the interrupt stubs work on: the general registers, the
stack pointer, the segment selectors, the flags, and the memory as 64-bit words, each named by the
address of its first byte. When it takes an interrupt, the processor aligns the stack to 16 bytes, so
the stubs access only addresses that are multiples of 8, and no two of their words overlap.

The stubs are straight-line code, given as lists of instructions; `rip` is not moved on from one
instruction to the next. Where the code stands, what an arithmetic instruction does to the flags and
what the called function does are parameters (`Cpu`).
-/

namespace Yoix

open Stack

abbrev Word : Type := BitVec 64
abbrev Selector : Type := BitVec 16

/-- The general registers but `rsp`. -/
inductive Reg where
  | rax | rbx | rcx | rdx | rsi | rdi | rbp
  | r8 | r9 | r10 | r11 | r12 | r13 | r14 | r15
  deriving DecidableEq, Repr

/-- The segment registers for data but `ss`. -/
inductive Seg where
  | ds | es | fs | gs
  deriving DecidableEq, Repr

/-- The variables of the kernel that the interrupt handler changes or reads. -/
structure KernelVars where
  tick : Word
  stores : DeviceStores
  gVirtApic : Nat
  deriving DecidableEq, Repr

structure Machine where
  gpr : Reg → Word
  rsp : Word
  rip : Word
  rflags : Word
  seg : Seg → Selector
  cs : Selector
  ss : Selector
  mem : Word → Word
  /-- `RSP0` of the task state segment -/
  rsp0 : Word
  vars : KernelVars

/-! ## Instructions

The instructions that the stubs use. The call of the handler is one of them, with its effect as a
parameter. -/

inductive Instr where
  | pushReg (r : Reg)
  | pushImm (v : Word)
  | popReg (r : Reg)
  /-- `xor rax, rax` -/
  | xorRax
  /-- `mov ax, seg` -/
  | movAxSeg (s : Seg)
  /-- `mov ax, imm` -/
  | movAxImm (v : Selector)
  /-- `mov seg, ax` -/
  | movSegAx (s : Seg)
  /-- `mov rdi, rsp` -/
  | movRdiRsp
  /-- `call interrupt_handler` -/
  | callHandler
  /-- `add rsp, imm` -/
  | addRsp (v : Word)
  | iretq
  deriving DecidableEq, Repr

/-- What the stubs rely on but do not say. -/
structure Cpu where
  /-- the addresses of the stubs, by vector -/
  isrStubTable : Nat → Word
  /-- the flags after an arithmetic instruction -/
  flagsAfter : Instr → Machine → Word
  /-- the address behind the call of `interrupt_handler` -/
  returnAddress : Word
  /-- the compiled `interrupt_handler`, from its first instruction until it has returned; `none`
  when it does not return -/
  handler : Machine → Option Machine

namespace Machine

def push (m : Machine) (v : Word) : Machine :=
  { m with rsp := m.rsp - 8, mem := Function.update m.mem (m.rsp - 8) v }

def setReg (m : Machine) (r : Reg) (v : Word) : Machine :=
  { m with gpr := Function.update m.gpr r v }

def setSeg (m : Machine) (s : Seg) (v : Selector) : Machine :=
  { m with seg := Function.update m.seg s v }

/-- `ax`: the low 16 bits of `rax`. -/
def ax (m : Machine) : Selector := (m.gpr .rax).setWidth 16

/-- A write to `ax` keeps the other bits of `rax`. -/
def setAx (m : Machine) (v : Selector) : Machine :=
  m.setReg .rax (((m.gpr .rax).extractLsb' 16 48 ++ v).setWidth 64)

/-- Pop the five words of an interrupt frame. Returning to an outer privilege level the processor
also clears the data segments which that level may not use; the code that was interrupted there has
none of these. -/
def iretq (m : Machine) : Machine :=
  { m with
    rip := m.mem (slot m.rsp 0)
    cs := (m.mem (slot m.rsp 1)).setWidth 16
    rflags := m.mem (slot m.rsp 2)
    rsp := m.mem (slot m.rsp 3)
    ss := (m.mem (slot m.rsp 4)).setWidth 16 }

end Machine

/-- One instruction; `none` when the called function does not return. -/
def exec (cpu : Cpu) (m : Machine) : Instr → Option Machine
  | .pushReg r => some (m.push (m.gpr r))
  | .pushImm v => some (m.push v)
  | .popReg r => some { m.setReg r (m.mem m.rsp) with rsp := m.rsp + 8 }
  | .xorRax => some { m.setReg .rax 0 with rflags := cpu.flagsAfter .xorRax m }
  | .movAxSeg s => some (m.setAx (m.seg s))
  | .movAxImm v => some (m.setAx v)
  | .movSegAx s => some (m.setSeg s m.ax)
  | .movRdiRsp => some (m.setReg .rdi m.rsp)
  | .callHandler => cpu.handler (m.push cpu.returnAddress)
  | .addRsp v => some { m with rsp := m.rsp + v, rflags := cpu.flagsAfter (.addRsp v) m }
  | .iretq => some m.iretq

def run (cpu : Cpu) (m : Machine) : List Instr → Option Machine
  | [] => some m
  | i :: rest => (exec cpu m i).bind fun m => run cpu m rest

/-- Code that is put together runs one part after the other. -/
theorem run_append (cpu : Cpu) (m : Machine) (code code' : List Instr) :
    run cpu m (code ++ code') = (run cpu m code).bind fun m => run cpu m code' := by
  induction code generalizing m with
  | nil => rfl
  | cons i rest ih =>
    rw [List.cons_append, run, run]
    cases exec cpu m i with
    | none => rfl
    | some m' => exact ih m'

/-! ## Taking an interrupt

The processor aligns the stack and pushes the frame, with an error code for some of the exceptions.
-/

/-- The exceptions for which the processor pushes an error code. -/
def pushesErrorCode (vector : Nat) : Bool :=
  vector ∈ [8, 10, 11, 12, 13, 14, 17, 21, 29, 30]

/-- The requested privilege level of a selector. -/
def Selector.rpl (s : Selector) : Selector := s &&& 3

/-- The stack on which the interrupt frame is pushed: that of the task state segment when the
privilege level changes, aligned down to 16 bytes. -/
def Machine.frameBase (m : Machine) : Word :=
  (if Selector.rpl m.cs = 0 then m.rsp else m.rsp0) &&& 0xFFFFFFFFFFFFFFF0

/-- `TF`, `IF`, `NT` and `RF`, which an interrupt gate clears. -/
abbrev gateFlags : Word := 0x14300

/-- The frame that the processor pushes, from its last word on. -/
def Machine.pushFrame (m : Machine) : Machine :=
  let base := { m with rsp := m.frameBase }
  ((((base.push (m.ss.setWidth 64)).push m.rsp).push m.rflags).push (m.cs.setWidth 64)).push m.rip

/-- The processor takes the interrupt through a gate with the selector `0x08`. -/
def deliver (cpu : Cpu) (m : Machine) (vector : Nat) (errorCode : Word) : Machine :=
  let m' := m.pushFrame
  let m' := if pushesErrorCode vector then m'.push errorCode else m'
  { m' with
    rip := cpu.isrStubTable vector
    rflags := m.rflags &&& ~~~gateFlags
    cs := 0x08
    ss := if Selector.rpl m.cs = 0 then m.ss else 0 }

end Yoix
