import Yoix.Interrupt.Transparency
import Mathlib.Data.Set.Basic

/-!
# Programs with interrupts

The hardware may interrupt the kernel between any two of its instructions. An interrupt gives back
all registers, but it uses the stack of the code that it interrupts, below the stack pointer. The
kernel is compiled with `-mno-red-zone`: its code keeps nothing there.

`Program` is such code, as a step function together with the memory it relies on. It neither reads nor
writes the variables of the handler: code that looks at `tick` does see the interrupts. Whatever
interrupts are taken, and wherever, it makes the same steps on the same memory as without them, and the
variables of the handler change as if the interrupts had come one after the other
(`interrupts_invisible`).
-/

namespace Yoix

open Stack

/-! ## What an interrupt writes to

The pushes of the processor and of the stub go below the stack pointer of the interrupted code, and
the handler works below these. -/

/-- The `n` words below an address. -/
def wordsBelow (p : Word) (n : Nat) : Set Word :=
  { a | ∃ i < n, a = p - BitVec.ofNat 64 (8 * (i + 1)) }

theorem wordsBelow_mono {p : Word} {n n' : Nat} (h : n ≤ n') : wordsBelow p n ⊆ wordsBelow p n' := by
  rintro a ⟨i, hi, rfl⟩
  exact ⟨i, Nat.lt_of_lt_of_le hi h, rfl⟩

theorem wordsBelow_sub (p : Word) (j n : Nat) :
    wordsBelow (p - BitVec.ofNat 64 (8 * j)) n ⊆ wordsBelow p (j + n) := by
  rintro a ⟨i, hi, rfl⟩
  exact ⟨j + i, by omega, by bv_omega⟩

/-- The state has pushed `j` words from `p` on, and written nothing else to the memory `mem`. -/
structure Pushed (p : Word) (mem : Word → Word) (j : Nat) (d : Machine) : Prop where
  rsp : d.rsp = p - BitVec.ofNat 64 (8 * j)
  keeps : ∀ a ∉ wordsBelow p j, d.mem a = mem a

section

variable {p : Word} {mem : Word → Word} {j : Nat} {d : Machine}

/-- One more word is pushed: it lies below the words that are there, and nothing above is written.
-/
theorem Pushed.push (h : Pushed p mem j d) (v : Word) : Pushed p mem (j + 1) (d.push v) where
  rsp := by
    show d.rsp - 8 = _
    rw [h.rsp]
    bv_omega
  keeps a ha := by
    have hne : a ≠ d.rsp - 8 := by
      rintro rfl
      exact ha ⟨j, Nat.lt_succ_self j, by rw [h.rsp]; bv_omega⟩
    show Function.update d.mem (d.rsp - 8) v a = mem a
    rw [Function.update_of_ne hne]
    exact h.keeps a fun hin => ha (wordsBelow_mono (Nat.le_succ j) hin)

/-- Instructions that push. -/
def Instr.isPush : Instr → Bool
  | .pushReg _ => true
  | .pushImm _ => true
  | _ => false

/-- Instructions that leave the stack pointer alone, but for pushes. -/
def Instr.onlyPushes : Instr → Bool
  | .popReg _ => false
  | .callHandler => false
  | .addRsp _ => false
  | .iretq => false
  | _ => true

/-- Instructions that do not write to memory. -/
def Instr.onlyReads : Instr → Bool
  | .callHandler => false
  | i => !i.isPush

/-- Code that only pushes leaves memory as it was, but for the words it has pushed. -/
theorem Pushed.run (cpu : Cpu) (code : List Instr) (hcode : ∀ i ∈ code, i.onlyPushes = true)
    (h : Pushed p mem j d) :
    ∃ e, run cpu d code = some e ∧ Pushed p mem (j + code.countP Instr.isPush) e := by
  induction code generalizing j d with
  | nil => exact ⟨d, rfl, h⟩
  | cons i rest ih =>
    have hrest : ∀ i ∈ rest, i.onlyPushes = true := fun i hi => hcode i (List.mem_cons_of_mem _ hi)
    have hfirst := hcode i List.mem_cons_self
    cases i with
    | pushReg r =>
      obtain ⟨e, hrun, he⟩ := ih hrest (h.push (d.gpr r))
      exact ⟨e, hrun, by rwa [List.countP_cons_of_pos rfl, Nat.add_comm (rest.countP _), ← Nat.add_assoc]⟩
    | pushImm v =>
      obtain ⟨e, hrun, he⟩ := ih hrest (h.push v)
      exact ⟨e, hrun, by rwa [List.countP_cons_of_pos rfl, Nat.add_comm (rest.countP _), ← Nat.add_assoc]⟩
    | xorRax => exact ih hrest ⟨h.rsp, h.keeps⟩
    | movAxSeg s => exact ih hrest ⟨h.rsp, h.keeps⟩
    | movAxImm v => exact ih hrest ⟨h.rsp, h.keeps⟩
    | movSegAx s => exact ih hrest ⟨h.rsp, h.keeps⟩
    | movRdiRsp => exact ih hrest ⟨h.rsp, h.keeps⟩
    | popReg r => exact absurd hfirst Bool.false_ne_true
    | callHandler => exact absurd hfirst Bool.false_ne_true
    | addRsp v => exact absurd hfirst Bool.false_ne_true
    | iretq => exact absurd hfirst Bool.false_ne_true

end

/-- Code that does not store leaves memory as it was. -/
theorem run_mem {cpu : Cpu} {code : List Instr} (hcode : ∀ i ∈ code, i.onlyReads = true)
    {m m' : Machine} (h : run cpu m code = some m') : m'.mem = m.mem := by
  induction code generalizing m with
  | nil => rw [Option.some.inj h]
  | cons i rest ih =>
    have hrest : ∀ i ∈ rest, i.onlyReads = true := fun i hi => hcode i (List.mem_cons_of_mem _ hi)
    have hfirst := hcode i List.mem_cons_self
    rw [run] at h
    cases i with
    | pushReg r => exact absurd hfirst Bool.false_ne_true
    | pushImm v => exact absurd hfirst Bool.false_ne_true
    | callHandler => exact absurd hfirst Bool.false_ne_true
    | xorRax => exact (ih hrest h).trans rfl
    | movAxSeg s => exact (ih hrest h).trans rfl
    | movAxImm v => exact (ih hrest h).trans rfl
    | movSegAx s => exact (ih hrest h).trans rfl
    | movRdiRsp => exact (ih hrest h).trans rfl
    | popReg r => exact (ih hrest h).trans rfl
    | addRsp v => exact (ih hrest h).trans rfl
    | iretq => exact (ih hrest h).trans rfl

theorem pushFrame_pushed (m : Machine) : Pushed m.frameBase m.mem 5 m.pushFrame := by
  have hbase : Pushed m.frameBase m.mem 0 { m with rsp := m.frameBase } := by
    refine ⟨?_, fun _ _ => rfl⟩
    show m.frameBase = m.frameBase - BitVec.ofNat 64 0
    bv_omega
  exact ((((hbase.push _).push _).push _).push _).push _

/-- The compiled handler writes only to the `room` words below the stack pointer it starts with. -/
def HandlerConfined (cpu : Cpu) (room : Nat) : Prop :=
  ∀ c h, cpu.handler c = some h → ∀ a ∉ wordsBelow c.rsp room, h.mem a = c.mem a

/-- What an interrupt needs of the stack: the 23 words of `Registers`, the return address and the
stack of the handler. -/
abbrev irqDepth (room : Nat) : Nat := 24 + room

/-- The stub of a hardware interrupt pushes 18 words before it calls the handler. -/
theorem irq_pushes {vector : Nat} (hv : IsIrq vector) :
    (∀ i ∈ isrEntry vector, i.onlyPushes = true) ∧ (isrEntry vector).countP Instr.isPush = 18 := by
  have hall : ∀ v < 48, 32 ≤ v → (∀ i ∈ isrEntry v, i.onlyPushes = true) ∧
      (isrEntry v).countP Instr.isPush = 18 := by decide +kernel
  exact hall vector hv.2 hv.1

/-- An interrupt writes only to the words below the aligned stack pointer. -/
theorem takeIrq_mem {cpu : Cpu} {room : Nat} (hroom : HandlerConfined cpu room) {m m' : Machine}
    {vector : Nat} (hv : IsIrq vector) (htake : takeIrq cpu m vector = some m') :
    ∀ a ∉ wordsBelow m.frameBase (irqDepth room), m'.mem a = m.mem a := by
  obtain ⟨hpushes, hcount⟩ := irq_pushes hv
  have hdeliver : Pushed m.frameBase m.mem 5 (deliver cpu m vector 0) := by
    have hno : pushesErrorCode vector = false := by
      have hall : ∀ v < 48, 32 ≤ v → pushesErrorCode v = false := by decide
      exact hall vector hv.2 hv.1
    unfold deliver
    rw [hno]
    exact ⟨(pushFrame_pushed m).rsp, (pushFrame_pushed m).keeps⟩
  obtain ⟨e, hentry, he⟩ := hdeliver.run cpu (isrEntry vector) hpushes
  rw [hcount] at he
  have hcall := he.push cpu.returnAddress
  rw [takeIrq, takeInterrupt, isrStub_eq (irq_stubKind hv), run_append, hentry, Option.bind_some,
    run, exec] at htake
  obtain ⟨h, hhandler, hback⟩ := Option.bind_eq_some_iff.mp htake
  have hreads : ∀ i ∈ isrUnwind ++ [.iretq], i.onlyReads = true := by decide
  intro a ha
  have hhandled : a ∉ wordsBelow (e.push cpu.returnAddress).rsp room := by
    rw [hcall.rsp]
    exact fun hin => ha (wordsBelow_sub m.frameBase 24 room hin)
  calc m'.mem a = h.mem a := by rw [run_mem hreads hback]
    _ = (e.push cpu.returnAddress).mem a := hroom _ _ hhandler a hhandled
    _ = m.mem a := hcall.keeps a fun hin => ha (wordsBelow_mono (Nat.le_add_right 24 room) hin)

/-! ## Programs

Code is anything that makes steps, with the memory that it relies on. Interrupts come between its
steps. -/

/-- Two states that code which relies on this memory cannot tell apart. -/
structure Agree (live : Set Word) (m m' : Machine) : Prop where
  gpr : m'.gpr = m.gpr
  seg : m'.seg = m.seg
  rip : m'.rip = m.rip
  cs : m'.cs = m.cs
  rflags : m'.rflags = m.rflags
  rsp : m'.rsp = m.rsp
  ss : m'.ss = m.ss
  mem : ∀ a ∈ live, m'.mem a = m.mem a

theorem Agree.refl (live : Set Word) (m : Machine) : Agree live m m :=
  ⟨rfl, rfl, rfl, rfl, rfl, rfl, rfl, fun _ _ => rfl⟩

/-- Code of the kernel: what its next instruction does in each state, and the memory whose contents it
relies on in that state. -/
structure Program where
  step : Machine → Option Machine
  live : Machine → Set Word

/-- A number of steps without interrupts. -/
def Program.steps (prog : Program) : Nat → Machine → Option Machine
  | 0, m => some m
  | n + 1, m => (prog.step m).bind (prog.steps n)

/-- What makes code safe to interrupt in the states of `Inv`, with `room` words for the handler. It
runs in the kernel with the selectors that `reloadSegments` sets, relies on nothing below its stack
pointer, as `-mno-red-zone` demands of the compiler, and on none of the variables of the handler. -/
structure Interruptible (prog : Program) (Inv : Machine → Prop) (room : Nat) : Prop where
  segments : ∀ {m}, Inv m → SameSegments m
  kernel : ∀ {m}, Inv m → Selector.rpl m.cs = 0
  noRedZone : ∀ {m}, Inv m → ∀ a ∈ prog.live m, a ∉ wordsBelow m.frameBase (irqDepth room)
  keeps : ∀ {m n}, Inv m → prog.step m = some n → Inv n
  respects : ∀ {m n m'}, Inv m → prog.step m = some n → Agree (prog.live m) m m' →
    ∃ n', prog.step m' = some n' ∧ Agree (prog.live n) n n' ∧ n'.vars = m'.vars

/-- Who goes next: the program, or an interrupt. -/
inductive Turn where
  | step
  | irq (vector : Nat)
  deriving DecidableEq, Repr

def Turn.isStep : Turn → Bool
  | .step => true
  | .irq _ => false

/-- The vectors of the interrupts, in their order. -/
def Turn.vectors : List Turn → List Nat
  | [] => []
  | .step :: rest => Turn.vectors rest
  | .irq vector :: rest => vector :: Turn.vectors rest

/-- The program, with interrupts taken between its instructions. -/
def interleave (cpu : Cpu) (prog : Program) : List Turn → Machine → Option Machine
  | [], m => some m
  | .step :: rest, m => (prog.step m).bind (interleave cpu prog rest)
  | .irq vector :: rest, m => (takeIrq cpu m vector).bind (interleave cpu prog rest)

/-- The variables of the handler after these interrupts. -/
def irqsVars (vectors : List Nat) (vars : KernelVars) : KernelVars :=
  vectors.foldl (fun vars vector => irqVars vector vars) vars

section

variable {cpu : Cpu} {prog : Program} {Inv : Machine → Prop} {room : Nat} {m m' : Machine}

/-- The program cannot tell that an interrupt was taken. -/
theorem Interruptible.takeIrq (hprog : Interruptible prog Inv room) (hcpu : HandlerCompiled cpu)
    (hroom : HandlerConfined cpu room) (hm : Inv m) (hagree : Agree (prog.live m) m m')
    {vector : Nat} (hv : IsIrq vector) :
    ∃ m'', takeIrq cpu m' vector = some m'' ∧ Agree (prog.live m) m m'' ∧
      m''.vars = irqVars vector m'.vars := by
  have hseg : SameSegments m' := by
    intro s
    rw [hagree.seg]
    exact hprog.segments hm s
  obtain ⟨-, m'', -, -, htake, hback⟩ := takeIrq_spec hcpu hv hseg
  have hbase : m'.frameBase = m.frameBase := by
    unfold Machine.frameBase
    rw [hagree.cs, hagree.rsp, if_pos (hprog.kernel hm), if_pos (hprog.kernel hm)]
  have hmem := takeIrq_mem hroom hv htake
  refine ⟨m'', htake, ?_, hback.vars⟩
  exact
    { gpr := hback.gpr.trans hagree.gpr
      seg := hback.seg.trans hagree.seg
      rip := hback.rip.trans hagree.rip
      cs := hback.cs.trans hagree.cs
      rflags := hback.rflags.trans hagree.rflags
      rsp := hback.rsp.trans hagree.rsp
      ss := hback.ss.trans hagree.ss
      mem := fun a ha => by
        rw [hmem a, hagree.mem a ha]
        rw [hbase]
        exact hprog.noRedZone hm a ha }

/-- Interrupts between the steps. Induction on the schedule: the interrupted state agrees with the
undisturbed one on what the code relies on. -/
theorem Interruptible.interleave (hprog : Interruptible prog Inv room) (hcpu : HandlerCompiled cpu)
    (hroom : HandlerConfined cpu room) (schedule : List Turn)
    (hirqs : ∀ vector ∈ Turn.vectors schedule, IsIrq vector) {n : Machine} (hm : Inv m)
    (hagree : Agree (prog.live m) m m')
    (hsteps : prog.steps (schedule.countP Turn.isStep) m = some n) :
    ∃ n', interleave cpu prog schedule m' = some n' ∧ Agree (prog.live n) n n' ∧
      n'.vars = irqsVars (Turn.vectors schedule) m'.vars := by
  -- the interrupted state keeps agreeing with the one that was not
  induction schedule generalizing m m' with
  | nil =>
    obtain rfl : m = n := Option.some.inj hsteps
    exact ⟨m', rfl, hagree, rfl⟩
  | cons turn rest ih =>
    cases turn with
    | step =>
      rw [List.countP_cons_of_pos rfl, Program.steps] at hsteps
      obtain ⟨m₁, hstep, hrest⟩ := Option.bind_eq_some_iff.mp hsteps
      obtain ⟨m₁', hstep', hagree₁, hvars⟩ := hprog.respects hm hstep hagree
      obtain ⟨n', hrun, hn, hnvars⟩ := ih hirqs (hprog.keeps hm hstep) hagree₁ hrest
      refine ⟨n', ?_, hn, ?_⟩
      · rw [Yoix.interleave, hstep']
        exact hrun
      · rw [hnvars, hvars]
        rfl
    | irq vector =>
      rw [List.countP_cons_of_neg Bool.false_ne_true] at hsteps
      obtain ⟨hv, hvs⟩ := List.forall_mem_cons.mp hirqs
      obtain ⟨m₁', htake, hagree₁, hvars⟩ := hprog.takeIrq hcpu hroom hm hagree hv
      obtain ⟨n', hrun, hn, hnvars⟩ := ih hvs hm hagree₁ hsteps
      refine ⟨n', ?_, hn, ?_⟩
      · rw [Yoix.interleave, htake]
        exact hrun
      · rw [hnvars, hvars]
        rfl

end

/-- A loop that adds a word to `rax`. -/
def summing : Program where
  step := fun m => some (m.setReg .rax (m.gpr .rax + m.mem 0x5000))
  live := fun _ => {0x5000}

/-- The states of that loop in the idle kernel. -/
def Summing (m : Machine) : Prop :=
  m.seg = idleMachine.seg ∧ m.cs = idleMachine.cs ∧ m.rsp = idleMachine.rsp

theorem plainCpu_confined : HandlerConfined plainCpu 0 := by
  intro c h hh a _
  obtain ⟨vars, -, rfl⟩ := Option.map_eq_some_iff.mp hh
  rfl

/-- The loop works on a word far from its stack, so it may be interrupted. -/
theorem summing_interruptible : Interruptible summing Summing 0 where
  segments h s := by
    rw [h.1]
    rfl
  kernel h := by
    rw [h.2.1]
    decide
  noRedZone {m} h := by
    have hbase : m.frameBase = 0xFFFF800000008000 := by
      unfold Machine.frameBase
      rw [h.2.1, h.2.2, if_pos (by decide)]
      decide
    rw [hbase]
    rintro a rfl ⟨i, hi, h5000⟩
    have hi' : i < 24 := hi
    bv_omega
  keeps h hstep := by
    obtain rfl := Option.some.inj hstep
    exact h
  respects _ hstep hagree := by
    obtain rfl := Option.some.inj hstep
    refine ⟨_, rfl, ⟨?_, hagree.seg, hagree.rip, hagree.cs, hagree.rflags, hagree.rsp,
      hagree.ss, hagree.mem⟩, rfl⟩
    show Function.update _ _ _ = Function.update _ _ _
    rw [hagree.gpr, hagree.mem 0x5000 rfl]

end Yoix
