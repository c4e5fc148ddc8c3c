import Yoix.Interrupt.Gates
import Yoix.Interrupt.Interleaving
import Yoix.Lib.Priority

/-!
# Acknowledging interrupts (`system/interrupt/idt.c`, `system/interrupt/APIC/apic.c`)

The local APIC gives the processor the highest vector that was requested, but none whose priority, the
vector divided by 16, is not above that of all vectors in service. A vector is in service until the
processor writes to the register at `0xB0`; the local APIC then takes the highest one out of service.

`interrupt_handler` does this for the vectors 32 to 47. `idt_init` also has gates for 48 and 255, whose
stubs only return. So hardware interrupts go on for as long as neither of these was taken, and stop for
good when one was (`irqs_acknowledged`). The spurious interrupt, which also has the vector 255, is not put
in service by the local APIC and needs no write; it is not a request here.

The processor takes none of these while `IF` is clear. `idt_init` sets it, an interrupt gate clears it
for the handler, and `iretq` sets it again; other code may set and clear it.
-/

namespace Yoix

open Priority Stack

instance (vector : Nat) : Decidable (IsIrq vector) := inferInstanceAs (Decidable (_ ∧ _))

/-! ## The local APIC

A controller with 256 vectors. Vectors of one group of 16 do not interrupt each other, and a store
to one register takes the highest one out of service. -/

/-- The request and the in-service registers. -/
abbrev Lapic : Type := Controller Nat

/-- The priority of a vector. -/
def vectorClass (vector : Nat) : Nat := vector / 16

theorem vectorClass_monotone : Monotone vectorClass := fun _ _ h => Nat.div_le_div_right h

/-- The stores to the end-of-interrupt register, whatever their value, reach the local APIC; the others
do not change what is requested or in service. -/
def Lapic.write (gVirtApic : Nat) (lapic : Lapic) (store : Nat × UInt32) : Lapic :=
  if store.1 = (gVirtApic + 0xB0) % 2 ^ 64 then lapic.finish else lapic

/-- The processor with its local APIC. -/
structure Node where
  machine : Machine
  lapic : Lapic

/-- The processor takes an interrupt with this vector, or a general protection fault when the vector has
no gate, with the vector in its error code. -/
def takeVector (cpu : Cpu) (m : Machine) (vector : Nat) : Option Machine :=
  if HasGate vector then takeInterrupt cpu m vector 0
  else takeInterrupt cpu m 13 (BitVec.ofNat 64 (8 * vector + 3))

/-- `IF` is set. -/
def Machine.InterruptsEnabled (m : Machine) : Prop := m.rflags &&& 0x200 ≠ 0

instance (m : Machine) : Decidable m.InterruptsEnabled := inferInstanceAs (Decidable (_ ≠ _))

/-- With `IF` set, the processor takes the next interrupt of the local APIC, and its stores reach the
local APIC. -/
def takeNext (cpu : Cpu) (node : Node) : Option (Nat × Node) :=
  if node.machine.InterruptsEnabled then do
    let vector ← node.lapic.next vectorClass
    let m ← takeVector cpu node.machine vector
    let written := m.vars.stores.drop node.machine.vars.stores.length
    return (vector, ⟨m, written.foldl (Lapic.write m.vars.gVirtApic) (node.lapic.accept vector)⟩)
  else none

/-- A handler that halts does not return. -/
def HandlerHalts (cpu : Cpu) : Prop :=
  ∀ c : Machine, interruptHandler (Registers.read c.mem (c.gpr .rdi)) c.vars = none →
    cpu.handler c = none

/-! ## One interrupt

The next vector goes to the processor when `IF` is set; its stub runs, and the stores of the handler
go to the local APIC. -/

section

variable {cpu : Cpu} {m : Machine} {vector : Nat}

/-- `interrupt_handler` halts on an exception, so its stub does not return. -/
theorem takeInterrupt_exception (hhalts : HandlerHalts cpu) (hv : vector < 32)
    (hagree : StubAgrees vector) (errorCode : Word) : takeInterrupt cpu m vector errorCode = none := by
  have hkind : stubKind vector ≠ .reserved := by
    unfold StubAgrees at hagree
    split at hagree
    · rw [hagree]
      decide
    · rw [hagree]
      decide
  obtain ⟨e, hentry, hholds, -, hrdi, -⟩ := run_isrEntry cpu m vector errorCode
  have hare := registers_of_agree cpu m hagree errorCode hholds hrdi
  have hhandler : interruptHandler (handlerArg cpu e) (e.push cpu.returnAddress).vars = none := by
    have hlow : (handlerArg cpu e).vectors < 32 := by
      rw [hare.vectors]
      bv_omega
    exact if_pos hlow
  rw [takeInterrupt, isrStub_eq hkind, run_append, hentry, Option.bind_some, run, exec,
    hhalts _ hhandler, Option.bind_none]

/-- A stub that only returns goes back to where it came from. -/
theorem takeInterrupt_reserved (cpu : Cpu) (m : Machine) (hkind : stubKind vector = .reserved)
    (hpush : pushesErrorCode vector = false) :
    ∃ m', takeInterrupt cpu m vector 0 = some m' ∧ m'.rip = m.rip ∧ m'.rsp = m.rsp ∧
      m'.rflags = m.rflags ∧ m'.gpr = m.gpr ∧ m'.seg = m.seg ∧ m'.vars = m.vars := by
  have hstack := deliver_onStack cpu m vector 0
  have hframe : Holds (deliver cpu m vector 0).mem (deliver cpu m vector 0).rsp m.frameWords := by
    have hholds := hstack.holds
    rw [cpuWords, hpush] at hholds
    exact hholds
  obtain ⟨hrip, -, hrflags, hrsp, -⟩ := iretq_of_holds hframe
  refine ⟨(deliver cpu m vector 0).iretq, ?_, hrip, hrsp, hrflags, hstack.gpr, hstack.seg, hstack.vars⟩
  rw [takeInterrupt, isrStub, hkind]
  rfl

/-- What comes of a vector that is not the processor's own: a hardware interrupt is handled, the stubs of
48 and 255 return at once, and the kernel halts on all others. -/
theorem takeVector_spec (hcpu : HandlerCompiled cpu) (hhalts : HandlerHalts cpu)
    (hseg : SameSegments m) (hv : 32 ≤ vector) :
    (IsIrq vector ∧ ∃ m', takeVector cpu m vector = some m' ∧ SameSegments m' ∧
      m'.rflags = m.rflags ∧ m'.vars = irqVars vector m.vars) ∨
    ((vector = 48 ∨ vector = 255) ∧ ∃ m', takeVector cpu m vector = some m' ∧ SameSegments m' ∧
      m'.rflags = m.rflags ∧ m'.vars = m.vars) ∨
    (¬ HasGate vector ∧ takeVector cpu m vector = none) := by
  by_cases hgate : HasGate vector
  · have htake : takeVector cpu m vector = takeInterrupt cpu m vector 0 := if_pos hgate
    rw [htake]
    by_cases hirq : IsIrq vector
    · obtain ⟨-, m', -, -, hm', hback⟩ := takeIrq_spec hcpu hirq hseg
      refine Or.inl ⟨hirq, m', hm', ?_, hback.rflags, hback.vars⟩
      intro s
      rw [hback.seg]
      exact hseg s
    · have hlast : vector = 48 ∨ vector = 255 := by
        unfold HasGate at hgate
        unfold IsIrq at hirq
        omega
      -- the gates of 48 and 255 lead to the stub that only returns
      have hstub : stubKind vector = .reserved ∧ pushesErrorCode vector = false := by
        cases hlast with
        | inl h => subst h; decide
        | inr h => subst h; decide
      obtain ⟨m', hm', -, -, hrflags, -, hsegs, hvars⟩ := takeInterrupt_reserved cpu m hstub.1 hstub.2
      refine Or.inr (Or.inl ⟨hlast, m', hm', ?_, hrflags, hvars⟩)
      intro s
      rw [hsegs]
      exact hseg s
  · -- without a gate it is a general protection fault, and the handler halts
    refine Or.inr (Or.inr ⟨hgate, ?_⟩)
    unfold takeVector
    rw [if_neg hgate]
    exact takeInterrupt_exception hhalts (by decide) (by decide) _

end

section

variable {cpu : Cpu} {node node' : Node} {vector : Nat}

/-- Taking a vector: the stub runs, and what it stores goes to the local APIC. -/
theorem takeNext_eq {m : Machine} (hif : node.machine.InterruptsEnabled)
    (hnext : node.lapic.next vectorClass = some vector)
    (htake : takeVector cpu node.machine vector = some m) :
    takeNext cpu node = some (vector, ⟨m, (m.vars.stores.drop node.machine.vars.stores.length).foldl
      (Lapic.write m.vars.gVirtApic) (node.lapic.accept vector)⟩) := by
  rw [takeNext, if_pos hif, hnext]
  show (takeVector cpu node.machine vector).bind _ = _
  rw [htake]
  rfl

/-- What the processor and its local APIC have done when an interrupt was taken. -/
structure Taken (node : Node) (vector : Nat) (node' : Node) : Prop where
  next : node.lapic.next vectorClass = some vector
  segments : SameSegments node'.machine
  flags : node'.machine.rflags = node.machine.rflags
  pending : node'.lapic.pending = node.lapic.pending.erase vector
  vars : node'.machine.vars =
    if IsIrq vector then irqVars vector node.machine.vars else node.machine.vars
  serving : node'.lapic.serving =
    if IsIrq vector then node.lapic.serving else insert vector node.lapic.serving

/-- With `IF` set, the interrupt that is next is taken when its vector has a gate, and otherwise the
kernel halts. -/
theorem takeNext_spec (hcpu : HandlerCompiled cpu) (hhalts : HandlerHalts cpu)
    (hif : node.machine.InterruptsEnabled) (hseg : SameSegments node.machine) (hv : 32 ≤ vector)
    (hnext : node.lapic.next vectorClass = some vector) :
    (HasGate vector ∧ ∃ node', takeNext cpu node = some (vector, node') ∧ Taken node vector node') ∨
      (¬ HasGate vector ∧ takeNext cpu node = none) := by
  cases takeVector_spec hcpu hhalts hseg hv with
  | inl h =>
    obtain ⟨hirq, m, htake, hsegs, hrflags, hvars⟩ := h
    have hwritten : m.vars.stores.drop node.machine.vars.stores.length
        = [((node.machine.vars.gVirtApic + 0xB0) % 2 ^ 64, 0)] := by
      rw [hvars]
      exact List.drop_left
    -- the one store is the end of this interrupt
    have hfinish : (m.vars.stores.drop node.machine.vars.stores.length).foldl
        (Lapic.write m.vars.gVirtApic) (node.lapic.accept vector)
        = { node.lapic with pending := node.lapic.pending.erase vector } := by
      rw [hwritten, hvars, ← Controller.finish_accept (Controller.lt_of_next vectorClass_monotone hnext)]
      exact if_pos rfl
    refine Or.inl ⟨?_, _, takeNext_eq hif hnext htake, hnext, hsegs, hrflags, ?_, ?_, ?_⟩
    · unfold HasGate
      unfold IsIrq at hirq
      omega
    · rw [hfinish]
    · rw [if_pos hirq]
      exact hvars
    · rw [if_pos hirq, hfinish]
  | inr h =>
    cases h with
    | inl h =>
      obtain ⟨hlast, m, htake, hsegs, hrflags, hvars⟩ := h
      have hnot : ¬ IsIrq vector := by
        unfold IsIrq
        omega
      have hwritten : m.vars.stores.drop node.machine.vars.stores.length = [] := by
        rw [hvars]
        exact List.drop_length
      refine Or.inl ⟨?_, _, takeNext_eq hif hnext htake, hnext, hsegs, hrflags, ?_, ?_, ?_⟩
      · unfold HasGate
        omega
      · rw [hwritten]
        rfl
      · rw [if_neg hnot]
        exact hvars
      · rw [if_neg hnot, hwritten]
        rfl
    | inr h =>
      obtain ⟨hgate, htake⟩ := h
      refine Or.inr ⟨hgate, ?_⟩
      rw [takeNext, if_pos hif, hnext]
      show (takeVector cpu node.machine vector).bind _ = _
      rw [htake]
      rfl

end

/-! ## Runs

Requests, other code and interrupts in any order. Vectors that are no hardware interrupts are never
acknowledged, and keep all below them waiting. -/

/-- A run of the processor with its local APIC, with the vectors that were taken: requests come at any
time, and between interrupts there is other code, which leaves the data selectors equal and does not use
the variables of the handler. Vectors below 32 are the processor's own. -/
inductive LapicRun (cpu : Cpu) : Node → List Nat → Node → Prop where
  | done (node : Node) : LapicRun cpu node [] node
  | code {node node' : Node} {m : Machine} {vectors : List Nat}
      (hvars : m.vars = node.machine.vars) (hseg : SameSegments m)
      (hrest : LapicRun cpu { node with machine := m } vectors node') : LapicRun cpu node vectors node'
  | request {node node' : Node} {vector : Nat} {vectors : List Nat}
      (hlow : 32 ≤ vector) (hhigh : vector < 256)
      (hrest : LapicRun cpu { node with lapic := node.lapic.request vector } vectors node') :
      LapicRun cpu node vectors node'
  | interrupt {node node₁ node' : Node} {vector : Nat} {vectors : List Nat}
      (htake : takeNext cpu node = some (vector, node₁)) (hrest : LapicRun cpu node₁ vectors node') :
      LapicRun cpu node (vector :: vectors) node'

/-- The vectors that no one takes out of service. -/
def unacknowledged (vectors : List Nat) : Finset Nat :=
  (vectors.filter fun vector => ¬ IsIrq vector).toFinset

/-- Between interrupts: all requests are for vectors that are not the processor's own. -/
structure NodeReady (node : Node) : Prop where
  segments : SameSegments node.machine
  pending : ∀ vector ∈ node.lapic.pending, 32 ≤ vector

/-- What a run has done. -/
structure Served (node : Node) (vectors : List Nat) (node' : Node) : Prop where
  ready : NodeReady node'
  gates : ∀ vector ∈ vectors, HasGate vector ∧ 32 ≤ vector
  serving : node'.lapic.serving = node.lapic.serving ∪ unacknowledged vectors
  above : ∀ s ∈ node.lapic.serving, ∀ vector ∈ vectors, vectorClass s < vectorClass vector
  order : vectors.Pairwise fun v w => IsIrq v ∨ vectorClass v < vectorClass w
  vars : node'.machine.vars = irqsVars (vectors.filter fun v => IsIrq v) node.machine.vars

section

variable {cpu : Cpu} {node node' : Node} {vectors : List Nat}

theorem NodeReady.next_ge (hready : NodeReady node) {vector : Nat}
    (hnext : node.lapic.next vectorClass = some vector) : 32 ≤ vector :=
  hready.pending vector (highest_eq_some_iff.mp (Controller.next_eq_some_iff.mp hnext).1).1

/-- A vector that is taken has a gate, and afterwards it is out of service again exactly when it is
a hardware interrupt. -/
theorem NodeReady.taken (hready : NodeReady node) (hcpu : HandlerCompiled cpu)
    (hhalts : HandlerHalts cpu) {vector : Nat} (htake : takeNext cpu node = some (vector, node')) :
    node.machine.InterruptsEnabled ∧ HasGate vector ∧ 32 ≤ vector ∧ Taken node vector node' := by
  have hif : node.machine.InterruptsEnabled := by
    by_contra hnot
    rw [takeNext, if_neg hnot] at htake
    cases htake
  cases hnext : node.lapic.next vectorClass with
  | none =>
    rw [takeNext, if_pos hif, hnext] at htake
    cases htake
  | some v =>
    have hv := hready.next_ge hnext
    cases takeNext_spec hcpu hhalts hif hready.segments hv hnext with
    | inl h =>
      obtain ⟨hgate, node₁, htake₁, htaken⟩ := h
      obtain ⟨rfl, rfl⟩ : v = vector ∧ node₁ = node' :=
        Prod.mk.inj (Option.some.inj (htake₁.symm.trans htake))
      exact ⟨hif, hgate, hv, htaken⟩
    | inr h =>
      rw [h.2] at htake
      cases htake

/-- A further vector stays in service unless it is a hardware interrupt. -/
theorem unacknowledged_cons (vector : Nat) (vectors : List Nat) :
    unacknowledged (vector :: vectors)
      = if IsIrq vector then unacknowledged vectors else insert vector (unacknowledged vectors) := by
  unfold unacknowledged
  by_cases hirq : IsIrq vector
  · rw [if_pos hirq, List.filter_cons_of_neg (by simpa using hirq)]
  · rw [if_neg hirq, List.filter_cons_of_pos (by simpa using hirq), List.toFinset_cons]

/-- **One more interrupt.** A vector that is not acknowledged stays in service, so later ones are above
it. -/
theorem Taken.served {node₁ : Node} {vector : Nat} (htaken : Taken node vector node₁)
    (hgate : HasGate vector ∧ 32 ≤ vector) (h : Served node₁ vectors node') :
    Served node (vector :: vectors) node' := by
  have habove := (Controller.next_eq_some_iff.mp htaken.next).2
  have hserving := htaken.serving
  have hvars := htaken.vars
  by_cases hirq : IsIrq vector
  · rw [if_pos hirq] at hserving hvars
    refine ⟨h.ready, List.forall_mem_cons.mpr ⟨hgate, h.gates⟩, ?_, fun s hs => ?_, ?_, ?_⟩
    · rw [h.serving, hserving, unacknowledged_cons, if_pos hirq]
    · exact List.forall_mem_cons.mpr ⟨habove s hs, h.above s (hserving ▸ hs)⟩
    · exact List.pairwise_cons.mpr ⟨fun _ _ => Or.inl hirq, h.order⟩
    · rw [h.vars, hvars, List.filter_cons_of_pos (by simpa using hirq)]
      rfl
  · rw [if_neg hirq] at hserving hvars
    have hstays : ∀ s ∈ insert vector node.lapic.serving, s ∈ node₁.lapic.serving := fun s hs =>
      hserving ▸ hs
    refine ⟨h.ready, List.forall_mem_cons.mpr ⟨hgate, h.gates⟩, ?_, fun s hs => ?_, ?_, ?_⟩
    · rw [h.serving, hserving, unacknowledged_cons, if_neg hirq, Finset.insert_union,
        Finset.union_insert]
    · exact List.forall_mem_cons.mpr
        ⟨habove s hs, h.above s (hstays s (Finset.mem_insert_of_mem hs))⟩
    · exact List.pairwise_cons.mpr
        ⟨fun w hw => Or.inr (h.above vector (hstays vector (Finset.mem_insert_self _ _)) w hw), h.order⟩
    · rw [h.vars, hvars, List.filter_cons_of_neg (by simpa using hirq)]

/-- The run lemma: what is in service after a run, and what the handler has done. Induction on the
run. -/
theorem LapicRun.served (hcpu : HandlerCompiled cpu) (hhalts : HandlerHalts cpu)
    (hrun : LapicRun cpu node vectors node') (hready : NodeReady node) :
    Served node vectors node' := by
  induction hrun with
  | done node =>
    exact ⟨hready, by simp, (Finset.union_empty _).symm, by simp, List.Pairwise.nil, rfl⟩
  | code hvars hseg _ ih =>
    have h := ih ⟨hseg, hready.pending⟩
    exact ⟨h.ready, h.gates, h.serving, h.above, h.order, by rw [h.vars, hvars]⟩
  | @request node node' vector vectors hlow _ _ ih =>
    have hpending : ∀ v ∈ (node.lapic.request vector).pending, 32 ≤ v := by
      intro v hv
      cases Finset.mem_insert.mp hv with
      | inl h => rw [h]; exact hlow
      | inr h => exact hready.pending v h
    have h := ih ⟨hready.segments, hpending⟩
    exact ⟨h.ready, h.gates, h.serving, h.above, h.order, h.vars⟩
  | @interrupt node node₁ node' vector vectors htake _ ih =>
    obtain ⟨-, hgate, hv, htaken⟩ := hready.taken hcpu hhalts htake
    have hpending : ∀ v ∈ node₁.lapic.pending, 32 ≤ v := by
      intro v hin
      rw [htaken.pending] at hin
      exact hready.pending v (Finset.mem_of_mem_erase hin)
    exact htaken.served ⟨hgate, hv⟩ (ih ⟨htaken.segments, hpending⟩)

/-- The hardware interrupts have the lowest priority of all. -/
theorem not_class_lt {v w : Nat} (hv : 32 ≤ v) (hw : IsIrq w) : ¬ vectorClass v < vectorClass w := by
  unfold vectorClass
  unfold IsIrq at hw
  omega

/-- In a run from the idle local APIC, a vector without an acknowledgement ends the hardware
interrupts. -/
theorem Served.last (h : Served node vectors node') {irqs later : List Nat} {vector : Nat}
    (heq : vectors = irqs ++ vector :: later) (hnot : ¬ IsIrq vector) :
    ∀ w ∈ later, ¬ IsIrq w := by
  intro w hw hirq
  have horder := h.order
  have hgate := (h.gates vector (by rw [heq]; simp)).2
  rw [heq] at horder
  cases (List.pairwise_cons.mp (List.pairwise_append.mp horder).2.1).1 w hw with
  | inl hv => exact hnot hv
  | inr hlt => exact not_class_lt hgate hirq hlt

theorem mem_unacknowledged {vector : Nat} :
    vector ∈ unacknowledged vectors ↔ vector ∈ vectors ∧ ¬ IsIrq vector := by
  unfold unacknowledged
  rw [List.mem_toFinset, List.mem_filter, decide_eq_true_iff]

end

theorem plainCpu_halts : HandlerHalts plainCpu := by
  intro c hnone
  show plainHandler c = none
  rw [plainHandler, hnone, Option.map_none]

end Yoix
