import Yoix.Interrupt.Machine
import Yoix.Lib.Memory
import Mathlib.Algebra.Group.Nat.Defs

/-!
# The segment descriptors (`memory/gdt.c`, `memory/asm`)

`initGdt` writes five segment descriptors and one for the task state segment, tells the processor
where they are, and reloads the segment registers. `mem` is the memory by bytes, and `gdt` the
address of the structure `gdt`. A structure is written field by field, at the offsets the compiler
gives its fields.

The second half is the processor: what it reads from a descriptor, and which selectors it accepts
for a code segment, a data segment and a stack at privilege level 0. The stack is the one of
`Machine`, by words.
-/

namespace Yoix

open Memory Stack

/-! ## The structures (`memory/gdt.h`, `memory/tss.h`) -/

/-- `sizeof(GDT_t)`. -/
abbrev gdtEntrySize : Nat := 8

/-- `sizeof(GDT_TSS_t)`. -/
abbrev tssEntrySize : Nat := 16

/-- `sizeof(TSS_t)`. -/
abbrev tssSize : Nat := 108

abbrev gdtCount : Nat := 5

-- offsets in `YOIX_GDT`; `entry` and `tss` are aligned to 16 bytes
namespace YoixGdt

def ptrLimit : Nat := 0
def ptrBase : Nat := 2
def entry (i : Nat) : Nat := 16 + gdtEntrySize * i
def entryTss : Nat := entry gdtCount
def tss : Nat := 80
def tssRsp0 : Nat := tss + 4
def size : Nat := 192

end YoixGdt

abbrev flagData64 : Nat := 0xC
abbrev flagCode64 : Nat := 0xA
abbrev kernelCode : Nat := 0x9A
abbrev kernelData : Nat := 0x92
abbrev userCode : Nat := 0xF2
abbrev userData : Nat := 0xFA
abbrev tssAccessByte : Nat := 0x89

/-! ## Encoding -/

/-- The six fields of a `GDT_t`, in the order in which the source assigns them. -/
def encodeGdtEntry (mem : Nat → UInt8) (source base limit accessByte flags : Nat) :
    Nat → UInt8 :=
  let mem := writeLE mem (source + 2) 2 (base &&& 0xFFFF)
  let mem := writeLE mem (source + 4) 1 (base >>> 16 &&& 0xFF)
  let mem := writeLE mem (source + 7) 1 (base >>> 24 &&& 0xFF)
  let mem := writeLE mem source 2 (limit &&& 0xFFFF)
  let mem := writeLE mem (source + 5) 1 accessByte
  writeLE mem (source + 6) 1 (limit >>> 16 &&& 0x0F ||| flags <<< 4)

def encodeTssEntry (mem : Nat → UInt8) (source base limit accessByte flags : Nat) :
    Nat → UInt8 :=
  let mem := encodeGdtEntry mem source base limit accessByte flags
  let mem := writeLE mem (source + 8) 4 (base >>> 32 &&& 0xFFFFFFFF)
  writeLE mem (source + 12) 4 0

/-- What `initGdt` stores, up to `lgdt`. -/
def initGdtTables (mem : Nat → UInt8) (gdt : Nat) : Nat → UInt8 :=
  let mem := encodeGdtEntry mem (gdt + YoixGdt.entry 0) 0 0 0 0
  let mem := encodeGdtEntry mem (gdt + YoixGdt.entry 1) 0 0xFFFFF kernelCode flagCode64
  let mem := encodeGdtEntry mem (gdt + YoixGdt.entry 2) 0 0xFFFFF kernelData flagData64
  let mem := encodeGdtEntry mem (gdt + YoixGdt.entry 3) 0 0xFFFFF userData flagData64
  let mem := encodeGdtEntry mem (gdt + YoixGdt.entry 4) 0 0xFFFFF userCode flagCode64
  let mem := encodeTssEntry mem (gdt + YoixGdt.entryTss) (gdt + YoixGdt.tss) (tssSize - 1)
    tssAccessByte 0
  let mem := fill mem (gdt + YoixGdt.tss) tssSize 0
  let mem := writeLE mem (gdt + YoixGdt.tssRsp0) 8 0
  let mem := writeLE mem (gdt + YoixGdt.ptrBase) 8 (gdt + YoixGdt.entry 0)
  writeLE mem (gdt + YoixGdt.ptrLimit) 2 (gdtEntrySize * gdtCount + tssEntrySize - 1)

/-! ## The processor

A descriptor as the processor decodes it, and what it asks of one before it loads a selector. -/

/-- A register that holds where a table of descriptors is. -/
structure TableReg where
  base : Nat
  limit : Nat
  deriving DecidableEq, Repr

/-- `lgdt` and `lidt`: read the limit and the base from memory. -/
def loadTableReg (mem : Nat → UInt8) (p : Nat) : TableReg where
  base := readLE mem (p + 2) 8
  limit := readLE mem p 2

/-- What the processor reads from a descriptor of eight bytes. -/
structure Descriptor where
  base : Nat
  limit : Nat
  access : Nat
  flags : Nat
  deriving DecidableEq, Repr

def readDescriptor (mem : Nat → UInt8) (a : Nat) : Descriptor where
  base := readLE mem (a + 2) 2 + 2 ^ 16 * readLE mem (a + 4) 1 + 2 ^ 24 * readLE mem (a + 7) 1
  limit := readLE mem a 2 + 2 ^ 16 * (readLE mem (a + 6) 1 % 16)
  access := readLE mem (a + 5) 1
  flags := readLE mem (a + 6) 1 / 16

/-- The base of a task state segment has 64 bits, the upper ones in the second half of the
descriptor. -/
def readTssBase (mem : Nat → UInt8) (a : Nat) : Nat :=
  (readDescriptor mem a).base + 2 ^ 32 * readLE mem (a + 8) 4

namespace Descriptor

def present (d : Descriptor) : Bool := d.access.testBit 7

/-- A segment for code or data, and not one of the system. -/
def segment (d : Descriptor) : Bool := d.access.testBit 4

def executable (d : Descriptor) : Bool := d.access.testBit 3

def conforming (d : Descriptor) : Bool := d.access.testBit 2

/-- Readable code, writable data. -/
def accessible (d : Descriptor) : Bool := d.access.testBit 1

def dpl (d : Descriptor) : Nat := d.access / 32 % 4

/-- `L`: 64-bit code. -/
def long (d : Descriptor) : Bool := d.flags.testBit 1

/-- `D`, which 64-bit code may not have. -/
def big (d : Descriptor) : Bool := d.flags.testBit 2

def isCode64 (d : Descriptor) : Bool := d.present && d.segment && d.executable && d.long && !d.big

/-- Code at privilege level `cpl` may be entered through it. -/
def runsAt (d : Descriptor) (cpl : Nat) : Bool :=
  if d.conforming then d.dpl ≤ cpl else d.dpl = cpl

def isReadable (d : Descriptor) : Bool :=
  d.present && d.segment && (!d.executable || d.accessible)

def isWritableData (d : Descriptor) : Bool :=
  d.present && d.segment && !d.executable && d.accessible

end Descriptor

/-- The descriptor that a selector names in the global table: `none` for the null selector, for one
of a local table, and beyond the limit. -/
def findDescriptor (mem : Nat → UInt8) (gdtr : TableReg) (s : Selector) : Option Descriptor :=
  let index := s.toNat / 8
  if index = 0 ∨ s.toNat.testBit 2 ∨ gdtr.limit < gdtEntrySize * index + 7 then none
  else some (readDescriptor mem (gdtr.base + gdtEntrySize * index))

section

variable (mem : Nat → UInt8) (gdtr : TableReg) (s : Selector) (cpl : Nat)

/-- The selector may become `cs` for 64-bit code that runs at privilege level `cpl`. -/
def codeLoads : Bool :=
  match findDescriptor mem gdtr s with
  | none => false
  | some d => d.isCode64 && d.runsAt cpl && s.toNat % 4 = cpl

/-- The selector may be loaded into `ds`, `es`, `fs` or `gs` at privilege level `cpl`. The null
selector always may. -/
def dataLoads : Bool :=
  if s.toNat / 4 = 0 then true
  else
    match findDescriptor mem gdtr s with
    | none => false
    | some d => d.isReadable &&
        ((d.executable && d.conforming) || (s.toNat % 4 ≤ d.dpl && cpl ≤ d.dpl))

/-- The selector may be loaded into `ss` at privilege level `cpl`. -/
def stackLoads : Bool :=
  match findDescriptor mem gdtr s with
  | none => false
  | some d => d.isWritableData && d.dpl = cpl && s.toNat % 4 = cpl

end

/-! ## Reloading the segment registers (`memory/asm`)

The instructions of the two routines, each of which may fault. -/

inductive SegFault where
  | generalProtection
  /-- The far return did not lead to `.reload_CS`. -/
  | wildReturn
  deriving DecidableEq, Repr

section

variable (mem : Nat → UInt8) (gdtr : TableReg)

namespace Machine

/-- `retfq` at privilege level 0: pop the address and the code segment. -/
def retfq (m : Machine) : Except SegFault Machine :=
  let cs := (m.mem (slot m.rsp 1)).setWidth 16
  if codeLoads mem gdtr cs 0 then .ok { m with rip := m.mem (slot m.rsp 0), cs, rsp := slot m.rsp 2 }
  else .error .generalProtection

/-- `mov seg, ax` with the checks of the processor. -/
def loadSeg (m : Machine) (s : Seg) : Except SegFault Machine :=
  if dataLoads mem gdtr m.ax 0 then .ok (m.setSeg s m.ax) else .error .generalProtection

/-- `mov ss, ax`. -/
def loadSs (m : Machine) : Except SegFault Machine :=
  if stackLoads mem gdtr m.ax 0 then .ok { m with ss := m.ax } else .error .generalProtection

/-- `ret`. -/
def ret (m : Machine) : Machine := { m with rip := m.mem m.rsp, rsp := m.rsp + 8 }

end Machine

/-- From its first instruction to its `ret`. `reloadCs` is the address of `.reload_CS`. -/
def reloadSegments (reloadCs : Word) (m : Machine) : Except SegFault Machine := do
  let m := m.push 0x08
  let m := m.setReg .rax reloadCs
  let m := m.push (m.gpr .rax)
  let m ← m.retfq mem gdtr
  if m.rip ≠ reloadCs then .error .wildReturn
  else do
    let m := m.setAx 0x10
    let m ← m.loadSeg mem gdtr .ds
    let m ← m.loadSeg mem gdtr .es
    let m ← m.loadSeg mem gdtr .fs
    let m ← m.loadSeg mem gdtr .gs
    let m ← m.loadSs mem gdtr
    .ok m.ret

/-- The task register: the base and the limit of the task state segment. -/
structure TaskReg where
  base : Nat
  limit : Nat
  deriving DecidableEq, Repr

/-- `ltr`: the descriptor has to be a free 64-bit task state segment inside the table, and is marked
as in use. -/
def ltr (s : Selector) : Except SegFault (TaskReg × (Nat → UInt8)) :=
  let a := gdtr.base + gdtEntrySize * (s.toNat / 8)
  let d := readDescriptor mem a
  if s.toNat / 8 = 0 ∨ s.toNat.testBit 2 ∨ gdtr.limit < gdtEntrySize * (s.toNat / 8) + 15 ∨
      d.access % 32 ≠ 0x09 ∨ !d.present then .error .generalProtection
  else .ok (⟨readTssBase mem a, d.limit⟩, writeLE mem (a + 5) 1 (d.access ||| 2))

/-- `flush_tss`, with the machine as its `ret` leaves it. -/
def flushTss (m : Machine) : Except SegFault (Machine × TaskReg × (Nat → UInt8)) := do
  let m := m.setAx 0x28
  let (tr, mem) ← ltr mem gdtr m.ax
  .ok (m.ret, tr, mem)

end

/-- What `initGdt` leaves. -/
structure GdtLoaded where
  machine : Machine
  mem : Nat → UInt8
  gdtr : TableReg
  tr : TaskReg

/-- `initGdt`; the two calls push the addresses `ret₁` and `ret₂`. -/
def initGdt (mem : Nat → UInt8) (gdt : Nat) (reloadCs ret₁ ret₂ : Word) (m : Machine) :
    Except SegFault GdtLoaded := do
  let mem := initGdtTables mem gdt
  let gdtr := loadTableReg mem (gdt + YoixGdt.ptrLimit)
  let m ← reloadSegments mem gdtr reloadCs (m.push ret₁)
  let (m, tr, mem) ← flushTss mem gdtr (m.push ret₂)
  .ok { machine := m, mem, gdtr, tr }

end Yoix
