import Yoix.Lib.Memory
import Mathlib.Algebra.Group.Nat.Defs
import Mathlib.Logic.Function.Basic

/-!
# The IOAPICs (`drivers/interrupt/APIC/ioapic.c`)

`init_IOAPIC` scans the MADT for the IOAPICs of the machine and for the interrupt source
overrides, and keeps pointers to their records. `mem` is the memory as the kernel reads it, so
that a record is named by its address. A redirection entry is stored into an IOAPIC through two
registers of its page: the first selects one of its 32-bit registers, the other one, at `0x10`,
is a window to the selected register.

A `uint8_t` and a `uint32_t` are the fixed-width types of the same width; the count of an array
is the length of a list.
-/

namespace Yoix

open Memory

/-! ## Records of the MADT (`drivers/ACPI/madt.h`)

The fields that `ioapic.c` reads, at their offsets in the packed structures. -/

/-- `sizeof(struct MADT_t)`. -/
abbrev madtSize : Nat := 44

section Records

variable (mem : Nat → UInt8) (record : Nat)

/-- `h.Length` of a `struct MADT_t`. -/
def madtLength : Nat := readLE mem (record + 4) 4

/-- `IOAPIC_Address` of a `struct IOAPIC`. -/
def ioapicAddress : UInt32 := UInt32.ofNat (readLE mem (record + 4) 4)

/-- `GSI_base` of a `struct IOAPIC`. -/
def gsiBase : UInt32 := UInt32.ofNat (readLE mem (record + 8) 4)

/-- `IRQ_Source` of a `struct IOAPIC_ISO`. -/
def irqSource : UInt8 := mem (record + 3)

/-- `GSI` of a `struct IOAPIC_ISO`. -/
def isoGsi : UInt32 := UInt32.ofNat (readLE mem (record + 4) 4)

end Records

/-! ## Finding the records

`FindEntries` goes from record to record by their length bytes. `init_IOAPIC` keeps what it finds,
and `Get_iso_gsi` looks an interrupt up in it. -/

/-- The loop of `FindEntries`. Every round that goes on moves `ptr` by at least one byte, so as
many rounds as there are bytes up to `entriesEnd` are enough. -/
def findEntriesLoop (mem : Nat → UInt8) (type : Nat) (arrayGiven : Bool)
    (maxCount entriesEnd : Nat) : Nat → Nat → List Nat → List Nat
  | 0, _, array => array
  | n + 1, ptr, array =>
    if ptr < entriesEnd then
      let entryType := mem ptr
      let entryLength := mem (ptr + 1)
      let array :=
        if entryType.toNat = type ∧ arrayGiven ∧ array.length < maxCount then array ++ [ptr]
        else array
      if entryLength = 0 then array
      else
        findEntriesLoop mem type arrayGiven maxCount entriesEnd n (ptr + entryLength.toNat) array
    else array

/-- The pointers stored in the array, in order; their number is the returned count. `arrayGiven`
is false when the array is `NULL`. -/
def findEntries (mem : Nat → UInt8) (madtHeader type : Nat) (arrayGiven : Bool)
    (maxCount : Nat) : List Nat :=
  let entriesEnd := madtHeader + madtLength mem madtHeader
  let ptr := madtHeader + madtSize
  findEntriesLoop mem type arrayGiven maxCount entriesEnd (entriesEnd - ptr) ptr []

/-- The global arrays of `ioapic.c`. -/
structure IoapicTables where
  ioapicEntries : List Nat
  isoEntries : List Nat
  physAddress : List UInt32
  deriving DecidableEq, Repr

/-- The records that `init_IOAPIC` keeps. -/
def initIoapic (mem : Nat → UInt8) (madtHeader : Nat) : IoapicTables :=
  let ioapicEntries := findEntries mem madtHeader 1 true 16
  let isoEntries := findEntries mem madtHeader 2 true 256
  { ioapicEntries, isoEntries, physAddress := ioapicEntries.map (ioapicAddress mem) }

/-- The loop of `Get_iso_gsi`. -/
def isoGsiLoop (mem : Nat → UInt8) (irq : UInt8) : List Nat → UInt32
  | [] => irq.toUInt32
  | iso :: rest => if irqSource mem iso = irq then isoGsi mem iso else isoGsiLoop mem irq rest

def getIsoGsi (mem : Nat → UInt8) (t : IoapicTables) (irq : UInt8) : UInt32 :=
  isoGsiLoop mem irq t.isoEntries

/-! ## The registers of an IOAPIC

A device has a select register and a window to the register that is selected. -/

/-- An IOAPIC: the selected register, and the file of registers. -/
structure IoapicDevice where
  select : UInt8
  regs : UInt8 → UInt32

/-- A 32-bit store at an offset into the page of the IOAPIC. -/
def IoapicDevice.store (d : IoapicDevice) (offset : Nat) (value : UInt32) : IoapicDevice :=
  if offset = 0 then { d with select := value.toUInt8 }
  else if offset = 0x10 then { d with regs := Function.update d.regs d.select value }
  else d

/-- The IOAPICs, by their index into `virt_Address`. -/
abbrev Ioapics : Type := Nat → IoapicDevice

/-- A store at an offset from `virt_Address[index]`. -/
def Ioapics.store (devices : Ioapics) (index offset : Nat) (value : UInt32) : Ioapics :=
  Function.update devices index ((devices index).store offset value)

def ioapicWrite (devices : Ioapics) (regOff : UInt8) (data : UInt32) (index : UInt8) : Ioapics :=
  let devices := devices.store index.toNat 0 regOff.toUInt32
  devices.store index.toNat 0x10 data

def offsetLower (pin : UInt8) : UInt8 := 0x10 + pin * 2

def offsetUpper (pin : UInt8) : UInt8 := 0x10 + pin * 2 + 1

/-- `union RedirectionEntry`, as its two halves. -/
structure RedirectionEntry where
  lowerDword : UInt32
  upperDword : UInt32
  deriving DecidableEq, Repr

section

variable (mem : Nat → UInt8) (t : IoapicTables)

def getPin (ioapicEntry : Nat) (irq : UInt8) : UInt8 :=
  (getIsoGsi mem t irq - gsiBase mem ioapicEntry).toUInt8

def loadRedir (devices : Ioapics) (redir : RedirectionEntry) (ioapicEntry : Nat) (irq : UInt8) :
    Ioapics :=
  let pin := getPin mem t ioapicEntry irq
  let devices := ioapicWrite devices (offsetLower pin) redir.lowerDword 0
  ioapicWrite devices (offsetUpper pin) redir.upperDword 0

end

end Yoix
