import Yoix.Kernel

/-!
# The ACPI tables (`drivers/ACPI/acpi.c`)

The firmware gives an RSDP, which names a root table: an XSDT with 64-bit entries when its revision
is 2, and an RSDT with 32-bit entries otherwise. `findTable` goes through the entries of the root
table and returns the first table with the requested signature.

`mem` is the memory as the kernel reads it, and a pointer is a natural below `2 ^ 64`. The entries
are physical addresses; `phyToVirt` turns them into pointers. `findTable` also returns the entry
slots that it read, as offsets from the start of the root table.
-/

namespace Yoix

open Memory

/-! ## Accesses -/

/-- The bytes from a pointer on. -/
def bytesAt (mem : Nat → UInt8) (p : Nat) : Nat → UInt8 := fun i => mem ((p + i) % 2 ^ 64)

/-- A little-endian field of `n` bytes at an offset from a pointer. -/
def field (mem : Nat → UInt8) (p offset n : Nat) : Nat := readLE (bytesAt mem p) offset n

/-- The loop of `strncmp` from character `i` on, with `n` characters left. -/
def strncmpLoop (s1 s2 : Nat → UInt8) : Nat → Nat → Int
  | 0, _ => 0
  | n + 1, i =>
    if s1 i ≠ 0 ∧ s1 i = s2 i then strncmpLoop s1 s2 n (i + 1)
    else (s1 i).toNat - (s2 i).toNat

def strncmp (s1 s2 : Nat → UInt8) (n : Nat) : Int := strncmpLoop s1 s2 n 0

/-! ## The root table

A root table lists the addresses of the others, in entries of four or of eight bytes. The search
returns the table and the offsets of the entries it has read. -/

/-- `sizeof(struct ACPISDTHeader)`. -/
abbrev sdtHeaderSize : Nat := 36

section

variable (mem : Nat → UInt8) (hhdm : Option Nat) (p : Nat)

/-- `Revision` of a `struct RSDP_t` and of a `struct XSDP_t`. -/
def rsdpRevision : Nat := field mem p 15 1

/-- `RsdtAddress`. -/
def rsdtAddress : Nat := field mem p 16 4

/-- `XsdtAddress` of a `struct XSDP_t`. -/
def xsdtAddress : Nat := field mem p 24 8

/-- `Length` of a `struct ACPISDTHeader`. -/
def sdtLength : Nat := field mem p 4 4

/-- Returns `NULL` when the RSDP names no XSDT. -/
def getXsdt : Nat :=
  if rsdpRevision mem p ≠ 2 ∨ xsdtAddress mem p = 0 then 0
  else phyToVirt hhdm (xsdtAddress mem p)

def getRsdt : Nat := phyToVirt hhdm (rsdtAddress mem p)

/-- `entries_count`, for entries of `width` bytes. The subtraction is made on 64 bits. -/
def entriesCount (width : Nat) : Nat :=
  (sdtLength mem p + (2 ^ 64 - sdtHeaderSize)) % 2 ^ 64 / width

end

/-- What `findTable` returns, and the entry slots that it read. -/
structure TableSearch where
  table : Nat
  slots : List Nat
  deriving DecidableEq, Repr

/-- The loops of `findTable` over the entries of a root table, from entry `i` on with `n` entries
left. -/
def searchLoop (mem : Nat → UInt8) (hhdm : Option Nat) (tableSign : Nat → UInt8)
    (root width : Nat) : Nat → Nat → TableSearch
  | 0, _ => { table := 0, slots := [] }
  | n + 1, i =>
    let slot := sdtHeaderSize + width * i
    let h := phyToVirt hhdm (field mem root slot width)
    if strncmp (bytesAt mem h) tableSign 4 = 0 then { table := h, slots := [slot] }
    else
      let rest := searchLoop mem hhdm tableSign root width n (i + 1)
      { rest with slots := slot :: rest.slots }

section

variable (mem : Nat → UInt8) (hhdm : Option Nat) (tableSign : Nat → UInt8)

/-- The search of an RSDT. -/
def searchRsdt (rsdt : Nat) : TableSearch :=
  searchLoop mem hhdm tableSign rsdt 4 (entriesCount mem rsdt 4) 0

/-- The search of an XSDT. -/
def searchXsdt (xsdt : Nat) : TableSearch :=
  searchLoop mem hhdm tableSign xsdt 8 (entriesCount mem xsdt 8) 0

def findTable (phyAddress : Nat) : TableSearch :=
  let xsdt := getXsdt mem hhdm phyAddress
  if xsdt = 0 then searchRsdt mem hhdm tableSign (getRsdt mem hhdm phyAddress)
  else searchXsdt mem hhdm tableSign xsdt

end

end Yoix
