import Yoix.Kernel

/-!
# The page tables (`memory/vmm.c`)

The four levels of an x86-64 address space are tables of 512 entries of eight bytes. `cr3` is
the value of the register of that name, and a pointer to a table is its address in the direct
map, 0 standing for `NULL`. `invlpg` acts on the translation cache of the processor alone and
leaves nothing behind in the state that is modelled here.
-/

namespace Yoix

/-! ## Entries and indices

A table is an array of 512 entries of eight bytes; each level of the walk takes nine bits of the
address. -/

abbrev pagePresent : Nat := 1 <<< 0
abbrev pageWritable : Nat := 1 <<< 1
abbrev pageUser : Nat := 1 <<< 2
abbrev pageAddrMask : Nat := 0x000FFFFFFFFFF000

def pml4Index (addr : Nat) : Nat := addr >>> 39 &&& 0x1FF
def pdptIndex (addr : Nat) : Nat := addr >>> 30 &&& 0x1FF
def pdIndex (addr : Nat) : Nat := addr >>> 21 &&& 0x1FF
def ptIndex (addr : Nat) : Nat := addr >>> 12 &&& 0x1FF

namespace Kernel

/-- `table[index]` of a `uint64_t *`. -/
def getEntry (hhdm : Option Nat) (k : Kernel) (table index : Nat) : Except Fault Nat :=
  k.load hhdm (table + 8 * index) 8

def setEntry (hhdm : Option Nat) (k : Kernel) (table index value : Nat) : Except Fault Kernel :=
  k.store hhdm (table + 8 * index) 8 value

end Kernel

/-! ## The functions

They follow the tables through the direct map. A walk that meets an absent entry either stops or
makes a new table, which `Make_Page` takes from the page allocator. -/

section

variable (hhdm : Option Nat)

/-- The loop of `Make_Page`, with `n` entries from `i` on to go. -/
def zeroEntriesLoop (pageVirt : Nat) : Nat → Kernel → Nat → Except Fault Kernel
  | 0, k, _ => .ok k
  | n + 1, k, i => do
    let k ← k.setEntry hhdm pageVirt i 0
    zeroEntriesLoop pageVirt n k (i + 1)

def makePage (k : Kernel) : Except Fault (Nat × Kernel) := do
  let (pagePhy, buddy) ← buddyAllocPage k.buddy
  let k := { k with buddy := buddy }
  if pagePhy = buddyInvalidAddress then .ok (buddyInvalidAddress, k)
  else do
    let pageVirt := phyToVirt hhdm pagePhy
    let k ← zeroEntriesLoop hhdm pageVirt 512 k 0
    .ok (pagePhy, k)

def vmmGetNextLevel (k : Kernel) (table index : Nat) : Except Fault (Nat × Kernel) := do
  let entry ← k.getEntry hhdm table index
  if entry &&& pagePresent = 0 then do
    let (newTablePhys, k) ← makePage hhdm k
    if newTablePhys = buddyInvalidAddress then .ok (0, k)
    else do
      let k ← k.setEntry hhdm table index (newTablePhys ||| pagePresent ||| pageWritable)
      .ok (phyToVirt hhdm newTablePhys, k)
  else .ok (phyToVirt hhdm (entry &&& pageAddrMask), k)

def vmmGetExistingLevel (k : Kernel) (table index : Nat) : Except Fault Nat := do
  let entry ← k.getEntry hhdm table index
  if entry &&& pagePresent = 0 then .ok 0
  else .ok (phyToVirt hhdm (entry &&& pageAddrMask))

variable (cr3 : Nat)

def vmmMap (k : Kernel) (virtAddr physAddr flags : Nat) : Except Fault (Bool × Kernel) :=
  let pml4 := phyToVirt hhdm (cr3 &&& pageAddrMask)
  if pml4 = 0 then .ok (false, k)
  else do
    let (pdpt, k) ← vmmGetNextLevel hhdm k pml4 (pml4Index virtAddr)
    if pdpt = 0 then .ok (false, k)
    else do
      let (pd, k) ← vmmGetNextLevel hhdm k pdpt (pdptIndex virtAddr)
      if pd = 0 then .ok (false, k)
      else do
        let (pt, k) ← vmmGetNextLevel hhdm k pd (pdIndex virtAddr)
        if pt = 0 then .ok (false, k)
        else do
          let k ← k.setEntry hhdm pt (ptIndex virtAddr) (physAddr &&& pageAddrMask ||| flags)
          .ok (true, k)

def vmmUnmap (k : Kernel) (virtAddr : Nat) : Except Fault (Bool × Kernel) :=
  let pml4 := phyToVirt hhdm (cr3 &&& pageAddrMask)
  if pml4 = 0 then .ok (false, k)
  else do
    let pdpt ← vmmGetExistingLevel hhdm k pml4 (pml4Index virtAddr)
    if pdpt = 0 then .ok (false, k)
    else do
      let pd ← vmmGetExistingLevel hhdm k pdpt (pdptIndex virtAddr)
      if pd = 0 then .ok (false, k)
      else do
        let pt ← vmmGetExistingLevel hhdm k pd (pdIndex virtAddr)
        if pt = 0 then .ok (false, k)
        else do
          let oldEntry ← k.getEntry hhdm pt (ptIndex virtAddr)
          if oldEntry &&& pagePresent = 0 then .ok (false, k)
          else do
            let k ← k.setEntry hhdm pt (ptIndex virtAddr) 0
            let buddy ← buddyFreePage k.buddy (oldEntry &&& pageAddrMask)
            .ok (true, { k with buddy := buddy })

def vmmGetPhys (k : Kernel) (virtAddr : Nat) : Except Fault Nat :=
  let pml4 := phyToVirt hhdm (cr3 &&& pageAddrMask)
  if pml4 = 0 then .ok buddyInvalidAddress
  else do
    let pdpt ← vmmGetExistingLevel hhdm k pml4 (pml4Index virtAddr)
    if pdpt = 0 then .ok buddyInvalidAddress
    else do
      let pd ← vmmGetExistingLevel hhdm k pdpt (pdptIndex virtAddr)
      if pd = 0 then .ok buddyInvalidAddress
      else do
        let pt ← vmmGetExistingLevel hhdm k pd (pdIndex virtAddr)
        if pt = 0 then .ok buddyInvalidAddress
        else do
          let entry ← k.getEntry hhdm pt (ptIndex virtAddr)
          if entry &&& pagePresent = 0 then .ok buddyInvalidAddress
          else
            let physBase := entry &&& pageAddrMask
            let offset := virtAddr &&& 0xFFF
            .ok (physBase ||| offset)

end

end Yoix
