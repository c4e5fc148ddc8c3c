import Yoix.Kernel

/-!
# The kernel heap (`memory/heap.c`)

Requests of up to 2048 bytes are served from slabs: a page with a `heap_slab_page_t` header in
front of equal objects, the free ones linked through their first word. The slabs of a size
class that have a free object form the singly linked `partial_pages` list of its cache. Larger
requests get whole blocks from the page allocator behind a `heap_large_header_t`.

Structures in memory are read and written field by field at the offsets the compiler gives
them. The index functions return `none` where the source returns `-1`.
-/

namespace Yoix

open Memory

/-! ## Layout

The structures of the source with the offsets that the compiler gives their fields. -/

abbrev heapMagicSmall : Nat := 0x534C5542
abbrev heapMagicLarge : Nat := 0x4C415247
abbrev heapMinObjectSize : Nat := 8
abbrev heapCacheClassCount : Nat := 9

def heapCacheSizes : List Nat := [8, 16, 32, 64, 128, 256, 512, 1024, 2048]

/-- A field of a structure in memory. -/
structure Field where
  offset : Nat
  bytes : Nat

-- `heap_slab_page_t`; four bytes of padding precede `free_list`
namespace HeapSlabPage

def magic : Field := ⟨0, 4⟩
def objectSize : Field := ⟨4, 2⟩
def totalObjects : Field := ⟨6, 2⟩
def freeCount : Field := ⟨8, 2⟩
def reserved : Field := ⟨10, 2⟩
def freeList : Field := ⟨16, 8⟩
def next : Field := ⟨24, 8⟩
def bitmap (i : Nat) : Field := ⟨32 + 8 * i, 8⟩

end HeapSlabPage

/-- `sizeof(heap_slab_page_t)`. -/
abbrev slabHeaderSize : Nat := 2080

-- `heap_large_header_t`
namespace HeapLargeHeader

def magic : Field := ⟨0, 4⟩
def pageCount : Field := ⟨4, 4⟩

end HeapLargeHeader

/-- `sizeof(heap_large_header_t)`. -/
abbrev largeHeaderSize : Nat := 8

namespace Kernel

/-- `page->field`. -/
def getField (hhdm : Option Nat) (k : Kernel) (page : Nat) (field : Field) : Except Fault Nat :=
  k.load hhdm (page + field.offset) field.bytes

/-- `page->field = value`. -/
def setField (hhdm : Option Nat) (k : Kernel) (page : Nat) (field : Field) (value : Nat) :
    Except Fault Kernel :=
  k.store hhdm (page + field.offset) field.bytes value

/-- `heap_caches[index].partial_pages = phys`. -/
def setPartialPages (k : Kernel) (index phys : Nat) : Kernel :=
  let cache := { k.heapCaches index with partialPages := phys }
  { k with heapCaches := Function.update k.heapCaches index cache }

end Kernel

/-! ## Indices -/

def getBit (index : Nat) : Nat := index % 64

def getOffset (index : Nat) : Nat := 1 <<< getBit index

def getArray (index : Nat) : Nat := index / 64

/-- The loop of `heap_cache_index` over the sizes from `index` on. -/
def cacheIndexLoop (rounded : Nat) : List Nat → Nat → Option Nat
  | [], _ => none
  | size :: sizes, index =>
    if rounded ≤ size then some index else cacheIndexLoop rounded sizes (index + 1)

def heapCacheIndex (size : Nat) : Option Nat :=
  let rounded := if size < heapMinObjectSize then heapMinObjectSize else size
  cacheIndexLoop rounded heapCacheSizes 0

/-- The number of pages `kmalloc` asks for: the request behind its header, rounded up. -/
def largePages (size : Nat) : Nat :=
  let totalSize := (size + largeHeaderSize) % 2 ^ 64
  (totalSize + buddyPageSize - 1) % 2 ^ 64 / buddyPageSize

section

variable (hhdm : Option Nat)

def objectIndex (k : Kernel) (ptr virtPage page : Nat) : Except Fault (Option Nat) :=
  let objectBuffer := (virtPage + slabHeaderSize) % 2 ^ 64
  if ptr < objectBuffer then .ok none
  else do
    let offset := ptr - objectBuffer
    let objectSize ← k.getField hhdm page HeapSlabPage.objectSize
    if objectSize = 0 then .error .divideByZero
    else if offset % objectSize = 0 then .ok none
    else do
      let stop := offset / objectSize
      let totalObjects ← k.getField hhdm page HeapSlabPage.totalObjects
      if stop ≥ totalObjects then .ok none else .ok (some stop)

/-! ## Partial lists

The slabs of a class that have a free object, linked by physical addresses with 0 as the end. -/

/-- The loop of `heap_remove_slab_from_cache`. Nothing is written before its last round, so a
list that does not end within as many rounds as there are addresses never does. -/
def removeSlabLoop (index slabPhys : Nat) : Nat → Kernel → Nat → Nat → Except Fault Kernel
  | 0, _, _, _ => .error .diverges
  | n + 1, k, prev, current =>
    if current = 0 then .ok k
    else
      let page := phyToVirt hhdm current
      if page = 0 then .ok k
      else do
        let next ← k.getField hhdm page HeapSlabPage.next
        if current = slabPhys then
          if prev = 0 then
            (k.setPartialPages index next).setField hhdm page HeapSlabPage.next 0
          else
            let prevPage := phyToVirt hhdm prev
            if prevPage = 0 then .ok k
            else do
              let k ← k.setField hhdm prevPage HeapSlabPage.next next
              k.setField hhdm page HeapSlabPage.next 0
        else removeSlabLoop index slabPhys n k current next

def heapRemoveSlabFromCache (k : Kernel) (index slabPhys : Nat) : Except Fault Kernel :=
  removeSlabLoop hhdm index slabPhys (2 ^ 64) k 0 (k.heapCaches index).partialPages

def heapInsertSlabIntoCache (k : Kernel) (index slabPhys : Nat) : Except Fault Kernel :=
  let page := phyToVirt hhdm slabPhys
  if page = 0 then .ok k
  else do
    let k ← k.setField hhdm page HeapSlabPage.next (k.heapCaches index).partialPages
    .ok (k.setPartialPages index slabPhys)

/-! ## Slabs -/

/-- The loop of `heap_alloc_slab_page` that links the objects. The index is a `uint16_t` below
`total_objects`, so the rounds are bounded by `2 ^ 16`. -/
def linkObjectsLoop (objectSize page : Nat) : Nat → Kernel → Nat → Nat → Except Fault Kernel
  | 0, _, _, _ => .error .diverges
  | n + 1, k, index, objectBuffer => do
    let totalObjects ← k.getField hhdm page HeapSlabPage.totalObjects
    if index < totalObjects then
      if index + 1 < totalObjects then do
        let nextBuffer := (objectBuffer + objectSize) % 2 ^ 64
        let k ← k.store hhdm objectBuffer 8 nextBuffer
        linkObjectsLoop objectSize page n k (index + 1) nextBuffer
      else do
        let k ← k.store hhdm objectBuffer 8 0
        linkObjectsLoop objectSize page n k (index + 1) objectBuffer
    else .ok k

/-- `memset` to zero through a pointer. -/
def memsetZero (k : Kernel) (virt bytes : Nat) : Except Fault Kernel := do
  let phys ← translate hhdm virt
  .ok { k with mem := fill k.mem phys bytes 0 }

/-- The part of `heap_alloc_slab_page` that formats the page at `page`. -/
def formatSlabPage (k : Kernel) (page objectSize : Nat) : Except Fault Kernel := do
  let k ← k.setField hhdm page HeapSlabPage.magic heapMagicSmall
  let k ← k.setField hhdm page HeapSlabPage.objectSize objectSize
  if objectSize = 0 then .error .divideByZero
  else do
    let k ← k.setField hhdm page HeapSlabPage.totalObjects
      ((buddyPageSize - slabHeaderSize) / objectSize)
    let totalObjects ← k.getField hhdm page HeapSlabPage.totalObjects
    let k ← k.setField hhdm page HeapSlabPage.freeCount totalObjects
    let k ← k.setField hhdm page HeapSlabPage.reserved 0
    let k ← k.setField hhdm page HeapSlabPage.next 0
    let k ← memsetZero hhdm k (page + (HeapSlabPage.bitmap 0).offset) (256 * 8)
    let objectBuffer := (page + slabHeaderSize) % 2 ^ 64
    let k ← k.setField hhdm page HeapSlabPage.freeList objectBuffer
    linkObjectsLoop hhdm objectSize page (2 ^ 16) k 0 objectBuffer

def heapAllocSlabPage (k : Kernel) (objectSize : Nat) : Except Fault (Nat × Kernel) := do
  let (phys, buddy) ← buddyAllocPage k.buddy
  let k := { k with buddy := buddy }
  if phys = buddyInvalidAddress then .ok (buddyInvalidAddress, k)
  else
    let pageVirt := phyToVirt hhdm phys
    if pageVirt = 0 then do
      let buddy ← buddyFreePage k.buddy phys
      .ok (buddyInvalidAddress, { k with buddy := buddy })
    else do
      let k ← formatSlabPage hhdm k pageVirt objectSize
      .ok (phys, k)

/-- The part of `heap_alloc_from_cache` after a slab has been found or made. -/
def takeFirstObject (k : Kernel) (index : Nat) : Except Fault (Nat × Kernel) := do
  let slabPhys := (k.heapCaches index).partialPages
  let page := phyToVirt hhdm slabPhys
  if page = 0 then .ok (0, k)
  else do
    let object ← k.getField hhdm page HeapSlabPage.freeList
    if object = 0 then .ok (0, k)
    else do
      let objIndex ← objectIndex hhdm k object page page
      match objIndex with
      | none => .ok (0, k)
      | some i => do
        let bits ← k.getField hhdm page (HeapSlabPage.bitmap (getArray i))
        let k ← k.setField hhdm page (HeapSlabPage.bitmap (getArray i)) (bits ||| getOffset i)
        let rest ← k.load hhdm object 8
        let k ← k.setField hhdm page HeapSlabPage.freeList rest
        let count ← k.getField hhdm page HeapSlabPage.freeCount
        let k ← k.setField hhdm page HeapSlabPage.freeCount ((count + (2 ^ 16 - 1)) % 2 ^ 16)
        let count ← k.getField hhdm page HeapSlabPage.freeCount
        let k ← if count = 0 then heapRemoveSlabFromCache hhdm k index slabPhys else .ok k
        .ok (object, k)

def heapAllocFromCache (k : Kernel) (index : Nat) : Except Fault (Nat × Kernel) :=
  if (k.heapCaches index).partialPages = 0 then do
    let (slab, k) ← heapAllocSlabPage hhdm k (k.heapCaches index).objectSize
    if slab = buddyInvalidAddress then .ok (0, k)
    else takeFirstObject hhdm (k.setPartialPages index slab) index
  else takeFirstObject hhdm k index

/-! ## Freeing

A large block goes back to the page allocator. An object goes back to its slab, which is put on the
list of its class, taken off it or given back as a whole. -/

def heapFreeLarge (k : Kernel) (header pagePhys : Nat) : Except Fault Kernel := do
  let magic ← k.getField hhdm header HeapLargeHeader.magic
  if magic ≠ heapMagicLarge then .ok k
  else do
    let pageCount ← k.getField hhdm header HeapLargeHeader.pageCount
    let buddy ← buddyFreePages k.buddy pagePhys pageCount
    .ok { k with buddy := buddy }

/-- The end of `heap_free_small`: a slab that became empty goes back to the page allocator, and
one that was full joins its partial list. -/
def settleSlab (k : Kernel) (page pagePhys index : Nat) : Except Fault Kernel := do
  let count ← k.getField hhdm page HeapSlabPage.freeCount
  let total ← k.getField hhdm page HeapSlabPage.totalObjects
  if count = total then do
    let k ← heapRemoveSlabFromCache hhdm k index pagePhys
    let buddy ← buddyFreePage k.buddy pagePhys
    .ok { k with buddy := buddy }
  else if count = 1 then heapInsertSlabIntoCache hhdm k index pagePhys
  else .ok k

/-- The part of `heap_free_small` after its checks: give object `i` at `object` back. -/
def putObject (k : Kernel) (object page pagePhys index i : Nat) : Except Fault Kernel := do
  let freeList ← k.getField hhdm page HeapSlabPage.freeList
  let k ← k.store hhdm object 8 freeList
  let k ← k.setField hhdm page HeapSlabPage.freeList object
  let count ← k.getField hhdm page HeapSlabPage.freeCount
  let k ← k.setField hhdm page HeapSlabPage.freeCount ((count + 1) % 2 ^ 16)
  let bits ← k.getField hhdm page (HeapSlabPage.bitmap (getArray i))
  let k ← k.setField hhdm page (HeapSlabPage.bitmap (getArray i)) (bits &&& not64 (getOffset i))
  settleSlab hhdm k page pagePhys index

def heapFreeSmall (k : Kernel) (ptr page pagePhys : Nat) : Except Fault Kernel := do
  let magic ← k.getField hhdm page HeapSlabPage.magic
  if magic ≠ heapMagicSmall then .ok k
  else do
    let pageVirt := phyToVirt hhdm pagePhys
    let objIndex ← objectIndex hhdm k ptr pageVirt page
    match objIndex with
    | none => .ok k
    | some i => do
      let objectSize ← k.getField hhdm page HeapSlabPage.objectSize
      let bits ← k.getField hhdm page (HeapSlabPage.bitmap (getArray i))
      if bits &&& getOffset i = 0 then .ok k
      else
        match heapCacheIndex objectSize with
        | none => .ok k
        | some index => putObject hhdm k ptr page pagePhys index i

/-! ## The interface

`kmalloc` serves a request from a slab or as a large block; `kfree` finds out which of the two it
was by the magic number at the page of the pointer. -/

def heapInit (k : Kernel) : Kernel :=
  { k with heapCaches := fun index =>
      if index < heapCacheClassCount then ⟨heapCacheSizes.getD index 0 % 2 ^ 16, 0⟩
      else k.heapCaches index }

/-- Returns the pointer, 0 for `NULL`. -/
def kmalloc (k : Kernel) (size : Nat) : Except Fault (Nat × Kernel) :=
  if size = 0 then .ok (0, k)
  else
    match heapCacheIndex size with
    | some index => heapAllocFromCache hhdm k index
    | none => do
      let pages := largePages size
      let (phys, buddy) ← buddyAllocPages k.buddy pages
      let k := { k with buddy := buddy }
      if phys = buddyInvalidAddress then .ok (0, k)
      else
        let virt := phyToVirt hhdm phys
        if virt = 0 then do
          let buddy ← buddyFreePages k.buddy phys pages
          .ok (0, { k with buddy := buddy })
        else do
          let k ← k.setField hhdm virt HeapLargeHeader.magic heapMagicLarge
          let k ← k.setField hhdm virt HeapLargeHeader.pageCount (pages % 2 ^ 32)
          .ok ((virt + largeHeaderSize) % 2 ^ 64, k)

def kfree (k : Kernel) (ptr : Nat) : Except Fault Kernel :=
  match hhdm with
  | none => .ok k
  | some offset =>
    if ptr = 0 then .ok k
    else
      let pageVirt := ptr &&& not64 (buddyPageSize - 1)
      let pagePhys := (pageVirt + (2 ^ 64 - offset)) % 2 ^ 64
      let pageStart := phyToVirt hhdm pagePhys
      if pageStart = 0 then .ok k
      else do
        let magic ← k.getField hhdm pageStart HeapSlabPage.magic
        if magic = heapMagicSmall then heapFreeSmall hhdm k ptr pageStart pagePhys
        else do
          let magic ← k.getField hhdm pageStart HeapLargeHeader.magic
          if magic = heapMagicLarge then heapFreeLarge hhdm k pageStart pagePhys
          else .ok k

end

end Yoix
