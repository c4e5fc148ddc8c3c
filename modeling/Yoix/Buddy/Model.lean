import Yoix.Fault
import Mathlib.Algebra.Group.Nat.Defs
import Mathlib.Logic.Function.Basic

/-!
# The buddy page allocator (`memory/buddy.c`)

The allocator manages the frames below 1 GiB. `pageState` holds one byte per frame: the order
of the free block that starts there, or one of the three markers below. The free blocks of
each order form a doubly linked list through `freeNext` and `freePrev`, with `uint32Max` at
both ends.

The arrays are functions on `Nat` and every access goes through a bounds check against the
array's length in the source; see `Fault`. A `uint32_t` frame number, an order and a state byte
are naturals, reduced where the source narrows them.
-/

namespace Yoix

/-! ## Constants -/

abbrev uint32Max : Nat := 2 ^ 32 - 1
abbrev buddyPageSize : Nat := 0x1000
abbrev buddyMaxPhys : Nat := 1 * 1024 * 1024 * 1024
abbrev buddyMaxPages : Nat := buddyMaxPhys / buddyPageSize
abbrev buddyMaxOrder : Nat := 18
/-- `(uintptr_t)-1`. -/
abbrev buddyInvalidAddress : Nat := 2 ^ 64 - 1
abbrev pageStateFreeBody : Nat := 0xFD
abbrev pageStateAllocated : Nat := 0xFE
abbrev pageStateReserved : Nat := 0xFF
abbrev unsplittableSize : Nat := 4096
abbrev limineMemmapUsable : Nat := 0

/-! ## State

The four arrays of the source, as functions on their indices. An access outside an array is a fault,
so that a call that returns has stayed inside. -/

/-- The static arrays of `buddy.c`. -/
structure Buddy where
  pageState : Nat → Nat
  freeList : Nat → Nat
  freeNext : Nat → Nat
  freePrev : Nat → Nat

namespace Buddy

def getPageState (s : Buddy) (i : Nat) : Except Fault Nat :=
  if i < buddyMaxPages then .ok (s.pageState i) else .error (.outOfBounds .pageState i)

def getFreeList (s : Buddy) (i : Nat) : Except Fault Nat :=
  if i ≤ buddyMaxOrder then .ok (s.freeList i) else .error (.outOfBounds .freeList i)

def getFreeNext (s : Buddy) (i : Nat) : Except Fault Nat :=
  if i < buddyMaxPages then .ok (s.freeNext i) else .error (.outOfBounds .freeNext i)

def getFreePrev (s : Buddy) (i : Nat) : Except Fault Nat :=
  if i < buddyMaxPages then .ok (s.freePrev i) else .error (.outOfBounds .freePrev i)

def setPageState (s : Buddy) (i v : Nat) : Except Fault Buddy :=
  if i < buddyMaxPages then .ok { s with pageState := Function.update s.pageState i v }
  else .error (.outOfBounds .pageState i)

def setFreeList (s : Buddy) (i v : Nat) : Except Fault Buddy :=
  if i ≤ buddyMaxOrder then .ok { s with freeList := Function.update s.freeList i v }
  else .error (.outOfBounds .freeList i)

def setFreeNext (s : Buddy) (i v : Nat) : Except Fault Buddy :=
  if i < buddyMaxPages then .ok { s with freeNext := Function.update s.freeNext i v }
  else .error (.outOfBounds .freeNext i)

def setFreePrev (s : Buddy) (i v : Nat) : Except Fault Buddy :=
  if i < buddyMaxPages then .ok { s with freePrev := Function.update s.freePrev i v }
  else .error (.outOfBounds .freePrev i)

end Buddy

/-! ## Rounding

The arithmetic is that of `uint64_t`; `not64` is the complement that the two alignment functions
use. -/

/-- `~x` on 64 bits. -/
def not64 (x : Nat) : Nat := 2 ^ 64 - 1 - x % 2 ^ 64

def buddyAlignUp (value alignment : Nat) : Nat :=
  (value + alignment - 1) % 2 ^ 64 &&& not64 (alignment - 1)

def buddyAlignDown (value alignment : Nat) : Nat := value &&& not64 (alignment - 1)

/-- The loop of `buddy_order_from_pages`, with `n` rounds left before the order is
`buddyMaxOrder`. -/
def orderFromPagesLoop (pages : Nat) : Nat → Nat → Nat → Nat
  | 0, _, order => order
  | n + 1, size, order =>
    if size < pages then orderFromPagesLoop pages n (size * 2) (order + 1) else order

def buddyOrderFromPages (pages : Nat) : Nat := orderFromPagesLoop pages buddyMaxOrder 1 0

/-! ## Marking -/

/-- `buddy_reset` overwrites all four arrays. -/
def buddyReset : Buddy where
  pageState := fun _ => pageStateReserved
  freeList := fun _ => uint32Max
  freeNext := fun _ => uint32Max
  freePrev := fun _ => uint32Max

/-- Write `v` to `n` consecutive state bytes from `index` on. -/
def fillPageState (v : Nat) : Nat → Nat → Buddy → Except Fault Buddy
  | 0, _, s => .ok s
  | n + 1, index, s => do
    let s ← s.setPageState index v
    fillPageState v n (index + 1) s

def buddyMarkBlockFree (s : Buddy) (frame order : Nat) : Except Fault Buddy := do
  let s ← s.setPageState frame order
  let blockSize := 2 ^ order
  fillPageState pageStateFreeBody (blockSize - 1) (frame + 1) s

def buddyMarkBlockAllocated (s : Buddy) (frame order : Nat) : Except Fault Buddy :=
  let blockSize := 2 ^ order
  fillPageState pageStateAllocated blockSize frame s

/-! ## The free lists

The lists are linked by frame numbers, with `UINT32_MAX` as the end. -/

def buddyAddFreeBlock (s : Buddy) (frame order : Nat) : Except Fault Buddy := do
  let s ← buddyMarkBlockFree s frame order
  let head ← s.getFreeList order
  let s ← if head ≠ uint32Max then s.setFreePrev head frame else .ok s
  let s ← s.setFreePrev frame uint32Max
  let s ← s.setFreeNext frame head
  s.setFreeList order frame

/-- Returns whether the block was removed; an inconsistent list is left alone. -/
def buddyRemoveFreeBlock (s : Buddy) (frame order : Nat) : Except Fault (Bool × Buddy) := do
  let previous ← s.getFreePrev frame
  let next ← s.getFreeNext frame
  let unlinked : Option Buddy ←
    if previous = uint32Max then do
      let head ← s.getFreeList order
      if head ≠ frame then .ok none
      else do
        let s ← s.setFreeList order next
        .ok (some s)
    else do
      let after ← s.getFreeNext previous
      if after ≠ frame then .ok none
      else do
        let s ← s.setFreeNext previous next
        .ok (some s)
  match unlinked with
  | none => .ok (false, s)
  | some s => do
    let s ← if next ≠ uint32Max then s.setFreePrev next previous else .ok s
    let s ← s.setFreeNext frame uint32Max
    let s ← s.setFreePrev frame uint32Max
    .ok (true, s)

def buddyPopFreeBlock (s : Buddy) (order : Nat) : Except Fault (Nat × Buddy) := do
  let frame ← s.getFreeList order
  if frame = uint32Max then .ok (uint32Max, s)
  else do
    let next ← s.getFreeNext frame
    let s ← s.setFreeList order next
    let s ← if next ≠ uint32Max then s.setFreePrev next uint32Max else .ok s
    let s ← s.setFreeNext frame uint32Max
    let s ← s.setFreePrev frame uint32Max
    .ok (frame, s)

/-! ## Adding a range -/

/-- The inner loop of `buddy_add_range`: the order of the next block, counted down. -/
def rangeOrder (frame pages : Nat) : Nat → Except Fault Nat
  | 0 =>
    if 2 ^ 0 > pages ∨ frame &&& (2 ^ 0 - 1) ≠ 0 then .error .orderWrap else .ok 0
  | order + 1 =>
    if 2 ^ (order + 1) > pages ∨ frame &&& (2 ^ (order + 1) - 1) ≠ 0 then
      rangeOrder frame pages order
    else .ok (order + 1)

/-- The loop of `buddy_add_range`. Every round takes at least one page, so `pages` rounds are
enough; `buddyAddRange_eq` is the loop without the round counter. -/
def addRangeLoop : Nat → Buddy → Nat → Nat → Except Fault Buddy
  | 0, s, _, _ => .ok s
  | n + 1, s, frame, pages =>
    if pages > 0 then do
      let order ← rangeOrder frame pages buddyMaxOrder
      let s ← buddyAddFreeBlock s frame order
      let blockSize := 2 ^ order
      addRangeLoop n s (frame + blockSize) (pages - blockSize)
    else .ok s

def buddyAddRange (s : Buddy) (frame pages : Nat) : Except Fault Buddy :=
  addRangeLoop pages s frame pages

/-! ## Allocation

The first list that is not empty, from the order of the request upwards, gives its head. The block
is split down to the order of the request, and the upper halves go on the lists. -/

/-- The inner loop of `buddy_allocate_block`, entered with `current_order = order + d`. -/
def splitLoop (frame order : Nat) : Nat → Buddy → Except Fault Buddy
  | 0, s => .ok s
  | d + 1, s => do
    let currentOrder := order + d
    let buddyFrame := frame + 2 ^ currentOrder
    let s ← buddyAddFreeBlock s buddyFrame currentOrder
    splitLoop frame order d s

/-- The outer loop of `buddy_allocate_block` over `n` orders from `currentOrder` on. -/
def allocateLoop (order : Nat) : Nat → Nat → Buddy → Except Fault (Nat × Buddy)
  | 0, _, s => .ok (uint32Max, s)
  | n + 1, currentOrder, s => do
    let head ← s.getFreeList currentOrder
    if head = uint32Max then allocateLoop order n (currentOrder + 1) s
    else do
      let (frame, s) ← buddyPopFreeBlock s currentOrder
      let s ← splitLoop frame order (currentOrder - order) s
      let s ← buddyMarkBlockAllocated s frame order
      .ok (frame, s)

def buddyAllocateBlock (s : Buddy) (order : Nat) : Except Fault (Nat × Buddy) :=
  if 2 ^ order * buddyPageSize % 2 ^ 32 < unsplittableSize ∨ order > buddyMaxOrder then
    -- the 64-bit constant is narrowed to the 32-bit return type
    .ok (buddyInvalidAddress % 2 ^ 32, s)
  else allocateLoop order (buddyMaxOrder + 1 - order) order s

def buddyAllocPages (s : Buddy) (pages : Nat) : Except Fault (Nat × Buddy) :=
  if pages = 0 ∨ pages > 2 ^ buddyMaxOrder then .ok (buddyInvalidAddress, s)
  else do
    let order := buddyOrderFromPages pages
    let (frame, s) ← buddyAllocateBlock s order
    if frame = uint32Max then .ok (buddyInvalidAddress, s)
    else .ok (frame * buddyPageSize, s)

/-! ## Freeing

A freed block absorbs its buddy as long as the buddy is a free block of the same order. The loop
says which of its exits it took, as some of them are never taken in the states of a run. -/

/-- Which of its four exits ended the merge loop of `buddy_free_pages`. -/
inductive MergeExit where
  /-- `order` reached `BUDDY_MAX_ORDER` -/
  | maxOrder
  /-- the buddy lies past the last frame -/
  | outOfRange
  /-- the buddy is not a free block of this order -/
  | notFree
  /-- `buddy_remove_free_block` returned false -/
  | notRemoved
  deriving DecidableEq, Repr

/-- The merge loop of `buddy_free_pages`, with `n` orders left below `buddyMaxOrder`. It
returns the exit taken and the final `frame` and `order`. -/
def mergeLoop : Nat → Buddy → Nat → Nat → Except Fault (MergeExit × Nat × Nat × Buddy)
  | 0, s, frame, order => .ok (.maxOrder, frame, order, s)
  | n + 1, s, frame, order =>
    let buddyFrame := frame ^^^ 2 ^ order
    if buddyFrame ≥ buddyMaxPages then .ok (.outOfRange, frame, order, s)
    else do
      let state ← s.getPageState buddyFrame
      if state ≠ order then .ok (.notFree, frame, order, s)
      else do
        let (removed, s) ← buddyRemoveFreeBlock s buddyFrame order
        if removed = false then .ok (.notRemoved, frame, order, s)
        else mergeLoop n s (if frame < buddyFrame then frame else buddyFrame) (order + 1)

def buddyFreePages (s : Buddy) (physAddr pages : Nat) : Except Fault Buddy :=
  if physAddr = 0 ∨ physAddr = buddyInvalidAddress ∨ pages = 0 then .ok s
  else if physAddr % buddyPageSize ≠ 0 then .ok s
  else
    let frame := physAddr / buddyPageSize % 2 ^ 32
    if frame ≥ buddyMaxPages then .ok s
    else do
      let state ← s.getPageState frame
      if state ≠ pageStateAllocated then .ok s
      else do
        let order := buddyOrderFromPages pages
        let (_, frame, order, s) ← mergeLoop (buddyMaxOrder - order) s frame order
        buddyAddFreeBlock s frame order

def buddyAllocPage (s : Buddy) : Except Fault (Nat × Buddy) := buddyAllocPages s 1

def buddyFreePage (s : Buddy) (physAddr : Nat) : Except Fault Buddy := buddyFreePages s physAddr 1

/-! ## Initialisation

All frames start as reserved; then the whole pages of each usable entry, cut off at the end of
managed memory, are added. -/

/-- `struct limine_memmap_entry`. -/
structure MemmapEntry where
  base : Nat
  length : Nat
  type : Nat
  deriving DecidableEq, Repr

/-- `struct limine_memmap_response`: `entries` is `none` when the pointer is `NULL`, and a
`NULL` entry is `none`; `entry_count` is the length of the list. -/
structure MemmapResponse where
  entries : Option (List (Option MemmapEntry))
  deriving DecidableEq, Repr

/-- The body of the loop of `buddy_init` for one entry. -/
def buddyInitEntry (s : Buddy) : Option MemmapEntry → Except Fault Buddy
  | none => .ok s
  | some entry =>
    if entry.type ≠ limineMemmapUsable then .ok s
    else
      let start := buddyAlignUp entry.base buddyPageSize
      let stop := buddyAlignDown ((entry.base + entry.length) % 2 ^ 64) buddyPageSize
      if stop ≤ start then .ok s
      else
        let firstFrame := start / buddyPageSize
        let lastFrame := stop / buddyPageSize
        if firstFrame ≥ buddyMaxPages then .ok s
        else
          let lastFrame := if lastFrame > buddyMaxPages then buddyMaxPages else lastFrame
          buddyAddRange s (firstFrame % 2 ^ 32) ((lastFrame - firstFrame) % 2 ^ 32)

def buddyInitLoop (s : Buddy) : List (Option MemmapEntry) → Except Fault Buddy
  | [] => .ok s
  | entry :: rest => do
    let s ← buddyInitEntry s entry
    buddyInitLoop s rest

def buddyInit (response : Option MemmapResponse) : Except Fault Buddy :=
  match response with
  | none => .ok buddyReset
  | some r =>
    match r.entries with
    | none => .ok buddyReset
    | some entries => buddyInitLoop buddyReset entries

end Yoix
