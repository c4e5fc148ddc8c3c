import Yoix.Buddy.Model
import Yoix.Lib.Memory

/-!
# Kernel memory and the direct map

The heap and the page-table code reach physical memory through the direct map that the
bootloader sets up: `phys + offset` is the virtual address of `phys`, computed on 64 bits, and
a `NULL` response of the bootloader (`hhdm = none`) turns every such address into `NULL`.

`Kernel` is what the memory code changes: the arrays of the page allocator, the bytes of
physical memory and the caches of the heap. Pointers are naturals below `2 ^ 64`. An access
through a pointer `v` touches the physical bytes at `v - offset`.
-/

namespace Yoix

open Memory

/-- One entry of `heap_caches`. -/
structure HeapCache where
  objectSize : Nat
  partialPages : Nat
  deriving DecidableEq, Repr

structure Kernel where
  buddy : Buddy
  mem : Nat → UInt8
  heapCaches : Nat → HeapCache

/-- `phy_to_virt` and `heap_phy_to_virt`. -/
def phyToVirt (hhdm : Option Nat) (phys : Nat) : Nat :=
  match hhdm with
  | none => 0
  | some offset => (phys + offset) % 2 ^ 64

/-- The physical address behind a pointer into the direct map. -/
def translate (hhdm : Option Nat) (virt : Nat) : Except Fault Nat :=
  match hhdm with
  | none => .error .noDirectMap
  | some offset => .ok ((virt + (2 ^ 64 - offset)) % 2 ^ 64)

namespace Kernel

/-- Read `bytes` bytes through a pointer. -/
def load (hhdm : Option Nat) (k : Kernel) (virt bytes : Nat) : Except Fault Nat := do
  let phys ← translate hhdm virt
  .ok (readLE k.mem phys bytes)

/-- Write `bytes` bytes through a pointer. -/
def store (hhdm : Option Nat) (k : Kernel) (virt bytes value : Nat) : Except Fault Kernel := do
  let phys ← translate hhdm virt
  .ok { k with mem := writeLE k.mem phys bytes value }

end Kernel

/-! ## Accesses through the direct map

Memory is read and written through pointers of the direct map. With the offset of the map below `2 ^
64`, going to a pointer and back is the identity on physical addresses. -/

section DirectMap

variable {offset phys d : Nat}

/-- Following the direct-map pointer of a physical address leads back to it. -/
theorem translate_phyToVirt (hoff : offset < 2 ^ 64) (hphys : phys + d < 2 ^ 64) :
    translate (some offset) (phyToVirt (some offset) phys + d) = .ok (phys + d) := by
  simp only [translate, phyToVirt, Except.ok.injEq]
  omega

theorem Kernel.load_phyToVirt (k : Kernel) (hoff : offset < 2 ^ 64) (hphys : phys + d < 2 ^ 64)
    (bytes : Nat) :
    k.load (some offset) (phyToVirt (some offset) phys + d) bytes
      = .ok (readLE k.mem (phys + d) bytes) := by
  rw [Kernel.load, translate_phyToVirt hoff hphys, ok_bind]

theorem Kernel.store_phyToVirt (k : Kernel) (hoff : offset < 2 ^ 64) (hphys : phys + d < 2 ^ 64)
    (bytes value : Nat) :
    k.store (some offset) (phyToVirt (some offset) phys + d) bytes value
      = .ok { k with mem := writeLE k.mem (phys + d) bytes value } := by
  rw [Kernel.store, translate_phyToVirt hoff hphys, ok_bind]

end DirectMap

end Yoix
