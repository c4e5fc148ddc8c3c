import Yoix.Heap.Model
import Mathlib.Tactic.Set

/-!
# Headers in memory

`Kernel.field` and `Kernel.putField` read and write a field of the structure at a physical
address; they are what the pointer accesses of the heap do when the bootloader gave a direct
map. The rest of the module says what `heap_alloc_slab_page` leaves in a page, and which size
class a request falls into.
-/

namespace Yoix

open Memory

namespace Field

/-- The two fields share no byte. -/
def Apart (f g : Field) : Prop := f.offset + f.bytes ≤ g.offset ∨ g.offset + g.bytes ≤ f.offset

instance (f g : Field) : Decidable (f.Apart g) := inferInstanceAs (Decidable (_ ∨ _))

end Field

namespace Kernel

/-- The field of the structure at physical address `phys`. -/
def field (k : Kernel) (phys : Nat) (f : Field) : Nat := readLE k.mem (phys + f.offset) f.bytes

def putField (k : Kernel) (phys : Nat) (f : Field) (value : Nat) : Kernel :=
  { k with mem := writeLE k.mem (phys + f.offset) f.bytes value }

variable {offset phys : Nat}

theorem getField_phyToVirt (k : Kernel) (hoff : offset < 2 ^ 64) {f : Field}
    (hphys : phys + f.offset < 2 ^ 64) :
    k.getField (some offset) (phyToVirt (some offset) phys) f = .ok (k.field phys f) :=
  k.load_phyToVirt hoff hphys f.bytes

theorem setField_phyToVirt (k : Kernel) (hoff : offset < 2 ^ 64) {f : Field}
    (hphys : phys + f.offset < 2 ^ 64) (value : Nat) :
    k.setField (some offset) (phyToVirt (some offset) phys) f value
      = .ok (k.putField phys f value) :=
  k.store_phyToVirt hoff hphys f.bytes value

theorem field_putField_self (k : Kernel) (phys : Nat) (f : Field) {value : Nat}
    (h : value < 256 ^ f.bytes) : (k.putField phys f value).field phys f = value :=
  readLE_writeLE_of_lt h

theorem field_putField_of_apart (k : Kernel) (phys : Nat) {f g : Field} (value : Nat)
    (h : f.Apart g) : (k.putField phys g value).field phys f = k.field phys f := by
  refine readLE_writeLE_of_disjoint ?_
  rcases h with h | h <;> omega

theorem field_congr {k k' : Kernel} {f : Field}
    (h : SameAt k.mem k'.mem (phys + f.offset) f.bytes) : k.field phys f = k'.field phys f :=
  readLE_congr h

theorem field_eq_of_sameAt {k k' : Kernel} {n : Nat} (h : SameAt k'.mem k.mem phys n) {f : Field}
    (hf : f.offset + f.bytes ≤ n) : k'.field phys f = k.field phys f :=
  field_congr (h.mono (by omega) (by omega))

end Kernel

/-! ## Pages

A page of the direct map ends below `2 ^ 64`, so pointers into it do not wrap around. -/

theorem pageAddr_lt {g : Nat} (h : g < buddyMaxPages) : g * buddyPageSize < 2 ^ 52 := by
  simp only [buddyMaxPages, buddyMaxPhys, buddyPageSize] at *
  omega

/-- A page of the direct map does not wrap around the end of the address space. -/
theorem phyToVirt_page_le {offset phys : Nat} (hpage : buddyPageSize ∣ offset)
    (hphys : buddyPageSize ∣ phys) :
    buddyPageSize ∣ phyToVirt (some offset) phys ∧
      phyToVirt (some offset) phys + buddyPageSize ≤ 2 ^ 64 := by
  simp only [phyToVirt, buddyPageSize] at *
  omega

namespace Kernel

variable {offset phys : Nat} (hoff : offset < 2 ^ 64) (hphys : phys < 2 ^ 52)

include hoff hphys

theorem getField_page (k : Kernel) {f : Field} (hf : f.offset ≤ buddyPageSize) :
    k.getField (some offset) (phyToVirt (some offset) phys) f = .ok (k.field phys f) :=
  k.getField_phyToVirt hoff (Nat.lt_trans (Nat.add_lt_add_of_lt_of_le hphys hf) (by decide))

theorem setField_page (k : Kernel) {f : Field} (value : Nat) (hf : f.offset ≤ buddyPageSize) :
    k.setField (some offset) (phyToVirt (some offset) phys) f value
      = .ok (k.putField phys f value) :=
  k.setField_phyToVirt hoff (Nat.lt_trans (Nat.add_lt_add_of_lt_of_le hphys hf) (by decide)) value

end Kernel

/-! ## Size classes -/

/-- An index that is found is one of the list of sizes. -/
theorem cacheIndexLoop_lt {rounded index start : Nat} {sizes : List Nat}
    (h : cacheIndexLoop rounded sizes start = some index) : index < start + sizes.length := by
  induction sizes generalizing start with
  | nil => simp [cacheIndexLoop] at h
  | cons size sizes ih =>
    unfold cacheIndexLoop at h
    split at h
    · obtain rfl := Option.some.inj h
      simp
    · have := ih h
      simp only [List.length_cons]
      omega

/-- No class is found exactly when all classes are too small. -/
theorem cacheIndexLoop_eq_none_iff {rounded start : Nat} {sizes : List Nat} :
    cacheIndexLoop rounded sizes start = none ↔ ∀ size ∈ sizes, size < rounded := by
  induction sizes generalizing start with
  | nil => simp [cacheIndexLoop]
  | cons size sizes ih =>
    unfold cacheIndexLoop
    split
    · next hle => simp [Nat.not_lt.mpr hle]
    · next hlt => simp [ih, Nat.not_le.mp hlt]

theorem heapCacheIndex_lt {size index : Nat} (h : heapCacheIndex size = some index) :
    index < heapCacheClassCount := by
  rw [← Nat.zero_add heapCacheClassCount]
  exact cacheIndexLoop_lt h

/-- Only requests above 2048 bytes have no size class. -/
theorem heapCacheIndex_eq_none_iff (size : Nat) : heapCacheIndex size = none ↔ 2048 < size := by
  rw [heapCacheIndex, cacheIndexLoop_eq_none_iff]
  simp only [heapCacheSizes, List.forall_mem_cons, heapMinObjectSize]
  constructor
  · rintro ⟨-, -, -, -, -, -, -, -, hlt, -⟩
    split at hlt <;> omega
  · intro hlt
    rw [if_neg (by omega)]
    simp only [List.not_mem_nil, false_implies, implies_true, and_true]
    omega

/-- The object size of a class is positive, divides evenly into 8-byte words and fits the
16-bit field. -/
theorem heapCacheSizes_bounds {index : Nat} (h : index < heapCacheClassCount) :
    8 ≤ heapCacheSizes.getD index 0 ∧ heapCacheSizes.getD index 0 ≤ 2048 := by
  revert index
  decide

/-! ## Formatting a slab

What the header and the objects of a new slab hold, by the loop that links the objects. The loop
writes behind the header only. -/

/-- The header fields of a slab from which nothing has been taken. -/
structure FreshHeader (offset : Nat) (k : Kernel) (phys size : Nat) : Prop where
  magic : k.field phys HeapSlabPage.magic = heapMagicSmall
  objectSize : k.field phys HeapSlabPage.objectSize = size
  totalObjects : k.field phys HeapSlabPage.totalObjects = (buddyPageSize - slabHeaderSize) / size
  freeCount : k.field phys HeapSlabPage.freeCount = (buddyPageSize - slabHeaderSize) / size
  freeList : k.field phys HeapSlabPage.freeList = phyToVirt (some offset) phys + slabHeaderSize
  next : k.field phys HeapSlabPage.next = 0

/-- The header depends on the first 2080 bytes of the page only. -/
theorem FreshHeader.congr {offset phys size : Nat} {k k' : Kernel}
    (h : FreshHeader offset k phys size) (hsame : SameAt k'.mem k.mem phys slabHeaderSize) :
    FreshHeader offset k' phys size where
  magic := (Kernel.field_eq_of_sameAt hsame (by decide)).trans h.magic
  objectSize := (Kernel.field_eq_of_sameAt hsame (by decide)).trans h.objectSize
  totalObjects := (Kernel.field_eq_of_sameAt hsame (by decide)).trans h.totalObjects
  freeCount := (Kernel.field_eq_of_sameAt hsame (by decide)).trans h.freeCount
  freeList := (Kernel.field_eq_of_sameAt hsame (by decide)).trans h.freeList
  next := (Kernel.field_eq_of_sameAt hsame (by decide)).trans h.next

/-- The free objects of a fresh slab are linked in address order. -/
def ObjectsLinked (offset : Nat) (k : Kernel) (phys size first total : Nat) : Prop :=
  ∀ j, first ≤ j → j < total →
    readLE k.mem (phys + slabHeaderSize + j * size) 8 = if j + 1 < total then
      phyToVirt (some offset) phys + slabHeaderSize + (j + 1) * size else 0

section Format

variable {offset phys size : Nat} (hoff : offset < 2 ^ 64) (hpage : buddyPageSize ∣ offset)
  (hphys : buddyPageSize ∣ phys) (hlt : phys < 2 ^ 52)

/-- The word that the linking loop stores in object `i`: the address of the next object. -/
def linkWord (offset phys size total i : Nat) : Nat :=
  if i + 1 < total then phyToVirt (some offset) phys + slabHeaderSize + (i + 1) * size else 0

include hpage hphys in
/-- The next object lies inside the page, so that its address fits a pointer. -/
theorem linkWord_lt {total i : Nat} (hsize : 8 ≤ size)
    (htotal : slabHeaderSize + total * size ≤ buddyPageSize) :
    linkWord offset phys size total i < 2 ^ 64 := by
  unfold linkWord
  split
  · next hlast =>
    obtain ⟨-, hvirt⟩ := phyToVirt_page_le hpage hphys
    have hfits : (i + 1 + 1) * size ≤ total * size := Nat.mul_le_mul_right size hlast
    rw [Nat.succ_mul] at hfits
    simp only [buddyPageSize, slabHeaderSize] at *
    omega
  · exact Nat.two_pow_pos 64

include hoff hpage hphys hlt in
/-- One round of the linking loop: object `i` gets its link and the buffer moves on. -/
theorem linkObjectsLoop_step {total n i : Nat} {k : Kernel} (hsize : 8 ≤ size)
    (htotal : slabHeaderSize + total * size ≤ buddyPageSize)
    (hfield : k.field phys HeapSlabPage.totalObjects = total) (hi : i < total) :
    ∃ buffer, linkObjectsLoop (some offset) size (phyToVirt (some offset) phys) (n + 1) k i
          (phyToVirt (some offset) phys + slabHeaderSize + i * size)
        = linkObjectsLoop (some offset) size (phyToVirt (some offset) phys) n
            { k with
              mem := writeLE k.mem (phys + slabHeaderSize + i * size) 8
                (linkWord offset phys size total i) } (i + 1) buffer ∧
      (i + 1 < total →
        buffer = phyToVirt (some offset) phys + slabHeaderSize + (i + 1) * size) := by
  have hstep : (i + 1) * size = i * size + size := Nat.succ_mul i size
  have hfits : (i + 1) * size ≤ total * size := Nat.mul_le_mul_right size hi
  have hread : k.getField (some offset) (phyToVirt (some offset) phys) HeapSlabPage.totalObjects
      = .ok total := by
    rw [Kernel.getField_page hoff hlt k (by decide), hfield]
  have hstore : ∀ value,
      k.store (some offset) (phyToVirt (some offset) phys + slabHeaderSize + i * size) 8 value
        = .ok { k with mem := writeLE k.mem (phys + slabHeaderSize + i * size) 8 value } := by
    intro value
    rw [Nat.add_assoc, Nat.add_assoc]
    refine k.store_phyToVirt hoff ?_ 8 value
    simp only [buddyPageSize, slabHeaderSize] at *
    omega
  rw [linkObjectsLoop, hread, ok_bind, if_pos hi]
  by_cases hlast : i + 1 < total
  · -- the pointer to the next object does not wrap around
    have hword : linkWord offset phys size total i
        = phyToVirt (some offset) phys + slabHeaderSize + (i + 1) * size := if_pos hlast
    have hnext : (phyToVirt (some offset) phys + slabHeaderSize + i * size + size) % 2 ^ 64
        = linkWord offset phys size total i := by
      rw [← Nat.mod_eq_of_lt (linkWord_lt hpage hphys hsize htotal), hword, hstep, ← Nat.add_assoc]
    refine ⟨linkWord offset phys size total i, ?_, fun _ => hword⟩
    simp only [if_pos hlast, hnext, hstore, ok_bind]
  · have hword : linkWord offset phys size total i = 0 := if_neg hlast
    refine ⟨phyToVirt (some offset) phys + slabHeaderSize + i * size, ?_,
      fun h => absurd h hlast⟩
    rw [if_neg hlast, hstore, ok_bind, hword]

include hoff hpage hphys hlt in
/-- The linking loop from object `i` on writes only at and after that object. -/
theorem linkObjectsLoop_spec {total : Nat} (hsize : 8 ≤ size)
    (htotal : slabHeaderSize + total * size ≤ buddyPageSize) :
    ∀ {n i : Nat} {k : Kernel} (buffer : Nat),
    k.field phys HeapSlabPage.totalObjects = total → i ≤ total → total < i + n →
    (i < total → buffer = phyToVirt (some offset) phys + slabHeaderSize + i * size) →
    ∃ m, linkObjectsLoop (some offset) size (phyToVirt (some offset) phys) n k i buffer
          = .ok { k with mem := m } ∧
      SameOutside m k.mem (phys + slabHeaderSize + i * size) (total * size - i * size) ∧
      ObjectsLinked offset { k with mem := m } phys size i total
  | 0, i, k, buffer, _, hi, hn, _ => by omega
  | n + 1, i, k, buffer, hfield, hi, hn, hbuffer => by
    by_cases hdone : i < total
    · have hstep : (i + 1) * size = i * size + size := Nat.succ_mul i size
      have hfits : (i + 1) * size ≤ total * size := Nat.mul_le_mul_right size hdone
      rw [hbuffer hdone]
      obtain ⟨next, hround, hnext⟩ :=
        linkObjectsLoop_step hoff hpage hphys hlt (n := n) hsize htotal hfield hdone
      set m₁ := writeLE k.mem (phys + slabHeaderSize + i * size) 8
        (linkWord offset phys size total i) with hm₁
      have hfield₁ : Kernel.field { k with mem := m₁ } phys HeapSlabPage.totalObjects
          = total := by
        rw [← hfield]
        refine Kernel.field_congr (sameAt_writeLE (Or.inl ?_))
        simp only [HeapSlabPage.totalObjects, slabHeaderSize]
        omega
      obtain ⟨m, hrun, hsame, hlinked⟩ :=
        linkObjectsLoop_spec hsize htotal (n := n) (i := i + 1) next hfield₁ hdone (by omega) hnext
      refine ⟨m, hround.trans hrun, ?_, ?_⟩
      · refine (hsame.mono (by omega) (by omega)).trans ?_
        exact (sameOutside_writeLE _ _ _ _).mono (by omega) (by omega)
      · intro j hj hjt
        rcases Nat.eq_or_lt_of_le hj with rfl | hj
        · -- object `i` is not touched again
          have hkeep : readLE m (phys + slabHeaderSize + i * size) 8
              = readLE m₁ (phys + slabHeaderSize + i * size) 8 :=
            readLE_congr (hsame.sameAt (Or.inl (by omega)))
          rw [hkeep, hm₁, readLE_writeLE_of_lt (linkWord_lt hpage hphys hsize htotal)]
          rfl
        · exact hlinked j hj hjt
    · refine ⟨k.mem, ?_, fun x _ => rfl, fun j h1 h2 => absurd h2 (by omega)⟩
      rw [linkObjectsLoop, Kernel.getField_page hoff hlt k (by decide), hfield, ok_bind,
        if_neg hdone]

/-- The header that `heap_alloc_slab_page` writes before it links the objects. -/
def Kernel.putSlabHeader (k : Kernel) (phys virt size total : Nat) : Kernel :=
  let k := k.putField phys HeapSlabPage.magic heapMagicSmall
  let k := k.putField phys HeapSlabPage.objectSize size
  let k := k.putField phys HeapSlabPage.totalObjects total
  let k := k.putField phys HeapSlabPage.freeCount total
  let k := k.putField phys HeapSlabPage.reserved 0
  let k := k.putField phys HeapSlabPage.next 0
  let k := { k with mem := fill k.mem (phys + 32) (256 * 8) 0 }
  k.putField phys HeapSlabPage.freeList (virt + slabHeaderSize)

/-- Objects of a class fit behind the header, and their number fits its 16-bit field. -/
theorem totalObjects_bounds (size : Nat) :
    slabHeaderSize + (buddyPageSize - slabHeaderSize) / size * size ≤ buddyPageSize ∧
      (buddyPageSize - slabHeaderSize) / size < 256 ^ 2 := by
  have h1 := Nat.div_mul_le_self (buddyPageSize - slabHeaderSize) size
  have h2 := Nat.div_le_self (buddyPageSize - slabHeaderSize) size
  simp only [buddyPageSize, slabHeaderSize] at *
  omega

include hoff hpage hphys hlt in
/-- Formatting writes the header and then links the objects behind it, as many as fit. -/
theorem formatSlabPage_eq (k : Kernel) (hmin : 8 ≤ size) :
    formatSlabPage (some offset) k (phyToVirt (some offset) phys) size
      = linkObjectsLoop (some offset) size (phyToVirt (some offset) phys) (2 ^ 16)
          (k.putSlabHeader phys (phyToVirt (some offset) phys) size
            ((buddyPageSize - slabHeaderSize) / size)) 0
          (phyToVirt (some offset) phys + slabHeaderSize) := by
  obtain ⟨-, hvirt⟩ := phyToVirt_page_le hpage hphys
  have hpos : ¬ size = 0 := by omega
  have hget : ∀ k : Kernel, (k.putField phys HeapSlabPage.totalObjects
      ((buddyPageSize - slabHeaderSize) / size)).getField (some offset)
        (phyToVirt (some offset) phys) HeapSlabPage.totalObjects
      = .ok ((buddyPageSize - slabHeaderSize) / size) := fun k => by
    rw [Kernel.getField_page hoff hlt _ (by decide),
      Kernel.field_putField_self _ _ _ (totalObjects_bounds size).2]
  have hzero : ∀ k : Kernel, memsetZero (some offset) k
      (phyToVirt (some offset) phys + (HeapSlabPage.bitmap 0).offset) (256 * 8)
      = .ok { k with mem := fill k.mem (phys + 32) (256 * 8) 0 } := fun k => by
    rw [memsetZero, show (HeapSlabPage.bitmap 0).offset = 32 from rfl,
      translate_phyToVirt hoff (by omega), ok_bind]
  have hbuffer : (phyToVirt (some offset) phys + slabHeaderSize) % 2 ^ 64
      = phyToVirt (some offset) phys + slabHeaderSize :=
    Nat.mod_eq_of_lt (by simp only [buddyPageSize, slabHeaderSize] at *; omega)
  simp (disch := decide) only [formatSlabPage, Kernel.setField_page hoff hlt, hget, hzero, ok_bind,
    if_neg hpos, hbuffer]
  rfl

theorem putSlabHeader_sameOutside (k : Kernel) (phys virt size total : Nat) :
    SameOutside (k.putSlabHeader phys virt size total).mem k.mem phys slabHeaderSize := by
  have hput : ∀ (k : Kernel) (f : Field) (v : Nat), f.offset + f.bytes ≤ slabHeaderSize →
      SameOutside (k.putField phys f v).mem k.mem phys slabHeaderSize := fun k f v hf =>
    (sameOutside_writeLE _ _ _ _).mono (by omega) (by omega)
  have hfill : ∀ m : Nat → UInt8, SameOutside (fill m (phys + 32) (256 * 8) 0) m phys
      slabHeaderSize := fun m => (sameOutside_fill _ _ _ _).mono (by omega) (by
    simp only [slabHeaderSize]; omega)
  refine (hput _ _ _ (by decide)).trans ((hfill _).trans ?_)
  refine (hput _ _ _ (by decide)).trans ((hput _ _ _ (by decide)).trans ?_)
  refine (hput _ _ _ (by decide)).trans ((hput _ _ _ (by decide)).trans ?_)
  exact (hput _ _ _ (by decide)).trans (hput _ _ _ (by decide))

/-- The header that is written is one of a new slab: no object is used, and all of them are counted
as free. -/
theorem putSlabHeader_fresh (k : Kernel)
    (hvirt : phyToVirt (some offset) phys + slabHeaderSize < 2 ^ 64)
    (hmax : size ≤ 2048) :
    FreshHeader offset (k.putSlabHeader phys (phyToVirt (some offset) phys) size
      ((buddyPageSize - slabHeaderSize) / size)) phys size := by
  have htotal := (totalObjects_bounds size).2
  have hfill : ∀ (k : Kernel) (f : Field), f.offset + f.bytes ≤ 32 →
      ({ k with mem := fill k.mem (phys + 32) (256 * 8) 0 } : Kernel).field phys f
        = k.field phys f := fun k f hf =>
    Kernel.field_congr ((sameOutside_fill _ _ _ _).sameAt (Or.inl (by omega)))
  constructor <;>
    simp (disch := decide) only [Kernel.putSlabHeader, Kernel.field_putField_of_apart, hfill]
  · exact Kernel.field_putField_self _ _ _ (by decide)
  · exact Kernel.field_putField_self _ _ _ (Nat.lt_of_le_of_lt hmax (by decide))
  · exact Kernel.field_putField_self _ _ _ htotal
  · exact Kernel.field_putField_self _ _ _ htotal
  · exact Kernel.field_putField_self _ _ _ hvirt
  · exact Kernel.field_putField_self _ _ _ (by decide)

theorem putSlabHeader_bitmap (k : Kernel) (phys virt size total : Nat) {i : Nat} (hi : i < 256) :
    (k.putSlabHeader phys virt size total).field phys (HeapSlabPage.bitmap i) = 0 := by
  -- `free_list` is written after the bitmap has been cleared, and lies before it
  have hapart : (HeapSlabPage.bitmap i).Apart HeapSlabPage.freeList := by
    simp only [Field.Apart, HeapSlabPage.bitmap, HeapSlabPage.freeList]
    omega
  unfold Kernel.putSlabHeader
  rw [Kernel.field_putField_of_apart _ _ _ hapart]
  apply readLE_fill_zero
  all_goals
    simp only [HeapSlabPage.bitmap]
    omega

include hoff hpage hphys hlt in
/-- Formatting a page leaves a fresh header, every object linked, the bitmap clear, and the rest
of memory alone. -/
theorem formatSlabPage_spec (k : Kernel) (hmin : 8 ≤ size) (hmax : size ≤ 2048) :
    ∃ m, formatSlabPage (some offset) k (phyToVirt (some offset) phys) size
        = .ok { k with mem := m } ∧
      SameOutside m k.mem phys buddyPageSize ∧
      FreshHeader offset { k with mem := m } phys size ∧
      ObjectsLinked offset { k with mem := m } phys size 0
        ((buddyPageSize - slabHeaderSize) / size) ∧
      ∀ i < 256, ({ k with mem := m } : Kernel).field phys (HeapSlabPage.bitmap i) = 0 := by
  obtain ⟨-, hvirt⟩ := phyToVirt_page_le hpage hphys
  obtain ⟨hfits, htotal⟩ := totalObjects_bounds size
  have hfresh : FreshHeader offset (k.putSlabHeader phys (phyToVirt (some offset) phys) size
      ((buddyPageSize - slabHeaderSize) / size)) phys size :=
    putSlabHeader_fresh k (by simp only [buddyPageSize, slabHeaderSize] at *; omega) hmax
  have hheader := putSlabHeader_sameOutside k phys (phyToVirt (some offset) phys) size
    ((buddyPageSize - slabHeaderSize) / size)
  obtain ⟨m, hrun, hsame, hlinked⟩ := linkObjectsLoop_spec hoff hpage hphys hlt hmin hfits
    (n := 2 ^ 16) (i := 0) (phyToVirt (some offset) phys + slabHeaderSize)
    hfresh.totalObjects (Nat.zero_le _) (by omega) (fun _ => by omega)
  rw [Nat.zero_mul, Nat.add_zero, Nat.sub_zero] at hsame
  -- linking the objects does not touch the header in front of them
  have hkeep : SameAt m (k.putSlabHeader phys (phyToVirt (some offset) phys) size
      ((buddyPageSize - slabHeaderSize) / size)).mem phys slabHeaderSize :=
    hsame.sameAt (Or.inl (by omega))
  refine ⟨m, ?_, ?_, hfresh.congr hkeep, hlinked, fun i hi => ?_⟩
  · rw [formatSlabPage_eq hoff hpage hphys hlt k hmin]
    exact hrun
  · refine (hsame.mono (by omega) ?_).trans (hheader.mono (Nat.le_refl _) ?_)
    · omega
    · simp only [buddyPageSize, slabHeaderSize]
      omega
  · rw [← putSlabHeader_bitmap k phys (phyToVirt (some offset) phys) size
      ((buddyPageSize - slabHeaderSize) / size) hi]
    apply Kernel.field_eq_of_sameAt hkeep
    simp only [HeapSlabPage.bitmap, slabHeaderSize]
    omega

end Format

end Yoix
