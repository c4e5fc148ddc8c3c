import Yoix.Heap.SmallObjects
import Yoix.Lib.Linked
import Mathlib.Data.Nat.Bitwise

/-!
# Freeing small objects

What `kfree` should do with a pointer into a slab page of a well-formed heap, and when it does
it. A well-formed heap is described by a `HeapView`: for each slab page its size class and the
chain of its free objects, and for each class the slabs on its partial list.

`object_index` rejects the start of every object and accepts the addresses in its interior, so
a pointer at or into an allocated object is never treated as it should be: at its start it is
ignored, and behind its start the object is put on the chain at the wrong address. For every
other pointer `kfree` does nothing, as it should (`small_free_exact_iff`).
-/

namespace Yoix

open Memory Dyadic Linked

/-! ## Well-formed heaps

A view of the heap: which slabs there are and which of their objects are free, in the order of the
lists. The memory is well formed when it holds what the view says. -/

/-- The object size of a class and the number of objects in one of its slabs. -/
def classSize (index : Nat) : Nat := heapCacheSizes.getD index 0

def classTotal (index : Nat) : Nat := (buddyPageSize - slabHeaderSize) / classSize index

/-- The abstract state of the slabs. -/
structure HeapView where
  /-- the size class and the chain of free objects of a slab page -/
  slab : Nat → Option (Nat × List Nat)
  /-- the frames on the partial list of a class -/
  partialList : Nat → List Nat

/-- The address right behind the header of a slab page. -/
def objectArea (offset frame : Nat) : Nat :=
  phyToVirt (some offset) (frame * buddyPageSize) + slabHeaderSize

def objectStart (offset frame index j : Nat) : Nat :=
  objectArea offset frame + j * classSize index

/-- The object whose bytes a pointer into the page falls into. -/
def objectAt (offset f index p : Nat) : Nat := (p - objectArea offset f) / classSize index

namespace Kernel

/-- The word that `*(uintptr_t *)virt` reads. -/
def word (offset : Nat) (k : Kernel) (virt : Nat) : Nat :=
  readLE k.mem ((virt + (2 ^ 64 - offset)) % 2 ^ 64) 8

/-- Bit `j` of the bitmap of a slab page. -/
def objectBit (k : Kernel) (frame j : Nat) : Bool :=
  (k.field (frame * buddyPageSize) (HeapSlabPage.bitmap (getArray j))).testBit (getBit j)

end Kernel

/-- The slab page `frame` holds a slab of class `index` whose free objects are `chain`. -/
structure SlabWF (offset : Nat) (k : Kernel) (frame index : Nat) (chain : List Nat) : Prop where
  index_lt : index < heapCacheClassCount
  frame_ne : frame ≠ 0
  virt_ne : phyToVirt (some offset) (frame * buddyPageSize) ≠ 0
  magic : k.field (frame * buddyPageSize) HeapSlabPage.magic = heapMagicSmall
  objectSize : k.field (frame * buddyPageSize) HeapSlabPage.objectSize = classSize index
  totalObjects : k.field (frame * buddyPageSize) HeapSlabPage.totalObjects = classTotal index
  freeCount : k.field (frame * buddyPageSize) HeapSlabPage.freeCount = chain.length
  linked : Sll (k.word offset) 0 (k.field (frame * buddyPageSize) HeapSlabPage.freeList)
    (chain.map (objectStart offset frame index))
  nodup : chain.Nodup
  chain_lt : ∀ j ∈ chain, j < classTotal index
  bitmap : ∀ j < classTotal index, k.objectBit frame j = true ↔ j ∉ chain

/-- The heap is in the state that the view describes. -/
structure HeapWF (offset : Nat) (k : Kernel) (v : HeapView) : Prop where
  slab : ∀ {f index chain}, v.slab f = some (index, chain) → SlabWF offset k f index chain
  linked : ∀ index < heapCacheClassCount,
    Sll (fun phys => k.field phys HeapSlabPage.next) 0 (k.heapCaches index).partialPages
      ((v.partialList index).map (· * buddyPageSize))
  nodup : ∀ index < heapCacheClassCount, (v.partialList index).Nodup
  partial_iff : ∀ index < heapCacheClassCount, ∀ f,
    f ∈ v.partialList index ↔ ∃ chain, v.slab f = some (index, chain) ∧ chain ≠ []
  /-- the slab pages are live one-page blocks of the page allocator -/
  pages : ∃ U live fl, LiveInv U k.buddy live fl ∧ ∀ f, v.slab f ≠ none → ⟨f, 0⟩ ∈ live

/-! ## The contract of `kfree`

Freeing an allocated object puts it back in its slab and changes nothing else; any other pointer
changes nothing. -/

/-- The view after object `j` of the slab at `f` has been put back. -/
def HeapView.putBack (v : HeapView) (f index : Nat) (chain : List Nat) (j : Nat) : HeapView :=
  if chain.length + 1 = classTotal index then
    -- the slab is empty: off its list, and its page is no longer a slab
    ⟨Function.update v.slab f none,
      Function.update v.partialList index ((v.partialList index).erase f)⟩
  else
    ⟨Function.update v.slab f (some (index, j :: chain)),
      if chain = [] then Function.update v.partialList index (f :: v.partialList index)
      else v.partialList⟩

/-- Putting object `j` back leads from `k` to `k'`: the result is well formed, the page goes
back to the allocator exactly when the slab became empty, and nothing is written but slab
headers and the first word of the object. -/
structure PutsBack (offset : Nat) (k : Kernel) (v : HeapView) (f index : Nat) (chain : List Nat)
    (j : Nat) (k' : Kernel) : Prop where
  wf : HeapWF offset k' (v.putBack f index chain j)
  buddy : if chain.length + 1 = classTotal index then
    buddyFreePage k.buddy (f * buddyPageSize) = .ok k'.buddy else k'.buddy = k.buddy
  sizes : ∀ i, (k'.heapCaches i).objectSize = (k.heapCaches i).objectSize
  caches : ∀ i ≠ index, k'.heapCaches i = k.heapCaches i
  frame : ∀ x, (∀ g, v.slab g ≠ none →
      x ∉ Set.Ico (g * buddyPageSize) (g * buddyPageSize + slabHeaderSize)) →
    x ∉ Set.Ico (f * buddyPageSize + slabHeaderSize + j * classSize index)
      (f * buddyPageSize + slabHeaderSize + j * classSize index + 8) → k'.mem x = k.mem x

/-- `p` is the start of object `j`, and the object is allocated. -/
def IsAllocatedStart (offset : Nat) (k : Kernel) (f index p j : Nat) : Prop :=
  j < classTotal index ∧ p = objectStart offset f index j ∧ k.objectBit f j = true

/-- `kfree(p)` puts an allocated object back, and leaves everything alone for every other
pointer into the slab page. -/
def KfreeExact (offset : Nat) (k : Kernel) (v : HeapView) (f index : Nat) (chain : List Nat)
    (p : Nat) : Prop :=
  (∀ j, IsAllocatedStart offset k f index p j →
    ∃ k', kfree (some offset) k p = .ok k' ∧ PutsBack offset k v f index chain j k') ∧
  ((¬ ∃ j, IsAllocatedStart offset k f index p j) → kfree (some offset) k p = .ok k)

/-- `p` lies at or behind the start of an allocated object and before the next one. -/
def InAllocatedObject (offset : Nat) (k : Kernel) (f index p : Nat) : Prop :=
  objectArea offset f ≤ p ∧ objectAt offset f index p < classTotal index ∧
    k.objectBit f (objectAt offset f index p) = true

/-! ## What the code does

`kfree` computes the index of an object from the pointer, and rejects a pointer whose offset is a
multiple of the object size, which is where objects are. -/

theorem heapCacheIndex_classSize {index : Nat} (h : index < heapCacheClassCount) :
    heapCacheIndex (classSize index) = some index := by
  revert index
  decide

/-- The test of a bit in a word of the bitmap. -/
theorem and_getOffset_eq_zero_iff (bits i : Nat) :
    bits &&& getOffset i = 0 ↔ bits.testBit (getBit i) = false := by
  rw [getOffset, Nat.one_shiftLeft, Nat.and_two_pow]
  cases bits.testBit (getBit i) with
  | false => simp
  | true => simp

/-- The pointers into a slab page that `object_index` rejects. -/
def Rejected (offset f index p : Nat) : Prop :=
  p < objectArea offset f ∨ (p - objectArea offset f) % classSize index = 0 ∨
    classTotal index ≤ objectAt offset f index p

instance (offset f index p : Nat) : Decidable (Rejected offset f index p) :=
  inferInstanceAs (Decidable (_ ∨ _))

namespace SlabWF

variable {offset : Nat} {k : Kernel} {f index : Nat} {chain : List Nat}

theorem classSize_bounds (h : SlabWF offset k f index chain) :
    8 ≤ classSize index ∧ classSize index ≤ 2048 := heapCacheSizes_bounds h.index_lt

variable (hoff : offset < 2 ^ 64) (hpage : buddyPageSize ∣ offset) (hf : f < buddyMaxPages)

include hoff hpage hf in
/-- The index that `object_index` computes for a pointer into the page. -/
theorem objectIndex_eq (h : SlabWF offset k f index chain) (p : Nat) :
    objectIndex (some offset) k p (phyToVirt (some offset) (f * buddyPageSize))
        (phyToVirt (some offset) (f * buddyPageSize))
      = .ok (if Rejected offset f index p then none else some (objectAt offset f index p)) := by
  have hlt := pageAddr_lt hf
  obtain ⟨-, hend⟩ := phyToVirt_page_le hpage (Nat.dvd_mul_left buddyPageSize f)
  have harea : (phyToVirt (some offset) (f * buddyPageSize) + slabHeaderSize) % 2 ^ 64
      = objectArea offset f :=
    Nat.mod_eq_of_lt (by simp only [buddyPageSize, slabHeaderSize] at *; omega)
  have hpos : ¬ classSize index = 0 := by
    have := h.classSize_bounds
    omega
  simp (disch := decide) only [objectIndex, harea, Kernel.getField_page hoff hlt, h.objectSize,
    h.totalObjects, ok_bind, if_neg hpos]
  unfold Rejected objectAt
  by_cases h1 : p < objectArea offset f
  · simp only [h1, if_true, true_or]
  · by_cases h2 : (p - objectArea offset f) % classSize index = 0
    · simp only [h1, h2, if_true, if_false, true_or, or_true]
    · by_cases h3 : classTotal index ≤ (p - objectArea offset f) / classSize index
      · simp only [h1, h2, h3, if_true, if_false, or_true]
      · simp only [h1, h2, h3, if_false, or_self]

include hoff hpage hf in
/-- `kfree` of a pointer into the page, step by step. -/
theorem kfree_eq (h : SlabWF offset k f index chain) {p : Nat}
    (hlo : phyToVirt (some offset) (f * buddyPageSize) ≤ p)
    (hhi : p < phyToVirt (some offset) (f * buddyPageSize) + buddyPageSize) :
    kfree (some offset) k p
      = if Rejected offset f index p ∨ k.objectBit f (objectAt offset f index p) = false then .ok k
        else putObject (some offset) k p (phyToVirt (some offset) (f * buddyPageSize))
          (f * buddyPageSize) index (objectAt offset f index p) := by
  have hlt := pageAddr_lt hf
  rw [kfree_page hoff hpage (Nat.dvd_mul_left _ _) hlt h.virt_ne k hlo hhi, h.magic, if_pos rfl]
  simp (disch := decide) only [heapFreeSmall, Kernel.getField_page hoff hlt, h.magic, ok_bind,
    h.objectIndex_eq hoff hpage hf, ne_eq, not_true, if_false]
  by_cases hreject : Rejected offset f index p
  · simp only [hreject, if_true, true_or]
  · -- the object is one of at most 2016, so its word of the bitmap lies in the page
    have hword : (HeapSlabPage.bitmap (getArray (objectAt offset f index p))).offset
        ≤ buddyPageSize := by
      have htotal : classTotal index ≤ 2016 := Nat.div_le_self _ _
      have hat : objectAt offset f index p < classTotal index := by
        by_contra hge
        exact hreject (Or.inr (Or.inr (Nat.not_lt.mp hge)))
      simp only [HeapSlabPage.bitmap, getArray, buddyPageSize]
      omega
    simp only [hreject, if_false, false_or, Kernel.getField_page hoff hlt k hword, ok_bind,
      h.objectSize, heapCacheIndex_classSize h.index_lt, and_getOffset_eq_zero_iff]
    rfl

end SlabWF

/-! ## The list of free objects after a put

What a free that is carried out leaves in the header of its slab, followed through all branches of
the settling of the slab. -/

/-- A write to the `next` field of a page reaches no byte outside these fields. -/
theorem putField_next_of_notMem {x : Nat} {g : Nat}
    (hx : x < g * buddyPageSize + 24 ∨ g * buddyPageSize + 32 ≤ x) (k : Kernel) (v : Nat) :
    (k.putField (g * buddyPageSize) HeapSlabPage.next v).mem x = k.mem x := by
  refine writeLE_of_notMem ?_
  simp only [HeapSlabPage.next]
  omega

/-- `heap_remove_slab_from_cache` writes only `next` fields of pages. Induction on the list from the
current slab on. -/
theorem removeSlabLoop_frame {offset : Nat} (hoff : offset < 2 ^ 64) {index slabPhys x : Nat}
    (hx : ∀ g, x < g * buddyPageSize + 24 ∨ g * buddyPageSize + 32 ≤ x)
    {n : Nat} {k k' : Kernel} {frames : List Nat}
    {prev current : Nat} (hframes : ∀ g ∈ frames, g < buddyMaxPages) (hprev : prev < buddyMaxPages)
    (hlist : Sll (fun phys => k.field phys HeapSlabPage.next) 0 current
      (frames.map (· * buddyPageSize)))
    (hrun : removeSlabLoop (some offset) index slabPhys n k (prev * buddyPageSize) current
      = .ok k') : k'.mem x = k.mem x := by
  induction n generalizing frames prev current with
  | zero =>
    unfold removeSlabLoop at hrun
    cases hrun
  | succ n ih =>
    cases frames with
    | nil =>
      have hnil : current = 0 := hlist
      rw [removeSlabLoop, if_pos hnil] at hrun
      cases hrun
      rfl
    | cons g frames =>
      obtain ⟨hhead, hne, hrest⟩ := hlist
      have hg := hframes g List.mem_cons_self
      have hread : k.getField (some offset) (phyToVirt (some offset) (g * buddyPageSize))
          HeapSlabPage.next = .ok (k.field (g * buddyPageSize) HeapSlabPage.next) :=
        Kernel.getField_page hoff (pageAddr_lt hg) k (by decide)
      rw [removeSlabLoop, hhead, if_neg hne] at hrun
      simp only [hread, ok_bind] at hrun
      split at hrun
      · -- the page has no address in the direct map
        cases hrun
        rfl
      · split at hrun
        · -- found: the link before it and its own link are written
          next hvirt hfound =>
          split at hrun
          · rw [Kernel.setField_page hoff (pageAddr_lt hg) _ _ (by decide)] at hrun
            cases hrun
            exact putField_next_of_notMem (hx g) _ 0
          · split at hrun
            · cases hrun
              rfl
            · rw [Kernel.setField_page hoff (pageAddr_lt hprev) _ _ (by decide), ok_bind,
                Kernel.setField_page hoff (pageAddr_lt hg) _ _ (by decide)] at hrun
              cases hrun
              exact (putField_next_of_notMem (hx g) _ 0).trans
                (putField_next_of_notMem (hx prev) _ _)
        · exact ih (fun g' hg' => hframes g' (List.mem_cons_of_mem g hg')) hg hrest hrun

/-- Taking a slab off its list writes only the `next` fields of slabs of this list. -/
theorem heapRemoveSlabFromCache_frame {offset index slabPhys x : Nat} (hoff : offset < 2 ^ 64)
    (hx : ∀ g, x < g * buddyPageSize + 24 ∨ g * buddyPageSize + 32 ≤ x) {k k' : Kernel}
    {frames : List Nat} (hframes : ∀ g ∈ frames, g < buddyMaxPages)
    (hlist : Sll (fun phys => k.field phys HeapSlabPage.next) 0 (k.heapCaches index).partialPages
      (frames.map (· * buddyPageSize)))
    (hrun : heapRemoveSlabFromCache (some offset) k index slabPhys = .ok k') :
    k'.mem x = k.mem x := by
  have hloop : removeSlabLoop (some offset) index slabPhys (2 ^ 64) k (0 * buddyPageSize)
      (k.heapCaches index).partialPages = .ok k' := by
    rw [Nat.zero_mul]
    exact hrun
  exact removeSlabLoop_frame hoff hx hframes (by decide) hlist hloop

/-- Neither does the rest of the free touch the list of free objects. -/
theorem settleSlab_freeList {offset index f : Nat} (hoff : offset < 2 ^ 64)
    (hf : f < buddyMaxPages) {k k' : Kernel} {frames : List Nat}
    (hframes : ∀ g ∈ frames, g < buddyMaxPages)
    (hlist : Sll (fun phys => k.field phys HeapSlabPage.next) 0 (k.heapCaches index).partialPages
      (frames.map (· * buddyPageSize)))
    (hrun : settleSlab (some offset) k (phyToVirt (some offset) (f * buddyPageSize))
      (f * buddyPageSize) index = .ok k') :
    k'.field (f * buddyPageSize) HeapSlabPage.freeList
      = k.field (f * buddyPageSize) HeapSlabPage.freeList := by
  have hlt := pageAddr_lt hf
  simp (disch := decide) only [settleSlab, Kernel.getField_page hoff hlt, ok_bind] at hrun
  -- the slab is empty and leaves its list, was full and enters it, or stays where it is
  split at hrun
  · obtain ⟨m, hremove, hrun⟩ := bind_eq_ok.mp hrun
    obtain ⟨buddy, -, hrun⟩ := bind_eq_ok.mp hrun
    cases hrun
    refine Kernel.field_congr fun x hx1 hx2 => ?_
    show m.mem x = k.mem x
    refine heapRemoveSlabFromCache_frame hoff (fun g => ?_) hframes hlist hremove
    simp only [HeapSlabPage.freeList, buddyPageSize] at *
    omega
  · split at hrun
    · simp only [heapInsertSlabIntoCache] at hrun
      split at hrun
      · cases hrun
        rfl
      · rw [Kernel.setField_page hoff hlt _ _ (by decide), ok_bind] at hrun
        cases hrun
        exact k.field_putField_of_apart _ _ (by decide)
    · cases hrun
      rfl

/-- The writes of `putObject` before the partial list is looked at. -/
def Kernel.putObjectWords (k : Kernel) (phys d p i : Nat) : Kernel :=
  let k := { k with mem := writeLE k.mem (phys + d) 8 (k.field phys HeapSlabPage.freeList) }
  let k := k.putField phys HeapSlabPage.freeList p
  let k := k.putField phys HeapSlabPage.freeCount
    ((k.field phys HeapSlabPage.freeCount + 1) % 2 ^ 16)
  k.putField phys (HeapSlabPage.bitmap (getArray i))
    (k.field phys (HeapSlabPage.bitmap (getArray i)) &&& not64 (getOffset i))

section PutObject

variable {k : Kernel} {f d p i : Nat} (hd : slabHeaderSize ≤ d) (hdlt : d < buddyPageSize)
  (hi : getArray i < 256)

include hi in
/-- The object that was put back is the first one of the list. -/
theorem putObjectWords_freeList (hp : p < 2 ^ 64) :
    (k.putObjectWords (f * buddyPageSize) d p i).field (f * buddyPageSize)
      HeapSlabPage.freeList = p := by
  have hapart : HeapSlabPage.freeList.Apart (HeapSlabPage.bitmap (getArray i)) :=
    Or.inl (by simp only [HeapSlabPage.freeList, HeapSlabPage.bitmap]; omega)
  rw [Kernel.putObjectWords, Kernel.field_putField_of_apart _ _ _ hapart,
    Kernel.field_putField_of_apart _ _ _ (by decide)]
  exact Kernel.field_putField_self _ _ _ hp

include hd hdlt hi in
/-- These writes reach no `next` field, not even one of the page behind. -/
theorem putObjectWords_next (g : Nat) :
    (k.putObjectWords (f * buddyPageSize) d p i).field (g * buddyPageSize)
      HeapSlabPage.next = k.field (g * buddyPageSize) HeapSlabPage.next := by
  have hput : ∀ (k : Kernel) (h : Field) (v : Nat), h.offset + h.bytes ≤ slabHeaderSize →
      h.Apart HeapSlabPage.next → (k.putField (f * buddyPageSize) h v).field (g * buddyPageSize)
        HeapSlabPage.next = k.field (g * buddyPageSize) HeapSlabPage.next := by
    intro k h v hle hapart
    refine readLE_writeLE_of_disjoint ?_
    simp only [Field.Apart, HeapSlabPage.next, slabHeaderSize, buddyPageSize] at *
    omega
  have hbitmap : (HeapSlabPage.bitmap (getArray i)).Apart HeapSlabPage.next :=
    Or.inr (by simp only [HeapSlabPage.next, HeapSlabPage.bitmap]; omega)
  have hword : (HeapSlabPage.bitmap (getArray i)).offset + (HeapSlabPage.bitmap (getArray i)).bytes
      ≤ slabHeaderSize := by
    simp only [HeapSlabPage.bitmap, slabHeaderSize]
    omega
  rw [Kernel.putObjectWords, hput _ _ _ hword hbitmap, hput _ _ _ (by decide) (by decide),
    hput _ _ _ (by decide) (by decide)]
  refine readLE_writeLE_of_disjoint ?_
  simp only [HeapSlabPage.next, slabHeaderSize, buddyPageSize] at *
  omega

include hd hdlt hi in
/-- After `putObject` the list of free objects starts at the pointer, whatever it is. -/
theorem putObject_freeList {offset index : Nat} {k' : Kernel} {frames : List Nat}
    (hoff : offset < 2 ^ 64) (hf : f < buddyMaxPages)
    (hp : p = phyToVirt (some offset) (f * buddyPageSize) + d) (hplt : p < 2 ^ 64)
    (hframes : ∀ g ∈ frames, g < buddyMaxPages)
    (hlist : Sll (fun phys => k.field phys HeapSlabPage.next) 0 (k.heapCaches index).partialPages
      (frames.map (· * buddyPageSize)))
    (hrun : putObject (some offset) k p (phyToVirt (some offset) (f * buddyPageSize))
      (f * buddyPageSize) index i = .ok k') :
    k'.field (f * buddyPageSize) HeapSlabPage.freeList = p := by
  have hlt := pageAddr_lt hf
  have hword : (HeapSlabPage.bitmap (getArray i)).offset ≤ buddyPageSize := by
    simp only [HeapSlabPage.bitmap, buddyPageSize]
    omega
  have hstore : ∀ value, k.store (some offset) p 8 value
      = .ok { k with mem := writeLE k.mem (f * buddyPageSize + d) 8 value } := fun value => by
    rw [hp]
    exact k.store_phyToVirt hoff (Nat.lt_trans (Nat.add_lt_add hlt hdlt) (by decide)) 8 value
  have hwords : putObject (some offset) k p (phyToVirt (some offset) (f * buddyPageSize))
      (f * buddyPageSize) index i = settleSlab (some offset)
        (k.putObjectWords (f * buddyPageSize) d p i)
        (phyToVirt (some offset) (f * buddyPageSize)) (f * buddyPageSize) index := by
    simp (disch := decide) only [putObject, Kernel.getField_page hoff hlt, hstore, ok_bind,
      Kernel.setField_page hoff hlt, Kernel.getField_page hoff hlt _ hword,
      Kernel.setField_page hoff hlt _ _ hword]
    rfl
  -- the writes leave the list of partial slabs as it is
  have hlist' : Sll (fun phys => (k.putObjectWords (f * buddyPageSize) d p i).field phys
      HeapSlabPage.next) 0 (k.heapCaches index).partialPages (frames.map (· * buddyPageSize)) := by
    refine hlist.frame fun x hx => ?_
    obtain ⟨g, -, rfl⟩ := List.mem_map.mp hx
    exact putObjectWords_next hd hdlt hi g
  rw [hwords] at hrun
  rw [settleSlab_freeList hoff hf hframes hlist' hrun]
  exact putObjectWords_freeList hi hplt

end PutObject

/-! ## When a free is exact

Pointers to objects are rejected, so an allocated object is never given back. Pointers into the
middle of an allocated object are taken for objects. -/

namespace HeapWF

variable {offset : Nat} {k : Kernel} {v : HeapView} {f index p : Nat} {chain : List Nat}

theorem frame_lt (h : HeapWF offset k v) (hslab : v.slab f = some (index, chain)) :
    f < buddyMaxPages := by
  obtain ⟨U, live, fl, hinv, hlive⟩ := h.pages
  exact hinv.repr.usable_lt (hinv.frames_sub (hlive f (by simp [hslab])) (base_mem_block _ _))

theorem partialList_lt (h : HeapWF offset k v) (hindex : index < heapCacheClassCount) :
    ∀ g ∈ v.partialList index, g < buddyMaxPages := by
  intro g hg
  obtain ⟨chain, hslab, -⟩ := (h.partial_iff index hindex g).mp hg
  exact h.frame_lt hslab

/-- An allocated object start is a multiple of the object size behind the header. -/
theorem objectAt_start (h : HeapWF offset k v) (hslab : v.slab f = some (index, chain)) (j : Nat) :
    objectArea offset f ≤ objectStart offset f index j ∧
      (objectStart offset f index j - objectArea offset f) % classSize index = 0 ∧
      objectAt offset f index (objectStart offset f index j) = j := by
  have hpos : 0 < classSize index :=
    Nat.lt_of_lt_of_le (by decide) (h.slab hslab).classSize_bounds.1
  have hsub : objectStart offset f index j - objectArea offset f = j * classSize index :=
    Nat.add_sub_cancel_left _ _
  refine ⟨Nat.le_add_right _ _, ?_, ?_⟩
  · rw [hsub, Nat.mul_mod_left]
  · rw [objectAt, hsub, Nat.mul_div_cancel _ hpos]

/-- A well-formed heap is not one in which an allocated object has been put back. -/
theorem not_putsBack_self (h : HeapWF offset k v) (hslab : v.slab f = some (index, chain))
    {j : Nat} (hj : j < classTotal index) (hbit : k.objectBit f j = true) :
    ¬ PutsBack offset k v f index chain j k := by
  intro hput
  have hwf := hput.wf
  have hbuddy := hput.buddy
  unfold HeapView.putBack at hwf
  split at hwf
  · -- the page would have been given back and still be allocated
    next hempty =>
    rw [if_pos hempty] at hbuddy
    obtain ⟨U, live, fl, hinv, hlive⟩ := h.pages
    have hmem := hlive f (by simp [hslab])
    obtain ⟨s', hfree, hinv'⟩ := hinv.free (n := 1) hmem ⟨Nat.le_refl 1, rfl⟩
      (h.slab hslab).frame_ne
    obtain rfl := ok_unique hbuddy hfree
    have hbefore := (hinv.state_allocated_iff f).mpr ⟨_, hmem, base_mem_block _ _⟩
    have hafter := (hinv'.state_allocated_iff f).mp hbefore
    rw [framesOf_erase hmem hinv.disjoint] at hafter
    exact hafter.2 (base_mem_block _ _)
  · -- the bit would have to be clear
    next hkeep =>
    have hslab' : Function.update v.slab f (some (index, j :: chain)) f
        = some (index, j :: chain) := Function.update_self _ _ _
    exact ((hwf.slab hslab').bitmap j hj).mp hbit List.mem_cons_self

section Exact

variable (hoff : offset < 2 ^ 64) (hpage : buddyPageSize ∣ offset)
  (hlo : phyToVirt (some offset) (f * buddyPageSize) ≤ p)
  (hhi : p < phyToVirt (some offset) (f * buddyPageSize) + buddyPageSize)

include hoff hpage hlo hhi

/-- The start of an allocated object is rejected: nothing is put back. -/
theorem not_kfreeExact_of_aligned (h : HeapWF offset k v)
    (hslab : v.slab f = some (index, chain)) (hin : InAllocatedObject offset k f index p)
    (haligned : (p - objectArea offset f) % classSize index = 0) :
    ¬ KfreeExact offset k v f index chain p := by
  rintro ⟨hstart, -⟩
  obtain ⟨harea, hat, hbit⟩ := hin
  have hp : p = objectStart offset f index (objectAt offset f index p) := by
    have := Nat.div_add_mod (p - objectArea offset f) (classSize index)
    rw [haligned, Nat.add_zero, Nat.mul_comm] at this
    rw [objectStart, objectAt, this]
    omega
  obtain ⟨k', hrun, hput⟩ := hstart _ ⟨hat, hp, hbit⟩
  have hreject : Rejected offset f index p := Or.inr (Or.inl haligned)
  rw [(h.slab hslab).kfree_eq hoff hpage (h.frame_lt hslab) hlo hhi,
    if_pos (Or.inl hreject)] at hrun
  obtain rfl := Except.ok.inj hrun
  exact h.not_putsBack_self hslab hat hbit hput

/-- An address inside an allocated object becomes the head of the list of free objects. -/
theorem not_kfreeExact_of_interior (h : HeapWF offset k v)
    (hslab : v.slab f = some (index, chain)) (hin : InAllocatedObject offset k f index p)
    (hinside : (p - objectArea offset f) % classSize index ≠ 0) :
    ¬ KfreeExact offset k v f index chain p := by
  rintro ⟨-, hother⟩
  obtain ⟨harea, hat, hbit⟩ := hin
  have hwf := h.slab hslab
  have hf := h.frame_lt hslab
  have hnone : ¬ ∃ j, IsAllocatedStart offset k f index p j := by
    rintro ⟨j, -, rfl, -⟩
    exact hinside (h.objectAt_start hslab j).2.1
  have hrun := hother hnone
  have haccept : ¬ (Rejected offset f index p ∨
      k.objectBit f (objectAt offset f index p) = false) := by
    rintro ((hlt | hzero | hge) | hclear)
    · exact absurd harea (Nat.not_le.mpr hlt)
    · exact hinside hzero
    · exact absurd hat (Nat.not_lt.mpr hge)
    · rw [hbit] at hclear
      cases hclear
  rw [hwf.kfree_eq hoff hpage hf hlo hhi, if_neg haccept] at hrun
  obtain ⟨-, hend⟩ := phyToVirt_page_le hpage (Nat.dvd_mul_left buddyPageSize f)
  obtain ⟨d, rfl⟩ := Nat.exists_eq_add_of_le hlo
  have harray : getArray (objectAt offset f index
      (phyToVirt (some offset) (f * buddyPageSize) + d)) < 256 := by
    have htotal : classTotal index ≤ 2016 := Nat.div_le_self _ _
    simp only [getArray]
    omega
  have hhead := putObject_freeList (Nat.le_of_add_le_add_left harea)
    (Nat.lt_of_add_lt_add_left hhi) harray hoff hf rfl (Nat.lt_of_lt_of_le hhi hend)
    (h.partialList_lt hwf.index_lt) (h.linked index hwf.index_lt) hrun
  -- but the list of a well-formed heap starts at an object, or is empty
  have hlinked := hwf.linked.head_eq
  rw [hhead] at hlinked
  cases hlinked with
  | inl hzero =>
    simp only [objectArea, slabHeaderSize] at harea
    omega
  | inr hmem =>
    obtain ⟨j, -, hj⟩ := List.mem_map.mp hmem
    rw [← hj] at hinside
    exact hinside (h.objectAt_start hslab j).2.1

/-- Outside the allocated objects every pointer is rejected, as it should be. -/
theorem kfreeExact_of_not_in (h : HeapWF offset k v) (hslab : v.slab f = some (index, chain))
    (hout : ¬ InAllocatedObject offset k f index p) :
    KfreeExact offset k v f index chain p := by
  refine ⟨fun j hj => ?_, fun hnone => ?_⟩
  · obtain ⟨hlt, hp, hbit⟩ := hj
    subst hp
    obtain ⟨harea, -, hat⟩ := h.objectAt_start hslab j
    exact absurd ⟨harea, by rw [hat]; exact hlt, by rw [hat]; exact hbit⟩ hout
  · rw [(h.slab hslab).kfree_eq hoff hpage (h.frame_lt hslab) hlo hhi, if_pos]
    by_contra hneither
    rw [not_or] at hneither
    obtain ⟨haccept, hbit⟩ := hneither
    unfold Rejected at haccept
    push Not at haccept
    exact hout ⟨haccept.1, haccept.2.2, by simpa using hbit⟩

end Exact

end HeapWF

/-- **When a free of a small object is exact.** In every well-formed heap and for every pointer
into a slab page, `kfree` does what it should exactly when the pointer does not lie in an
allocated object, that is, when there is nothing to put back and nothing to mistake for it. -/
theorem small_free_exact_iff {offset : Nat} (hoff : offset < 2 ^ 64)
    (hpage : buddyPageSize ∣ offset) {k : Kernel} {v : HeapView} (h : HeapWF offset k v)
    {f index : Nat} {chain : List Nat} (hslab : v.slab f = some (index, chain)) {p : Nat}
    (hlo : phyToVirt (some offset) (f * buddyPageSize) ≤ p)
    (hhi : p < phyToVirt (some offset) (f * buddyPageSize) + buddyPageSize) :
    KfreeExact offset k v f index chain p ↔ ¬ InAllocatedObject offset k f index p := by
  constructor
  · intro hexact hin
    by_cases haligned : (p - objectArea offset f) % classSize index = 0
    · exact h.not_kfreeExact_of_aligned hoff hpage hlo hhi hslab hin haligned hexact
    · exact h.not_kfreeExact_of_interior hoff hpage hlo hhi hslab hin haligned hexact
  · exact h.kfreeExact_of_not_in hoff hpage hlo hhi hslab

/-! ## A full slab -/

/-- A heap whose only slab, in frame 1, has one object of 1024 bytes, and it is allocated. -/
def fullSlab (s : Buddy) : Kernel :=
  let k := heapInit { bootKernel with buddy := s }
  let k := k.putField (1 * buddyPageSize) HeapSlabPage.magic heapMagicSmall
  let k := k.putField (1 * buddyPageSize) HeapSlabPage.objectSize 1024
  let k := k.putField (1 * buddyPageSize) HeapSlabPage.totalObjects 1
  k.putField (1 * buddyPageSize) (HeapSlabPage.bitmap 0) 1

def fullSlabView : HeapView := ⟨fun f => if f = 1 then some (7, []) else none, fun _ => []⟩

/-- The first object of the full slab is marked as used. -/
theorem fullSlab_bit (s : Buddy) : (fullSlab s).objectBit 1 0 = true := by
  have hword : (fullSlab s).field (1 * buddyPageSize) (HeapSlabPage.bitmap 0) = 1 :=
    Kernel.field_putField_self _ _ _ (by decide)
  show ((fullSlab s).field (1 * buddyPageSize) (HeapSlabPage.bitmap 0)).testBit 0 = true
  rw [hword]
  rfl

/-- The full slab is a well-formed heap. Its header, the bitmap and the list of free objects are
checked against the view one by one. -/
theorem fullSlab_wf {s : Buddy} (run : BuddyRun sampleMap s [⟨1, 0⟩]) :
    HeapWF sampleOffset (fullSlab s) fullSlabView := by
  have honly : ∀ {f index chain}, fullSlabView.slab f = some (index, chain) →
      f = 1 ∧ index = 7 ∧ chain = [] := by
    intro f index chain hslab
    simp only [fullSlabView] at hslab
    split at hslab
    · next hf =>
      cases hslab
      exact ⟨hf, rfl, rfl⟩
    · cases hslab
  refine ⟨fun hslab => ?_, fun index hindex => ?_, fun _ _ => List.nodup_nil,
    fun index _ f => ?_, ?_⟩
  -- the fields written are read back, and the others are zero as in a cleared page
  · obtain ⟨rfl, rfl, rfl⟩ := honly hslab
    exact {
      index_lt := by decide
      frame_ne := by decide
      virt_ne := by decide
      magic := by
        simp (disch := decide) only [fullSlab, Kernel.field_putField_of_apart,
          Kernel.field_putField_self]
      objectSize := by
        simp (disch := decide) only [fullSlab, Kernel.field_putField_of_apart,
          Kernel.field_putField_self]
        rfl
      totalObjects := by
        simp (disch := decide) only [fullSlab, Kernel.field_putField_of_apart,
          Kernel.field_putField_self]
        rfl
      freeCount := by
        simp (disch := decide) only [fullSlab, Kernel.field_putField_of_apart]
        exact readLE_of_zero fun _ _ => rfl
      linked := by
        simp (disch := decide) only [fullSlab, Kernel.field_putField_of_apart]
        exact readLE_of_zero fun _ _ => rfl
      nodup := List.nodup_nil
      chain_lt := fun j hj => absurd hj List.not_mem_nil
      bitmap := fun j hj => by
        obtain rfl : j = 0 := Nat.lt_one_iff.mp hj
        exact ⟨fun _ => List.not_mem_nil, fun _ => fullSlab_bit s⟩ }
  · show ((heapInit { bootKernel with buddy := s }).heapCaches index).partialPages = 0
    simp only [heapInit, if_pos hindex]
  · constructor
    · exact fun hf => absurd hf List.not_mem_nil
    · rintro ⟨chain, hslab, hne⟩
      exact absurd (honly hslab).2.2 hne
  · obtain ⟨fl, hinv, -⟩ := run.inv sampleMap_ok
    refine ⟨_, _, fl, hinv, fun f hf => ?_⟩
    obtain ⟨⟨index, chain⟩, hslab⟩ := Option.ne_none_iff_exists'.mp hf
    obtain ⟨rfl, -, -⟩ := honly hslab
    exact List.mem_cons_self

/-- The page of the slab is allocated in a run of the page allocator. -/
theorem exists_fullSlab : ∃ s, BuddyRun sampleMap s [⟨1, 0⟩] :=
  ⟨_, .alloc (n := 1) (a := 0x1000) (.init rfl) rfl (by decide)⟩

/-- A pointer into the header of that slab is ignored, as it should be. -/
theorem small_free_exact_iff_fullSlab :
    ∃ s, HeapWF sampleOffset (fullSlab s) fullSlabView ∧
      KfreeExact sampleOffset (fullSlab s) fullSlabView 1 7 [] 0xFFFF800000001010 := by
  obtain ⟨s, run⟩ := exists_fullSlab
  have hwf := fullSlab_wf run
  refine ⟨s, hwf, (small_free_exact_iff (by decide) (by decide) hwf rfl (by decide)
    (by decide)).mpr fun ⟨harea, _⟩ => ?_⟩
  exact absurd harea (by decide)

/-- The one allocated object of that slab cannot be given back: `kfree` of its start is not
exact. -/
theorem full_slab_not_freed :
    ∃ s, HeapWF sampleOffset (fullSlab s) fullSlabView ∧
      IsAllocatedStart sampleOffset (fullSlab s) 1 7 0xFFFF800000001820 0 ∧
      ¬ KfreeExact sampleOffset (fullSlab s) fullSlabView 1 7 [] 0xFFFF800000001820 := by
  obtain ⟨s, run⟩ := exists_fullSlab
  have hwf := fullSlab_wf run
  refine ⟨s, hwf, ⟨by decide, by decide, fullSlab_bit s⟩, ?_⟩
  exact hwf.not_kfreeExact_of_aligned (by decide) (by decide) (by decide) (by decide) rfl
    ⟨by decide, by decide, fullSlab_bit s⟩ (by decide)

end Yoix
