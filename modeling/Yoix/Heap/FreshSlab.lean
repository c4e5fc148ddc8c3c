import Yoix.Heap.FreeSmall
import Yoix.Heap.LargeSizes

/-!
# A slab right after it has been made

`heap_alloc_slab_page` gets a page, writes the header and links the objects behind it by writing
through them. For every page the page allocator can hand out and every page-aligned direct map it
leaves a well-formed slab, with one exception: the chain of free objects visits every object once
and ends, and the counters and the bitmap agree with it.

The exception is the class of 2048 bytes. The header takes 2080 bytes of the page, so no such
object fits behind it: the slab has no objects, and `free_list` points behind the header anyway.
-/

namespace Yoix

open Memory Dyadic Linked

/-- The slab at `frame` is as new: `objects` are its free objects in the order of the chain. -/
structure FreshSlab (offset : Nat) (k : Kernel) (frame index : Nat) (objects : List Nat) :
    Prop where
  objectSize : k.field (frame * buddyPageSize) HeapSlabPage.objectSize = classSize index
  totalObjects : k.field (frame * buddyPageSize) HeapSlabPage.totalObjects = objects.length
  freeCount : k.field (frame * buddyPageSize) HeapSlabPage.freeCount = objects.length
  /-- following the first words from `free_list` visits `objects` and ends at 0 -/
  linked : Sll (k.word offset) 0 (k.field (frame * buddyPageSize) HeapSlabPage.freeList) objects
  nodup : objects.Nodup
  /-- the objects lie behind the header and inside the page -/
  inside : ∀ x ∈ objects,
    phyToVirt (some offset) (frame * buddyPageSize) + slabHeaderSize ≤ x ∧
      x + classSize index ≤ phyToVirt (some offset) (frame * buddyPageSize) + buddyPageSize
  disjoint : objects.Pairwise fun x y =>
    Disjoint (Set.Ico x (x + classSize index)) (Set.Ico y (y + classSize index))
  bitmap : ∀ i < 256, k.field (frame * buddyPageSize) (HeapSlabPage.bitmap i) = 0
  bits : ∀ j < objects.length, getArray j < 256
  pos : 1 ≤ objects.length
  /-- there is an object to give -/
  gives : k.field (frame * buddyPageSize) HeapSlabPage.freeList ∈ objects

/-! ## The layout of the objects

The objects stand one after the other behind the header. They fit into the page, and no two of them
meet. -/

/-- An object of the class fits behind the header. -/
def ClassFits (index : Nat) : Prop := slabHeaderSize + classSize index ≤ buddyPageSize

instance (index : Nat) : Decidable (ClassFits index) := inferInstanceAs (Decidable (_ ≤ _))

theorem classTotal_pos_iff {index : Nat} (h : index < heapCacheClassCount) :
    1 ≤ classTotal index ↔ ClassFits index := by
  revert index
  decide

theorem classTotal_le {index : Nat} (h : index < heapCacheClassCount) :
    classTotal index ≤ 252 := by
  revert index
  decide

section Layout

variable {offset frame index : Nat}

/-- An object starts behind the header and ends inside the page. -/
theorem objectStart_inside {j : Nat} (hj : j < classTotal index) :
    objectArea offset frame ≤ objectStart offset frame index j ∧
      objectStart offset frame index j + classSize index
        ≤ phyToVirt (some offset) (frame * buddyPageSize) + buddyPageSize := by
  have hfits := (totalObjects_bounds (classSize index)).1
  have hnext : (j + 1) * classSize index ≤ classTotal index * classSize index :=
    Nat.mul_le_mul_right _ hj
  rw [Nat.succ_mul] at hnext
  simp only [objectStart, objectArea, classTotal, buddyPageSize, slabHeaderSize] at *
  omega

theorem objectStart_ne_zero {j : Nat} : objectStart offset frame index j ≠ 0 := by
  simp only [objectStart, objectArea, slabHeaderSize]
  omega

/-- Objects with different numbers share no byte. -/
theorem objectStart_disjoint {i j : Nat} (hij : i < j) :
    Disjoint (Set.Ico (objectStart offset frame index i)
        (objectStart offset frame index i + classSize index))
      (Set.Ico (objectStart offset frame index j)
        (objectStart offset frame index j + classSize index)) := by
  have hnext : (i + 1) * classSize index ≤ j * classSize index := Nat.mul_le_mul_right _ hij
  rw [Nat.succ_mul] at hnext
  rw [Set.disjoint_left]
  intro x hx hx'
  simp only [objectStart, Set.mem_Ico] at hx hx'
  omega

/-- Reading the first word of an object goes through the direct map to the page. -/
theorem word_objectStart {k : Kernel} {j : Nat} (hoff : offset < 2 ^ 64)
    (hframe : frame < buddyMaxPages) (hj : j < classTotal index) :
    k.word offset (objectStart offset frame index j)
      = readLE k.mem (frame * buddyPageSize + slabHeaderSize + j * classSize index) 8 := by
  have hin : objectStart offset frame index j + classSize index
      ≤ phyToVirt (some offset) (frame * buddyPageSize) + buddyPageSize :=
    (objectStart_inside hj).2
  unfold Kernel.word
  congr 1
  simp only [objectStart, objectArea, phyToVirt, buddyMaxPages, buddyMaxPhys, buddyPageSize,
    slabHeaderSize] at *
  omega

/-- No two objects of a slab share a byte. -/
theorem objectStarts_pairwise (offset frame index n : Nat) :
    ((List.range n).map (objectStart offset frame index)).Pairwise fun x y =>
      Disjoint (Set.Ico x (x + classSize index)) (Set.Ico y (y + classSize index)) := by
  rw [List.pairwise_map]
  exact List.pairwise_lt_range.imp objectStart_disjoint

theorem objectStarts_nodup (offset frame n : Nat) (hindex : index < heapCacheClassCount) :
    ((List.range n).map (objectStart offset frame index)).Nodup := by
  have hsize : 0 < classSize index :=
    Nat.lt_of_lt_of_le (by decide) (heapCacheSizes_bounds hindex).1
  refine (objectStarts_pairwise offset frame index n).imp fun {x y} hdisj heq => ?_
  subst heq
  have hx : x ∈ Set.Ico x (x + classSize index) := ⟨Nat.le_refl x, by omega⟩
  exact Set.disjoint_left.mp hdisj hx hx

end Layout

/-! ## What formatting leaves

A class has a new slab exactly when at least one of its objects fits into a page behind the header,
which is so for all classes but the last. -/

section Fresh

variable {offset frame index : Nat} {k : Kernel}

/-- The words of linked objects chain all of them, from the first one on. -/
theorem objectStarts_chain (hoff : offset < 2 ^ 64) (hframe : frame < buddyMaxPages)
    (hpos : 0 < classTotal index)
    (hlinked : ObjectsLinked offset k (frame * buddyPageSize) (classSize index) 0
      (classTotal index)) :
    Sll (k.word offset) 0 (objectStart offset frame index 0)
      ((List.range (classTotal index)).map (objectStart offset frame index)) := by
  have hwords : ∀ j < classTotal index, k.word offset (objectStart offset frame index j)
      = if j + 1 < classTotal index then objectStart offset frame index (j + 1) else 0 := by
    intro j hj
    rw [word_objectStart hoff hframe hj, hlinked j (Nat.zero_le j) hj]
    rfl
  have hchain := Sll.of_indexed hwords (fun j _ => objectStart_ne_zero)
    (Nat.zero_add (classTotal index))
  rw [if_pos hpos, ← List.range_eq_range'] at hchain
  exact hchain

/-- A fresh header, linked objects and a clear bitmap make a fresh slab. -/
theorem freshSlab_of_formatted (hoff : offset < 2 ^ 64) (hframe : frame < buddyMaxPages)
    (hindex : index < heapCacheClassCount) (hfits : ClassFits index)
    (hfresh : FreshHeader offset k (frame * buddyPageSize) (classSize index))
    (hlinked : ObjectsLinked offset k (frame * buddyPageSize) (classSize index) 0
      (classTotal index))
    (hbitmap : ∀ i < 256, k.field (frame * buddyPageSize) (HeapSlabPage.bitmap i) = 0) :
    FreshSlab offset k frame index
      ((List.range (classTotal index)).map (objectStart offset frame index)) := by
  have hpos : 0 < classTotal index := (classTotal_pos_iff hindex).mpr hfits
  have hmax := classTotal_le hindex
  have hlength : ((List.range (classTotal index)).map (objectStart offset frame index)).length
      = classTotal index := by
    rw [List.length_map, List.length_range]
  -- the first object is where the object area starts
  have hfirst : k.field (frame * buddyPageSize) HeapSlabPage.freeList
      = objectStart offset frame index 0 := by
    rw [hfresh.freeList, objectStart, Nat.zero_mul]
    rfl
  refine ⟨hfresh.objectSize, ?_, ?_, ?_, objectStarts_nodup offset frame _ hindex, ?_,
    objectStarts_pairwise offset frame index _, hbitmap, ?_, ?_, ?_⟩
  · rw [hlength, hfresh.totalObjects]
    rfl
  · rw [hlength, hfresh.freeCount]
    rfl
  · rw [hfirst]
    exact objectStarts_chain hoff hframe hpos hlinked
  · intro x hx
    obtain ⟨j, hj, rfl⟩ := List.mem_map.mp hx
    exact objectStart_inside (List.mem_range.mp hj)
  · intro j hj
    rw [hlength] at hj
    unfold getArray
    omega
  · rw [hlength]
    exact hpos
  · rw [hfirst]
    exact List.mem_map_of_mem (List.mem_range.mpr hpos)

end Fresh

theorem heapInit_objectSize (k : Kernel) {index : Nat} (hindex : index < heapCacheClassCount) :
    ((heapInit k).heapCaches index).objectSize = classSize index := by
  unfold heapInit classSize
  simp only [if_pos hindex]
  exact Nat.mod_eq_of_lt (Nat.lt_of_le_of_lt (heapCacheSizes_bounds hindex).2 (by decide))

/-- The call ends, returns the page that the page allocator hands out unless that page has no
address, and leaves a fresh slab in it, also once the slab is on the partial list of its class. -/
def MakesFreshSlab (offset : Nat) (k : Kernel) (index objectSize : Nat) : Prop :=
  ∃ phys k', heapAllocSlabPage (some offset) k objectSize = .ok (phys, k') ∧
    (∀ a s', buddyAllocPage k.buddy = .ok (a, s') → a ≠ buddyInvalidAddress →
      phyToVirt (some offset) a ≠ 0 → phys = a) ∧
    (phys ≠ buddyInvalidAddress → ∃ frame objects, phys = frame * buddyPageSize ∧
      FreshSlab offset k' frame index objects ∧
      ((k'.setPartialPages index phys).heapCaches index).partialPages = phys ∧
      FreshSlab offset (k'.setPartialPages index phys) frame index objects)

section Alloc

variable {U : Set Nat} {k : Kernel} {live : List Block} {fl : FreeLists} {offset index : Nat}

/-- Either no slab is made, because there is no page or the page has no address, or the page of
some frame is formatted. -/
theorem LiveInv.allocSlabPage_cases (h : LiveInv U k.buddy live fl) (hoff : offset < 2 ^ 64)
    (hpage : buddyPageSize ∣ offset) (hindex : index < heapCacheClassCount) :
    (NoPage (some offset) k.buddy ∧
      ∃ k', heapAllocSlabPage (some offset) k (classSize index) = .ok (buddyInvalidAddress, k')) ∨
    ∃ g s' k', g < buddyMaxPages ∧ buddyAllocPage k.buddy = .ok (g * buddyPageSize, s') ∧
      phyToVirt (some offset) (g * buddyPageSize) ≠ 0 ∧
      heapAllocSlabPage (some offset) k (classSize index) = .ok (g * buddyPageSize, k') ∧
      FreshHeader offset k' (g * buddyPageSize) (classSize index) ∧
      ObjectsLinked offset k' (g * buddyPageSize) (classSize index) 0 (classTotal index) ∧
      ∀ i < 256, k'.field (g * buddyPageSize) (HeapSlabPage.bitmap i) = 0 := by
  rcases h.alloc 1 with hnone | ⟨g, fl', s', -, -, -, hsome, hg, hinv⟩
  · refine Or.inl ⟨fun a s' hrun => Or.inl ?_, k, ?_⟩
    · exact (ok_unique_pair hrun hnone).1
    · simp only [heapAllocSlabPage, buddyAllocPage, hnone, ok_bind, if_true]
  · have hvalid := addr_ne_invalid hg
    by_cases hvirt : phyToVirt (some offset) (g * buddyPageSize) = 0
    · -- the page goes back
      obtain ⟨s'', hfree⟩ := hinv.free_ends (n := 1) List.mem_cons_self ⟨Nat.le_refl 1, rfl⟩
      simp only [Block.addr] at hfree
      refine Or.inl ⟨fun a t hrun => Or.inr (Or.inl ?_), { k with buddy := s'' }, ?_⟩
      · rw [(ok_unique_pair hrun hsome).1]
        exact hvirt
      · simp only [heapAllocSlabPage, buddyAllocPage, hsome, ok_bind, if_neg hvalid, hvirt, if_true,
          buddyFreePage, hfree]
    · obtain ⟨hmin, hmax⟩ : 8 ≤ classSize index ∧ classSize index ≤ 2048 :=
        heapCacheSizes_bounds hindex
      obtain ⟨m, hformat, -, hfresh, hlinked, hbitmap⟩ := formatSlabPage_spec hoff hpage
        (Nat.dvd_mul_left buddyPageSize g) (pageAddr_lt hg) { k with buddy := s' } hmin hmax
      refine Or.inr ⟨g, s', { k with buddy := s', mem := m }, hg, hsome, hvirt, ?_, hfresh,
        hlinked, hbitmap⟩
      simp only [heapAllocSlabPage, buddyAllocPage, hsome, ok_bind, if_neg hvalid, if_neg hvirt,
        hformat]

/-- A slab of a class that does not fit has no objects. -/
theorem not_freshSlab_of_not_fits {g : Nat} (hindex : index < heapCacheClassCount)
    (hfits : ¬ ClassFits index)
    (hfresh : FreshHeader offset k (g * buddyPageSize) (classSize index)) (objects : List Nat) :
    ¬ FreshSlab offset k g index objects := by
  intro hslab
  have hempty : ¬ 1 ≤ classTotal index := mt (classTotal_pos_iff hindex).mp hfits
  have htotal : objects.length = classTotal index :=
    hslab.totalObjects.symm.trans hfresh.totalObjects
  exact hempty (htotal ▸ hslab.pos)

end Alloc

/-- **A fresh slab is well formed exactly when an object of its class fits behind the header.**
For every reachable state, every page-aligned direct map and every size class as `heap_init` sets
it up, `heap_alloc_slab_page` makes a fresh slab if and only if the class is not the last one or
there is no page to make it from. -/
theorem fresh_slab_iff_fits {response : Option MemmapResponse} (hok : MemmapOk response)
    {k : Kernel} (hreach : Reachable response k) {offset : Nat} (hoff : offset < 2 ^ 64)
    (hpage : buddyPageSize ∣ offset) (k₀ : Kernel) {index : Nat}
    (hindex : index < heapCacheClassCount) :
    MakesFreshSlab offset k index ((heapInit k₀).heapCaches index).objectSize ↔
      ClassFits index ∨ NoPage (some offset) k.buddy := by
  rw [heapInit_objectSize k₀ hindex]
  obtain ⟨live, fl, h⟩ := hreach.liveInv hok
  rcases h.allocSlabPage_cases hoff hpage hindex with
    ⟨hnone, k', hrun⟩ | ⟨g, s', k', hg, hsome, hvirt, hrun, hfresh, hlinked, hbitmap⟩
  · refine iff_of_true ⟨_, k', hrun, fun a s' halloc hne hvirt => ?_, fun hne => absurd rfl hne⟩
      (Or.inr hnone)
    -- a page with an address would have been used
    rcases h.alloc 1 with hfail | ⟨g, -, t, -, -, -, hsome, hg, -⟩
    · exact absurd (ok_unique_pair halloc hfail).1 hne
    · obtain ⟨rfl, rfl⟩ := ok_unique_pair halloc hsome
      exact absurd ((noPage_iff_of_aligned h hpage).mp hnone g hg s' hsome) hvirt
  · have hpageOf : ∀ a t, buddyAllocPage k.buddy = .ok (a, t) → a = g * buddyPageSize :=
      fun a t halloc => (ok_unique_pair halloc hsome).1
    have hhave : ¬ NoPage (some offset) k.buddy := fun hnone =>
      hvirt ((noPage_iff_of_aligned h hpage).mp hnone g hg s' hsome)
    rw [or_iff_left hhave]
    constructor
    · intro ⟨phys, k'', hrun', _, hslab⟩
      obtain ⟨rfl, rfl⟩ := ok_unique_pair hrun' hrun
      obtain ⟨frame, objects, heq, hslab, -⟩ := hslab (addr_ne_invalid hg)
      obtain rfl : g = frame := Nat.eq_of_mul_eq_mul_right (by decide) heq
      by_contra hfits
      exact not_freshSlab_of_not_fits hindex hfits hfresh objects hslab
    · intro hfits
      refine ⟨_, k', hrun, fun a t halloc _ _ => (hpageOf a t halloc).symm, fun _ => ?_⟩
      refine ⟨g, _, rfl, freshSlab_of_formatted hoff hg hindex hfits hfresh hlinked hbitmap,
        ?_, freshSlab_of_formatted hoff hg hindex hfits (hfresh.congr fun _ _ _ => rfl)
          hlinked hbitmap⟩
      simp only [Kernel.setPartialPages, Function.update_self]

/-- The class of 16 bytes gets a new slab. -/
theorem fresh_slab_iff_fits_sampleMap :
    ∃ k, Reachable sampleMap k ∧
      MakesFreshSlab sampleOffset k 1 ((heapInit k).heapCaches 1).objectSize := by
  obtain ⟨k, hreach, -⟩ := sampleMap_reachable
  refine ⟨k, hreach, ?_⟩
  exact (fresh_slab_iff_fits sampleMap_ok hreach sampleEnv.offset_lt sampleEnv.offset_aligned k
    (by decide)).mpr (Or.inl (by decide))

/-- The first slab of the class of 2048 bytes is put into a page and has no object. -/
theorem last_class_not_fresh :
    ∃ k phys k', Reachable sampleMap k ∧ ((heapInit k).heapCaches 8).objectSize = 2048 ∧
      heapAllocSlabPage (some sampleOffset) k 2048 = .ok (phys, k') ∧
      phys ≠ buddyInvalidAddress ∧ k'.field phys HeapSlabPage.totalObjects = 0 ∧
      ¬ MakesFreshSlab sampleOffset k 8 2048 := by
  obtain ⟨k, hreach, hfree⟩ := sampleMap_reachable
  obtain ⟨live, fl, h⟩ := hreach.liveInv sampleMap_ok
  have hclass : 8 < heapCacheClassCount := by decide
  rcases h.allocSlabPage_cases sampleEnv.offset_lt sampleEnv.offset_aligned hclass with
    ⟨hnone, -⟩ | ⟨g, s', k', hg, -, -, hrun, hfresh, -⟩
  · exact absurd hnone (not_noPage_of_freeFrame sampleMap_ok hreach hfree)
  · have hrun : heapAllocSlabPage (some sampleOffset) k 2048 = .ok (g * buddyPageSize, k') := hrun
    refine ⟨k, _, k', hreach, rfl, hrun, addr_ne_invalid hg, hfresh.totalObjects, ?_⟩
    intro ⟨phys, k'', hrun', _, hslab⟩
    obtain ⟨rfl, rfl⟩ := ok_unique_pair hrun' hrun
    obtain ⟨frame, objects, heq, hslab, -⟩ := hslab (addr_ne_invalid hg)
    obtain rfl : g = frame := Nat.eq_of_mul_eq_mul_right (by decide) heq
    exact not_freshSlab_of_not_fits (by decide) (by decide) hfresh objects hslab

end Yoix
