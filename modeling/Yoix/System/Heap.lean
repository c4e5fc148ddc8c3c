import Yoix.Heap.Run
import Yoix.Vmm.Tables

/-!
# The heap beside other owners of frames

The page allocator serves the heap, the page tables and its other clients at the same time.
`HeapPart` is what the heap relies on: the headers of its own blocks and its caches. The frames it
holds are some of the allocated ones, and nothing is said of the rest. A call of `kmalloc` or
`kfree` from such a state ends, keeps `HeapPart`, and writes only to frames that were free
(`HeapPart.kmalloc`, `HeapPart.kfree`).
-/

namespace Yoix

open Memory Dyadic

/-- The frames the heap holds. -/
def heapFrames (offset : Nat) (live : List LiveObject) (slabs : List Slab) : Set Nat :=
  framesOf (heapBlocks offset live slabs)

structure HeapPart (offset : Nat) (k : Kernel) (live : List LiveObject) (slabs : List Slab) :
    Prop where
  aligned : ∀ b ∈ heapBlocks offset live slabs, 2 ^ b.order ∣ b.frame
  disjoint : (heapBlocks offset live slabs).Pairwise fun b c => Disjoint b.frames c.frames
  caches : CachesOk k.heapCaches slabs
  slab : ∀ s ∈ slabs, FreshHeader offset k s.phys s.objectSize ∧ phyToVirt (some offset) s.phys ≠ 0
  large : ∀ o ∈ live, LargeOk offset k o

/-! ## Requests to the page allocator

Which frames a request has taken is read off the state bytes before and after it. -/

/-- A request finds nothing and changes nothing, or takes an aligned block of free frames. -/
theorem Represents.alloc_cases {U A : Set Nat} {s : Buddy} {fl : FreeLists}
    (h : Represents U A ∅ s fl) (n : Nat) :
    buddyAllocPages s n = .ok (buddyInvalidAddress, s) ∨
    ∃ g s' fl', 1 ≤ n ∧ n ≤ 2 ^ buddyMaxOrder ∧
      buddyAllocPages s n = .ok (g * buddyPageSize, s') ∧
      2 ^ buddyOrderFromPages n ∣ g ∧ block g (buddyOrderFromPages n) ⊆ U \ A ∧
      Represents U (A ∪ block g (buddyOrderFromPages n)) ∅ s' fl' := by
  by_cases hn : 1 ≤ n ∧ n ≤ 2 ^ buddyMaxOrder
  · cases htake : takeBlock fl (buddyOrderFromPages n) with
    | none => exact Or.inl (h.allocPages_of_none fun _ _ => htake)
    | some r =>
      obtain ⟨g, fl'⟩ := r
      obtain ⟨s', hrun, hrepr⟩ := h.allocPages_of_some hn.1 hn.2 htake
      obtain ⟨hdvd, hsub, -⟩ := h.tiling.carve (Nat.le_refl _) htake
      rw [Set.union_empty] at hsub
      exact Or.inr ⟨g, s', fl', hn.1, hn.2, hrun, hdvd, hsub, hrepr⟩
  · exact Or.inl (h.allocPages_of_none fun h1 h2 => absurd ⟨h1, h2⟩ hn)

/-- The frames a call has taken are those that became allocated. -/
theorem newlyAllocated_eq {U A A' : Set Nat} {s s' : Buddy} {fl fl' : FreeLists}
    (h : Represents U A ∅ s fl) (h' : Represents U A' ∅ s' fl') :
    newlyAllocated s s' = A' \ A := by
  ext f
  rw [newlyAllocated, Set.mem_ofPred_eq, ne_eq, h.state_allocated_iff, h'.state_allocated_iff]
  rfl

/-! ## What the heap depends on

The heap beside others that use the page allocator: it has its own frames, and depends on the bytes
of these frames and on the caches only. -/

/-- Every byte that differs lies in one of these frames. -/
def WritesOnly (F : Set Nat) (k k' : Kernel) : Prop :=
  ∀ x, k'.mem x ≠ k.mem x → x / buddyPageSize ∈ F

namespace WritesOnly

variable {F F' : Set Nat} {k k' k'' : Kernel}

theorem of_eq (h : k'.mem = k.mem) : WritesOnly F k k' := fun x hx => absurd (congrFun h x) hx

theorem mono (h : WritesOnly F k k') (hsub : F ⊆ F') : WritesOnly F' k k' :=
  fun x hx => hsub (h x hx)

/-- Two calls in a row write to the frames that either of them may write to. -/
theorem trans (h : WritesOnly F k k') (h' : WritesOnly F k' k'') : WritesOnly F k k'' := by
  intro x hx
  by_cases hx' : k''.mem x = k'.mem x
  · exact h x (by rw [← hx']; exact hx)
  · exact h' x hx'

/-- Bytes of a frame that is not written to are the same. -/
theorem sameAt (h : WritesOnly F k k') {f n : Nat} (hf : f ∉ F) (hn : n ≤ buddyPageSize) :
    SameAt k'.mem k.mem (f * buddyPageSize) n := by
  intro x hlo hhi
  by_contra hne
  apply hf
  have hframe : x / buddyPageSize = f := by
    simp only [buddyPageSize] at *
    omega
  exact hframe ▸ h x hne

theorem of_sameOutside {g : Nat}
    (h : SameOutside k'.mem k.mem (g * buddyPageSize) buddyPageSize) (hg : g ∈ F) :
    WritesOnly F k k' := fun _ hx => frame_of_sameOutside_ne h hx ▸ hg

end WritesOnly

section

variable {U A : Set Nat} {offset size : Nat} {k : Kernel} {live : List LiveObject}
  {slabs : List Slab} {fl : FreeLists} (hoff : offset < 2 ^ 64) (hpage : buddyPageSize ∣ offset)

theorem mem_heapFrames {b : Block} (hb : b ∈ heapBlocks offset live slabs) {f : Nat}
    (hf : f ∈ b.frames) : f ∈ heapFrames offset live slabs := ⟨b, hb, hf⟩

/-- Writes to frames that the heap does not hold, and another page allocator. -/
theorem HeapPart.congr (h : HeapPart offset k live slabs) {F : Set Nat} {k' : Kernel}
    (hcaches : k'.heapCaches = k.heapCaches) (hwrites : WritesOnly F k k')
    (hout : Disjoint F (heapFrames offset live slabs)) : HeapPart offset k' live slabs := by
  have hnot : ∀ b ∈ heapBlocks offset live slabs, b.frame ∉ F := fun b hb hF =>
    Set.disjoint_left.mp hout hF (mem_heapFrames hb (base_mem_block _ _))
  refine ⟨h.aligned, h.disjoint, hcaches ▸ h.caches, fun s hs => ?_, fun o ho => ?_⟩
  · refine ⟨(h.slab s hs).1.congr ?_, (h.slab s hs).2⟩
    exact hwrites.sameAt (hnot s.block (HeapInv.slab_mem hs)) (by decide)
  · exact (h.large o ho).congr
      (hwrites.sameAt (hnot (o.block offset) (HeapInv.block_mem ho)) (by decide))

/-- The frames of a new block join those of the heap. -/
theorem HeapPart.cons (h : HeapPart offset k live slabs) {b : Block} {live' : List LiveObject}
    {slabs' : List Slab} {k' : Kernel} {F : Set Nat}
    (hperm : (heapBlocks offset live' slabs').Perm (b :: heapBlocks offset live slabs))
    (hdvd : 2 ^ b.order ∣ b.frame) (hnew : Disjoint b.frames (heapFrames offset live slabs))
    (hcaches : CachesOk k'.heapCaches slabs')
    (hslab : ∀ s ∈ slabs', s ∈ slabs ∨
      FreshHeader offset k' s.phys s.objectSize ∧ phyToVirt (some offset) s.phys ≠ 0)
    (hlarge : ∀ o ∈ live', o ∈ live ∨ LargeOk offset k' o)
    (hwrites : WritesOnly F k k') (hout : Disjoint F (heapFrames offset live slabs)) :
    HeapPart offset k' live' slabs' ∧
      heapFrames offset live' slabs' = heapFrames offset live slabs ∪ b.frames := by
  -- the old headers have not been written to
  have hold : HeapPart offset { k' with heapCaches := k.heapCaches } live slabs :=
    h.congr rfl hwrites hout
  refine ⟨⟨fun c hc => ?_, ?_, hcaches, fun s hs => ?_, fun o ho => ?_⟩, ?_⟩
  · rcases List.mem_cons.mp (hperm.mem_iff.mp hc) with rfl | hc
    · exact hdvd
    · exact h.aligned c hc
  · refine pairwise_disjoint_perm hperm.symm (List.pairwise_cons.mpr ⟨fun c hc => ?_, h.disjoint⟩)
    exact hnew.mono_right fun f hf => mem_heapFrames hc hf
  · rcases hslab s hs with hs | hs
    · exact ⟨(hold.slab s hs).1.congr fun _ _ _ => rfl, (hold.slab s hs).2⟩
    · exact hs
  · rcases hlarge o ho with ho | ho
    · exact (hold.large o ho).congr fun _ _ _ => rfl
    · exact ho
  · rw [heapFrames, framesOf_perm hperm, framesOf_cons]
    rfl

/-! ## Requests

A request takes frames that were free, writes to them or to frames the heap has already, and returns
a region of them or nothing. -/

/-- A call has taken the frames `A' \ A` for the heap and written to no other frame. -/
structure HeapTakes (offset : Nat) (U A A' : Set Nat) (fl' : FreeLists) (k k' : Kernel)
    (live live' : List LiveObject) (slabs slabs' : List Slab) : Prop where
  part : HeapPart offset k' live' slabs'
  repr : Represents U A' ∅ k'.buddy fl'
  sub : A ⊆ A'
  frames : heapFrames offset live' slabs' = heapFrames offset live slabs ∪ ( A' \ A)
  writes : WritesOnly ( A' \ A) k k'

/-- A call that leaves the heap and the allocated frames as they are. -/
theorem HeapTakes.nothing (h : HeapPart offset k live slabs) {s : Buddy} {fl' : FreeLists}
    (hr : Represents U A ∅ s fl') :
    HeapTakes offset U A A fl' k { k with buddy := s } live live slabs slabs where
  part := h.congr (F := ∅) rfl (.of_eq rfl) (Set.empty_disjoint _)
  repr := hr
  sub := subset_rfl
  frames := by rw [Set.sdiff_self, Set.union_empty]
  writes := .of_eq rfl

/-- Pages that were taken and go back at once. -/
theorem Represents.giveBack {g n : Nat} (h0 : 0 ∉ U) (hn : 1 ≤ n) (hdvd : 2 ^ buddyOrderFromPages n ∣ g)
    (hfree : block g (buddyOrderFromPages n) ⊆ U \ A) {s' : Buddy} {fl' : FreeLists}
    (hr' : Represents U (A ∪ block g (buddyOrderFromPages n)) ∅ s' fl') :
    ∃ s'' fl'', buddyFreePages s' (g * buddyPageSize) n = .ok s'' ∧
      Represents U A ∅ s'' fl'' := by
  have hg0 : g ≠ 0 := fun heq => h0 (heq ▸ (hfree (base_mem_block g _)).1)
  obtain ⟨s'', hrun, hback⟩ := hr'.freePages hg0 hn hdvd Set.subset_union_right
  have hsame : (A ∪ block g (buddyOrderFromPages n)) \ block g (buddyOrderFromPages n) = A := by
    rw [Set.union_sdiff_right]
    exact (Set.disjoint_left.mpr fun f hA hb => (hfree hb).2 hA).sdiff_eq_left
  rw [hsame] at hback
  exact ⟨s'', _, hrun, hback⟩

namespace HeapPart

/-- The first frame of a block of the heap is managed. -/
theorem frame_lt (hr : Represents U A ∅ k.buddy fl) (hsub : heapFrames offset live slabs ⊆ A)
    {b : Block} (hb : b ∈ heapBlocks offset live slabs) : b.frame < buddyMaxPages :=
  hr.usable_lt (hr.alloc_sub (hsub (mem_heapFrames hb (base_mem_block _ _))))

include hoff hpage in
/-- Nothing is taken from a class that has a slab. -/
theorem takeFirstObject_slab (h : HeapPart offset k live slabs) (hr : Represents U A ∅ k.buddy fl)
    (hsub : heapFrames offset live slabs ⊆ A) {s : Slab} (hs : s ∈ slabs) :
    takeFirstObject (some offset) k s.index = .ok (0, k) := by
  obtain ⟨hlt, hphys⟩ := h.caches.slab s hs
  obtain ⟨hmin, -⟩ := heapCacheSizes_bounds hlt
  have hframe : s.frame < buddyMaxPages := frame_lt hr hsub (HeapInv.slab_mem hs)
  refine takeFirstObject_fresh hoff hpage (Nat.dvd_mul_left _ _) (pageAddr_lt hframe) hphys
    (h.slab s hs).1 ?_
  rw [Slab.objectSize]
  omega

/-- A class without a list has no slab: a slab would be in the list of its class, and its address is
not null. -/
theorem no_slab (h : HeapPart offset k live slabs) (h0 : 0 ∉ U) (hr : Represents U A ∅ k.buddy fl)
    (hsub : heapFrames offset live slabs ⊆ A) {index : Nat}
    (hempty : (k.heapCaches index).partialPages = 0) : ∀ s ∈ slabs, s.index ≠ index := by
  rintro s hs rfl
  have hphys := (h.caches.slab s hs).2
  rw [hempty, Slab.phys] at hphys
  have hframe : s.frame = 0 := by
    simp only [buddyPageSize] at hphys
    omega
  have hin : s.frame ∈ U := hr.alloc_sub (hsub
    (mem_heapFrames (HeapInv.slab_mem hs) (base_mem_block s.frame 0)))
  exact h0 (hframe ▸ hin)

include hoff hpage in
/-- A free page becomes the slab of a class without one. -/
theorem addSlab (h : HeapPart offset k live slabs) (h0 : 0 ∉ U) (hr : Represents U A ∅ k.buddy fl)
    (hsub : heapFrames offset live slabs ⊆ A) {index g : Nat} {s' : Buddy} {fl' : FreeLists}
    (hindex : index < heapCacheClassCount) (hempty : (k.heapCaches index).partialPages = 0)
    (hfree : block g 0 ⊆ U \ A) (hr' : Represents U (A ∪ block g 0) ∅ s' fl')
    (hvirt : phyToVirt (some offset) (g * buddyPageSize) ≠ 0) :
    ∃ m, formatSlabPage (some offset) { k with buddy := s' }
        (phyToVirt (some offset) (g * buddyPageSize)) (heapCacheSizes.getD index 0)
          = .ok { k with buddy := s', mem := m } ∧
      HeapTakes offset U A (A ∪ block g 0) fl' k
        (({ k with buddy := s', mem := m } : Kernel).setPartialPages index (g * buddyPageSize))
        live live slabs (⟨index, g⟩ :: slabs) := by
  obtain ⟨hmin, hmax⟩ := heapCacheSizes_bounds hindex
  have hg : g < buddyMaxPages := hr.usable_lt (hfree (base_mem_block g 0)).1
  obtain ⟨m, hformat, hsame, hfresh, -⟩ := formatSlabPage_spec hoff hpage
    (Nat.dvd_mul_left buddyPageSize g) (pageAddr_lt hg) { k with buddy := s' } hmin hmax
  have hnew : Disjoint (block g 0) (heapFrames offset live slabs) :=
    Set.disjoint_left.mpr fun f hf hheap => (hfree hf).2 (hsub hheap)
  -- the page was free, so it is exactly what the heap has taken
  have htaken : (A ∪ block g 0) \ A = block g 0 := by
    rw [Set.union_sdiff_left]
    exact (Set.disjoint_left.mpr fun f hf hA => (hfree hf).2 hA).sdiff_eq_left
  set k' := ({ k with buddy := s', mem := m } : Kernel).setPartialPages index (g * buddyPageSize)
  have hwrites : WritesOnly (block g 0) k k' := .of_sameOutside hsame (base_mem_block g 0)
  have hcaches : CachesOk k'.heapCaches (⟨index, g⟩ :: slabs) :=
    h.caches.add hindex (h.no_slab h0 hr hsub hempty)
  have hperm : (heapBlocks offset live (⟨index, g⟩ :: slabs)).Perm
      (⟨g, 0⟩ :: heapBlocks offset live slabs) := List.perm_middle
  -- only the new slab has a header that was written
  have hslab : ∀ s ∈ (⟨index, g⟩ :: slabs : List Slab), s ∈ slabs ∨
      FreshHeader offset k' s.phys s.objectSize ∧ phyToVirt (some offset) s.phys ≠ 0 := by
    intro s hs
    rcases List.mem_cons.mp hs with rfl | hs
    · exact Or.inr ⟨hfresh.congr fun _ _ _ => rfl, hvirt⟩
    · exact Or.inl hs
  obtain ⟨hpart, hframes⟩ := h.cons hperm (one_dvd g) hnew hcaches hslab (fun o ho => Or.inl ho)
    hwrites hnew
  refine ⟨m, hformat, hpart, hr', Set.subset_union_left, ?_, ?_⟩
  · rw [htaken]
    exact hframes
  · rw [htaken]
    exact hwrites

include hoff hpage in
/-- A small request returns `NULL`. It may leave a new slab in the cache of its class. -/
theorem kmalloc_small (h : HeapPart offset k live slabs) (h0 : 0 ∉ U)
    (hr : Represents U A ∅ k.buddy fl) (hsub : heapFrames offset live slabs ⊆ A) {index : Nat}
    (hpos : size ≠ 0) (hindex : heapCacheIndex size = some index) :
    ∃ k' slabs' A' fl', kmalloc (some offset) k size = .ok (0, k') ∧
      HeapTakes offset U A A' fl' k k' live live slabs slabs' := by
  have hlt := heapCacheIndex_lt hindex
  have hcall : kmalloc (some offset) k size = heapAllocFromCache (some offset) k index := by
    simp only [kmalloc, if_neg hpos, hindex]
  rw [hcall]
  by_cases hlist : (k.heapCaches index).partialPages = 0
  · rcases hr.alloc_cases 1 with hnone | ⟨g, s', fl', hn, -, hsome, hdvd, hfree, hr'⟩
    · -- no page is left
      refine ⟨k, slabs, A, fl, ?_, .nothing h hr⟩
      simp only [heapAllocFromCache, hlist, if_true, heapAllocSlabPage, buddyAllocPage, hnone,
        ok_bind]
    · have hone : buddyOrderFromPages 1 = 0 := by decide
      have hvalid := addr_ne_invalid (hr.usable_lt (hfree (base_mem_block g _)).1)
      by_cases hvirt : phyToVirt (some offset) (g * buddyPageSize) = 0
      · -- the page has no address in the direct map and goes back
        obtain ⟨s'', fl'', hback, hr''⟩ := Represents.giveBack h0 hn hdvd hfree hr'
        refine ⟨{ k with buddy := s'' }, slabs, A, fl'', ?_, .nothing h hr''⟩
        simp only [heapAllocFromCache, hlist, if_true, heapAllocSlabPage, buddyAllocPage, hsome,
          ok_bind, if_neg hvalid, hvirt, buddyFreePage, hback]
      · rw [hone] at hfree hr'
        obtain ⟨m, hformat, htakes⟩ :=
          h.addSlab hoff hpage h0 hr hsub hlt hlist hfree hr' hvirt
        refine ⟨_, _, _, fl', ?_, htakes⟩
        simp only [heapAllocFromCache, hlist, if_true, heapAllocSlabPage, buddyAllocPage, hsome,
          ok_bind, if_neg hvalid, if_neg hvirt, h.caches.size index hlt, hformat]
        refine htakes.part.takeFirstObject_slab hoff hpage htakes.repr ?_ List.mem_cons_self
        rw [htakes.frames]
        exact Set.union_subset (hsub.trans htakes.sub) Set.sdiff_subset
  · -- the class has a slab already
    obtain ⟨s, hs, rfl⟩ := (h.caches.empty_or index hlt).resolve_left hlist
    refine ⟨k, slabs, A, fl, ?_, .nothing h hr⟩
    rw [heapAllocFromCache, if_neg hlist]
    exact h.takeFirstObject_slab hoff hpage hr hsub hs

include hoff in
/-- A block of free frames becomes a large region, once its header is written. -/
theorem addLarge (h : HeapPart offset k live slabs) (hr : Represents U A ∅ k.buddy fl)
    (hsub : heapFrames offset live slabs ⊆ A) {g : Nat} {s' : Buddy} {fl' : FreeLists}
    (hlarge : 2048 < size) (hsize : size < 2 ^ 64) (hpos : 1 ≤ largePages size)
    (hpages : largePages size ≤ 2 ^ buddyMaxOrder)
    (hdvd : 2 ^ buddyOrderFromPages (largePages size) ∣ g)
    (hfree : block g (buddyOrderFromPages (largePages size)) ⊆ U \ A)
    (hr' : Represents U (A ∪ block g (buddyOrderFromPages (largePages size))) ∅ s' fl')
    (hvirt : phyToVirt (some offset) (g * buddyPageSize) ≠ 0) :
    HeapTakes offset U A (A ∪ block g (buddyOrderFromPages (largePages size))) fl' k
      (({ k with buddy := s' } : Kernel).putLargeHeader (g * buddyPageSize) (largePages size))
      live (⟨phyToVirt (some offset) (g * buddyPageSize) + largeHeaderSize, size,
        newlyAllocated k.buddy s'⟩ :: live) slabs slabs := by
  set order := buddyOrderFromPages (largePages size) with horder
  set k' := ({ k with buddy := s' } : Kernel).putLargeHeader (g * buddyPageSize) (largePages size)
    with hk'
  set o : LiveObject := ⟨phyToVirt (some offset) (g * buddyPageSize) + largeHeaderSize, size,
    newlyAllocated k.buddy s'⟩ with ho
  have hg : g < buddyMaxPages := hr.usable_lt (hfree (base_mem_block g _)).1
  have hblock : o.block offset = ⟨g, order⟩ := by
    rw [LiveObject.block, ho, frame_of_ptr hoff hg]
  have hnew : Disjoint (block g order) (heapFrames offset live slabs) :=
    Set.disjoint_left.mpr fun f hf hheap => (hfree hf).2 (hsub hheap)
  have htaken : (A ∪ block g order) \ A = block g order := by
    rw [Set.union_sdiff_left]
    exact (Set.disjoint_left.mpr fun f hf hA => (hfree hf).2 hA).sdiff_eq_left
  have hwrites : WritesOnly (block g order) k k' := by
    refine .of_sameOutside (g := g) ?_ (base_mem_block g _)
    exact (putLargeHeader_sameOutside { k with buddy := s' } (g * buddyPageSize)
      (largePages size)).mono (Nat.le_refl _) (by simp only [largeHeaderSize, buddyPageSize]; omega)
  -- the two fields that `kfree` reads are the ones just written
  have hok : LargeOk offset k' o := by
    refine ⟨hlarge, hsize, ?_, hpages, ?_, ?_, ?_, ?_, ?_⟩ <;> rw [hblock]
    · exact ⟨hpos, rfl⟩
    · exact rfl
    · exact hvirt
    · exact (newlyAllocated_eq hr hr').trans htaken
    · rw [hk', Kernel.putLargeHeader, Block.addr,
        Kernel.field_putField_of_apart _ _ _ (by decide)]
      exact Kernel.field_putField_self _ _ _ (by decide)
    · rw [hk', Kernel.putLargeHeader, Block.addr]
      exact Kernel.field_putField_self _ _ _ (Nat.lt_of_le_of_lt hpages (by decide))
  have hperm : (heapBlocks offset (o :: live) slabs).Perm
      (⟨g, order⟩ :: heapBlocks offset live slabs) := by
    rw [heapBlocks, List.map_cons, hblock]
    exact List.Perm.refl _
  have hlive : ∀ o' ∈ o :: live, o' ∈ live ∨ LargeOk offset k' o' := by
    intro o' ho'
    rcases List.mem_cons.mp ho' with rfl | ho'
    · exact Or.inr hok
    · exact Or.inl ho'
  have hcaches : CachesOk k'.heapCaches slabs := h.caches
  obtain ⟨hpart, hframes⟩ := h.cons hperm hdvd hnew hcaches (fun s hs => Or.inl hs) hlive
    hwrites hnew
  refine ⟨hpart, hr', Set.subset_union_left, ?_, ?_⟩
  · rw [htaken]
    exact hframes
  · rw [htaken]
    exact hwrites

include hoff hpage in
/-- **A request ends.** It takes free frames only, and writes only to these. It returns `NULL` and
leaves the regions as they are, or it makes a new region of frames that were free. -/
theorem kmalloc (h : HeapPart offset k live slabs) (h0 : 0 ∉ U) (hr : Represents U A ∅ k.buddy fl)
    (hsub : heapFrames offset live slabs ⊆ A) (hsize : size < 2 ^ 64) :
    (∃ k' slabs' A' fl', Yoix.kmalloc (some offset) k size = .ok (0, k') ∧
      HeapTakes offset U A A' fl' k k' live live slabs slabs') ∨
    ∃ p k' A' fl', p ≠ 0 ∧ Yoix.kmalloc (some offset) k size = .ok (p, k') ∧
      HeapTakes offset U A A' fl' k k' live
        (⟨p, size, newlyAllocated k.buddy k'.buddy⟩ :: live) slabs slabs := by
  by_cases hpos : size = 0
  · exact Or.inl ⟨k, slabs, A, fl, by simp only [Yoix.kmalloc, if_pos hpos], .nothing h hr⟩
  cases hindex : heapCacheIndex size with
  | some index => exact Or.inl (h.kmalloc_small hoff hpage h0 hr hsub hpos hindex)
  | none =>
    have hlarge := (heapCacheIndex_eq_none_iff size).mp hindex
    rcases hr.alloc_cases (largePages size) with
      hnone | ⟨g, s', fl', hn, hle, hsome, hdvd, hfree, hr'⟩
    · refine Or.inl ⟨k, slabs, A, fl, ?_, .nothing h hr⟩
      simp only [Yoix.kmalloc, if_neg hpos, hindex, hnone, ok_bind, if_true]
    · have hg : g < buddyMaxPages := hr.usable_lt (hfree (base_mem_block g _)).1
      by_cases hvirt : phyToVirt (some offset) (g * buddyPageSize) = 0
      · obtain ⟨s'', fl'', hback, hr''⟩ := Represents.giveBack h0 hn hdvd hfree hr'
        refine Or.inl ⟨{ k with buddy := s'' }, slabs, A, fl'', ?_, .nothing h hr''⟩
        simp only [Yoix.kmalloc, if_neg hpos, hindex, hsome, ok_bind, if_neg (addr_ne_invalid hg),
          hvirt, if_true, hback]
      · refine Or.inr ⟨_, _, _, fl', ?_, kmalloc_of_alloc hoff hpage hlarge hle hg hsome hvirt,
          h.addLarge hoff hr hsub hlarge hsize hn hle hdvd hfree hr' hvirt⟩
        simp only [largeHeaderSize]
        omega

/-! ## Frees and stores

A free gives the frames of the region back and writes nothing. A store into a region changes no
header. -/

include hoff hpage in
/-- `kfree` of a live pointer finds its header and gives back exactly the frames that were taken for
it. It writes to no byte of memory. -/
theorem kfree {before after : List LiveObject} {o : LiveObject}
    (h : HeapPart offset k (before ++ o :: after) slabs) (h0 : 0 ∉ U)
    (hr : Represents U A ∅ k.buddy fl)
    (hsub : heapFrames offset (before ++ o :: after) slabs ⊆ A) :
    ∃ s' fl', Yoix.kfree (some offset) k o.ptr = .ok { k with buddy := s' } ∧
      Represents U (A \ o.taken) ∅ s' fl' ∧
      HeapPart offset { k with buddy := s' } (before ++ after) slabs ∧
      heapFrames offset (before ++ after) slabs
        = heapFrames offset (before ++ o :: after) slabs \ o.taken := by
  have ho : o ∈ before ++ o :: after := List.mem_append_right _ List.mem_cons_self
  obtain ⟨-, -, hnamed, -, hptr, hvalid, htaken, hmagic, hcount⟩ := h.large o ho
  have hmem : o.block offset ∈ heapBlocks offset (before ++ o :: after) slabs :=
    HeapInv.block_mem ho
  have hin : (o.block offset).frames ⊆ A := fun f hf => hsub (mem_heapFrames hmem hf)
  have hframe : (o.block offset).frame ≠ 0 := fun heq =>
    h0 (heq ▸ hr.alloc_sub (hin (base_mem_block _ _)))
  have hlt : (o.block offset).addr < 2 ^ 52 := pageAddr_lt (frame_lt hr hsub hmem)
  have haligned : buddyPageSize ∣ (o.block offset).addr := Nat.dvd_mul_left _ _
  obtain ⟨s', hfree, hback⟩ := hr.freePages hframe hnamed.1
    (by rw [hnamed.2]; exact h.aligned _ hmem) (by rw [hnamed.2]; exact hin)
  rw [hnamed.2] at hback
  have hperm := heapBlocks_perm offset before after o slabs
  -- the blocks of the heap are pairwise disjoint in any order, so the freed one may stand in front
  obtain ⟨hapart, hpair⟩ := List.pairwise_cons.mp (pairwise_disjoint_perm hperm h.disjoint)
  have hkeep : ∀ b ∈ heapBlocks offset (before ++ after) slabs,
      b ∈ heapBlocks offset (before ++ o :: after) slabs := fun b hb =>
    hperm.mem_iff.mpr (List.mem_cons_of_mem _ hb)
  have hlive : ∀ o' ∈ before ++ after, o' ∈ before ++ o :: after := fun o' ho' => by
    rcases List.mem_append.mp ho' with hb | ha
    · exact List.mem_append_left _ hb
    · exact List.mem_append_right _ (List.mem_cons_of_mem _ ha)
  refine ⟨s', _, ?_, by rw [htaken]; exact hback,
    ⟨fun b hb => h.aligned b (hkeep b hb), hpair, h.caches,
      fun s hs => ⟨(h.slab s hs).1.congr fun _ _ _ => rfl, (h.slab s hs).2⟩,
      fun o' ho' => (h.large o' (hlive o' ho')).congr fun _ _ _ => rfl⟩, ?_⟩
  · have hsmall : k.field (o.block offset).addr HeapSlabPage.magic = heapMagicLarge := hmagic
    rw [kfree_page hoff hpage haligned hlt hvalid k (by omega) (by
        simp only [largeHeaderSize, buddyPageSize] at *; omega), hsmall, hmagic,
      if_neg (by decide), if_pos rfl]
    -- the header of the region holds the page count of the allocation
    simp (disch := decide) only [heapFreeLarge, Kernel.getField_page hoff hlt, hmagic, ok_bind,
      hcount]
    show (buddyFreePages k.buddy (o.block offset).addr (largePages o.size) >>= _) = _
    rw [Block.addr, hfree, ok_bind]
  · rw [heapFrames, heapFrames, framesOf_perm hperm, framesOf_cons, Set.union_sdiff_distrib, htaken,
      Set.sdiff_self, Set.union_empty]
    refine ((Set.disjoint_left.mpr fun f hf hb => ?_).sdiff_eq_left).symm
    obtain ⟨b, hbmem, hfb⟩ := hf
    exact Set.disjoint_left.mp (hapart b hbmem) hb hfb

theorem blocks_apart (h : HeapPart offset k live slabs) {b c : Block}
    (hb : b ∈ heapBlocks offset live slabs) (hc : c ∈ heapBlocks offset live slabs) (hne : b ≠ c) :
    b.frame + 2 ^ b.order ≤ c.frame ∨ c.frame + 2 ^ c.order ≤ b.frame := by
  have : Std.Symm fun b c : Block => Disjoint b.frames c.frames := ⟨fun _ _ hd => hd.symm⟩
  exact block_apart (h.disjoint.forall hb hc hne)

/-- A live region and a slab lie one after the other. -/
theorem slab_apart (h : HeapPart offset k live slabs) {o : LiveObject} {s : Slab}
    (ho : o ∈ live) (hs : s ∈ slabs) :
    (o.block offset).frame + 2 ^ (o.block offset).order ≤ s.frame ∨
      s.frame + 1 ≤ (o.block offset).frame :=
  block_apart ((List.pairwise_append.mp h.disjoint).2.2 _ (List.mem_map_of_mem ho) _
    (List.mem_map_of_mem hs))

/-- Bytes behind the header of a live block may change. -/
theorem congr_region (h : HeapPart offset k live slabs) {o : LiveObject} (ho : o ∈ live)
    {phys bytes : Nat} {m : Nat → UInt8} (hsame : SameOutside m k.mem phys bytes)
    (hlo : (o.block offset).addr + largeHeaderSize ≤ phys)
    (hhi : phys + bytes
      ≤ ((o.block offset).frame + 2 ^ (o.block offset).order) * buddyPageSize) :
    HeapPart offset { k with mem := m } live slabs := by
  refine ⟨h.aligned, h.disjoint, h.caches, fun s hs => ?_, fun o' ho' => ?_⟩
  · refine ⟨(h.slab s hs).1.congr (hsame.sameAt ?_), (h.slab s hs).2⟩
    have hapart := h.slab_apart ho hs
    simp only [Slab.phys, Block.addr, slabHeaderSize, largeHeaderSize, buddyPageSize] at *
    omega
  · refine (h.large o' ho').congr (hsame.sameAt ?_)
    by_cases heq : o'.block offset = o.block offset
    · rw [heq]
      exact Or.inl hlo
    · have hapart := h.blocks_apart (HeapInv.block_mem ho') (HeapInv.block_mem ho) heq
      have hpow := Nat.two_pow_pos (o'.block offset).order
      simp only [Block.addr, largeHeaderSize, buddyPageSize] at *
      omega

include hoff in
/-- Where the bytes of a live region lie: behind the header of its block. -/
theorem region_phys (h : HeapPart offset k live slabs) (hr : Represents U A ∅ k.buddy fl)
    (hsub : heapFrames offset live slabs ⊆ A) {o : LiveObject} (ho : o ∈ live)
    (hsize : o.size ≤ 2 ^ 64 - 9) {a bytes : Nat} (hlo : o.ptr ≤ a)
    (hhi : a + bytes ≤ o.ptr + o.size) :
    ∃ phys, translate (some offset) a = .ok phys ∧
      (o.block offset).addr + largeHeaderSize ≤ phys ∧
      phys + bytes ≤ ((o.block offset).frame + 2 ^ (o.block offset).order) * buddyPageSize := by
  have hfits := HeapInv.region_fits (h.large o ho) hsize
  have hmem : o.block offset ∈ heapBlocks offset live slabs := HeapInv.block_mem ho
  have hend := hr.block_end_le (f := (o.block offset).frame) (k := (o.block offset).order)
    fun f hf => hr.alloc_sub (hsub (mem_heapFrames hmem hf))
  obtain ⟨d, rfl⟩ := Nat.exists_eq_add_of_le hlo
  have hlast : (o.block offset).addr + (largeHeaderSize + d) + bytes
      ≤ ((o.block offset).frame + 2 ^ (o.block offset).order) * buddyPageSize := by
    rw [Block.addr, Nat.add_mul, Nat.add_assoc]
    refine Nat.add_le_add_left (Nat.le_trans ?_ hfits) _
    omega
  refine ⟨(o.block offset).addr + (largeHeaderSize + d), ?_, by omega, hlast⟩
  rw [(h.large o ho).ptr, Nat.add_assoc]
  refine translate_phyToVirt hoff ?_
  have htop := Nat.mul_le_mul_right buddyPageSize hend
  simp only [buddyMaxPages, buddyMaxPhys, buddyPageSize] at *
  omega

/-- A byte behind the header of a region lies in one of the frames that the region has taken. -/
theorem frame_of_region (h : HeapPart offset k live slabs) {o : LiveObject} (ho : o ∈ live)
    {x : Nat} (hlo : (o.block offset).addr + largeHeaderSize ≤ x)
    (hhi : x < ((o.block offset).frame + 2 ^ (o.block offset).order) * buddyPageSize) :
    x / buddyPageSize ∈ o.taken := by
  rw [(h.large o ho).taken]
  refine mem_block.mpr ?_
  simp only [Block.addr, buddyPageSize] at *
  omega

include hoff in
/-- A client's store to its own region ends, changes bytes of its own block only, and no header. -/
theorem store (h : HeapPart offset k live slabs) (hr : Represents U A ∅ k.buddy fl)
    (hsub : heapFrames offset live slabs ⊆ A) {o : LiveObject} (ho : o ∈ live)
    (hsize : o.size ≤ 2 ^ 64 - 9) {a bytes : Nat} (value : Nat) (hlo : o.ptr ≤ a)
    (hhi : a + bytes ≤ o.ptr + o.size) :
    ∃ m, k.store (some offset) a bytes value = .ok { k with mem := m } ∧
      HeapPart offset { k with mem := m } live slabs ∧ WritesOnly o.taken k { k with mem := m } := by
  obtain ⟨phys, htrans, hfirst, hlast⟩ := h.region_phys hoff hr hsub ho hsize hlo hhi
  refine ⟨writeLE k.mem phys bytes value, by rw [Kernel.store, htrans, ok_bind],
    h.congr_region ho (sameOutside_writeLE _ _ _ _) hfirst hlast, fun x hx => ?_⟩
  have hrange : phys ≤ x ∧ x < phys + bytes := by
    by_contra hout
    exact hx (writeLE_of_notMem (by omega))
  exact h.frame_of_region ho (by omega) (by omega)

end HeapPart

end

end Yoix
