import Yoix.Buddy.Run
import Yoix.Heap.Header
import Mathlib.Data.List.Pairwise

/-!
# Runs of the heap

A run starts with `buddy_init` and `heap_init` on arbitrary memory and continues with
`kmalloc`, `kfree` of live pointers, and writes of the clients to their own regions. The ghost
list `live` records each pointer with the size that was asked for and the frames that changed
to allocated when it was handed out.

`HeapInv` ties the three layers together. The allocated frames are those of the live large
blocks and of the slabs; every large block still has its header; every cache has at most one
slab, and nothing has been taken from it. The last part is a consequence of `object_index`,
which rejects the first object of every slab (`objectIndex_aligned`).
-/

namespace Yoix

open Memory Dyadic

/-! ## Runs

The live objects of a heap are recorded beside its state, each with the frames that its request took
from the page allocator. -/

/-- The frames that changed to allocated between two states of the page allocator. -/
def newlyAllocated (s s' : Buddy) : Set Nat :=
  { f | s'.pageState f = pageStateAllocated ∧ s.pageState f ≠ pageStateAllocated }

/-- What a client got from `kmalloc`. -/
structure LiveObject where
  ptr : Nat
  size : Nat
  taken : Set Nat

/-- The addresses the client may use. -/
def LiveObject.region (o : LiveObject) : Set Nat := Set.Ico o.ptr (o.ptr + o.size)

/-- The runs of the heap with requests of at most `limit` bytes. A client writes only inside a
region that its own arithmetic can describe, that is, one of at most `2 ^ 64 - 9` bytes. -/
inductive HeapRun (response : Option MemmapResponse) (offset limit : Nat) :
    Kernel → List LiveObject → Prop where
  | init {k : Kernel} {s : Buddy} (h : buddyInit response = .ok s) :
      HeapRun response offset limit (heapInit { k with buddy := s }) []
  | kmalloc {k k' : Kernel} {live : List LiveObject} {size p : Nat}
      (run : HeapRun response offset limit k live) (hsize : size ≤ limit)
      (h : kmalloc (some offset) k size = .ok (p, k')) (hp : p ≠ 0) :
      HeapRun response offset limit k' (⟨p, size, newlyAllocated k.buddy k'.buddy⟩ :: live)
  | kmallocNull {k k' : Kernel} {live : List LiveObject} {size : Nat}
      (run : HeapRun response offset limit k live) (hsize : size ≤ limit)
      (h : kmalloc (some offset) k size = .ok (0, k')) : HeapRun response offset limit k' live
  | kfree {k k' : Kernel} {before after : List LiveObject} {o : LiveObject}
      (run : HeapRun response offset limit k (before ++ o :: after))
      (h : kfree (some offset) k o.ptr = .ok k') :
      HeapRun response offset limit k' (before ++ after)
  | write {k k' : Kernel} {live : List LiveObject} {o : LiveObject} {a bytes value : Nat}
      (run : HeapRun response offset limit k live) (ho : o ∈ live) (hsize : o.size ≤ 2 ^ 64 - 9)
      (hlo : o.ptr ≤ a) (hhi : a + bytes ≤ o.ptr + o.size)
      (h : k.store (some offset) a bytes value = .ok k') : HeapRun response offset limit k' live

/-! ## The invariant

The page allocator represents the blocks of the large objects and of the slabs; the headers of both
are what they were when written; and each slab is a new one whose objects are all free, as no small
request succeeds. -/

/-- The block behind a pointer to a large region. -/
def LiveObject.block (offset : Nat) (o : LiveObject) : Block :=
  ⟨(o.ptr + (2 ^ 64 - offset)) % 2 ^ 64 / buddyPageSize, buddyOrderFromPages (largePages o.size)⟩

/-- A slab of a size class. -/
structure Slab where
  index : Nat
  frame : Nat

namespace Slab

def phys (s : Slab) : Nat := s.frame * buddyPageSize

def objectSize (s : Slab) : Nat := heapCacheSizes.getD s.index 0

def block (s : Slab) : Block := ⟨s.frame, 0⟩

@[simp] theorem block_addr (s : Slab) : s.block.addr = s.phys := rfl

end Slab

/-- A live large region: its block starts with the header that `kfree` will look for. -/
structure LargeOk (offset : Nat) (k : Kernel) (o : LiveObject) : Prop where
  large : 2048 < o.size
  size_lt : o.size < 2 ^ 64
  named : (o.block offset).Named (largePages o.size)
  pages_le : largePages o.size ≤ 2 ^ buddyMaxOrder
  ptr : o.ptr = phyToVirt (some offset) (o.block offset).addr + largeHeaderSize
  valid : phyToVirt (some offset) (o.block offset).addr ≠ 0
  taken : o.taken = (o.block offset).frames
  magic : k.field (o.block offset).addr HeapLargeHeader.magic = heapMagicLarge
  pageCount : k.field (o.block offset).addr HeapLargeHeader.pageCount = largePages o.size

/-- The caches keep their sizes, and their lists are the slabs, one for each class at most. -/
structure CachesOk (caches : Nat → HeapCache) (slabs : List Slab) : Prop where
  size : ∀ i < heapCacheClassCount, (caches i).objectSize = heapCacheSizes.getD i 0
  empty_or : ∀ i < heapCacheClassCount, (caches i).partialPages = 0 ∨ ∃ s ∈ slabs, s.index = i
  slab : ∀ s ∈ slabs, s.index < heapCacheClassCount ∧ (caches s.index).partialPages = s.phys

/-- The blocks the heap holds. -/
def heapBlocks (offset : Nat) (live : List LiveObject) (slabs : List Slab) : List Block :=
  live.map (LiveObject.block offset) ++ slabs.map Slab.block

theorem heapBlocks_perm (offset : Nat) (before after : List LiveObject) (o : LiveObject)
    (slabs : List Slab) : (heapBlocks offset (before ++ o :: after) slabs).Perm
      (o.block offset :: heapBlocks offset (before ++ after) slabs) := by
  simp only [heapBlocks, List.map_append, List.map_cons, List.append_assoc, List.cons_append]
  exact List.perm_middle

structure HeapInv (U : Set Nat) (offset : Nat) (k : Kernel) (live : List LiveObject)
    (slabs : List Slab) (fl : FreeLists) : Prop where
  buddy : LiveInv U k.buddy (heapBlocks offset live slabs) fl
  caches : CachesOk k.heapCaches slabs
  slab : ∀ s ∈ slabs, FreshHeader offset k s.phys s.objectSize ∧ phyToVirt (some offset) s.phys ≠ 0
  large : ∀ o ∈ live, LargeOk offset k o

/-! ## What the invariant depends on

Only the headers of the heap, so that writes into the regions of live objects keep it. -/

/-- The frames that one call has taken are those of the block that became live. -/
theorem newlyAllocated_cons {U : Set Nat} {s s' : Buddy} {live : List Block} {fl fl' : FreeLists}
    {b : Block} (h : LiveInv U s live fl) (h' : LiveInv U s' (b :: live) fl') :
    newlyAllocated s s' = b.frames := by
  obtain ⟨hapart, -⟩ := List.pairwise_cons.mp h'.disjoint
  ext f
  rw [newlyAllocated, Set.mem_ofPred_eq, ne_eq, h.state_allocated_iff, h'.state_allocated_iff,
    framesOf_cons, Set.mem_union]
  constructor
  · rintro ⟨hf | hf, hout⟩
    · exact absurd hf hout
    · exact hf
  · exact fun hf => ⟨Or.inr hf, fun ⟨c, hc, hfc⟩ => Set.disjoint_left.mp (hapart c hc) hf hfc⟩

theorem LargeOk.congr {offset : Nat} {k k' : Kernel} {o : LiveObject} (h : LargeOk offset k o)
    (hsame : SameAt k'.mem k.mem (o.block offset).addr largeHeaderSize) : LargeOk offset k' o :=
  { h with
    magic := (Kernel.field_eq_of_sameAt hsame (by decide)).trans h.magic
    pageCount := (Kernel.field_eq_of_sameAt hsame (by decide)).trans h.pageCount }

namespace HeapInv

variable {U : Set Nat} {offset : Nat} {k : Kernel} {live : List LiveObject}
  {slabs : List Slab} {fl fl' : FreeLists}

theorem block_mem {o : LiveObject} (ho : o ∈ live) :
    o.block offset ∈ heapBlocks offset live slabs :=
  List.mem_append_left _ (List.mem_map_of_mem ho)

theorem slab_mem {s : Slab} (hs : s ∈ slabs) :
    s.block ∈ heapBlocks offset live slabs :=
  List.mem_append_right _ (List.mem_map_of_mem hs)

theorem base_usable (h : HeapInv U offset k live slabs fl) {b : Block}
    (hb : b ∈ heapBlocks offset live slabs) : b.frame ∈ U :=
  h.buddy.frames_sub hb (base_mem_block _ _)

theorem addr_lt (h : HeapInv U offset k live slabs fl) {b : Block}
    (hb : b ∈ heapBlocks offset live slabs) : b.addr < buddyMaxPhys := by
  have hlt := h.buddy.repr.usable_lt (h.base_usable hb)
  simp only [Block.addr, buddyMaxPages, buddyMaxPhys, buddyPageSize] at *
  omega

/-- Of the memory, only the bytes of the headers matter. -/
theorem congr_mem (h : HeapInv U offset k live slabs fl) {m : Nat → UInt8}
    (hslab : ∀ s ∈ slabs, SameAt m k.mem s.phys slabHeaderSize)
    (hlarge : ∀ o ∈ live, SameAt m k.mem (o.block offset).addr largeHeaderSize) :
    HeapInv U offset { k with mem := m } live slabs fl where
  buddy := h.buddy
  caches := h.caches
  slab s hs := ⟨(h.slab s hs).1.congr (hslab s hs), (h.slab s hs).2⟩
  large o ho := (h.large o ho).congr (hlarge o ho)

theorem drop (h : HeapInv U offset k live slabs fl) {live' : List LiveObject} {s' : Buddy}
    (hbuddy : LiveInv U s' (heapBlocks offset live' slabs) fl')
    (hsub : ∀ o ∈ live', o ∈ live) : HeapInv U offset { k with buddy := s' } live' slabs fl' where
  buddy := hbuddy
  caches := h.caches
  slab s hs := ⟨(h.slab s hs).1.congr fun _ _ _ => rfl, (h.slab s hs).2⟩
  large o ho := (h.large o (hsub o ho)).congr fun _ _ _ => rfl

/-- Two blocks of the heap lie one after the other. -/
theorem blocks_apart (h : HeapInv U offset k live slabs fl) {b c : Block}
    (hb : b ∈ heapBlocks offset live slabs) (hc : c ∈ heapBlocks offset live slabs) (hne : b ≠ c) :
    b.frame + 2 ^ b.order ≤ c.frame ∨ c.frame + 2 ^ c.order ≤ b.frame := by
  have : Std.Symm fun b c : Block => Disjoint b.frames c.frames := ⟨fun _ _ hd => hd.symm⟩
  exact block_apart (h.buddy.disjoint.forall hb hc hne)

/-- No live region shares a block with a slab. -/
theorem slab_apart (h : HeapInv U offset k live slabs fl) {o : LiveObject} {s : Slab}
    (ho : o ∈ live) (hs : s ∈ slabs) :
    (o.block offset).frame + 2 ^ (o.block offset).order ≤ s.frame ∨
      s.frame + 1 ≤ (o.block offset).frame :=
  block_apart ((List.pairwise_append.mp h.buddy.disjoint).2.2 _ (List.mem_map_of_mem ho) _
    (List.mem_map_of_mem hs))

/-- A change inside a page that the heap does not hold touches no header. -/
theorem headers_same {m m' : Nat → UInt8} {g : Nat}
    (hg : g ∉ framesOf (heapBlocks offset live slabs))
    (hsame : SameOutside m' m (g * buddyPageSize) buddyPageSize) :
    (∀ s ∈ slabs, SameAt m' m s.phys slabHeaderSize) ∧
      ∀ o ∈ live, SameAt m' m (o.block offset).addr largeHeaderSize := by
  have hne : ∀ b ∈ heapBlocks offset live slabs, b.frame ≠ g := fun b hb heq =>
    hg ⟨b, hb, heq ▸ base_mem_block _ _⟩
  have hpage : ∀ {f n : Nat}, f ≠ g → n ≤ buddyPageSize →
      SameAt m' m (f * buddyPageSize) n := fun hf hn => by
    refine hsame.sameAt ?_
    simp only [buddyPageSize] at *
    omega
  exact ⟨fun s hs => hpage (hne s.block (slab_mem hs)) (by decide),
    fun o ho => hpage (hne (o.block offset) (block_mem ho)) (by decide)⟩

end HeapInv

/-! ## Small requests

Every small request ends without an object: the first object of a slab is at a multiple of the
object size, which the index function takes for no object. -/

section Small

variable {offset phys size : Nat} (hoff : offset < 2 ^ 64) (hpage : buddyPageSize ∣ offset)

include hoff in
/-- `object_index` rejects every address at a multiple of the object size. -/
theorem objectIndex_aligned {k : Kernel} (ptr : Nat) (hphys : phys < 2 ^ 52)
    (hsize : k.field phys HeapSlabPage.objectSize = size) (hpos : size ≠ 0)
    (hdvd : (ptr - (phyToVirt (some offset) phys + slabHeaderSize) % 2 ^ 64) % size = 0) :
    objectIndex (some offset) k ptr (phyToVirt (some offset) phys) (phyToVirt (some offset) phys)
      = .ok none := by
  simp only [objectIndex]
  split
  · rfl
  · rw [Kernel.getField_page hoff hphys k (by decide), hsize]
    simp only [ok_bind, if_neg hpos, hdvd, if_true]

include hoff hpage in
/-- The first object of a fresh slab is rejected, so nothing is taken from it. -/
theorem takeFirstObject_fresh {k : Kernel} {index : Nat} (hphys : buddyPageSize ∣ phys)
    (hlt : phys < 2 ^ 52) (hslab : (k.heapCaches index).partialPages = phys)
    (hfresh : FreshHeader offset k phys size) (hpos : size ≠ 0) :
    takeFirstObject (some offset) k index = .ok (0, k) := by
  obtain ⟨-, hvirt⟩ := phyToVirt_page_le hpage hphys
  have hlist : k.getField (some offset) (phyToVirt (some offset) phys) HeapSlabPage.freeList
      = .ok (phyToVirt (some offset) phys + slabHeaderSize) := by
    rw [Kernel.getField_page hoff hlt k (by decide), hfresh.freeList]
  have hbuffer : (phyToVirt (some offset) phys + slabHeaderSize) % 2 ^ 64
      = phyToVirt (some offset) phys + slabHeaderSize :=
    Nat.mod_eq_of_lt (by simp only [buddyPageSize, slabHeaderSize] at *; omega)
  have hreject := objectIndex_aligned hoff (phyToVirt (some offset) phys + slabHeaderSize) hlt
    hfresh.objectSize hpos (by rw [hbuffer, Nat.sub_self, Nat.zero_mod])
  have hne : ¬ phyToVirt (some offset) phys + slabHeaderSize = 0 := by
    simp only [slabHeaderSize]
    omega
  unfold takeFirstObject
  simp only [hslab, hlist, ok_bind, if_neg hne, hreject]
  split <;> rfl

/-- A class without a slab gets one, which is then the whole list of its class. -/
theorem CachesOk.add {k : Kernel} {slabs : List Slab} (h : CachesOk k.heapCaches slabs)
    {index g : Nat} (hindex : index < heapCacheClassCount) (hother : ∀ s ∈ slabs, s.index ≠ index) :
    CachesOk (k.setPartialPages index (g * buddyPageSize)).heapCaches (⟨index, g⟩ :: slabs) := by
  refine ⟨fun i hi => ?_, fun i hi => ?_, fun s hs => ?_⟩
  · have hkeep := h.size i hi
    by_cases heq : i = index
    · subst heq
      simpa only [Kernel.setPartialPages, Function.update_self] using hkeep
    · simpa only [Kernel.setPartialPages, Function.update_of_ne heq] using hkeep
  · by_cases heq : i = index
    · exact Or.inr ⟨_, List.mem_cons_self, heq.symm⟩
    · simp only [Kernel.setPartialPages, Function.update_of_ne heq]
      rcases h.empty_or i hi with hnil | ⟨s, hs, hsi⟩
      · exact Or.inl hnil
      · exact Or.inr ⟨s, List.mem_cons_of_mem _ hs, hsi⟩
  · rcases List.mem_cons.mp hs with rfl | hs
    · refine ⟨hindex, ?_⟩
      simp only [Kernel.setPartialPages, Function.update_self, Slab.phys]
    · obtain ⟨hlt, hphys⟩ := h.slab s hs
      refine ⟨hlt, ?_⟩
      simpa only [Kernel.setPartialPages, Function.update_of_ne (hother s hs)] using hphys

namespace HeapInv

variable {U : Set Nat} {k : Kernel} {live : List LiveObject} {slabs : List Slab} {fl : FreeLists}

/-- A new slab: its page is formatted and put into the empty cache. -/
theorem addSlab (h : HeapInv U offset k live slabs fl) (h0 : 0 ∉ U) {s' : Buddy}
    {fl' : FreeLists} {m : Nat → UInt8} {index g : Nat} (hindex : index < heapCacheClassCount)
    (hempty : (k.heapCaches index).partialPages = 0)
    (hinv : LiveInv U s' (⟨g, 0⟩ :: heapBlocks offset live slabs) fl')
    (hsame : SameOutside m k.mem (g * buddyPageSize) buddyPageSize)
    (hfresh : FreshHeader offset { k with buddy := s', mem := m } (g * buddyPageSize)
      (heapCacheSizes.getD index 0))
    (hvirt : phyToVirt (some offset) (g * buddyPageSize) ≠ 0) :
    HeapInv U offset (({ k with buddy := s', mem := m } : Kernel).setPartialPages index
      (g * buddyPageSize)) live (⟨index, g⟩ :: slabs) fl' := by
  obtain ⟨hapart, -⟩ := List.pairwise_cons.mp hinv.disjoint
  have hg : g ∉ framesOf (heapBlocks offset live slabs) := fun ⟨b, hb, hgb⟩ =>
    Set.disjoint_left.mp (hapart b hb) (base_mem_block g 0) hgb
  obtain ⟨hslabs, hlarge⟩ := headers_same hg hsame
  -- the class had no slab
  have hother : ∀ s ∈ slabs, s.index ≠ index := by
    rintro s hs rfl
    have hphys := (h.caches.slab s hs).2
    rw [hempty, Slab.phys] at hphys
    have hframe : s.frame = 0 := by
      simp only [buddyPageSize] at hphys
      omega
    exact h0 (hframe ▸ h.base_usable (slab_mem hs))
  refine ⟨hinv.perm List.perm_middle.symm, CachesOk.add h.caches hindex hother,
    fun s hs => ?_, fun o ho => (h.large o ho).congr (hlarge o ho)⟩
  rcases List.mem_cons.mp hs with rfl | hs
  · exact ⟨hfresh.congr fun _ _ _ => rfl, hvirt⟩
  · exact ⟨(h.slab s hs).1.congr (hslabs s hs), (h.slab s hs).2⟩

include hoff hpage in
/-- Nothing is taken from a class that has a slab. -/
theorem takeFirstObject_slab (h : HeapInv U offset k live slabs fl) {s : Slab} (hs : s ∈ slabs) :
    takeFirstObject (some offset) k s.index = .ok (0, k) := by
  obtain ⟨hlt, hphys⟩ := h.caches.slab s hs
  obtain ⟨hmin, -⟩ := heapCacheSizes_bounds hlt
  have haddr := h.addr_lt (slab_mem hs)
  simp only [Slab.block, Block.addr, buddyMaxPhys] at haddr
  refine takeFirstObject_fresh hoff hpage (Nat.dvd_mul_left _ _) ?_ hphys (h.slab s hs).1 ?_
  · omega
  · rw [Slab.objectSize]
    omega

include hoff hpage in
/-- **A small request always returns `NULL`.** It changes nothing when the class already has a
slab or the page allocator has no page, and otherwise may leave a new slab in the cache. -/
theorem kmalloc_small (h : HeapInv U offset k live slabs fl) (h0 : 0 ∉ U) {index : Nat}
    (hpos : size ≠ 0) (hindex : heapCacheIndex size = some index) :
    ∃ k' slabs' fl', kmalloc (some offset) k size = .ok (0, k') ∧
      HeapInv U offset k' live slabs' fl' ∧
      ((k.heapCaches index).partialPages ≠ 0 ∨
        buddyAllocPage k.buddy = .ok (buddyInvalidAddress, k.buddy) → k' = k) := by
  have hlt := heapCacheIndex_lt hindex
  obtain ⟨hmin, hmax⟩ := heapCacheSizes_bounds hlt
  have hcall : kmalloc (some offset) k size = heapAllocFromCache (some offset) k index := by
    simp only [kmalloc, if_neg hpos, hindex]
  rw [hcall]
  by_cases hlist : (k.heapCaches index).partialPages = 0
  · rcases h.buddy.alloc 1 with hnone | ⟨g, fl', s', -, -, -, hsome, hg, hinv⟩
    · -- no page is left
      refine ⟨k, slabs, fl, ?_, h, fun _ => rfl⟩
      simp only [heapAllocFromCache, hlist, if_true, heapAllocSlabPage, buddyAllocPage, hnone,
        ok_bind]
    · have hvalid := addr_ne_invalid hg
      have hg0 : g ≠ 0 := fun heq =>
        h0 (heq ▸ hinv.frames_sub List.mem_cons_self (base_mem_block _ _))
      -- a page was found for an empty class, so the last part says nothing
      have hcontra : ¬ ((k.heapCaches index).partialPages ≠ 0 ∨
          buddyAllocPage k.buddy = .ok (buddyInvalidAddress, k.buddy)) := by
        rintro (hne | hfail)
        · exact hne hlist
        · exact hvalid (ok_unique_pair hsome hfail).1
      by_cases hvirt : phyToVirt (some offset) (g * buddyPageSize) = 0
      · -- the page has no address in the direct map and goes back
        obtain ⟨s'', hfree, hback⟩ := hinv.free (n := 1) List.mem_cons_self ⟨Nat.le_refl 1, rfl⟩ hg0
        rw [List.erase_cons_head] at hback
        refine ⟨{ k with buddy := s'' }, slabs, _, ?_, h.drop hback fun _ ho => ho,
          fun hc => absurd hc hcontra⟩
        simp only [Block.addr] at hfree
        simp only [heapAllocFromCache, hlist, if_true, heapAllocSlabPage, buddyAllocPage, hsome,
          ok_bind, if_neg hvalid, hvirt, buddyFreePage, hfree]
      · -- the page becomes a slab, from which nothing can be taken
        obtain ⟨m, hformat, hsame, hfresh, -⟩ := formatSlabPage_spec hoff hpage
          (Nat.dvd_mul_left buddyPageSize g) (pageAddr_lt hg) { k with buddy := s' } hmin hmax
        have hnew := h.addSlab h0 hlt hlist hinv hsame hfresh hvirt
        refine ⟨_, _, fl', ?_, hnew, fun hc => absurd hc hcontra⟩
        simp only [heapAllocFromCache, hlist, if_true, heapAllocSlabPage, buddyAllocPage, hsome,
          ok_bind, if_neg hvalid, if_neg hvirt, h.caches.size index hlt, hformat]
        exact hnew.takeFirstObject_slab hoff hpage List.mem_cons_self
  · -- the class has a slab already
    obtain ⟨s, hs, rfl⟩ := (h.caches.empty_or index hlt).resolve_left hlist
    refine ⟨k, slabs, fl, ?_, h, fun _ => rfl⟩
    rw [heapAllocFromCache, if_neg hlist]
    exact h.takeFirstObject_slab hoff hpage hs

end HeapInv

end Small

/-! ## Freeing -/

/-- `kfree` finds the page of a pointer and looks at the magic number there. -/
theorem kfree_page {offset phys ptr : Nat} (hoff : offset < 2 ^ 64)
    (hpage : buddyPageSize ∣ offset) (hphys : buddyPageSize ∣ phys) (hlt : phys < 2 ^ 52)
    (hvalid : phyToVirt (some offset) phys ≠ 0) (k : Kernel)
    (hlo : phyToVirt (some offset) phys ≤ ptr)
    (hhi : ptr < phyToVirt (some offset) phys + buddyPageSize) :
    kfree (some offset) k ptr
      = if k.field phys HeapSlabPage.magic = heapMagicSmall then
          heapFreeSmall (some offset) k ptr (phyToVirt (some offset) phys) phys
        else if k.field phys HeapLargeHeader.magic = heapMagicLarge then
          heapFreeLarge (some offset) k (phyToVirt (some offset) phys) phys
        else .ok k := by
  obtain ⟨hdvd, hend⟩ := phyToVirt_page_le hpage hphys
  have hne : ¬ ptr = 0 := by omega
  have hpageVirt : ptr &&& not64 (buddyPageSize - 1) = phyToVirt (some offset) phys := by
    have halign := buddyAlignDown_page ptr (by omega)
    rw [buddyAlignDown] at halign
    rw [halign]
    simp only [buddyPageSize] at *
    omega
  have hpagePhys : (phyToVirt (some offset) phys + (2 ^ 64 - offset)) % 2 ^ 64 = phys := by
    simp only [phyToVirt]
    omega
  simp (disch := decide) only [kfree, if_neg hne, hpageVirt, hpagePhys, if_neg hvalid,
    Kernel.getField_page hoff hlt, ok_bind]

/-! ## Large requests

A large request takes one block and writes a header in front of the region that it returns. -/

section Large

variable {U : Set Nat} {offset size : Nat} {k : Kernel} {live : List LiveObject}
  {slabs : List Slab} {fl : FreeLists} (hoff : offset < 2 ^ 64) (hpage : buddyPageSize ∣ offset)

include hoff in
/-- The frame behind the pointer that `kmalloc` makes from a page. -/
theorem frame_of_ptr {g : Nat} (hg : g < buddyMaxPages) :
    (phyToVirt (some offset) (g * buddyPageSize) + largeHeaderSize + (2 ^ 64 - offset)) % 2 ^ 64
      / buddyPageSize = g := by
  simp only [phyToVirt, buddyMaxPages, buddyMaxPhys, buddyPageSize, largeHeaderSize] at *
  omega

/-- The two words of a large header, written. -/
def Kernel.putLargeHeader (k : Kernel) (phys pages : Nat) : Kernel :=
  (k.putField phys HeapLargeHeader.magic heapMagicLarge).putField phys HeapLargeHeader.pageCount
    pages

theorem putLargeHeader_sameOutside (k : Kernel) (phys pages : Nat) :
    SameOutside (k.putLargeHeader phys pages).mem k.mem phys largeHeaderSize :=
  ((sameOutside_writeLE _ _ _ _).mono (by omega) (by
    simp only [HeapLargeHeader.pageCount, largeHeaderSize]; omega)).trans
      ((sameOutside_writeLE _ _ _ _).mono (by omega) (by
        simp only [HeapLargeHeader.magic, largeHeaderSize]; omega))

include hoff in
/-- What `kmalloc` returns, and the header it writes, when the page allocator hands out a block
with an address. The direct map need not be aligned. -/
theorem kmalloc_large_eq {s' : Buddy} {g : Nat} (hlarge : 2048 < size)
    (hpages : largePages size ≤ 2 ^ buddyMaxOrder) (hg : g < buddyMaxPages)
    (halloc : buddyAllocPages k.buddy (largePages size) = .ok (g * buddyPageSize, s'))
    (hvirt : phyToVirt (some offset) (g * buddyPageSize) ≠ 0) :
    kmalloc (some offset) k size
      = .ok ((phyToVirt (some offset) (g * buddyPageSize) + largeHeaderSize) % 2 ^ 64,
          ({ k with buddy := s' } : Kernel).putLargeHeader (g * buddyPageSize)
            (largePages size)) := by
  have hpos : ¬ size = 0 := by omega
  have hindex : heapCacheIndex size = none := (heapCacheIndex_eq_none_iff size).mpr hlarge
  have hcount : largePages size % 2 ^ 32 = largePages size :=
    Nat.mod_eq_of_lt (Nat.lt_of_le_of_lt hpages (by decide))
  simp (disch := decide) only [kmalloc, if_neg hpos, hindex, halloc, ok_bind,
    if_neg (addr_ne_invalid hg), if_neg hvirt, Kernel.setField_page hoff (pageAddr_lt hg), hcount]
  rfl

include hoff hpage in
/-- The pointer that `kmalloc` makes from a page does not wrap around. -/
theorem kmalloc_of_alloc {s' : Buddy} {g : Nat} (hlarge : 2048 < size)
    (hpages : largePages size ≤ 2 ^ buddyMaxOrder) (hg : g < buddyMaxPages)
    (halloc : buddyAllocPages k.buddy (largePages size) = .ok (g * buddyPageSize, s'))
    (hvirt : phyToVirt (some offset) (g * buddyPageSize) ≠ 0) :
    kmalloc (some offset) k size
      = .ok (phyToVirt (some offset) (g * buddyPageSize) + largeHeaderSize,
          ({ k with buddy := s' } : Kernel).putLargeHeader (g * buddyPageSize)
            (largePages size)) := by
  obtain ⟨hdvd, hend⟩ := phyToVirt_page_le hpage (Nat.dvd_mul_left buddyPageSize g)
  have hptr : (phyToVirt (some offset) (g * buddyPageSize) + largeHeaderSize) % 2 ^ 64
      = phyToVirt (some offset) (g * buddyPageSize) + largeHeaderSize :=
    Nat.mod_eq_of_lt (by simp only [largeHeaderSize, buddyPageSize] at *; omega)
  rw [kmalloc_large_eq hoff hlarge hpages hg halloc hvirt, hptr]

namespace HeapInv

include hoff in
/-- A new large block: its header is written and it becomes live. -/
theorem addLarge (h : HeapInv U offset k live slabs fl) {s' : Buddy} {fl' : FreeLists} {g : Nat}
    (hlarge : 2048 < size) (hsize : size < 2 ^ 64) (hpos : 1 ≤ largePages size)
    (hpages : largePages size ≤ 2 ^ buddyMaxOrder) (hg : g < buddyMaxPages)
    (hinv : LiveInv U s'
      (⟨g, buddyOrderFromPages (largePages size)⟩ :: heapBlocks offset live slabs)
      fl') (hvirt : phyToVirt (some offset) (g * buddyPageSize) ≠ 0) :
    HeapInv U offset (({ k with buddy := s' } : Kernel).putLargeHeader (g * buddyPageSize)
        (largePages size))
      (⟨phyToVirt (some offset) (g * buddyPageSize) + largeHeaderSize, size,
        newlyAllocated k.buddy s'⟩ :: live) slabs fl' := by
  obtain ⟨hapart, -⟩ := List.pairwise_cons.mp hinv.disjoint
  have hout : g ∉ framesOf (heapBlocks offset live slabs) := fun ⟨b, hb, hgb⟩ =>
    Set.disjoint_left.mp (hapart b hb) (base_mem_block g _) hgb
  have hsame := putLargeHeader_sameOutside { k with buddy := s' } (g * buddyPageSize)
    (largePages size)
  obtain ⟨hslabs, hlive⟩ := headers_same hout (hsame.mono (Nat.le_refl _) (by
    simp only [largeHeaderSize, buddyPageSize]; omega))
  set o : LiveObject := ⟨phyToVirt (some offset) (g * buddyPageSize) + largeHeaderSize, size,
    newlyAllocated k.buddy s'⟩ with ho
  have hblock : o.block offset = ⟨g, buddyOrderFromPages (largePages size)⟩ := by
    rw [LiveObject.block, ho, frame_of_ptr hoff hg]
  -- the two fields that `kfree` reads are the ones just written
  have hnew : LargeOk offset (({ k with buddy := s' } : Kernel).putLargeHeader
      (g * buddyPageSize) (largePages size)) o := by
    refine ⟨hlarge, hsize, ?_, hpages, ?_, ?_, ?_, ?_, ?_⟩ <;> rw [hblock]
    · exact ⟨hpos, rfl⟩
    · exact rfl
    · exact hvirt
    · exact newlyAllocated_cons h.buddy hinv
    · rw [Kernel.putLargeHeader, Block.addr, Kernel.field_putField_of_apart _ _ _ (by decide)]
      exact Kernel.field_putField_self _ _ _ (by decide)
    · rw [Kernel.putLargeHeader, Block.addr]
      exact Kernel.field_putField_self _ _ _ (Nat.lt_of_le_of_lt hpages (by decide))
  refine ⟨?_, h.caches, fun s hs => ?_, fun o' ho' => ?_⟩
  · rw [heapBlocks, List.map_cons, hblock]
    exact hinv
  · exact ⟨(h.slab s hs).1.congr (hslabs s hs), (h.slab s hs).2⟩
  · rcases List.mem_cons.mp ho' with rfl | ho'
    · exact hnew
    · exact (h.large o' ho').congr (hlive o' ho')

include hoff hpage in
/-- A large request returns `NULL` and leaves the regions as they are, or makes a new one. -/
theorem kmalloc_large (h : HeapInv U offset k live slabs fl) (h0 : 0 ∉ U) (hlarge : 2048 < size)
    (hsize : size < 2 ^ 64) :
    (∃ k' fl', kmalloc (some offset) k size = .ok (0, k') ∧
      HeapInv U offset k' live slabs fl') ∨
    ∃ p k' fl', p ≠ 0 ∧ kmalloc (some offset) k size = .ok (p, k') ∧
      HeapInv U offset k' (⟨p, size, newlyAllocated k.buddy k'.buddy⟩ :: live) slabs fl' := by
  have hpos : ¬ size = 0 := by omega
  have hindex : heapCacheIndex size = none := (heapCacheIndex_eq_none_iff size).mpr hlarge
  rcases h.buddy.alloc (largePages size) with hnone | ⟨g, fl', s', hn, hle, -, hsome, hg, hinv⟩
  · refine Or.inl ⟨k, fl, ?_, h⟩
    simp only [kmalloc, if_neg hpos, hindex, hnone, ok_bind, if_true]
  · have hvalid := addr_ne_invalid hg
    have hg0 : g ≠ 0 := fun heq =>
      h0 (heq ▸ hinv.frames_sub List.mem_cons_self (base_mem_block _ _))
    by_cases hvirt : phyToVirt (some offset) (g * buddyPageSize) = 0
    -- as for a small request, pages without an address in the direct map go back
    · obtain ⟨s'', hfree, hback⟩ :=
        hinv.free (n := largePages size) List.mem_cons_self ⟨hn, rfl⟩ hg0
      rw [List.erase_cons_head] at hback
      refine Or.inl ⟨{ k with buddy := s'' }, _, ?_, h.drop hback fun _ ho => ho⟩
      simp only [Block.addr] at hfree
      simp only [kmalloc, if_neg hpos, hindex, hsome, ok_bind, if_neg hvalid, hvirt, if_true, hfree]
    · have hnew := h.addLarge hoff hlarge hsize hn hle hg hinv hvirt
      refine Or.inr ⟨_, _, fl', ?_, kmalloc_of_alloc hoff hpage hlarge hle hg hsome hvirt, hnew⟩
      simp only [largeHeaderSize]
      omega

include hoff hpage in
/-- A request ends. It returns `NULL` and leaves the regions as they are, or it is large and
makes a new region. -/
theorem kmalloc_cases (h : HeapInv U offset k live slabs fl) (h0 : 0 ∉ U) (hsize : size < 2 ^ 64) :
    (∃ k' slabs' fl', kmalloc (some offset) k size = .ok (0, k') ∧
      HeapInv U offset k' live slabs' fl') ∨
    ∃ p k' fl', p ≠ 0 ∧ kmalloc (some offset) k size = .ok (p, k') ∧
      HeapInv U offset k' (⟨p, size, newlyAllocated k.buddy k'.buddy⟩ :: live) slabs fl' := by
  by_cases hlarge : 2048 < size
  · rcases h.kmalloc_large hoff hpage h0 hlarge hsize with ⟨k', fl', hrun, h'⟩ | hnew
    · exact Or.inl ⟨k', slabs, fl', hrun, h'⟩
    · exact Or.inr hnew
  · by_cases hpos : size = 0
    · exact Or.inl ⟨k, slabs, fl, by simp only [kmalloc, if_pos hpos], h⟩
    · obtain ⟨index, hindex⟩ := Option.ne_none_iff_exists'.mp fun hnone =>
        hlarge ((heapCacheIndex_eq_none_iff size).mp hnone)
      obtain ⟨k', slabs', fl', hrun, h', -⟩ := h.kmalloc_small hoff hpage h0 hpos hindex
      exact Or.inl ⟨k', slabs', fl', hrun, h'⟩

include hoff hpage in
/-- `kfree` of a live pointer finds its header and gives its block back. -/
theorem kfree_live {before after : List LiveObject} {o : LiveObject}
    (h : HeapInv U offset k (before ++ o :: after) slabs fl) (h0 : 0 ∉ U) :
    ∃ s' fl', kfree (some offset) k o.ptr = .ok { k with buddy := s' } ∧
      HeapInv U offset { k with buddy := s' } (before ++ after) slabs fl' := by
  have ho : o ∈ before ++ o :: after := List.mem_append_right _ List.mem_cons_self
  obtain ⟨-, -, hnamed, -, hptr, hvalid, -, hmagic, hcount⟩ := h.large o ho
  have hmem : o.block offset ∈ heapBlocks offset (before ++ o :: after) slabs := block_mem ho
  have haddr := h.addr_lt hmem
  have hframe : (o.block offset).frame ≠ 0 := fun heq => h0 (heq ▸ h.base_usable hmem)
  obtain ⟨s', hfree, hback⟩ := h.buddy.free hmem hnamed hframe
  -- one block fewer in the list
  have hperm : ((heapBlocks offset (before ++ o :: after) slabs).erase (o.block offset)).Perm
      (heapBlocks offset (before ++ after) slabs) := by
    have := (heapBlocks_perm offset before after o slabs).erase (o.block offset)
    rwa [List.erase_cons_head] at this
  set phys := (o.block offset).addr with hphys
  have haligned : buddyPageSize ∣ phys := Nat.dvd_mul_left _ _
  have hlt : phys < 2 ^ 52 := by
    simp only [buddyMaxPhys] at haddr
    omega
  have hsmall : k.field phys HeapSlabPage.magic = heapMagicLarge := hmagic
  have hsub : ∀ o' ∈ before ++ after, o' ∈ before ++ o :: after := fun o' ho' => by
    rcases List.mem_append.mp ho' with h1 | h1
    · exact List.mem_append_left _ h1
    · exact List.mem_append_right _ (List.mem_cons_of_mem _ h1)
  refine ⟨s', _, ?_, h.drop (hback.perm hperm) hsub⟩
  rw [kfree_page hoff hpage haligned hlt hvalid k (by omega) (by
      simp only [largeHeaderSize, buddyPageSize] at *; omega), hsmall, hmagic,
    if_neg (by decide), if_pos rfl]
  simp (disch := decide) only [heapFreeLarge, Kernel.getField_page hoff hlt, hmagic, ok_bind,
    hcount, hfree]
  rfl

/-- A region of at most `2 ^ 64 - 9` bytes fits into its block behind the header. -/
theorem region_fits {o : LiveObject} (h : LargeOk offset k o) (hsize : o.size ≤ 2 ^ 64 - 9) :
    largeHeaderSize + o.size ≤ 2 ^ (o.block offset).order * buddyPageSize := by
  have hpages := pages_le_two_pow_order h.pages_le
  have hpos := h.named.1
  have hround : largeHeaderSize + o.size ≤ largePages o.size * buddyPageSize := by
    simp only [largePages, largeHeaderSize, buddyPageSize] at *
    omega
  exact hround.trans (Nat.mul_le_mul_right _ hpages)

theorem block_end_le (h : HeapInv U offset k live slabs fl) {b : Block}
    (hb : b ∈ heapBlocks offset live slabs) :
    (b.frame + 2 ^ b.order) * buddyPageSize ≤ buddyMaxPhys := by
  have hend : b.frame + 2 ^ b.order ≤ buddyMaxPages :=
    h.buddy.repr.block_end_le (h.buddy.frames_sub hb)
  simp only [buddyMaxPages, buddyMaxPhys, buddyPageSize] at *
  omega

include hoff in
/-- A client's write to its own region lands behind the header of its block, inside it. -/
theorem store_live (h : HeapInv U offset k live slabs fl) {o : LiveObject} (ho : o ∈ live)
    (hsize : o.size ≤ 2 ^ 64 - 9) {a bytes : Nat} (value : Nat) (hlo : o.ptr ≤ a)
    (hhi : a + bytes ≤ o.ptr + o.size) :
    ∃ phys, k.store (some offset) a bytes value
        = .ok { k with mem := writeLE k.mem phys bytes value } ∧
      (o.block offset).addr + largeHeaderSize ≤ phys ∧
      phys + bytes ≤ ((o.block offset).frame + 2 ^ (o.block offset).order) * buddyPageSize := by
  have hfits := region_fits (h.large o ho) hsize
  have hend := h.block_end_le (block_mem ho)
  have hptr := (h.large o ho).ptr
  rw [Nat.add_mul] at hend
  obtain ⟨d, rfl⟩ := Nat.exists_eq_add_of_le hlo
  have hlast : (o.block offset).addr + (largeHeaderSize + d) + bytes
      ≤ ((o.block offset).frame + 2 ^ (o.block offset).order) * buddyPageSize := by
    rw [Block.addr, Nat.add_mul, Nat.add_assoc]
    refine Nat.add_le_add_left (Nat.le_trans ?_ hfits) _
    omega
  refine ⟨(o.block offset).addr + (largeHeaderSize + d), ?_, by omega, hlast⟩
  rw [hptr, Nat.add_assoc]
  refine k.store_phyToVirt hoff ?_ bytes value
  rw [Nat.add_mul] at hlast
  simp only [buddyMaxPhys] at hend
  omega

include hoff in
/-- A write of a client into its own region changes no header: the region's own lies in front of it,
and all others in other blocks. -/
theorem write_live (h : HeapInv U offset k live slabs fl) {o : LiveObject} (ho : o ∈ live)
    (hsize : o.size ≤ 2 ^ 64 - 9) {a bytes : Nat} (value : Nat) (hlo : o.ptr ≤ a)
    (hhi : a + bytes ≤ o.ptr + o.size) :
    ∃ m, k.store (some offset) a bytes value = .ok { k with mem := m } ∧
      (∀ s ∈ slabs, SameAt m k.mem s.phys slabHeaderSize) ∧
      (∀ o ∈ live, SameAt m k.mem (o.block offset).addr largeHeaderSize) := by
  obtain ⟨phys, hstore, hphys, hend⟩ := h.store_live hoff ho hsize value hlo hhi
  refine ⟨_, hstore, fun s hs => ?_, fun o' ho' => ?_⟩
  · have hapart := h.slab_apart ho hs
    refine sameAt_writeLE ?_
    simp only [Slab.phys, Block.addr, slabHeaderSize, largeHeaderSize, buddyPageSize] at *
    omega
  · refine sameAt_writeLE ?_
    by_cases heq : o'.block offset = o.block offset
    · rw [heq]
      exact Or.inl hphys
    · have hapart := h.blocks_apart (block_mem ho') (block_mem ho) heq
      have hpow := Nat.two_pow_pos (o'.block offset).order
      simp only [Block.addr, largeHeaderSize, buddyPageSize] at *
      omega

end HeapInv

end Large

/-! ## Every run -/

/-- What the heap is started with: usable entries as for the page allocator, frame 0 not
usable, and a page-aligned direct map. -/
structure HeapEnv (response : Option MemmapResponse) (offset : Nat) : Prop where
  memmap : MemmapOk response
  zero_unusable : 0 ∉ usableFrames response
  offset_lt : offset < 2 ^ 64
  offset_aligned : buddyPageSize ∣ offset

/-- Right after `heap_init` there are no slabs and no live objects. -/
theorem heapInit_inv {response : Option MemmapResponse} (offset : Nat) (k : Kernel) {s : Buddy}
    (hok : MemmapOk response) (h : buddyInit response = .ok s) :
    ∃ fl, HeapInv (usableFrames response) offset (heapInit { k with buddy := s }) [] [] fl := by
  obtain ⟨fl, hinv, -⟩ := (BuddyRun.init h).inv hok
  refine ⟨fl, hinv, ⟨fun i hi => ?_, fun i hi => Or.inl ?_, ?_⟩, ?_, ?_⟩
  · simp only [heapInit, if_pos hi]
    exact Nat.mod_eq_of_lt (Nat.lt_of_le_of_lt (heapCacheSizes_bounds hi).2 (by decide))
  · simp only [heapInit, if_pos hi]
  · exact fun s hs => absurd hs List.not_mem_nil
  · exact fun s hs => absurd hs List.not_mem_nil
  · exact fun o ho => absurd ho List.not_mem_nil

/-- **Every state of a run satisfies the invariant**, and every live region is large and within
the limit of the run. -/
theorem HeapRun.inv {response : Option MemmapResponse} {offset limit : Nat}
    (henv : HeapEnv response offset) (hlimit : limit < 2 ^ 64) {k : Kernel}
    {live : List LiveObject} (run : HeapRun response offset limit k live) :
    ∃ slabs fl, HeapInv (usableFrames response) offset k live slabs fl ∧
      ∀ o ∈ live, o.size ≤ limit := by
  obtain ⟨hok, h0, hoff, hpage⟩ := henv
  induction run with
  | init h =>
    obtain ⟨fl, hinv⟩ := heapInit_inv offset _ hok h
    exact ⟨[], fl, hinv, fun o ho => absurd ho List.not_mem_nil⟩
  | @kmalloc k k' live size p run hsize h hp ih =>
    obtain ⟨slabs, fl, hinv, hle⟩ := ih
    -- this step is for a request that was served
    rcases hinv.kmalloc_cases hoff hpage h0 (Nat.lt_of_le_of_lt hsize hlimit) with
      ⟨k₁, slabs', fl', hrun, -⟩ | ⟨p₁, k₁, fl', -, hrun, hinv'⟩
    · exact absurd (ok_unique_pair h hrun).1 hp
    · obtain ⟨rfl, rfl⟩ := ok_unique_pair h hrun
      refine ⟨slabs, fl', hinv', fun o ho => ?_⟩
      rcases List.mem_cons.mp ho with rfl | ho
      · exact hsize
      · exact hle o ho
  | @kmallocNull k k' live size run hsize h ih =>
    obtain ⟨slabs, fl, hinv, hle⟩ := ih
    -- without memory there may still be a new slab
    rcases hinv.kmalloc_cases hoff hpage h0 (Nat.lt_of_le_of_lt hsize hlimit) with
      ⟨k₁, slabs', fl', hrun, hinv'⟩ | ⟨p₁, k₁, fl', hp, hrun, -⟩
    · obtain ⟨-, rfl⟩ := ok_unique_pair h hrun
      exact ⟨slabs', fl', hinv', hle⟩
    · exact absurd (ok_unique_pair h hrun).1.symm hp
  | @kfree k k' before after o run h ih =>
    obtain ⟨slabs, fl, hinv, hle⟩ := ih
    obtain ⟨s', fl', hrun, hinv'⟩ := hinv.kfree_live hoff hpage h0
    obtain rfl := ok_unique h hrun
    refine ⟨slabs, fl', hinv', fun o' ho' => hle o' ?_⟩
    rcases List.mem_append.mp ho' with h1 | h1
    · exact List.mem_append_left _ h1
    · exact List.mem_append_right _ (List.mem_cons_of_mem _ h1)
  | @write k k' live o a bytes value run ho hsize hlo hhi h ih =>
    obtain ⟨slabs, fl, hinv, hle⟩ := ih
    obtain ⟨m, hrun, hslabs, hlarge⟩ := hinv.write_live hoff ho hsize value hlo hhi
    obtain rfl := ok_unique h hrun
    exact ⟨slabs, fl, hinv.congr_mem hslabs hlarge, hle⟩

end Yoix
