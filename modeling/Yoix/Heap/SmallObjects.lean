import Yoix.Buddy.Ownership
import Yoix.Heap.Run

/-!
# Small requests

What a small request should do, and when the code does it. `object_index` rejects the start of
every object, so a small request never succeeds: it meets its contract only in states where
there is nothing to hand out, that is, where the size class has no free object and the page
allocator has no free frame.
-/

namespace Yoix

open Memory Dyadic

/-- The slabs that the partial list of a size class reaches. -/
inductive OnPartialList (k : Kernel) (index : Nat) : Nat → Prop where
  | head (h : (k.heapCaches index).partialPages ≠ 0) :
      OnPartialList k index (k.heapCaches index).partialPages
  | next {phys : Nat} (h : OnPartialList k index phys)
      (hne : k.field phys HeapSlabPage.next ≠ 0) :
      OnPartialList k index (k.field phys HeapSlabPage.next)

/-- The size class has a slab with a free object. -/
def HasFreeObject (k : Kernel) (index : Nat) : Prop :=
  ∃ phys, OnPartialList k index phys ∧ 0 < k.field phys HeapSlabPage.freeCount

def CanSupplyPage (s : Buddy) : Prop :=
  ∃ a s', buddyAllocPage s = .ok (a, s') ∧ a ≠ buddyInvalidAddress

/-- `[p, p + size)` lies in one slab page behind its header and meets no live region. -/
def ServesSmall (offset : Nat) (k' : Kernel) (live : List LiveObject) (p size : Nat) : Prop :=
  (∃ f, k'.buddy.pageState f = pageStateAllocated ∧
    k'.field (f * buddyPageSize) HeapSlabPage.magic = heapMagicSmall ∧
    Set.Ico p (p + size) ⊆ Set.Ico (phyToVirt (some offset) (f * buddyPageSize) + slabHeaderSize)
      (phyToVirt (some offset) (f * buddyPageSize) + buddyPageSize)) ∧
  ∀ o ∈ live, Disjoint (Set.Ico p (p + size)) o.region

/-- The contract of a small request of class `index`. -/
def SmallAllocSpec (offset : Nat) (k : Kernel) (live : List LiveObject) (index size : Nat) : Prop :=
  ∃ p k', kmalloc (some offset) k size = .ok (p, k') ∧
    (HasFreeObject k index ∨ CanSupplyPage k.buddy → p ≠ 0) ∧
    (p ≠ 0 → ServesSmall offset k' live p size) ∧
    (p = 0 → k'.heapCaches = k.heapCaches ∧ k'.buddy = k.buddy)

/-- The page allocator can supply a page exactly when some frame is free. -/
theorem LiveInv.canSupplyPage_iff {U : Set Nat} {s : Buddy} {live : List Block} {fl : FreeLists}
    (h : LiveInv U s live fl) : CanSupplyPage s ↔ ∃ f, s.FreeFrame f := by
  constructor
  · rintro ⟨a, s', hrun, ha⟩
    cases h.repr.allocPage with
    | inl hfail => exact absurd (ok_unique_pair hrun hfail.1).1 ha
    | inr hsome =>
      obtain ⟨g, -, -, -, hg, -⟩ := hsome
      exact ⟨g, (h.repr.freeFrame_iff g).mpr hg⟩
  · rintro ⟨f, hfree⟩
    have hf := (h.repr.freeFrame_iff f).mp hfree
    cases h.repr.allocPage with
    | inl hfail => exact absurd (hfail.2 hf.1) hf.2
    | inr hsome =>
      obtain ⟨g, s', -, hrun, hg, -⟩ := hsome
      exact ⟨_, s', hrun, addr_ne_invalid (h.repr.usable_lt hg.1)⟩

/-- When the page allocator has no page, a request for one changes nothing. -/
theorem LiveInv.allocPage_of_not_canSupply {U : Set Nat} {s : Buddy} {live : List Block}
    {fl : FreeLists} (h : LiveInv U s live fl) (hnone : ¬ CanSupplyPage s) :
    buddyAllocPage s = .ok (buddyInvalidAddress, s) := by
  rcases h.alloc 1 with hfail | ⟨g, fl', s₁, -, -, -, hrun, hg, -⟩
  · exact hfail
  · exact absurd ⟨_, s₁, hrun, addr_ne_invalid hg⟩ hnone

/-- A small request meets its contract exactly when there is nothing to hand out. -/
theorem HeapInv.smallAllocSpec_iff {U : Set Nat} {offset size index : Nat} {k : Kernel}
    {live : List LiveObject} {slabs : List Slab} {fl : FreeLists}
    (h : HeapInv U offset k live slabs fl) (hoff : offset < 2 ^ 64)
    (hpage : buddyPageSize ∣ offset) (h0 : 0 ∉ U) (hpos : size ≠ 0)
    (hindex : heapCacheIndex size = some index) :
    SmallAllocSpec offset k live index size ↔
      ¬ HasFreeObject k index ∧ ∀ f, ¬ k.buddy.FreeFrame f := by
  obtain ⟨k', slabs', fl', hrun, -, hkeep⟩ := h.kmalloc_small hoff hpage h0 hpos hindex
  have hsupply := h.buddy.canSupplyPage_iff
  constructor
  · rintro ⟨p, k₁, hrun₁, hserve, -, -⟩
    obtain ⟨rfl, rfl⟩ := ok_unique_pair hrun₁ hrun
    exact ⟨fun hfree => hserve (Or.inl hfree) rfl,
      fun f hf => hserve (Or.inr (hsupply.mpr ⟨f, hf⟩)) rfl⟩
  · rintro ⟨hobject, hframe⟩
    have hnone : ¬ CanSupplyPage k.buddy := fun hsome => by
      obtain ⟨f, hf⟩ := hsupply.mp hsome
      exact hframe f hf
    obtain rfl := hkeep (Or.inr (h.buddy.allocPage_of_not_canSupply hnone))
    exact ⟨0, k', hrun, fun hor => absurd hor (not_or.mpr ⟨hobject, hnone⟩),
      fun hne => absurd rfl hne, fun _ => ⟨rfl, rfl⟩⟩

/-- **When small requests meet their contract.** In every state of every run, and for every
size up to 2048, the request meets its contract exactly when its size class has no free object
and no frame is free. -/
theorem small_requests_iff_exhausted {response : Option MemmapResponse} {offset : Nat}
    (henv : HeapEnv response offset) {k : Kernel} {live : List LiveObject}
    (run : HeapRun response offset (2 ^ 64 - 1) k live) {size : Nat} (hpos : 1 ≤ size)
    (hsmall : size ≤ 2048) :
    ∃ index, heapCacheIndex size = some index ∧
      (SmallAllocSpec offset k live index size ↔
        ¬ HasFreeObject k index ∧ ∀ f, ¬ k.buddy.FreeFrame f) := by
  obtain ⟨slabs, fl, hinv, -⟩ := run.inv henv (by decide)
  obtain ⟨index, hindex⟩ := Option.ne_none_iff_exists'.mp fun hnone =>
    absurd ((heapCacheIndex_eq_none_iff size).mp hnone) (Nat.not_lt.mpr hsmall)
  exact ⟨index, hindex, hinv.smallAllocSpec_iff henv.offset_lt henv.offset_aligned
    henv.zero_unusable (by omega) hindex⟩

/-! ## A direct map and a first run -/

/-- The offset at which the bootloader puts the direct map by default. -/
def sampleOffset : Nat := 0xFFFF800000000000

/-- The sample map and the direct map are an environment for the heap. -/
theorem sampleEnv : HeapEnv sampleMap sampleOffset where
  memmap := sampleMap_ok
  zero_unusable := by
    rintro ⟨e, he, hf⟩
    rw [show usableEntries sampleMap = [⟨0x1000, 0x5000, 0⟩] from rfl, List.mem_singleton] at he
    subst he
    exact absurd hf.2.1 (by decide)
  offset_lt := by decide
  offset_aligned := by decide

/-- The state before anything has been initialised, with memory all zero. -/
def bootKernel : Kernel := ⟨buddyReset, fun _ => 0, fun _ => ⟨0, 0⟩⟩

/-- In the first state of a heap, with no slab yet, a request for 16 bytes meets its specification
exactly when no frame is free. -/
theorem small_requests_iff_exhausted_sampleMap :
    ∃ k, HeapRun sampleMap sampleOffset (2 ^ 64 - 1) k [] ∧
      ∃ index, heapCacheIndex 16 = some index ∧
        (SmallAllocSpec sampleOffset k [] index 16 ↔
          ¬ HasFreeObject k index ∧ ∀ f, ¬ k.buddy.FreeFrame f) := by
  obtain ⟨s, hinit, -⟩ := buddyInit_represents sampleMap_ok
  have run : HeapRun sampleMap sampleOffset (2 ^ 64 - 1) _ [] := .init (k := bootKernel) hinit
  exact ⟨_, run, small_requests_iff_exhausted sampleEnv run (by decide) (by decide)⟩

/-- The first request for 16 bytes fails although five frames are free. -/
theorem first_small_request_fails :
    ∃ k, HeapRun sampleMap sampleOffset (2 ^ 64 - 1) k [] ∧ k.buddy.FreeFrame 1 ∧
      heapCacheIndex 16 = some 1 ∧ ¬ SmallAllocSpec sampleOffset k [] 1 16 := by
  obtain ⟨s, hinit, hrepr⟩ := buddyInit_represents sampleMap_ok
  have run : HeapRun sampleMap sampleOffset (2 ^ 64 - 1) _ [] := .init (k := bootKernel) hinit
  obtain ⟨slabs, fl, hinv, -⟩ := run.inv sampleEnv (by decide)
  have hfree : s.FreeFrame 1 := by
    refine (hrepr.freeFrame_iff 1).mpr ⟨⟨⟨0x1000, 0x5000, 0⟩, by decide, ?_⟩, Set.notMem_empty _⟩
    exact ⟨by decide, by decide, by decide⟩
  refine ⟨_, run, hfree, rfl, fun hspec => ?_⟩
  have hiff : SmallAllocSpec sampleOffset _ [] 1 16 ↔ _ := hinv.smallAllocSpec_iff
    sampleEnv.offset_lt sampleEnv.offset_aligned sampleEnv.zero_unusable (by decide) rfl
  exact (hiff.mp hspec).2 1 hfree

end Yoix
