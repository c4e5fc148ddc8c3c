import Yoix.Heap.SmallObjects

/-!
# Sizes of large requests

`kmalloc` adds the header to the size of a large request and rounds the sum up to pages, both on
64 bits. Most sizes that wrap around ask for no page at all and get `NULL`. Seven do not: the
sizes above `2 ^ 64 - 8` wrap in the first addition and ask for a single page, which the
page allocator grants.

The page allocator may be in any state of its runs, the heap in any state at all, and the direct
map anywhere; it may also be missing.
-/

namespace Yoix

open Memory Dyadic

/-! ## The number of pages

The number of pages that `kmalloc` computes for a large request. It holds the request with its
header unless the first sum wraps around. -/

/-- Up to `2 ^ 64 - 8` a request that asks for a page asks for enough of them. -/
theorem le_largePages_mul {size : Nat} (hsize : size ≤ 2 ^ 64 - 8) (hpos : 1 ≤ largePages size) :
    size + largeHeaderSize ≤ largePages size * buddyPageSize := by
  simp only [largePages, largeHeaderSize, buddyPageSize] at *
  omega

theorem largePages_of_wrap {size : Nat} (hwrap : 2 ^ 64 - 8 < size) (hsize : size < 2 ^ 64) :
    largePages size = 1 := by
  simp only [largePages, largeHeaderSize, buddyPageSize]
  omega

/-! ## Reachable states

Any state of the heap whose page allocator is in the middle of a run. The caches and the memory may
hold anything, as large requests do not look at them. -/

/-- The page allocator is in a state of one of its runs, whatever the heap's memory and caches
hold, or the whole kernel is in a state of a run of the heap. -/
def Reachable (response : Option MemmapResponse) (k : Kernel) : Prop :=
  (∃ live, BuddyRun response k.buddy live) ∨
    ∃ offset live, HeapEnv response offset ∧ HeapRun response offset (2 ^ 64 - 1) k live

/-- The page allocator of a reachable state satisfies its invariant. -/
theorem Reachable.liveInv {response : Option MemmapResponse} (hok : MemmapOk response)
    {k : Kernel} (h : Reachable response k) :
    ∃ live fl, LiveInv (usableFrames response) k.buddy live fl := by
  rcases h with ⟨live, run⟩ | ⟨offset, live, henv, run⟩
  · obtain ⟨fl, hinv, -⟩ := run.inv hok
    exact ⟨live, fl, hinv⟩
  · obtain ⟨slabs, fl, hinv, -⟩ := run.inv henv (by decide)
    exact ⟨_, fl, hinv.buddy⟩

/-! ## What a large request gets

Nothing, or a block for the number of pages that was computed. -/

/-- The block `b` was taken for the request and holds it: it spans the header and the region,
every byte of `[p, p + size)` lies in its frames, and the header names its order. -/
structure Spans (hhdm : Option Nat) (k k' : Kernel) (p size : Nat) (b : Block) : Prop where
  taken : newlyAllocated k.buddy k'.buddy = b.frames
  spans : size + largeHeaderSize ≤ 2 ^ b.order * buddyPageSize
  inside : ∀ i < size, ∃ a, translate hhdm (p + i) = .ok a ∧ a / buddyPageSize ∈ b.frames
  pageCount : b.Named (k'.field b.addr HeapLargeHeader.pageCount)

/-- The request ends, and a pointer it returns has a block that holds the request. -/
def LargeServed (hhdm : Option Nat) (k : Kernel) (size : Nat) : Prop :=
  ∃ p k', kmalloc hhdm k size = .ok (p, k') ∧ (p ≠ 0 → ∃ b, Spans hhdm k k' p size b)

/-- No page can be had: none is free, or the one that would be handed out has no address in the
direct map. -/
def NoPage (hhdm : Option Nat) (s : Buddy) : Prop :=
  ∀ a s', buddyAllocPage s = .ok (a, s') → a = buddyInvalidAddress ∨ phyToVirt hhdm a = 0 ∨
    (phyToVirt hhdm a + largeHeaderSize) % 2 ^ 64 = 0

/-- With a page-aligned direct map the pointer behind the header of a page is never `NULL`. -/
theorem noPage_iff_of_aligned {U : Set Nat} {s : Buddy} {live : List Block} {fl : FreeLists}
    {offset : Nat} (h : LiveInv U s live fl) (hpage : buddyPageSize ∣ offset) :
    NoPage (some offset) s ↔ ∀ g < buddyMaxPages, ∀ s',
      buddyAllocPage s = .ok (g * buddyPageSize, s') →
        phyToVirt (some offset) (g * buddyPageSize) = 0 := by
  constructor
  · intro hnone g hg s' hrun
    obtain ⟨-, hend⟩ := phyToVirt_page_le hpage (Nat.dvd_mul_left buddyPageSize g)
    rcases hnone _ s' hrun with hinvalid | hnull | hnull
    · exact absurd hinvalid (addr_ne_invalid hg)
    · exact hnull
    · simp only [largeHeaderSize, buddyPageSize] at hnull hend
      omega
  · intro hnull a s' hrun
    rcases h.alloc 1 with hfail | ⟨g, -, t, -, -, -, hsome, hg, -⟩
    · exact Or.inl (ok_unique_pair hrun hfail).1
    · obtain ⟨rfl, rfl⟩ := ok_unique_pair hrun hsome
      exact Or.inr (Or.inl (hnull g hg s' hsome))

section Request

variable {U : Set Nat} {k : Kernel} {live : List Block} {fl : FreeLists} {size : Nat}

/-- A request whose block has no address in the direct map, or that found no block, returns
`NULL`; otherwise the pointer behind the header of its block comes back. -/
theorem LiveInv.kmalloc_large_cases (h : LiveInv U k.buddy live fl) (hlarge : 2048 < size)
    {hhdm : Option Nat} (hoff : ∀ offset ∈ hhdm, offset < 2 ^ 64) :
    ((∃ k', kmalloc hhdm k size = .ok (0, k')) ∧
      ∀ a s', buddyAllocPages k.buddy (largePages size) = .ok (a, s') →
        a = buddyInvalidAddress ∨ phyToVirt hhdm a = 0) ∨
    ∃ offset g s' fl', hhdm = some offset ∧ 1 ≤ largePages size ∧
      largePages size ≤ 2 ^ buddyMaxOrder ∧
      buddyAllocPages k.buddy (largePages size) = .ok (g * buddyPageSize, s') ∧
      kmalloc hhdm k size
        = .ok ((phyToVirt (some offset) (g * buddyPageSize) + largeHeaderSize) % 2 ^ 64,
            ({ k with buddy := s' } : Kernel).putLargeHeader (g * buddyPageSize)
              (largePages size)) ∧
      g < buddyMaxPages ∧ phyToVirt (some offset) (g * buddyPageSize) ≠ 0 ∧
      LiveInv U s' (⟨g, buddyOrderFromPages (largePages size)⟩ :: live) fl' := by
  have hpos : ¬ size = 0 := by omega
  have hindex : heapCacheIndex size = none := (heapCacheIndex_eq_none_iff size).mpr hlarge
  rcases h.alloc (largePages size) with hfail | ⟨g, fl', s', hn, hle, -, hsome, hg, hinv⟩
  · refine Or.inl ⟨⟨k, ?_⟩, fun a s' hrun => Or.inl ?_⟩
    · simp only [kmalloc, if_neg hpos, hindex, hfail, ok_bind, if_true]
    · exact (ok_unique_pair hrun hfail).1
  · by_cases hvirt : phyToVirt hhdm (g * buddyPageSize) = 0
    · -- the block goes back
      obtain ⟨s'', hfree⟩ := hinv.free_ends (n := largePages size) List.mem_cons_self ⟨hn, rfl⟩
      simp only [Block.addr] at hfree
      refine Or.inl ⟨⟨{ k with buddy := s'' }, ?_⟩, fun a s₁ hrun => Or.inr ?_⟩
      · simp only [kmalloc, if_neg hpos, hindex, hsome, ok_bind, if_neg (addr_ne_invalid hg),
          hvirt, if_true, hfree]
      · rw [(ok_unique_pair hrun hsome).1]
        exact hvirt
    -- an address in the direct map means that there is a direct map
    · cases hhdm with
      | none => exact absurd rfl hvirt
      | some offset =>
        have hrun := kmalloc_large_eq (hoff offset rfl) hlarge hle hg hsome hvirt
        exact Or.inr ⟨offset, g, s', fl', rfl, hn, hle, hsome, hrun, hg, hvirt, hinv⟩

/-- A request that found the block of frame `g` holds what it asked for. -/
theorem LiveInv.spans {offset g : Nat} {s' : Buddy} {fl' : FreeLists}
    (h : LiveInv U k.buddy live fl) (hoff : offset < 2 ^ 64)
    (hinv : LiveInv U s' (⟨g, buddyOrderFromPages (largePages size)⟩ :: live) fl')
    (hpos : 1 ≤ largePages size) (hpages : largePages size ≤ 2 ^ buddyMaxOrder)
    (hsize : size ≤ 2 ^ 64 - 8) :
    Spans (some offset) k (({ k with buddy := s' } : Kernel).putLargeHeader (g * buddyPageSize)
        (largePages size))
      ((phyToVirt (some offset) (g * buddyPageSize) + largeHeaderSize) % 2 ^ 64) size
      ⟨g, buddyOrderFromPages (largePages size)⟩ := by
  have hspan : size + largeHeaderSize
      ≤ 2 ^ buddyOrderFromPages (largePages size) * buddyPageSize :=
    (le_largePages_mul hsize hpos).trans
      (Nat.mul_le_mul_right _ (pages_le_two_pow_order hpages))
  have hend : g + 2 ^ buddyOrderFromPages (largePages size) ≤ buddyMaxPages :=
    hinv.repr.block_end_le (hinv.frames_sub (b := ⟨g, _⟩) List.mem_cons_self)
  -- the count in the header is the one from which `kfree` computes the order again
  have hcount : (({ k with buddy := s' } : Kernel).putLargeHeader (g * buddyPageSize)
      (largePages size)).field (g * buddyPageSize) HeapLargeHeader.pageCount
      = largePages size :=
    Kernel.field_putField_self _ _ _ (Nat.lt_of_le_of_lt hpages (by decide))
  refine ⟨newlyAllocated_cons h hinv, hspan, fun i hi => ?_, ?_⟩
  · -- through the direct map the byte is `i` bytes behind the header
    refine ⟨g * buddyPageSize + largeHeaderSize + i, ?_, ?_⟩
    · simp only [translate, phyToVirt, Except.ok.injEq]
      simp only [buddyMaxPages, buddyMaxPhys, buddyPageSize, largeHeaderSize] at *
      omega
    · show _ ∈ block g _
      rw [mem_block]
      simp only [buddyPageSize, largeHeaderSize] at *
      omega
  · show Block.Named _ (Kernel.field _ (g * buddyPageSize) HeapLargeHeader.pageCount)
    rw [hcount]
    exact ⟨hpos, rfl⟩

/-- A block of one frame does not hold a request above `2 ^ 64 - 8` bytes. -/
theorem not_spans_of_wrap {hhdm : Option Nat} {k k' : Kernel} {g p : Nat} {b : Block}
    (htaken : newlyAllocated k.buddy k'.buddy = block g 0) (hwrap : 2 ^ 64 - 8 < size) :
    ¬ Spans hhdm k k' p size b := by
  intro ⟨htaken', hspan, _, _⟩
  have hframes : b.frames = {g} := by
    rw [← htaken', htaken, block_zero]
  have hpow := Nat.two_pow_pos b.order
  -- the first and the last frame of `b` are the same one
  have hfirst : b.frame = g := by
    have : b.frame ∈ b.frames := base_mem_block _ _
    rwa [hframes] at this
  have hlast : b.frame + (2 ^ b.order - 1) = g := by
    have : b.frame + (2 ^ b.order - 1) ∈ b.frames := mem_block.mpr ⟨by omega, by omega⟩
    rwa [hframes] at this
  have hone : 2 ^ b.order = 1 := by omega
  rw [hone] at hspan
  simp only [largeHeaderSize, buddyPageSize] at hspan
  omega

end Request

/-- **A large request gets less than it asked for exactly when its size is above `2 ^ 64 - 8` and
there is a page to hand out.** For every reachable state, every direct map and every 64-bit size
above 2048. -/
theorem large_served_iff {response : Option MemmapResponse} (hok : MemmapOk response) {k : Kernel}
    (hreach : Reachable response k) {hhdm : Option Nat} (hoff : ∀ offset ∈ hhdm, offset < 2 ^ 64)
    {size : Nat} (hlarge : 2048 < size) (hsize : size < 2 ^ 64) :
    LargeServed hhdm k size ↔ size ≤ 2 ^ 64 - 8 ∨ NoPage hhdm k.buddy := by
  obtain ⟨live, fl, h⟩ := hreach.liveInv hok
  have hcases := h.kmalloc_large_cases hlarge hoff
  by_cases hfit : size ≤ 2 ^ 64 - 8
  · refine iff_of_true ?_ (Or.inl hfit)
    rcases hcases with ⟨⟨k', hrun⟩, -⟩ | ⟨offset, g, s', fl', rfl, hn, hle, -, hrun, -, -, hinv⟩
    · exact ⟨0, k', hrun, fun hne => absurd rfl hne⟩
    · exact ⟨_, _, hrun, fun _ => ⟨_, h.spans (hoff offset rfl) hinv hn hle hfit⟩⟩
  · rw [or_iff_right hfit]
    push Not at hfit
    -- the request asks for one page, so what it gets is what `buddy_alloc_page` hands out
    have hone := largePages_of_wrap hfit hsize
    rw [hone] at hcases
    rcases hcases with ⟨⟨k', hrun⟩, hnone⟩ |
      ⟨offset, g, s', fl', rfl, -, -, hsome, hrun, hg, hvirt, hinv⟩
    · refine iff_of_true ⟨0, k', hrun, fun hne => absurd rfl hne⟩ fun a s' hpage => ?_
      rcases hnone a s' hpage with hinvalid | hnull
      · exact Or.inl hinvalid
      · exact Or.inr (Or.inl hnull)
    · constructor
      · intro ⟨p, k', hrun', hserved⟩ a s₁ hpage
        obtain ⟨rfl, rfl⟩ := ok_unique_pair hrun' hrun
        obtain ⟨rfl, rfl⟩ := ok_unique_pair hpage hsome
        by_contra hno
        push Not at hno
        obtain ⟨b, hspans⟩ := hserved hno.2.2
        exact not_spans_of_wrap (newlyAllocated_cons h hinv) hfit hspans
      · intro hno
        refine ⟨_, _, hrun, fun hne => absurd ?_ hne⟩
        rcases hno _ s' hsome with hinvalid | hnull | hnull
        · exact absurd hinvalid (addr_ne_invalid hg)
        · exact absurd hnull hvirt
        · exact hnull

theorem sampleMap_reachable : ∃ k, Reachable sampleMap k ∧ k.buddy.FreeFrame 1 := by
  obtain ⟨s, hinit, hrepr⟩ := buddyInit_represents sampleMap_ok
  refine ⟨{ bootKernel with buddy := s }, Or.inl ⟨[], .init hinit⟩, ?_⟩
  refine (hrepr.freeFrame_iff 1).mpr ⟨⟨⟨0x1000, 0x5000, 0⟩, by decide, ?_⟩, Set.notMem_empty _⟩
  exact ⟨by decide, by decide, by decide⟩

/-- Every page has an address under the default direct map, so a free frame means a page. -/
theorem not_noPage_of_freeFrame {response : Option MemmapResponse} (hok : MemmapOk response)
    {k : Kernel} (hreach : Reachable response k) {f : Nat} (hfree : k.buddy.FreeFrame f) :
    ¬ NoPage (some sampleOffset) k.buddy := by
  obtain ⟨live, fl, h⟩ := hreach.liveInv hok
  obtain ⟨a, s', hpage, hne⟩ := h.canSupplyPage_iff.mpr ⟨f, hfree⟩
  intro hnone
  rcases h.alloc 1 with hfail | ⟨g, -, t, -, -, -, hsome, hg, -⟩
  · exact hne (ok_unique_pair hpage hfail).1
  · have hcases := hnone _ t hsome
    simp only [phyToVirt, sampleOffset, buddyMaxPages, buddyMaxPhys, buddyPageSize,
      largeHeaderSize, buddyInvalidAddress] at hcases hg
    omega

/-- A request for 5000 bytes is served from the sample map. -/
theorem large_served_iff_sampleMap :
    ∃ k, Reachable sampleMap k ∧ LargeServed (some sampleOffset) k 5000 := by
  obtain ⟨k, hreach, -⟩ := sampleMap_reachable
  refine ⟨k, hreach, ?_⟩
  exact (large_served_iff sampleMap_ok hreach (fun offset h => by cases h; decide) (by decide)
    (by decide)).mpr (Or.inl (by decide))

/-- A request for `2 ^ 64 - 1` bytes gets a pointer into a single page. -/
theorem largest_request_not_served :
    ∃ k p k', Reachable sampleMap k ∧
      kmalloc (some sampleOffset) k (2 ^ 64 - 1) = .ok (p, k') ∧ p ≠ 0 ∧
      ∀ b, ¬ Spans (some sampleOffset) k k' p (2 ^ 64 - 1) b := by
  obtain ⟨k, hreach, hfree⟩ := sampleMap_reachable
  obtain ⟨live, fl, h⟩ := hreach.liveInv sampleMap_ok
  have hone : largePages (2 ^ 64 - 1) = 1 := by decide
  have hlarge : 2048 < 2 ^ 64 - 1 := by decide
  have hoff : ∀ offset ∈ some sampleOffset, offset < 2 ^ 64 := fun offset heq => by
    cases heq
    decide
  have hcases := h.kmalloc_large_cases hlarge hoff
  rw [hone] at hcases
  rcases hcases with ⟨-, hnone⟩ | ⟨offset, g, s', fl', heq, -, -, -, hrun, hg, -, hinv⟩
  · refine absurd (fun a s' hpage => ?_) (not_noPage_of_freeFrame sampleMap_ok hreach hfree)
    rcases hnone a s' hpage with hinvalid | hnull
    · exact Or.inl hinvalid
    · exact Or.inr (Or.inl hnull)
  · obtain rfl := Option.some.inj heq
    refine ⟨k, _, _, hreach, hrun, ?_, fun b => ?_⟩
    · simp only [phyToVirt, sampleOffset, buddyMaxPages, buddyMaxPhys, buddyPageSize,
        largeHeaderSize] at hg ⊢
      omega
    · exact not_spans_of_wrap (newlyAllocated_cons h hinv) (by decide)

end Yoix
