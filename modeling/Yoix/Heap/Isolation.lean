import Yoix.Buddy.GiveBack
import Yoix.Heap.SmallObjects

/-!
# Isolation of the heap's clients

`kfree` finds the header of a block by masking the pointer and trusts what it reads there. Over
every interleaving of requests, frees and client writes the headers survive: live regions do
not meet each other or any header, so no write of a client changes one, and every free of a
large region returns exactly the frames that were taken for it.
-/

namespace Yoix

open Memory Dyadic

/-- The addresses of the headers the heap relies on: those of the slabs that the caches reach,
and those in front of the live large regions. -/
def headerBytes (offset : Nat) (k : Kernel) (live : List LiveObject) : Set Nat :=
  { a | (∃ index < heapCacheClassCount, ∃ phys, OnPartialList k index phys ∧
      a ∈ Set.Ico (phyToVirt (some offset) phys) (phyToVirt (some offset) phys + slabHeaderSize)) ∨
    ∃ o ∈ live, 2048 < o.size ∧ a ∈ Set.Ico (o.ptr - largeHeaderSize) o.ptr }

/-- The frames of the slabs that the caches reach. -/
def slabFrames (k : Kernel) : Set Nat :=
  { f | ∃ index < heapCacheClassCount, OnPartialList k index (f * buddyPageSize) }

namespace HeapInv

variable {U : Set Nat} {offset : Nat} {k : Kernel} {live : List LiveObject} {slabs : List Slab}
  {fl : FreeLists}

/-! ## Slabs -/

/-- The lists of the caches reach the slabs of the invariant and nothing else. -/
theorem onPartialList_iff (h : HeapInv U offset k live slabs fl) (h0 : 0 ∉ U) {index phys : Nat}
    (hindex : index < heapCacheClassCount) :
    OnPartialList k index phys ↔ ∃ s ∈ slabs, s.index = index ∧ s.phys = phys := by
  constructor
  · intro hlist
    induction hlist with
    | head hne =>
      obtain ⟨s, hs, rfl⟩ := (h.caches.empty_or index hindex).resolve_left hne
      exact ⟨s, hs, rfl, (h.caches.slab s hs).2.symm⟩
    | next _ hne ih =>
      obtain ⟨s, hs, -, rfl⟩ := ih
      exact absurd (h.slab s hs).1.next hne
  · rintro ⟨s, hs, rfl, rfl⟩
    have hphys := (h.caches.slab s hs).2
    have hne : s.phys ≠ 0 := fun hzero => by
      have hframe : s.frame = 0 := by
        simp only [Slab.phys, buddyPageSize] at hzero
        omega
      exact h0 (hframe ▸ h.base_usable (slab_mem hs))
    have hhead : OnPartialList k s.index (k.heapCaches s.index).partialPages :=
      .head (by rw [hphys]; exact hne)
    rwa [hphys] at hhead

/-- The frames that are found by following the partial lists are those of the slabs. -/
theorem slabFrames_eq (h : HeapInv U offset k live slabs fl) (h0 : 0 ∉ U) :
    slabFrames k = framesOf (slabs.map Slab.block) := by
  ext f
  constructor
  · rintro ⟨index, hindex, hlist⟩
    obtain ⟨s, hs, -, hphys⟩ := (h.onPartialList_iff h0 hindex).mp hlist
    have hframe : f = s.frame := by
      simp only [Slab.phys, buddyPageSize] at hphys
      omega
    exact ⟨s.block, List.mem_map_of_mem hs, hframe ▸ base_mem_block _ _⟩
  · rintro ⟨b, hb, hf⟩
    obtain ⟨s, hs, rfl⟩ := List.mem_map.mp hb
    obtain ⟨h1, h2⟩ := mem_block.mp hf
    have hframe : f = s.frame := by
      simp only [Slab.block] at h1 h2
      omega
    subst hframe
    exact ⟨s.index, (h.caches.slab s hs).1,
      (h.onPartialList_iff h0 (h.caches.slab s hs).1).mpr ⟨s, hs, rfl, rfl⟩⟩

/-! ## Regions

The region of a live object lies in its own block, behind the header. Blocks do not meet, so neither
do regions. -/

theorem phyToVirt_eq (h : HeapInv U offset k live slabs fl) (hwrap : buddyMaxPhys + offset ≤ 2 ^ 64)
    {b : Block} (hb : b ∈ heapBlocks offset live slabs) :
    phyToVirt (some offset) b.addr = b.addr + offset := by
  have haddr := h.addr_lt hb
  exact Nat.mod_eq_of_lt (by omega)

/-- A region starts right behind its header and ends inside its block. -/
theorem region_bounds (h : HeapInv U offset k live slabs fl)
    (hwrap : buddyMaxPhys + offset ≤ 2 ^ 64) {o : LiveObject} (ho : o ∈ live)
    (hsize : o.size ≤ 2 ^ 64 - 9) :
    o.ptr = (o.block offset).frame * buddyPageSize + offset + largeHeaderSize ∧
      o.ptr + o.size
        ≤ ((o.block offset).frame + 2 ^ (o.block offset).order) * buddyPageSize + offset := by
  have hptr := (h.large o ho).ptr
  have hfits := region_fits (h.large o ho) hsize
  rw [h.phyToVirt_eq hwrap (block_mem ho), Block.addr] at hptr
  refine ⟨hptr, ?_⟩
  rw [hptr, Nat.add_mul]
  omega

/-- No two live objects share a byte. -/
theorem regions_disjoint (h : HeapInv U offset k live slabs fl)
    (hwrap : buddyMaxPhys + offset ≤ 2 ^ 64) (hle : ∀ o ∈ live, o.size ≤ 2 ^ 64 - 9) :
    live.Pairwise fun o o' => Disjoint o.region o'.region := by
  have hblocks := List.pairwise_map.mp (List.pairwise_append.mp h.buddy.disjoint).1
  refine hblocks.imp_of_mem fun {o o'} ho ho' hdisj => ?_
  have hapart := block_apart hdisj
  obtain ⟨hlo, hhi⟩ := h.region_bounds hwrap ho (hle o ho)
  obtain ⟨hlo', hhi'⟩ := h.region_bounds hwrap ho' (hle o' ho')
  refine Set.disjoint_left.mpr fun a ha ha' => ?_
  simp only [LiveObject.region, Set.mem_Ico, buddyPageSize] at *
  omega

/-- A header address lies in the header of a slab or of a live block. -/
theorem mem_headerBytes (h : HeapInv U offset k live slabs fl) (h0 : 0 ∉ U) {a : Nat}
    (ha : a ∈ headerBytes offset k live) :
    (∃ s ∈ slabs, ∃ d < slabHeaderSize, a = phyToVirt (some offset) s.phys + d) ∨
      ∃ o ∈ live, ∃ d < largeHeaderSize, a = phyToVirt (some offset) (o.block offset).addr + d := by
  rcases ha with ⟨index, hindex, phys, hlist, hlo, hhi⟩ | ⟨o, ho, -, hlo, hhi⟩
  · obtain ⟨s, hs, -, rfl⟩ := (h.onPartialList_iff h0 hindex).mp hlist
    exact Or.inl ⟨s, hs, a - phyToVirt (some offset) s.phys, by omega, by omega⟩
  · have hptr := (h.large o ho).ptr
    exact Or.inr ⟨o, ho, a - phyToVirt (some offset) (o.block offset).addr, by omega, by omega⟩

/-- No live object has a byte of a header, neither of a slab nor of a large block. -/
theorem region_disjoint_headers (h : HeapInv U offset k live slabs fl)
    (hwrap : buddyMaxPhys + offset ≤ 2 ^ 64) (h0 : 0 ∉ U) (hle : ∀ o ∈ live, o.size ≤ 2 ^ 64 - 9)
    {o : LiveObject} (ho : o ∈ live) : Disjoint o.region (headerBytes offset k live) := by
  obtain ⟨hlo, hhi⟩ := h.region_bounds hwrap ho (hle o ho)
  refine Set.disjoint_left.mpr fun a ha hheader => ?_
  rcases h.mem_headerBytes h0 hheader with ⟨s, hs, d, hd, rfl⟩ | ⟨o', ho', d, hd, rfl⟩
  · have hapart := h.slab_apart ho hs
    have hvirt := h.phyToVirt_eq hwrap (slab_mem hs)
    rw [Slab.block_addr] at hvirt
    rw [hvirt, Slab.phys] at ha
    simp only [LiveObject.region, Set.mem_Ico, buddyPageSize, slabHeaderSize] at *
    omega
  · rw [h.phyToVirt_eq hwrap (block_mem ho'), Block.addr] at ha
    by_cases heq : o'.block offset = o.block offset
    · rw [heq] at ha
      simp only [LiveObject.region, Set.mem_Ico] at ha
      omega
    · have hapart := h.blocks_apart (block_mem ho') (block_mem ho) heq
      have hpow := Nat.two_pow_pos (o'.block offset).order
      simp only [LiveObject.region, Set.mem_Ico, buddyPageSize, largeHeaderSize] at *
      omega

/-- Every address of a region is the image of an allocated frame. -/
theorem region_allocated (h : HeapInv U offset k live slabs fl)
    (hwrap : buddyMaxPhys + offset ≤ 2 ^ 64) {o : LiveObject} (ho : o ∈ live)
    (hsize : o.size ≤ 2 ^ 64 - 9) {a : Nat} (ha : a ∈ o.region) :
    ∃ f, k.buddy.pageState f = pageStateAllocated ∧
      a ∈ Set.Ico (f * buddyPageSize + offset) (f * buddyPageSize + offset + buddyPageSize) := by
  obtain ⟨hlo, hhi⟩ := h.region_bounds hwrap ho hsize
  obtain ⟨ha, ha'⟩ := ha
  refine ⟨(a - offset) / buddyPageSize, ?_, ?_⟩
  · refine (h.buddy.state_allocated_iff _).mpr ⟨_, block_mem ho, ?_⟩
    rw [Block.frames, mem_block]
    simp only [buddyPageSize, largeHeaderSize] at *
    omega
  · simp only [Set.mem_Ico, buddyPageSize, largeHeaderSize] at *
    omega

/-! ## Writes and frees

A client that writes inside its regions leaves all headers alone, and a free gives exactly the
frames of its object back. -/

/-- A write inside a live region is not seen at any header address. -/
theorem write_keeps_headers (h : HeapInv U offset k live slabs fl) (hoff : offset < 2 ^ 64)
    (h0 : 0 ∉ U) {o : LiveObject} (ho : o ∈ live) (hsize : o.size ≤ 2 ^ 64 - 9) {a bytes : Nat}
    (value : Nat) (hlo : o.ptr ≤ a) (hhi : a + bytes ≤ o.ptr + o.size) :
    ∃ k', k.store (some offset) a bytes value = .ok k' ∧ k'.buddy = k.buddy ∧
      k'.heapCaches = k.heapCaches ∧
      ∀ x ∈ headerBytes offset k live, k'.load (some offset) x 1 = k.load (some offset) x 1 := by
  obtain ⟨m, hrun, hslabs, hlarge⟩ := h.write_live hoff ho hsize value hlo hhi
  refine ⟨_, hrun, rfl, rfl, fun x hx => ?_⟩
  have hread : ∀ {phys d n : Nat}, d < n → n ≤ buddyPageSize → phys < buddyMaxPhys →
      SameAt m k.mem phys n → ({ k with mem := m } : Kernel).load (some offset)
        (phyToVirt (some offset) phys + d) 1
          = k.load (some offset) (phyToVirt (some offset) phys + d) 1 := by
    intro phys d n hd hn hphys hsame
    have hlt : phys + d < 2 ^ 64 := by
      simp only [buddyPageSize, buddyMaxPhys] at *
      omega
    rw [Kernel.load_phyToVirt _ hoff hlt, Kernel.load_phyToVirt _ hoff hlt,
      readLE_congr (hsame.mono (by omega) (by omega))]
  rcases h.mem_headerBytes h0 hx with ⟨s, hs, d, hd, rfl⟩ | ⟨o', ho', d, hd, rfl⟩
  · have haddr := h.addr_lt (slab_mem hs)
    rw [Slab.block_addr] at haddr
    exact hread hd (by decide) haddr (hslabs s hs)
  · exact hread hd (by decide) (h.addr_lt (block_mem ho')) (hlarge o' ho')

/-- `kfree` of a live region makes exactly its frames free. -/
theorem kfree_returns (h : HeapInv U offset k live slabs fl) (hoff : offset < 2 ^ 64)
    (hpage : buddyPageSize ∣ offset) (h0 : 0 ∉ U) {o : LiveObject} (ho : o ∈ live) :
    ∃ k', kfree (some offset) k o.ptr = .ok k' ∧
      o.taken.ncard = 2 ^ buddyOrderFromPages (largePages o.size) ∧
      (∀ f ∈ o.taken, k.buddy.pageState f = pageStateAllocated) ∧
      (∀ f, k'.buddy.pageState f = pageStateAllocated ↔
        k.buddy.pageState f = pageStateAllocated ∧ f ∉ o.taken) ∧
      k'.buddy.freeFrames = k.buddy.freeFrames ∪ o.taken := by
  obtain ⟨before, after, rfl⟩ := List.append_of_mem ho
  obtain ⟨s', fl', hrun, hinv⟩ := h.kfree_live hoff hpage h0
  have hperm := heapBlocks_perm offset before after o slabs
  have htaken := (h.large o ho).taken
  -- the allocated frames lose those of the block
  have hrest : framesOf (heapBlocks offset (before ++ after) slabs)
      = framesOf (heapBlocks offset (before ++ o :: after) slabs) \ o.taken := by
    rw [htaken, ← framesOf_erase (block_mem ho) h.buddy.disjoint, framesOf_perm (hperm.erase _),
      List.erase_cons_head]
  have husable : o.taken ⊆ U := by
    rw [htaken]
    exact h.buddy.frames_sub (block_mem ho)
  refine ⟨_, hrun, ?_, fun f hf => ?_, fun f => ?_, ?_⟩
  · rw [htaken, Block.frames, ncard_block, LiveObject.block]
  · exact (h.buddy.state_allocated_iff f).mpr ⟨o.block offset, block_mem ho, htaken ▸ hf⟩
  · rw [hinv.buddy.state_allocated_iff, h.buddy.state_allocated_iff, hrest, Set.mem_sdiff]
  · rw [hinv.buddy.freeFrames_eq, h.buddy.freeFrames_eq, hrest, Set.sdiff_sdiff_right,
      Set.inter_eq_right.mpr husable]

end HeapInv

/-- **Isolation and exact return.** In every state of every run with requests of at most
`2 ^ 64 - 9` bytes: live regions are pairwise disjoint, meet no header, and lie in images of
allocated frames; every request ends; no client write is seen at a header; a free of a large
region ends and returns exactly the `2 ^ order` frames taken for it; and once no large region
is live, the free frames are the initial ones without the slabs of the caches. -/
theorem heap_isolation {response : Option MemmapResponse} {offset : Nat}
    (henv : HeapEnv response offset) (hwrap : buddyMaxPhys + offset ≤ 2 ^ 64) {s₀ : Buddy}
    (hinit : buddyInit response = .ok s₀) {k : Kernel} {live : List LiveObject}
    (run : HeapRun response offset (2 ^ 64 - 9) k live) :
    live.Pairwise (fun o o' => Disjoint o.region o'.region) ∧
    (∀ o ∈ live, Disjoint o.region (headerBytes offset k live)) ∧
    (∀ o ∈ live, ∀ a ∈ o.region, ∃ f, k.buddy.pageState f = pageStateAllocated ∧
      a ∈ Set.Ico (f * buddyPageSize + offset) (f * buddyPageSize + offset + buddyPageSize)) ∧
    (∀ size ≤ 2 ^ 64 - 9, ∃ r, kmalloc (some offset) k size = .ok r) ∧
    (∀ o ∈ live, ∀ a bytes value, o.ptr ≤ a → a + bytes ≤ o.ptr + o.size →
      ∃ k', k.store (some offset) a bytes value = .ok k' ∧
        k'.buddy = k.buddy ∧ k'.heapCaches = k.heapCaches ∧
        ∀ x ∈ headerBytes offset k live, k'.load (some offset) x 1 = k.load (some offset) x 1) ∧
    (∀ o ∈ live, ∃ k', kfree (some offset) k o.ptr = .ok k' ∧ (2048 < o.size →
      o.taken.ncard = 2 ^ buddyOrderFromPages (largePages o.size) ∧
      (∀ f ∈ o.taken, k.buddy.pageState f = pageStateAllocated) ∧
      (∀ f, k'.buddy.pageState f = pageStateAllocated ↔
        k.buddy.pageState f = pageStateAllocated ∧ f ∉ o.taken) ∧
      k'.buddy.freeFrames = k.buddy.freeFrames ∪ o.taken)) ∧
    ((∀ o ∈ live, ¬ 2048 < o.size) → k.buddy.freeFrames = s₀.freeFrames \ slabFrames k) := by
  obtain ⟨slabs, fl, hinv, hle⟩ := run.inv henv (by decide)
  obtain ⟨hok, h0, hoff, hpage⟩ := henv
  refine ⟨hinv.regions_disjoint hwrap hle,
    fun o ho => hinv.region_disjoint_headers hwrap h0 hle ho,
    fun o ho a ha => hinv.region_allocated hwrap ho (hle o ho) ha, fun size hsize => ?_,
    fun o ho a bytes value hlo hhi =>
      hinv.write_keeps_headers hoff h0 ho (hle o ho) value hlo hhi,
    fun o ho => ?_, fun hnone => ?_⟩
  · rcases hinv.kmalloc_cases hoff hpage h0 (Nat.lt_of_le_of_lt hsize (by decide)) with
      ⟨k', -, -, hrun, -⟩ | ⟨p, k', -, -, hrun, -⟩
    · exact ⟨_, hrun⟩
    · exact ⟨_, hrun⟩
  · obtain ⟨k', hrun, hexact⟩ := hinv.kfree_returns hoff hpage h0 ho
    exact ⟨k', hrun, fun _ => hexact⟩
  -- every region comes from a large request, so nothing is live and only the slabs hold frames
  · have hnil : live = [] := List.eq_nil_iff_forall_not_mem.mpr fun o ho =>
      hnone o ho (hinv.large o ho).large
    subst hnil
    obtain ⟨fl₀, hinv₀, -⟩ := (BuddyRun.init hinit).inv hok
    rw [hinv.buddy.freeFrames_eq, hinv₀.freeFrames_eq, hinv.slabFrames_eq h0, framesOf_nil,
      Set.sdiff_empty]
    rfl

/-- A request for 5000 bytes gets two pages of the sample map; its region starts behind the header.
-/
theorem heap_isolation_sampleMap :
    ∃ k o, HeapRun sampleMap sampleOffset (2 ^ 64 - 9) k [o] ∧ o.ptr = 0xFFFF800000004008 ∧
      o.size = 5000 ∧ Disjoint o.region (headerBytes sampleOffset k [o]) := by
  obtain ⟨s, s', hinit, halloc⟩ : ∃ s s', buddyInit sampleMap = .ok s ∧
      buddyAllocPages s (largePages 5000) = .ok (4 * buddyPageSize, s') := ⟨_, _, rfl, rfl⟩
  have run : HeapRun sampleMap sampleOffset (2 ^ 64 - 9) _ [_] :=
    .kmalloc (.init (k := bootKernel) hinit) (by decide)
      (kmalloc_of_alloc sampleEnv.offset_lt sampleEnv.offset_aligned (by decide) (by decide)
        (by decide) halloc (by decide)) (by decide)
  obtain ⟨-, hdisj, -⟩ := heap_isolation sampleEnv (by decide) hinit run
  exact ⟨_, _, run, rfl, rfl, hdisj _ List.mem_cons_self⟩

end Yoix
