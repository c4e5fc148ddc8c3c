import Yoix.Buddy.Run

/-!
# Exclusive ownership and the free-list representation

Two results about every run of the page allocator: the blocks it hands out are owned by one
client at a time, and the four arrays always hold one consistent set of free lists.
-/

namespace Yoix

open Dyadic Linked

/-- A map with one usable entry of five whole pages and one reserved entry, given with a
`NULL` entry in between. -/
def sampleMap : Option MemmapResponse :=
  some ⟨some [some ⟨0x1000, 0x5000, 0⟩, none, some ⟨0x6000, 0x1000, 1⟩]⟩

theorem sampleMap_ok : MemmapOk sampleMap where
  disjoint := by
    rw [show usableEntries sampleMap = [⟨0x1000, 0x5000, 0⟩] from rfl]
    exact List.pairwise_singleton _ _
  bounded := by decide

/-- The usable frames of the sample map are the five of its usable entry. -/
theorem mem_usableFrames_sampleMap {f : Nat} : f ∈ usableFrames sampleMap ↔ 1 ≤ f ∧ f ≤ 5 := by
  constructor
  · rintro ⟨e, he, -, hlo, hhi⟩
    rw [show usableEntries sampleMap = [⟨0x1000, 0x5000, 0⟩] from rfl, List.mem_singleton] at he
    subst he
    simp only [buddyPageSize] at *
    omega
  · rintro ⟨hlo, hhi⟩
    refine ⟨⟨0x1000, 0x5000, 0⟩, List.mem_cons_self, ?_⟩
    simp only [MemmapEntry.frames, Set.mem_ofPred_eq, buddyMaxPages, buddyMaxPhys, buddyPageSize]
    omega

/-- In `sampleMap` a first request for two pages gets the block at frame 4. -/
theorem sampleMap_two_pages : ∃ s s', BuddyRun sampleMap s [] ∧
    buddyAllocPages s 2 = .ok (0x4000, s') := by
  obtain ⟨s, hinit, hrepr⟩ := buddyInit_represents sampleMap_ok
  have htake : takeBlock (initLists sampleMap) (buddyOrderFromPages 2) = some (4, _) := rfl
  obtain ⟨s', hrun, -⟩ := hrepr.allocPages_of_some (by decide) (by decide) htake
  exact ⟨s, s', .init hinit, hrun⟩

/-- In `sampleMap` a second request for one page splits the block at frame 4, and the free of
that page joins it again. -/
theorem sampleMap_page_and_back : ∃ s₁ s₂ s, BuddyRun sampleMap s₁ [⟨1, 0⟩] ∧
    buddyAllocPages s₁ 1 = .ok (0x4000, s₂) ∧ buddyFreePages s₂ 0x4000 1 = .ok s ∧
    BuddyRun sampleMap s [⟨1, 0⟩] := by
  obtain ⟨s₀, hinit, hrepr⟩ := buddyInit_represents sampleMap_ok
  have htake₁ : takeBlock (initLists sampleMap) (buddyOrderFromPages 1) = some (1, _) := rfl
  obtain ⟨s₁, halloc₁, hrepr₁⟩ := hrepr.allocPages_of_some (by decide) (by decide) htake₁
  obtain ⟨s₂, halloc₂, -⟩ := hrepr₁.allocPages_of_some (by decide) (by decide)
    (show takeBlock _ (buddyOrderFromPages 1) = some (4, _) from rfl)
  have run₁ : BuddyRun sampleMap s₁ [⟨1, 0⟩] := (BuddyRun.init hinit).alloc halloc₁ (by decide)
  have run₂ : BuddyRun sampleMap s₂ [⟨4, 0⟩, ⟨1, 0⟩] := run₁.alloc halloc₂ (by decide)
  obtain ⟨fl, hinv, -⟩ := run₂.inv sampleMap_ok
  have hpage : (Block.mk 4 0).Named 1 := ⟨by decide, rfl⟩
  obtain ⟨s, hfree⟩ := hinv.free_ends List.mem_cons_self hpage
  exact ⟨s₁, s₂, s, run₁, halloc₂, hfree, run₂.free List.mem_cons_self hpage hfree⟩

/-! ## Ownership

What a request hands out, and that it stays apart from all that is live. -/

/-- The block of `2 ^ order` frames at `f` is what a request for `n` pages should get: the
smallest power of two that holds it, aligned, managed, usable, and apart from `live`. -/
structure ServesRequest (U : Set Nat) (live : List Block) (n f order : Nat) : Prop where
  holds : n ≤ 2 ^ order
  minimal : ∀ j, n ≤ 2 ^ j → order ≤ j
  aligned : 2 ^ order ∣ f
  managed : f + 2 ^ order ≤ 2 ^ 18
  usable : block f order ⊆ U
  fresh : ∀ b ∈ live, Disjoint (block f order) b.frames

/-- A block that became live serves its request: this is read off the invariant of the state after
the call. -/
theorem LiveInv.servesRequest {U : Set Nat} {s : Buddy} {live : List Block} {fl : FreeLists}
    {n g : Nat} (h : LiveInv U s (⟨g, buddyOrderFromPages n⟩ :: live) fl)
    (hn : n ≤ 2 ^ buddyMaxOrder) : ServesRequest U live n g (buddyOrderFromPages n) where
  holds := pages_le_two_pow_order hn
  minimal j hj := by
    by_contra hlt
    exact absurd (two_pow_lt_of_lt_order (Nat.not_le.mp hlt)) (Nat.not_lt.mpr hj)
  aligned := h.aligned _ List.mem_cons_self
  managed := h.repr.block_end_le (h.frames_sub (b := ⟨g, _⟩) List.mem_cons_self)
  usable := h.frames_sub (b := ⟨g, _⟩) List.mem_cons_self
  fresh := (List.pairwise_cons.mp h.disjoint).1

/-- **Exclusive ownership of pages.** Initialisation ends. In every state of every run each
request ends, and the address it returns is the base of a block that serves it; a free of a
live block ends; no two live blocks share a frame; the frames marked as allocated are exactly
those of the live blocks; and a free of a frame in no live block changes nothing. -/
theorem exclusive_ownership {response : Option MemmapResponse} (hok : MemmapOk response) :
    (∃ s, buddyInit response = .ok s) ∧
    ∀ s live, BuddyRun response s live →
      (∀ n, ∃ a s', buddyAllocPages s n = .ok (a, s') ∧ (a ≠ buddyInvalidAddress →
        ∃ f, a = f * buddyPageSize ∧
          ServesRequest (usableFrames response) live n f (buddyOrderFromPages n))) ∧
      (∀ b ∈ live, ∀ n, b.Named n → ∃ s', buddyFreePages s b.addr n = .ok s') ∧
      live.Pairwise (fun b c => Disjoint b.frames c.frames) ∧
      (∀ f, s.pageState f = pageStateAllocated ↔ ∃ b ∈ live, f ∈ b.frames) ∧
      (∀ a n, a < buddyMaxPhys → (∀ b ∈ live, a / buddyPageSize ∉ b.frames) →
        buddyFreePages s a n = .ok s) := by
  refine ⟨?_, fun s live run => ?_⟩
  · obtain ⟨s, hrun, -⟩ := buddyInit_represents hok
    exact ⟨s, hrun⟩
  obtain ⟨fl, hinv, -⟩ := run.inv hok
  refine ⟨fun n => ?_, fun b hb n hn => hinv.free_ends hb hn, hinv.disjoint,
    hinv.state_allocated_iff, fun a n ha hdead => ?_⟩
  · rcases hinv.alloc n with hfail | ⟨g, fl', s', -, hle, -, hrun, -, hinv'⟩
    · exact ⟨_, s, hfail, fun hne => absurd rfl hne⟩
    · exact ⟨_, s', hrun, fun _ => ⟨g, rfl, hinv'.servesRequest hle⟩⟩
  · exact hinv.freeDead ha fun ⟨b, hb, hi⟩ => hdead b hb hi

/-- With one page live and another one given back: the live frame is the only allocated one, and
a second free of the page given back changes nothing. -/
theorem exclusive_ownership_sampleMap :
    MemmapOk sampleMap ∧ ∃ s₁ s₂ s, buddyAllocPages s₁ 1 = .ok (0x4000, s₂) ∧
      buddyFreePages s₂ 0x4000 1 = .ok s ∧ BuddyRun sampleMap s [⟨1, 0⟩] ∧
      (∀ f, s.pageState f = pageStateAllocated ↔ f = 1) ∧
      buddyFreePages s 0x4000 1 = .ok s ∧ ∃ r, buddyAllocPages s 3 = .ok r := by
  obtain ⟨s₁, s₂, s, -, halloc, hfree, run⟩ := sampleMap_page_and_back
  obtain ⟨-, hruns⟩ := exclusive_ownership sampleMap_ok
  obtain ⟨hserve, -, -, hstate, hdead⟩ := hruns s _ run
  have hone : ∀ f, (∃ b ∈ [Block.mk 1 0], f ∈ b.frames) ↔ f = 1 := by
    intro f
    simp only [List.mem_singleton, exists_eq_left, Block.frames, block_zero,
      Set.mem_singleton_iff]
  refine ⟨sampleMap_ok, s₁, s₂, s, halloc, hfree, run, fun f => (hstate f).trans (hone f),
    hdead 0x4000 1 (by decide) fun b hb hin => ?_, ?_⟩
  · exact absurd ((hone _).mp ⟨b, hb, hin⟩) (by decide)
  · obtain ⟨a, s', hcall, -⟩ := hserve 3
    exact ⟨_, hcall⟩

/-! ## The free lists

The same states seen from the arrays: one list for each order, with the links in both directions,
and state bytes that fit. -/

/-- What the arrays say about list `k`: `frames` are its blocks in list order. -/
structure FreeListOk (s : Buddy) (k : Nat) (frames : List Nat) : Prop where
  /-- following `freeNext` visits `frames`, ends, and `freePrev` is its inverse -/
  linked : IsDll s.freeNext s.freePrev uint32Max (s.freeList k) frames
  mem_iff : ∀ f, f ∈ frames ↔ f < buddyMaxPages ∧ s.pageState f = k
  aligned : ∀ f ∈ frames, 2 ^ k ∣ f
  inside : ∀ f ∈ frames, f + 2 ^ k ≤ 2 ^ 18
  body : ∀ f ∈ frames, ∀ i, f < i → i < f + 2 ^ k → s.pageState i = pageStateFreeBody

/-- The represented list of an order is what the arrays say about it. -/
theorem LiveInv.freeListOk {U : Set Nat} {s : Buddy} {live : List Block} {fl : FreeLists}
    (h : LiveInv U s live fl) {k : Nat} (hk : k ≤ buddyMaxOrder) : FreeListOk s k (fl k) where
  linked := h.repr.lists k
  mem_iff f := by
    have hiff := h.repr.mem_iff_state hk (Set.notMem_empty f)
    exact ⟨fun hf => ⟨h.repr.head_lt hf, hiff.mp hf⟩, fun hf => hiff.mpr hf.2⟩
  aligned f hf := h.repr.tiling.aligned hf
  inside f hf := h.repr.block_end_le fun i hi => (h.repr.free_of_mem hf hi).1
  body f hf i hlt hend := h.repr.body hf ⟨hlt.le, hend⟩ hlt.ne'

/-- The merge loop of a free of a live block never finds a list inconsistent. -/
theorem LiveInv.mergeLoop_removes {U : Set Nat} {s : Buddy} {live : List Block} {fl : FreeLists}
    (h : LiveInv U s live fl) {b : Block} (hb : b ∈ live) (hle : b.order ≤ buddyMaxOrder) :
    ∃ exit f k s', mergeLoop (buddyMaxOrder - b.order) s b.frame b.order = .ok (exit, f, k, s') ∧
      exit ≠ .notRemoved := by
  have hsub : block b.frame b.order ⊆ framesOf live := fun i hi => ⟨b, hb, hi⟩
  obtain ⟨exit, s', hrun, hexit, -⟩ := (h.repr.takeAllocated hsub).mergeLoop
    (n := buddyMaxOrder - b.order) (h.aligned b hb) (by omega)
  exact ⟨exit, _, _, s', hrun, hexit⟩

/-- **The free-list representation invariant.** In every state of every run the arrays hold one
list of free blocks per order; the free blocks are disjoint and make up, with the allocated
frames, exactly the usable frames, and every other frame stays reserved. Requests and frees
therefore stay inside the arrays, and no removal inside a free fails. -/
theorem free_lists_representation {response : Option MemmapResponse} (hok : MemmapOk response)
    {s : Buddy} {live : List Block} (run : BuddyRun response s live) :
    ∃ lists : Nat → List Nat,
      (∀ k ≤ 18, FreeListOk s k (lists k)) ∧
      (∀ k ≤ 18, ∀ j ≤ 18, ∀ f ∈ lists k, ∀ g ∈ lists j, (f, k) ≠ (g, j) →
        Disjoint (block f k) (block g j)) ∧
      (∀ i, i ∈ usableFrames response ↔
        (∃ k ≤ 18, ∃ f ∈ lists k, i ∈ block f k) ∨ s.pageState i = pageStateAllocated) ∧
      (∀ i k f, k ≤ 18 → f ∈ lists k → i ∈ block f k → s.pageState i ≠ pageStateAllocated) ∧
      (∀ i, i ∉ usableFrames response → s.pageState i = pageStateReserved) ∧
      (∀ b ∈ live, ∀ n, b.Named n → ∃ exit f k s',
        mergeLoop (buddyMaxOrder - buddyOrderFromPages n) s b.frame (buddyOrderFromPages n)
          = .ok (exit, f, k, s') ∧ exit ≠ .notRemoved) ∧
      (∀ n, ∃ r, buddyAllocPages s n = .ok r) ∧
      (∀ b ∈ live, ∀ n, b.Named n → ∃ r, buddyFreePages s b.addr n = .ok r) ∧
      (∀ a n, a < buddyMaxPhys → (∀ b ∈ live, a / buddyPageSize ∉ b.frames) →
        ∃ r, buddyFreePages s a n = .ok r) := by
  obtain ⟨fl, hinv, -⟩ := run.inv hok
  refine ⟨fl, fun k hk => hinv.freeListOk hk, ?_, ?_, ?_, fun i hi => hinv.repr.reserved hi,
    ?_, ?_, fun b hb n hn => hinv.free_ends hb hn, ?_⟩
  · intro k _ j _ f hf g hg hne
    refine Set.disjoint_left.mpr fun i hi hi' => hne ?_
    obtain ⟨rfl, rfl⟩ := hinv.repr.tiling.unique hf hg hi hi'
    rfl
  -- the listed blocks and the live ones share out the usable frames
  · intro i
    rw [hinv.state_allocated_iff]
    constructor
    · intro hU
      by_cases hA : i ∈ framesOf live
      · exact Or.inr hA
      · obtain ⟨k, f, hf, hi⟩ := hinv.repr.tiling.cover ⟨hU, by simpa using hA⟩
        exact Or.inl ⟨k, hinv.repr.tiling.order_le hf, f, hf, hi⟩
    · rintro (⟨k, -, f, hf, hi⟩ | hA)
      · exact (hinv.repr.free_of_mem hf hi).1
      · exact hinv.repr.alloc_sub hA
  · intro i k f _ hf hi
    rw [ne_eq, hinv.state_allocated_iff]
    exact (hinv.repr.free_of_mem hf hi).2.1
  · rintro b hb n ⟨-, horder⟩
    rw [horder]
    exact hinv.mergeLoop_removes hb (horder ▸ buddyOrderFromPages_le n)
  -- no call ends in a fault
  · intro n
    rcases hinv.alloc n with hfail | ⟨g, fl', s', -, -, -, hrun, -, -⟩
    · exact ⟨_, hfail⟩
    · exact ⟨_, hrun⟩
  · intro a n ha hdead
    exact ⟨s, hinv.freeDead ha fun ⟨b, hb, hi⟩ => hdead b hb hi⟩

/-- With one page live and another one given back: the lists hold the frame given back, and not
the live one. -/
theorem free_lists_representation_sampleMap :
    MemmapOk sampleMap ∧ ∃ s, BuddyRun sampleMap s [⟨1, 0⟩] ∧
      ∃ lists : Nat → List Nat, (∀ k ≤ 18, FreeListOk s k (lists k)) ∧
        (∃ k ≤ 18, ∃ f ∈ lists k, 4 ∈ block f k) ∧
        ∀ k ≤ 18, ∀ f ∈ lists k, 1 ∉ block f k := by
  obtain ⟨s₁, s₂, s, -, -, -, run⟩ := sampleMap_page_and_back
  obtain ⟨lists, hlists, -, hcover, hapart, -⟩ := free_lists_representation sampleMap_ok run
  obtain ⟨fl, hinv, -⟩ := run.inv sampleMap_ok
  have hstate : ∀ f, s.pageState f = pageStateAllocated ↔ f = 1 := fun f => by
    rw [hinv.state_allocated_iff, framesOf_cons, framesOf_nil, Set.empty_union, Block.frames,
      block_zero, Set.mem_singleton_iff]
  refine ⟨sampleMap_ok, s, run, lists, hlists, ?_, fun k hk f hf hin => ?_⟩
  · have husable : 4 ∈ usableFrames sampleMap := mem_usableFrames_sampleMap.mpr (by decide)
    exact ((hcover 4).mp husable).resolve_right fun h => absurd ((hstate 4).mp h) (by decide)
  · exact hapart 1 k f hk hf hin ((hstate 1).mpr rfl)

end Yoix
