import Yoix.Buddy.Represents

/-!
# Allocation and freeing refine the abstract free lists

The loops of `buddy_allocate_block` and `buddy_free_pages` compute on the arrays what
`FreeLists.carve` and `FreeLists.coalesce` compute on the abstract lists. None of the steps
faults, so no index leaves its array, and `buddy_remove_free_block` never reports an
inconsistent list.
-/

namespace Yoix

open Dyadic Linked

/-! ## Orders

The order of a request is the smallest one whose blocks hold it, with 18 for all that is too large.
-/

/-- The loop stops at the first order that holds the request, or at its bound. -/
theorem orderFromPagesLoop_spec (pages : Nat) : ∀ {n o : Nat},
    let r := orderFromPagesLoop pages n (2 ^ o) o
    o ≤ r ∧ r ≤ o + n ∧ (∀ j, o ≤ j → j < r → 2 ^ j < pages) ∧ (r < o + n → pages ≤ 2 ^ r)
  | 0, o => ⟨Nat.le_refl _, Nat.le_refl _, fun j h1 h2 => absurd h2 (Nat.not_lt.mpr h1),
      fun h => absurd h (Nat.lt_irrefl _)⟩
  | n + 1, o => by
    by_cases hlt : 2 ^ o < pages
    · have hstep : orderFromPagesLoop pages (n + 1) (2 ^ o) o
          = orderFromPagesLoop pages n (2 ^ (o + 1)) (o + 1) := by
        simp only [orderFromPagesLoop, if_pos hlt, pow_succ]
      obtain ⟨h1, h2, h3, h4⟩ := orderFromPagesLoop_spec pages (n := n) (o := o + 1)
      rw [hstep]
      refine ⟨by omega, by omega, fun j hj hjr => ?_, fun h => h4 (by omega)⟩
      rcases Nat.eq_or_lt_of_le hj with rfl | hj
      · exact hlt
      · exact h3 j hj hjr
    · have hstep : orderFromPagesLoop pages (n + 1) (2 ^ o) o = o := by
        simp only [orderFromPagesLoop, if_neg hlt]
      rw [hstep]
      exact ⟨Nat.le_refl _, by omega, fun j h1 h2 => absurd h2 (Nat.not_lt.mpr h1),
        fun _ => Nat.not_lt.mp hlt⟩

theorem buddyOrderFromPages_le (pages : Nat) : buddyOrderFromPages pages ≤ buddyMaxOrder := by
  have h := (orderFromPagesLoop_spec pages (n := buddyMaxOrder) (o := 0)).2.1
  simpa [buddyOrderFromPages] using h

theorem two_pow_lt_of_lt_order {pages j : Nat} (hj : j < buddyOrderFromPages pages) :
    2 ^ j < pages :=
  (orderFromPagesLoop_spec pages (n := buddyMaxOrder) (o := 0)).2.2.1 j
    (Nat.zero_le j) hj

theorem pages_le_two_pow_order {pages : Nat} (h : pages ≤ 2 ^ buddyMaxOrder) :
    pages ≤ 2 ^ buddyOrderFromPages pages := by
  rcases Nat.eq_or_lt_of_le (buddyOrderFromPages_le pages) with heq | hlt
  · rw [heq]
    exact h
  · exact (orderFromPagesLoop_spec pages (n := buddyMaxOrder) (o := 0)).2.2.2
      (by simpa [buddyOrderFromPages] using hlt)

/-- The first check of `buddy_allocate_block` never stops a valid order. -/
theorem buddyAllocateBlock_eq {s : Buddy} {order : Nat} (h : order ≤ buddyMaxOrder) :
    buddyAllocateBlock s order = allocateLoop order (buddyMaxOrder + 1 - order) order s := by
  have hpos := Nat.two_pow_pos order
  have hle : 2 ^ order ≤ 2 ^ buddyMaxOrder := Nat.pow_le_pow_right (by decide) h
  have hguard : ¬ (2 ^ order * buddyPageSize % 2 ^ 32 < unsplittableSize ∨
      order > buddyMaxOrder) := by
    simp only [buddyMaxOrder, buddyPageSize, unsplittableSize] at *
    omega
  rw [buddyAllocateBlock, if_neg hguard]

/-- What a request for a block of order `order` takes from the abstract lists. -/
def takeBlock (fl : FreeLists) (order : Nat) : Option (Nat × FreeLists) :=
  fl.carve order (buddyMaxOrder + 1 - order) order

namespace Represents

variable {U A H : Set Nat} {s : Buddy} {fl : FreeLists}

/-! ## Allocation

Taking a block off the first list that has one and splitting it down is `carve` on the represented
lists. -/

/-- Splitting keeps the lowest block in transit and frees the rest. -/
theorem splitLoop (frame order : Nat) : ∀ {d : Nat} {H : Set Nat} {s : Buddy} {fl : FreeLists},
    Represents U A H s fl → order + d ≤ buddyMaxOrder → 2 ^ (order + d) ∣ frame →
    block frame (order + d) ⊆ H →
    ∃ s', Yoix.splitLoop frame order d s = .ok s' ∧
      Represents U A (H \ (block frame (order + d) \ block frame order)) s'
        (fl.split frame order d)
  | 0, H, s, fl, h, _, _, _ => by
    refine ⟨s, rfl, ?_⟩
    simpa [FreeLists.split] using h
  | d + 1, H, s, fl, h, hle, hdvd, hsub => by
    have hlow : 2 ^ (order + d) ∣ frame := (pow_dvd_pow 2 (by omega)).trans hdvd
    have hhalves : block frame (order + (d + 1))
        = block frame (order + d) ∪ block (frame + 2 ^ (order + d)) (order + d) :=
      block_succ frame (order + d)
    have hhalf : Disjoint (block frame (order + d))
        (block (frame + 2 ^ (order + d)) (order + d)) := by
      have := disjoint_buddy hlow
      rwa [buddy_of_dvd (k := order + d) hdvd] at this
    rw [hhalves] at hsub
    obtain ⟨s₁, hrun₁, h₁⟩ := h.addFreeBlock (by omega) (Nat.dvd_add hlow (dvd_refl _))
      (Set.subset_union_right.trans hsub)
    -- the lower half is still in transit
    have hkeep : block frame (order + d)
        ⊆ H \ block (frame + 2 ^ (order + d)) (order + d) := fun i hi =>
      ⟨hsub (Or.inl hi), Set.disjoint_left.mp hhalf hi⟩
    obtain ⟨s₂, hrun₂, h₂⟩ := splitLoop frame order h₁ (by omega) hlow hkeep
    refine ⟨s₂, ?_, ?_⟩
    · simp only [Yoix.splitLoop, hrun₁, ok_bind]
      exact hrun₂
    · have hout : block frame order ⊆ block frame (order + d) :=
        block_subset_of_mem ((pow_dvd_pow 2 (by omega)).trans hlow) hlow (by omega)
          (base_mem_block _ _) (base_mem_block _ _)
      have heq : (H \ block (frame + 2 ^ (order + d)) (order + d))
            \ (block frame (order + d) \ block frame order)
          = H \ (block frame (order + (d + 1)) \ block frame order) := by
        have hup : Disjoint (block (frame + 2 ^ (order + d)) (order + d)) (block frame order) :=
          hhalf.symm.mono_right hout
        rw [hhalves, Set.union_sdiff_distrib, hup.sdiff_eq_left, Set.sdiff_sdiff, Set.union_comm]
      rw [← heq]
      exact h₂

/-- Taking the first block of a list, splitting it and marking its lowest part. -/
theorem takeFirst {order c f : Nat} {rest : List Nat} (h : Represents U A ∅ s fl)
    (hlist : fl c = f :: rest) (hle : order ≤ c) :
    ∃ s₁ s₂, Yoix.splitLoop f order (c - order) (detached s f c) = .ok s₁ ∧
      buddyMarkBlockAllocated s₁ f order = .ok s₂ ∧
      Represents U (A ∪ block f order) ∅ s₂ ((fl.remove c f).split f order (c - order)) := by
  have hmem : f ∈ fl c := by rw [hlist]; exact List.mem_cons_self
  have haligned := h.tiling.aligned hmem
  have hco : order + (c - order) = c := by omega
  obtain ⟨s₁, hrun₁, h₁⟩ := (h.detach hmem).splitLoop f order (d := c - order)
    (by rw [hco]; exact h.tiling.order_le hmem) (by rw [hco]; exact haligned)
    (by rw [hco]; exact Set.subset_union_right)
  -- after the split exactly the block to hand out is in transit
  have hsub : block f order ⊆ block f c :=
    block_subset_of_mem ((pow_dvd_pow 2 hle).trans haligned) haligned hle
      (base_mem_block _ _) (base_mem_block _ _)
  have hhole : block f c \ (block f c \ block f order) = block f order :=
    Set.sdiff_sdiff_cancel_left hsub
  rw [hco, Set.empty_union, hhole] at h₁
  obtain ⟨s₂, hrun₂, h₂⟩ := h₁.markAllocated (f := f) (k := order) subset_rfl
  rw [Set.sdiff_self] at h₂
  exact ⟨s₁, s₂, hrun₁, hrun₂, h₂⟩

/-- The search loop takes what `carve` takes. Induction on the orders that are left; an empty list
passes on to the next order. -/
theorem allocateLoop {order : Nat} : ∀ {n c : Nat}, Represents U A ∅ s fl → order ≤ c →
    c + n ≤ buddyMaxOrder + 1 →
    (fl.carve order n c = none → Yoix.allocateLoop order n c s = .ok (uint32Max, s)) ∧
    (∀ g fl', fl.carve order n c = some (g, fl') →
      ∃ s', Yoix.allocateLoop order n c s = .ok (g, s') ∧
        Represents U (A ∪ block g order) ∅ s' fl')
  | 0, c, _, _, _ => ⟨fun _ => rfl, fun _ _ hcarve => by simp [FreeLists.carve] at hcarve⟩
  | n + 1, c, h, hle, hend => by
    have hc : c ≤ buddyMaxOrder := by omega
    cases hlist : fl c with
    -- no block of this order: the loop goes on to the next
    | nil =>
      have hhead := (h.lists c).head_eq_nil_iff.mpr hlist
      have hstep : Yoix.allocateLoop order (n + 1) c s = Yoix.allocateLoop order n (c + 1) s := by
        simp only [Yoix.allocateLoop, Buddy.getFreeList, if_pos hc, ok_bind, hhead, if_true]
      have hcarve : fl.carve order (n + 1) c = fl.carve order n (c + 1) := by
        simp only [FreeLists.carve, hlist]
      rw [hstep, hcarve]
      exact allocateLoop h (by omega) (by omega)
    -- the first block is taken and split down to the order
    | cons f rest =>
      have hcarve : fl.carve order (n + 1) c
          = some (f, (fl.remove c f).split f order (c - order)) := by
        simp only [FreeLists.carve, hlist, Tiling.update_tail_eq_remove hlist]
      rw [hcarve]
      refine ⟨fun hnone => absurd hnone (by simp), fun g fl' hsome => ?_⟩
      simp only [Option.some.injEq, Prod.mk.injEq] at hsome
      obtain ⟨rfl, rfl⟩ := hsome
      have hpop := h.buddyPopFreeBlock_eq hlist
      obtain ⟨s₁, s₂, hrun₁, hrun₂, h₂⟩ := h.takeFirst hlist hle
      refine ⟨s₂, ?_, h₂⟩
      have hne : s.freeList c ≠ uint32Max := by
        intro heq
        rw [(h.lists c).head_eq_nil_iff.mp heq] at hlist
        exact absurd hlist (by simp)
      simp only [Yoix.allocateLoop, Buddy.getFreeList, if_pos hc, ok_bind, if_neg hne, hpop,
        hrun₁, hrun₂]

/-- A request the allocator does not serve at all, or for which no list has a block. -/
theorem allocPages_of_none (h : Represents U A ∅ s fl) {pages : Nat}
    (hnone : 1 ≤ pages → pages ≤ 2 ^ buddyMaxOrder →
      takeBlock fl (buddyOrderFromPages pages) = none) :
    buddyAllocPages s pages = .ok (buddyInvalidAddress, s) := by
  unfold buddyAllocPages
  split
  · rfl
  · next hpages =>
    push Not at hpages
    have hle := buddyOrderFromPages_le pages
    have hrun := (h.allocateLoop (Nat.le_refl (buddyOrderFromPages pages)) (by omega)).1
      (hnone (by omega) hpages.2)
    simp only [buddyAllocateBlock_eq hle, hrun, ok_bind, if_true]

/-- A request served by the block `g`: its address is returned, and its frames are allocated. -/
theorem allocPages_of_some (h : Represents U A ∅ s fl) {pages g : Nat} {fl' : FreeLists}
    (hpos : 1 ≤ pages) (hle : pages ≤ 2 ^ buddyMaxOrder)
    (hsome : takeBlock fl (buddyOrderFromPages pages) = some (g, fl')) :
    ∃ s', buddyAllocPages s pages = .ok (g * buddyPageSize, s') ∧
      Represents U (A ∪ block g (buddyOrderFromPages pages)) ∅ s' fl' := by
  have horder := buddyOrderFromPages_le pages
  obtain ⟨s', hrun, h'⟩ := (h.allocateLoop (Nat.le_refl (buddyOrderFromPages pages))
    (by omega)).2 g fl' hsome
  refine ⟨s', ?_, h'⟩
  have hlt : g < buddyMaxPages :=
    h'.usable_lt (h'.alloc_sub (Or.inr (base_mem_block g _)))
  have hguard : ¬ (pages = 0 ∨ pages > 2 ^ buddyMaxOrder) := by omega
  simp only [buddyAllocPages, if_neg hguard, buddyAllocateBlock_eq horder, hrun, ok_bind,
    if_neg (ne_uint32Max_of_lt hlt)]

/-- A request for one page fails when no frame is free, or hands out a free frame. -/
theorem allocPage (h : Represents U A ∅ s fl) :
    (buddyAllocPage s = .ok (buddyInvalidAddress, s) ∧ U ⊆ A) ∨
    ∃ g s' fl', buddyAllocPage s = .ok (g * buddyPageSize, s') ∧ g ∈ U \ A ∧
      Represents U (A ∪ {g}) ∅ s' fl' := by
  have hone : buddyOrderFromPages 1 = 0 := by decide
  cases htake : takeBlock fl (buddyOrderFromPages 1) with
  | none =>
    refine Or.inl ⟨h.allocPages_of_none fun _ _ => htake, fun i hU => ?_⟩
    rw [hone, takeBlock, FreeLists.carve_eq_none_iff] at htake
    by_contra hA
    obtain ⟨k, f, hf, -⟩ := h.tiling.cover ⟨hU, by simpa using hA⟩
    have hk := h.tiling.order_le hf
    rw [htake k (Nat.zero_le k) (by omega)] at hf
    exact List.not_mem_nil hf
  | some r =>
    obtain ⟨s', hrun, h'⟩ := h.allocPages_of_some (Nat.le_refl 1) (by decide) htake
    obtain ⟨-, hsub, -⟩ := h.tiling.carve (Nat.le_refl _) htake
    rw [hone, block_zero] at h'
    have hg := hsub (base_mem_block r.1 _)
    exact Or.inr ⟨r.1, s', r.2, hrun, ⟨hg.1, fun hA => hg.2 (Or.inl hA)⟩, h'⟩

/-! ## Freeing

Merging a block with its free buddies and pushing the result is `release` on the represented lists.
-/

/-- The merge loop absorbs what `coalesce` absorbs, and never finds a list inconsistent. -/
theorem mergeLoop : ∀ {n f k : Nat} {s : Buddy} {fl : FreeLists},
    Represents U A (block f k) s fl → 2 ^ k ∣ f → k + n ≤ buddyMaxOrder →
    let r := fl.coalesce n f k
    ∃ exit s', Yoix.mergeLoop n s f k = .ok (exit, r.2.1, r.2.2, s') ∧ exit ≠ .notRemoved ∧
      Represents U A (block r.2.1 r.2.2) s' r.1
  | 0, f, k, s, fl, h, _, _ => ⟨.maxOrder, s, rfl, by decide, h⟩
  | n + 1, f, k, s, fl, h, hf, hle => by
    -- the buddy is not in transit, so its state byte says whether it is on its list
    have hout : f ^^^ 2 ^ k ∉ block f k := fun hin =>
      Set.disjoint_left.mp (disjoint_buddy hf) hin (base_mem_block _ _)
    have hiff := h.mem_iff_state (by omega : k ≤ buddyMaxOrder) hout
    by_cases hmem : f ^^^ 2 ^ k ∈ fl k
    · have hlt := h.head_lt hmem
      have hjoin : block f k ∪ block (f ^^^ 2 ^ k) k = block (min f (f ^^^ 2 ^ k)) (k + 1) :=
        (block_min_buddy hf).symm
      have hdet := h.detach hmem
      rw [hjoin] at hdet
      obtain ⟨exit, s', hrun, hexit, h'⟩ := mergeLoop (n := n) hdet (dvd_min_buddy hf) (by omega)
      have hcoal : fl.coalesce (n + 1) f k
          = (fl.remove k (f ^^^ 2 ^ k)).coalesce n (min f (f ^^^ 2 ^ k)) (k + 1) := by
        simp only [FreeLists.coalesce, if_pos hmem]
      rw [hcoal]
      refine ⟨exit, s', ?_, hexit, h'⟩
      have hmin : (if f < f ^^^ 2 ^ k then f else f ^^^ 2 ^ k) = min f (f ^^^ 2 ^ k) := by
        split <;> omega
      simp only [Yoix.mergeLoop, if_neg (Nat.not_le.mpr hlt), Buddy.getPageState, if_pos hlt,
        ok_bind, h.head hmem, ne_eq, not_true, if_false, h.buddyRemoveFreeBlock_eq hmem,
        Bool.true_eq_false, hmin]
      exact hrun
    · have hcoal : fl.coalesce (n + 1) f k = (fl, f, k) := by
        simp only [FreeLists.coalesce, if_neg hmem]
      rw [hcoal]
      -- the loop stops at a buddy that is not free or lies behind the managed frames
      by_cases hlt : f ^^^ 2 ^ k < buddyMaxPages
      · refine ⟨.notFree, s, ?_, by decide, h⟩
        have hstate : s.pageState (f ^^^ 2 ^ k) ≠ k := fun heq => hmem (hiff.mpr heq)
        simp only [Yoix.mergeLoop, if_neg (Nat.not_le.mpr hlt), Buddy.getPageState, if_pos hlt,
          ok_bind, ne_eq, hstate, not_false_eq_true, if_true]
      · refine ⟨.outOfRange, s, ?_, by decide, h⟩
        simp only [Yoix.mergeLoop, if_pos (Nat.not_lt.mp hlt)]

/-- The merge loop and then the push, from an aligned block of allocated frames. -/
theorem mergeAndPush (h : Represents U A ∅ s fl) {f order : Nat} (horder : order ≤ buddyMaxOrder)
    (hf : 2 ^ order ∣ f) (hsub : block f order ⊆ A) :
    ∃ exit f' k' s₁ s₂, Yoix.mergeLoop (buddyMaxOrder - order) s f order = .ok (exit, f', k', s₁) ∧
      buddyAddFreeBlock s₁ f' k' = .ok s₂ ∧
      Represents U (A \ block f order) ∅ s₂ (fl.release buddyMaxOrder f order) := by
  have htake := h.takeAllocated hsub
  obtain ⟨exit, s₁, hrun₁, -, h₁⟩ := htake.mergeLoop (n := buddyMaxOrder - order) hf (by omega)
  have hgrown := htake.tiling.coalesce (n := buddyMaxOrder - order)
    (by omega) hf (Set.disjoint_left.mpr fun i hi hfree => hfree.2 (Or.inr hi))
  obtain ⟨hk', hdvd', -, -, -⟩ := hgrown
  obtain ⟨s₂, hrun₂, h₂⟩ := h₁.addFreeBlock hk' hdvd' subset_rfl
  rw [Set.sdiff_self] at h₂
  exact ⟨exit, _, _, s₁, s₂, hrun₁, hrun₂, h₂⟩

/-- Freeing an aligned block of allocated frames at an address that passes the guards. The frame
number is the address's, cut to 32 bits. -/
theorem freePagesAt (h : Represents U A ∅ s fl) {a f pages : Nat} (ha0 : a ≠ 0)
    (hinv : a ≠ buddyInvalidAddress) (hpage : a % buddyPageSize = 0)
    (hframe : a / buddyPageSize % 2 ^ 32 = f) (hpos : 1 ≤ pages)
    (hf : 2 ^ buddyOrderFromPages pages ∣ f) (hsub : block f (buddyOrderFromPages pages) ⊆ A) :
    ∃ s', buddyFreePages s a pages = .ok s' ∧
      Represents U (A \ block f (buddyOrderFromPages pages)) ∅ s'
        (fl.release buddyMaxOrder f (buddyOrderFromPages pages)) := by
  have hlt : f < buddyMaxPages := h.usable_lt (h.alloc_sub (hsub (base_mem_block f _)))
  have hstate := h.allocated (hsub (base_mem_block f _))
  obtain ⟨exit, f', k', s₁, s₂, hrun₁, hrun₂, h₂⟩ :=
    h.mergeAndPush (buddyOrderFromPages_le pages) hf hsub
  refine ⟨s₂, ?_, h₂⟩
  have hguard : ¬ (a = 0 ∨ a = buddyInvalidAddress ∨ pages = 0) := by
    rintro (h0 | h0 | h0)
    · exact ha0 h0
    · exact hinv h0
    · omega
  simp only [buddyFreePages, if_neg hguard, hpage, ne_eq, not_true, if_false, hframe,
    if_neg (Nat.not_le.mpr hlt), Buddy.getPageState, if_pos hlt, ok_bind, hstate, hrun₁]
  exact hrun₂

/-- Freeing an aligned block of allocated frames that is not at address 0. -/
theorem freePages (h : Represents U A ∅ s fl) {f pages : Nat} (hf0 : f ≠ 0) (hpos : 1 ≤ pages)
    (hf : 2 ^ buddyOrderFromPages pages ∣ f) (hsub : block f (buddyOrderFromPages pages) ⊆ A) :
    ∃ s', buddyFreePages s (f * buddyPageSize) pages = .ok s' ∧
      Represents U (A \ block f (buddyOrderFromPages pages)) ∅ s'
        (fl.release buddyMaxOrder f (buddyOrderFromPages pages)) := by
  have hlt : f < buddyMaxPages := h.usable_lt (h.alloc_sub (hsub (base_mem_block f _)))
  apply h.freePagesAt _ _ (Nat.mul_mod_left _ _) _ hpos hf hsub
  all_goals
    simp only [buddyMaxPages, buddyMaxPhys, buddyPageSize, buddyInvalidAddress] at hlt ⊢
    omega

/-- Between the calls a state byte says `ALLOCATED` exactly for the frames that are allocated, so
the free of a frame can be checked by it. -/
theorem state_allocated_iff (h : Represents U A ∅ s fl) (f : Nat) :
    s.pageState f = pageStateAllocated ↔ f ∈ A := by
  refine ⟨fun hstate => ?_, h.allocated⟩
  by_contra hout
  by_cases hU : f ∈ U
  · obtain ⟨k, g, hg, hi⟩ := h.tiling.cover ⟨hU, by simpa using hout⟩
    have hk := h.tiling.order_le hg
    by_cases heq : f = g
    · rw [heq, h.head hg] at hstate
      rw [hstate] at hk
      exact absurd hk (by decide)
    · rw [h.body hg hi heq] at hstate
      exact absurd hstate (by decide)
  · rw [h.reserved hU] at hstate
    exact absurd hstate (by decide)

/-- **Freeing one page at any address ends.** At most the frame that the address names, cut to
32 bits, stops being allocated. -/
theorem freePage (h : Represents U A ∅ s fl) (a : Nat) :
    ∃ s' A' fl', buddyFreePage s a = .ok s' ∧ Represents U A' ∅ s' fl' ∧ A' ⊆ A ∧
      A \ {a / buddyPageSize % 2 ^ 32} ⊆ A' := by
  -- a rejected call changes nothing
  have hkeep : ∀ s', buddyFreePage s a = .ok s' → s' = s → ∃ s' A' fl',
      buddyFreePage s a = .ok s' ∧ Represents U A' ∅ s' fl' ∧ A' ⊆ A ∧
        A \ {a / buddyPageSize % 2 ^ 32} ⊆ A' := by
    intro s' hrun heq
    exact ⟨s, A, fl, heq ▸ hrun, h, subset_rfl, Set.sdiff_subset⟩
  have hone : buddyOrderFromPages 1 = 0 := by decide
  by_cases hguard : a = 0 ∨ a = buddyInvalidAddress ∨ (1 : Nat) = 0
  · exact hkeep s (by rw [buddyFreePage, buddyFreePages, if_pos hguard]) rfl
  by_cases hpage : a % buddyPageSize = 0
  · by_cases hmem : a / buddyPageSize % 2 ^ 32 ∈ A
    · push Not at hguard
      have hblock : block (a / buddyPageSize % 2 ^ 32) (buddyOrderFromPages 1)
          = {a / buddyPageSize % 2 ^ 32} := by
        rw [hone]
        exact block_zero _
      obtain ⟨s', hrun, h'⟩ := h.freePagesAt hguard.1 hguard.2.1 hpage rfl
        (Nat.le_refl 1) (by rw [hone]; exact Nat.one_dvd _) (by rw [hblock]; simpa using hmem)
      rw [hblock] at h'
      exact ⟨s', _, _, hrun, h', Set.sdiff_subset, subset_rfl⟩
    · have hstate := mt (h.state_allocated_iff _).mp hmem
      apply hkeep s _ rfl
      by_cases hlt : a / buddyPageSize % 2 ^ 32 < buddyMaxPages
      · simp only [buddyFreePage, buddyFreePages, if_neg hguard, hpage, ne_eq, not_true, if_false,
          if_neg (Nat.not_le.mpr hlt), Buddy.getPageState, if_pos hlt, ok_bind, hstate,
          not_false_eq_true, if_true]
      · simp only [buddyFreePage, buddyFreePages, if_neg hguard, hpage, ne_eq, not_true, if_false,
          if_pos (Nat.not_lt.mp hlt)]
  · exact hkeep s (by simp only [buddyFreePage, buddyFreePages, if_neg hguard, ne_eq, hpage,
      not_false_eq_true, if_true]) rfl

end Represents

end Yoix
