import Yoix.Buddy.RejectedFrees

/-!
# Frees that name no live block

A call of `buddy_free_pages` names a run of frames: as many as its page count rounds to, from the frame
of its address on. The allocator keeps no record of how large a live block is, so a run that starts in a
live block is freed as it was named, whether or not it is a block that was handed out.

What this does is worked out here for any run, aligned or not, live or not:

* `freePages_ends_iff`: the call stays inside the arrays exactly when the run does;
* `freeFrame_freed_iff`: of the live frames, exactly those of the run enter a free block;
* `consistent_freed_iff`: the arrays represent the rest of the live frames exactly when the run is aligned
  and live. On an overlap with a free block, that block stays linked although its state byte is gone.

`mismatched_frees` puts this together for the runs of the allocator.
-/

namespace Yoix

open Dyadic Linked

/-- The frames that a call names. -/
def namedRun (a n : Nat) : Set Nat := block (freedFrame a) (buddyOrderFromPages n)

/-- The run is aligned to its size and live. -/
def NamesLive (A : Set Nat) (a n : Nat) : Prop :=
  2 ^ buddyOrderFromPages n ∣ freedFrame a ∧ namedRun a n ⊆ A

/-- The arrays represent some free lists next to the live frames `A`. -/
def Consistent (U A : Set Nat) (s : Buddy) : Prop := ∃ fl, Represents U A ∅ s fl

/-! ## The merge loop on any run

The loop grows the run `B` by the free buddies it finds. When `B` is not aligned there are none: a buddy
on a list is aligned, and then so is what it is the buddy of. -/

/-- What the loop makes of the block `f`, `k` with the frames `B`: a block of `B` and of frames `H'` that
were free. -/
structure Merged (U A B : Set Nat) (f k f' k' : Nat) (s' : Buddy) (H' : Set Nat) (fl' : FreeLists) :
    Prop where
  repr : Represents U A H' s' fl'
  block_eq : block f' k' = B ∪ H'
  apart : Disjoint B H'
  order_le : k' ≤ buddyMaxOrder
  base_le : f' ≤ f
  stays : (f' = f ∧ k' = k) ∨ (2 ^ k ∣ f ∧ 2 ^ k' ∣ f')

/-- A frame whose buddy is on a list is aligned. -/
theorem Represents.dvd_of_buddy {U A H : Set Nat} {s : Buddy} {fl : FreeLists} {f k : Nat}
    (h : Represents U A H s fl) (hmem : f ^^^ 2 ^ k ∈ fl k) : 2 ^ k ∣ f := by
  have hdvd := h.tiling.aligned hmem
  have hback : f = (f ^^^ 2 ^ k) ^^^ 2 ^ k := (buddy_buddy f k).symm
  by_cases hupper : 2 ^ (k + 1) ∣ f ^^^ 2 ^ k
  · rw [hback, buddy_of_dvd hupper]
    exact Nat.dvd_add hdvd (dvd_refl _)
  · rw [hback, (buddy_of_not_dvd hdvd hupper).2.1]
    exact Nat.dvd_sub hdvd (dvd_refl _)

/-- The merge loop on any run, aligned or not. Either it is aligned, and the loop absorbs free
buddies as for a live block, or it is not and has no free buddy at all. -/
theorem Represents.mergeLoop_merged {U A B : Set Nat} : ∀ {n f k : Nat} {H : Set Nat} {s : Buddy}
    {fl : FreeLists}, Represents U A H s fl → block f k = B ∪ H → Disjoint B H →
    2 ^ k ∣ f ∨ H = ∅ → k + n ≤ buddyMaxOrder →
    ∃ exit f' k' s' H' fl', Yoix.mergeLoop n s f k = .ok (exit, f', k', s') ∧
      Merged U A B f k f' k' s' H' fl'
  | 0, f, k, H, s, fl, h, hblock, hapart, _, hle =>
    ⟨.maxOrder, f, k, s, H, fl, rfl, h, hblock, hapart, hle, Nat.le_refl f, Or.inl ⟨rfl, rfl⟩⟩
  | n + 1, f, k, H, s, fl, h, hblock, hapart, halign, hle => by
    have hk : k ≤ buddyMaxOrder := by omega
    have hstop : Merged U A B f k f k s H fl :=
      ⟨h, hblock, hapart, hk, Nat.le_refl f, Or.inl ⟨rfl, rfl⟩⟩
    -- the buddy is not in transit, so its state byte says whether it is on its list
    have hout : f ^^^ 2 ^ k ∉ H := by
      cases halign with
      | inl hf =>
        intro hin
        have hmem : f ^^^ 2 ^ k ∈ block f k := hblock ▸ Or.inr hin
        exact Set.disjoint_left.mp (disjoint_buddy hf) hmem (base_mem_block _ _)
      | inr hnone =>
        rw [hnone]
        exact Set.notMem_empty _
    have hiff := h.mem_iff_state hk hout
    by_cases hmem : f ^^^ 2 ^ k ∈ fl k
    · have hf := h.dvd_of_buddy hmem
      have hlt := h.head_lt hmem
      have hgrown : block (min f (f ^^^ 2 ^ k)) (k + 1) = B ∪ (H ∪ block (f ^^^ 2 ^ k) k) := by
        rw [block_min_buddy hf, hblock, Set.union_assoc]
      have hapart' : Disjoint B (H ∪ block (f ^^^ 2 ^ k) k) := by
        refine Set.disjoint_union_right.mpr ⟨hapart, Set.disjoint_left.mpr fun i hi => ?_⟩
        exact Set.disjoint_left.mp (disjoint_buddy hf) (hblock ▸ Or.inl hi)
      obtain ⟨exit, f', k', s', H', fl', hrun, hmerged⟩ := mergeLoop_merged (n := n) (h.detach hmem)
        hgrown hapart' (Or.inl (dvd_min_buddy hf)) (by omega)
      refine ⟨exit, f', k', s', H', fl', ?_, hmerged.repr, hmerged.block_eq, hmerged.apart,
        hmerged.order_le, hmerged.base_le.trans (min_le_left _ _), Or.inr ?_⟩
      · have hmin : (if f < f ^^^ 2 ^ k then f else f ^^^ 2 ^ k) = min f (f ^^^ 2 ^ k) := by
          split <;> omega
        simp only [Yoix.mergeLoop, if_neg (Nat.not_le.mpr hlt), Buddy.getPageState, if_pos hlt,
          ok_bind, h.head hmem, ne_eq, not_true, if_false, h.buddyRemoveFreeBlock_eq hmem,
          Bool.true_eq_false, hmin]
        exact hrun
      · refine ⟨hf, ?_⟩
        cases hmerged.stays with
        | inl heq =>
          rw [heq.1, heq.2]
          exact dvd_min_buddy hf
        | inr hdvd => exact hdvd.2
    · -- the loop stops at a buddy that is not free or lies behind the managed frames
      by_cases hlt : f ^^^ 2 ^ k < buddyMaxPages
      · refine ⟨.notFree, f, k, s, H, fl, ?_, hstop⟩
        have hstate : s.pageState (f ^^^ 2 ^ k) ≠ k := fun heq => hmem (hiff.mpr heq)
        simp only [Yoix.mergeLoop, if_neg (Nat.not_le.mpr hlt), Buddy.getPageState, if_pos hlt,
          ok_bind, ne_eq, hstate, not_false_eq_true, if_true]
      · refine ⟨.outOfRange, f, k, s, H, fl, ?_, hstop⟩
        simp only [Yoix.mergeLoop, if_pos (Nat.not_lt.mp hlt)]

namespace Merged

variable {U A B : Set Nat} {f k f' k' : Nat} {s' : Buddy} {H' : Set Nat} {fl' : FreeLists}

/-- The grown block ends inside the arrays exactly when the run does: growing keeps it aligned. -/
theorem end_le_iff (h : Merged U A (block f k) f k f' k' s' H' fl') (hf : f < buddyMaxPages) :
    f' + 2 ^ k' ≤ buddyMaxPages ↔ f + 2 ^ k ≤ buddyMaxPages := by
  cases h.stays with
  | inl heq => rw [heq.1, heq.2]
  | inr hdvd =>
    have hbound : f' + 2 ^ k' ≤ buddyMaxPages := by
      have hpages : 2 ^ k' ∣ buddyMaxPages :=
        (pow_dvd_pow 2 h.order_le).trans (show 2 ^ buddyMaxOrder ∣ buddyMaxPages by decide)
      have hbase := h.base_le
      have hpos := Nat.two_pow_pos k'
      exact Nat.le_of_lt_add_of_dvd (by omega) (Nat.dvd_add hdvd.2 (dvd_refl _)) hpages
    refine iff_of_true hbound ?_
    have hpos := Nat.two_pow_pos k
    have hlast : f + (2 ^ k - 1) ∈ block f' k' := by
      rw [h.block_eq]
      exact Or.inl (mem_block.mpr ⟨by omega, by omega⟩)
    have hend := (mem_block.mp hlast).2
    omega

/-- The frames that the loop took off the lists are not live. -/
theorem mem_run_of_live (h : Merged U A B f k f' k' s' H' fl') {i : Nat} (hA : i ∈ A)
    (hi : i ∈ block f' k') : i ∈ B := by
  rw [h.block_eq] at hi
  exact hi.resolve_right (Set.disjoint_left.mp h.repr.disjoint hA)

/-- **What enters a free block.** Of the live frames, those of the run. -/
theorem freeFrame_pushed_iff (h : Merged U A B f k f' k' s' H' fl') (hf : f < buddyMaxPages) {i : Nat}
    (hA : i ∈ A) : (Represents.pushed s' f' k').FreeFrame i ↔ i ∈ B := by
  constructor
  · rintro ⟨j, hj, g, -, hstate, hi⟩
    by_cases hg : g ∈ block f' k'
    · -- in the block only the first byte is an order
      have hgf : g = f' := by
        by_contra hne
        simp only [Represents.pushed, markFree, if_neg hne, if_pos (mem_block.mp hg)] at hstate
        rw [← hstate] at hj
        exact absurd hj (by decide)
      have hjk : j = k' := by
        rw [← hstate, hgf]
        simp [Represents.pushed, markFree]
      rw [hgf, hjk] at hi
      exact h.mem_run_of_live hA hi
    · rw [Represents.pushed_pageState hg] at hstate
      have hout : g ∉ H' := fun hin => hg (h.block_eq ▸ Or.inr hin)
      exact absurd hA (h.repr.free_of_mem ((h.repr.mem_iff_state hj hout).mpr hstate) hi).2.1
  · intro hi
    refine ⟨k', h.order_le, f', Nat.lt_of_le_of_lt h.base_le hf, ?_, h.block_eq ▸ Or.inl hi⟩
    simp [Represents.pushed, markFree]

/-- A free block that meets the run lies inside the grown block, because the run starts in a live frame. -/
theorem inside_of_meets (h : Merged U A (block f k) f k f' k' s' H' fl') (hfA : f ∈ A)
    (hdvd : 2 ^ k' ∣ f') {g j i : Nat} (hg : g ∈ fl' j) (hi : i ∈ block g j) (hin : i ∈ block f k) :
    j < k' ∧ block g j ⊆ block f' k' := by
  have hin' : i ∈ block f' k' := h.block_eq ▸ Or.inl hin
  have hbase : f ∈ block f' k' := h.block_eq ▸ Or.inl (base_mem_block f k)
  have hlt : j < k' := by
    by_contra hle
    have hsub := block_subset_of_mem hdvd (h.repr.tiling.aligned hg) (Nat.not_lt.mp hle) hin' hi
    exact (h.repr.free_of_mem hg (hsub hbase)).2.1 hfA
  exact ⟨hlt, block_subset_of_mem (h.repr.tiling.aligned hg) hdvd hlt.le hi hin'⟩

/-- An overlapped free block stays on its list, whatever else the arrays may say. -/
theorem not_represents_of_overlap (h : Merged U A (block f k) f k f' k' s' H' fl') {A' : Set Nat}
    {fl'' : FreeLists} (hrepr : Represents U A' ∅ (Represents.pushed s' f' k') fl'') {g j : Nat}
    (hg : g ∈ fl' j) (hj : j < k') (hin : g ∈ block f' k') : False := by
  -- the first node of the list that lies in the block; the links in front of it are the old ones
  obtain ⟨as, bs, x, hlist, hx, hbefore⟩ : ∃ as bs x, fl' j = as ++ x :: bs ∧ x ∈ block f' k' ∧
      ∀ y ∈ as, y ∉ block f' k' := by
    have hex : ∃ x ∈ fl' j, x ∈ block f' k' := ⟨g, hg, hin⟩
    revert hex
    generalize fl' j = l
    intro hex
    induction l with
    | nil =>
      obtain ⟨x, hx, -⟩ := hex
      exact absurd hx List.not_mem_nil
    | cons y l ih =>
      by_cases hy : y ∈ block f' k'
      · exact ⟨[], l, y, rfl, hy, fun z hz => absurd hz List.not_mem_nil⟩
      · obtain ⟨x, hx, hxin⟩ := hex
        have hxl : x ∈ l := (List.mem_cons.mp hx).resolve_left fun heq => hy (heq ▸ hxin)
        obtain ⟨as, bs, z, rfl, hz, hbefore⟩ := ih ⟨x, hxl, hxin⟩
        exact ⟨y :: as, bs, z, rfl, hz, List.forall_mem_cons.mpr ⟨hy, hbefore⟩⟩
  have hold := h.repr.lists j
  have hnew := hrepr.lists j
  have hhead : (Represents.pushed s' f' k').freeList j = s'.freeList j :=
    Function.update_of_ne (Nat.ne_of_lt hj) _ _
  rw [hlist] at hold
  rw [hhead] at hnew
  have hmem : x ∈ fl'' j := hold.mem_of_agree hnew fun y hy =>
    Function.update_of_ne (fun heq : y = f' => hbefore y hy (heq ▸ base_mem_block f' k')) _ _
  -- but its state byte is not `j` any more
  have hstate := hrepr.head hmem
  have hjle := hrepr.tiling.order_le hmem
  by_cases hxf : x = f'
  · rw [hxf] at hstate
    simp only [Represents.pushed, markFree, if_true] at hstate
    omega
  · simp only [Represents.pushed, markFree, if_neg hxf, if_pos (mem_block.mp hx)] at hstate
    rw [← hstate] at hjle
    exact absurd hjle (by decide)

/-- The arrays are consistent afterwards only if the run is aligned and live. -/
theorem names_live (h : Merged U A (block f k) f k f' k' s' H' fl') (hfA : f ∈ A) {A' : Set Nat}
    (hcons : Consistent U A' (Represents.pushed s' f' k')) : 2 ^ k ∣ f ∧ block f k ⊆ A := by
  obtain ⟨fl'', hrepr⟩ := hcons
  have hmark : (Represents.pushed s' f' k').pageState f' = k' := by
    simp [Represents.pushed, markFree]
  have hdvd : 2 ^ k' ∣ f' :=
    hrepr.tiling.aligned ((hrepr.mem_iff_state h.order_le (Set.notMem_empty _)).mpr hmark)
  have hlive : block f k ⊆ A := by
    intro i hi
    by_contra hnot
    have hin : i ∈ block f' k' := h.block_eq ▸ Or.inl hi
    -- the frame is usable, since it is not reserved afterwards
    have hU : i ∈ U := by
      by_contra hout
      have hres := hrepr.reserved hout
      have hk := h.order_le
      by_cases heq : i = f'
      · rw [heq, hmark] at hres
        rw [hres] at hk
        exact absurd hk (by decide)
      · simp only [Represents.pushed, markFree, if_neg heq, if_pos (mem_block.mp hin)] at hres
        exact absurd hres (by decide)
    have hH : i ∉ H' := Set.disjoint_left.mp h.apart hi
    obtain ⟨j, g, hg, hig⟩ := h.repr.tiling.cover ⟨hU, fun hor => hor.elim hnot hH⟩
    obtain ⟨hj, hsub⟩ := h.inside_of_meets hfA hdvd hg hig hi
    exact h.not_represents_of_overlap hrepr hg hj (hsub (base_mem_block g j))
  refine ⟨?_, hlive⟩
  cases h.stays with
  | inl heq =>
    rw [← heq.1, ← heq.2]
    exact hdvd
  | inr hdvd' => exact hdvd'.1

end Merged

/-! ## A call that is carried out

Past the checks the call is the merge loop on the run that was named, followed by a push of what the
loop has made of it. -/

namespace Represents

variable {U A : Set Nat} {s : Buddy} {fl : FreeLists} {a n : Nat}

/-- The merge loop ends, and what is left of the call is to put the grown block on its list. -/
theorem carriedOut (h : Represents U A ∅ s fl) (hpass : ¬ RejectedFree A a n) :
    freedFrame a ∈ A ∧ freedFrame a < buddyMaxPages ∧
    ∃ f' k' s₁ H' fl', buddyFreePages s a n = buddyAddFreeBlock s₁ f' k' ∧
      Merged U A (namedRun a n) (freedFrame a) (buddyOrderFromPages n) f' k' s₁ H' fl' := by
  have hmem : freedFrame a ∈ A := by
    unfold RejectedFree at hpass
    tauto
  refine ⟨hmem, h.usable_lt (h.alloc_sub hmem), ?_⟩
  have horder := buddyOrderFromPages_le n
  obtain ⟨exit, f', k', s₁, H', fl', hrun, hmerged⟩ := h.mergeLoop_merged
    (n := buddyMaxOrder - buddyOrderFromPages n) (f := freedFrame a) (k := buddyOrderFromPages n)
    (Set.union_empty (namedRun a n)).symm (Set.disjoint_empty _) (Or.inr rfl) (by omega)
  refine ⟨f', k', s₁, H', fl', ?_, hmerged⟩
  rw [buddyFreePages_of_checks (mt h.ignored_iff.mp hpass)]
  dsimp only
  rw [hrun, ok_bind]

/-- **A call stays inside the arrays** exactly when it is rejected or its run does. -/
theorem freePages_ends_iff (h : Represents U A ∅ s fl) :
    (∃ s', buddyFreePages s a n = .ok s') ↔
      RejectedFree A a n ∨ freedFrame a + 2 ^ buddyOrderFromPages n ≤ buddyMaxPages := by
  by_cases hrej : RejectedFree A a n
  · exact iff_of_true ⟨s, (buddyFreePages_eq_self_iff s a n).mpr (h.ignored_iff.mpr hrej)⟩ (Or.inl hrej)
  obtain ⟨-, hlt, f', k', s₁, H', fl', hrun, hmerged⟩ := h.carriedOut hrej
  rw [hrun, or_iff_right hrej, ← hmerged.end_le_iff hlt]
  constructor
  · rintro ⟨s', hadd⟩
    unfold buddyAddFreeBlock at hadd
    obtain ⟨s₂, hmark, -⟩ := bind_eq_ok.mp hadd
    exact buddyMarkBlockFree_inside hmark
  · intro hend
    exact ⟨_, hmerged.repr.buddyAddFreeBlock_eq hmerged.order_le hend⟩

/-- What a call that is carried out and ends leaves behind. -/
theorem freePages_pushed (h : Represents U A ∅ s fl) (hpass : ¬ RejectedFree A a n) {s' : Buddy}
    (hrun : buddyFreePages s a n = .ok s') :
    freedFrame a ∈ A ∧ freedFrame a < buddyMaxPages ∧ ∃ f' k' s₁ H' fl', s' = pushed s₁ f' k' ∧
      Merged U A (namedRun a n) (freedFrame a) (buddyOrderFromPages n) f' k' s₁ H' fl' := by
  obtain ⟨hmem, hlt, f', k', s₁, H', fl', heq, hmerged⟩ := h.carriedOut hpass
  have hend := (h.freePages_ends_iff.mp ⟨s', hrun⟩).resolve_left hpass
  rw [heq, hmerged.repr.buddyAddFreeBlock_eq hmerged.order_le ((hmerged.end_le_iff hlt).mpr hend)]
    at hrun
  exact ⟨hmem, hlt, f', k', s₁, H', fl', (Except.ok.inj hrun).symm, hmerged⟩

/-- **What a call frees.** Of the live frames exactly those of the run enter a free block. -/
theorem freeFrame_freed_iff (h : Represents U A ∅ s fl) (hpass : ¬ RejectedFree A a n) {s' : Buddy}
    (hrun : buddyFreePages s a n = .ok s') {i : Nat} (hi : i ∈ A) :
    s'.FreeFrame i ↔ i ∈ namedRun a n := by
  obtain ⟨-, hlt, f', k', s₁, H', fl', rfl, hmerged⟩ := h.freePages_pushed hpass hrun
  exact hmerged.freeFrame_pushed_iff hlt hi

/-- An aligned run of live frames is given back as a block is. -/
theorem freePages_named (h : Represents U A ∅ s fl) (hpass : ¬ RejectedFree A a n)
    (hlive : NamesLive A a n) :
    ∃ s', buddyFreePages s a n = .ok s' ∧ Consistent U (A \ namedRun a n) s' := by
  have hparts : a ≠ 0 ∧ 1 ≤ n ∧ a % buddyPageSize = 0 := by
    unfold RejectedFree at hpass
    push Not at hpass
    exact ⟨hpass.1, Nat.one_le_iff_ne_zero.mpr hpass.2.1, hpass.2.2.1⟩
  obtain ⟨hzero, hpos, hpage⟩ := hparts
  have hinvalid : a ≠ buddyInvalidAddress := by
    rintro rfl
    exact absurd hpage (by decide)
  obtain ⟨s', hrun, hrepr⟩ := h.freePagesAt hzero hinvalid hpage rfl hpos hlive.1 hlive.2
  exact ⟨s', hrun, _, hrepr⟩

/-- **When the arrays stay consistent.** Exactly when the run is aligned and live. -/
theorem consistent_freed_iff (h : Represents U A ∅ s fl) (hpass : ¬ RejectedFree A a n) {s' : Buddy}
    (hrun : buddyFreePages s a n = .ok s') :
    Consistent U (A \ namedRun a n) s' ↔ NamesLive A a n := by
  constructor
  · intro hcons
    obtain ⟨hmem, -, f', k', s₁, H', fl', rfl, hmerged⟩ := h.freePages_pushed hpass hrun
    exact hmerged.names_live hmem hcons
  · intro hlive
    obtain ⟨s₁, hrun₁, hcons⟩ := h.freePages_named hpass hlive
    rw [ok_unique hrun hrun₁]
    exact hcons

end Represents

/-! ## Runs with such frees

A run goes on with any frees that are rejected or name an aligned run of live frames: single pages of a
larger block, parts of it, or blocks that were allocated one by one and lie side by side. -/

/-- The state and the live frames after some more calls. -/
inductive FrameRun (s₀ : Buddy) (A₀ : Set Nat) : Buddy → Set Nat → Prop where
  | start : FrameRun s₀ A₀ s₀ A₀
  | alloc {s s' : Buddy} {A : Set Nat} {n a : Nat} (run : FrameRun s₀ A₀ s A)
      (h : buddyAllocPages s n = .ok (a, s')) (ha : a ≠ buddyInvalidAddress) :
      FrameRun s₀ A₀ s' (A ∪ block (a / buddyPageSize) (buddyOrderFromPages n))
  | allocFail {s s' : Buddy} {A : Set Nat} {n : Nat} (run : FrameRun s₀ A₀ s A)
      (h : buddyAllocPages s n = .ok (buddyInvalidAddress, s')) : FrameRun s₀ A₀ s' A
  | reject {s s' : Buddy} {A : Set Nat} {a n : Nat} (run : FrameRun s₀ A₀ s A)
      (hrej : RejectedFree A a n) (h : buddyFreePages s a n = .ok s') : FrameRun s₀ A₀ s' A
  | free {s s' : Buddy} {A : Set Nat} {a n : Nat} (run : FrameRun s₀ A₀ s A)
      (hpass : ¬ RejectedFree A a n) (hlive : NamesLive A a n) (h : buddyFreePages s a n = .ok s') :
      FrameRun s₀ A₀ s' (A \ namedRun a n)

/-- A request ends, and what it hands out becomes live. -/
theorem Consistent.alloc {U A : Set Nat} {s : Buddy} (h : Consistent U A s) (n : Nat) :
    ∃ a s', buddyAllocPages s n = .ok (a, s') ∧ ((a = buddyInvalidAddress ∧ s' = s) ∨
      (a ≠ buddyInvalidAddress ∧
        Consistent U (A ∪ block (a / buddyPageSize) (buddyOrderFromPages n)) s')) := by
  obtain ⟨fl, hrepr⟩ := h
  by_cases htake : 1 ≤ n ∧ n ≤ 2 ^ buddyMaxOrder ∧ takeBlock fl (buddyOrderFromPages n) ≠ none
  · obtain ⟨⟨g, fl'⟩, hsome⟩ := Option.ne_none_iff_exists'.mp htake.2.2
    obtain ⟨s', hrun, h'⟩ := hrepr.allocPages_of_some htake.1 htake.2.1 hsome
    have hlt : g < buddyMaxPages := h'.usable_lt (h'.alloc_sub (Or.inr (base_mem_block g _)))
    refine ⟨_, s', hrun, Or.inr ⟨addr_ne_invalid hlt, ?_⟩⟩
    rw [Nat.mul_div_cancel g (by decide)]
    exact ⟨fl', h'⟩
  · have hnone : buddyAllocPages s n = .ok (buddyInvalidAddress, s) :=
      hrepr.allocPages_of_none fun hpos hle => by
        by_contra hne
        exact htake ⟨hpos, hle, hne⟩
    exact ⟨_, s, hnone, Or.inl ⟨rfl, rfl⟩⟩

/-- A series of requests and of frees that are rejected or name an aligned live run keeps the arrays
consistent. Induction on the run, with one case for each kind of step. -/
theorem FrameRun.consistent {U A₀ A : Set Nat} {s₀ s : Buddy} (run : FrameRun s₀ A₀ s A)
    (h : Consistent U A₀ s₀) : Consistent U A s := by
  induction run with
  | start => exact h
  | @alloc s s' A n a _ halloc ha ih =>
    obtain ⟨a₁, s₁, hrun, hcase⟩ := ih.alloc n
    obtain ⟨rfl, rfl⟩ := ok_unique_pair halloc hrun
    cases hcase with
    | inl hfail => exact absurd hfail.1 ha
    | inr hok => exact hok.2
  | @allocFail s s' A n _ halloc ih =>
    obtain ⟨a₁, s₁, hrun, hcase⟩ := ih.alloc n
    obtain ⟨heq, rfl⟩ := ok_unique_pair halloc hrun
    cases hcase with
    | inl hfail =>
      rw [hfail.2]
      exact ih
    | inr hok => exact absurd heq.symm hok.1
  | reject _ hrej hfree ih =>
    obtain ⟨fl, hrepr⟩ := ih
    have hself := (buddyFreePages_eq_self_iff _ _ _).mpr (hrepr.ignored_iff.mpr hrej)
    rw [ok_unique hfree hself]
    exact ⟨fl, hrepr⟩
  | free _ hpass hlive hfree ih =>
    obtain ⟨fl, hrepr⟩ := ih
    exact (hrepr.consistent_freed_iff hpass hfree).mpr hlive

/-- **Mismatched frees.** In every state of every run, and for all arguments, whether or not they name a
live block: the call changes nothing exactly when an argument is null, the address is not one of a page, or
its frame lies in no live block; it stays inside the arrays exactly when it is rejected so or the run of
frames that it names does; of the live frames exactly those of the run enter a free block; and the arrays
represent the rest of the live frames exactly when the run is aligned and live. So in all that follows,
with frees that are rejected or name such a run, no live frame is in a free block and no index leaves the
arrays. -/
theorem mismatched_frees {response : Option MemmapResponse} (hok : MemmapOk response) {s : Buddy}
    {live : List Block} (run : BuddyRun response s live) :
    (∀ a n, (buddyFreePages s a n = .ok s ↔ RejectedFree (framesOf live) a n) ∧
      ((∃ s', buddyFreePages s a n = .ok s') ↔ RejectedFree (framesOf live) a n ∨
        freedFrame a + 2 ^ buddyOrderFromPages n ≤ buddyMaxPages) ∧
      (¬ RejectedFree (framesOf live) a n → ∀ s', buddyFreePages s a n = .ok s' →
        (∀ i ∈ framesOf live, s'.FreeFrame i ↔ i ∈ namedRun a n) ∧
        (Consistent (usableFrames response) (framesOf live \ namedRun a n) s' ↔
          NamesLive (framesOf live) a n))) ∧
    ∀ s' A, FrameRun s (framesOf live) s' A →
      (∀ i, s'.pageState i = pageStateAllocated ↔ i ∈ A) ∧ (∀ i ∈ A, ¬ s'.FreeFrame i) ∧
      (∀ n, ∃ r, buddyAllocPages s' n = .ok r) ∧
      ∀ a n, RejectedFree A a n ∨ NamesLive A a n → ∃ r, buddyFreePages s' a n = .ok r := by
  obtain ⟨fl, hinv, -⟩ := run.inv hok
  have hrepr := hinv.repr
  refine ⟨fun a n => ⟨?_, hrepr.freePages_ends_iff, fun hpass s' hrun => ?_⟩, fun s' A frames => ?_⟩
  · rw [buddyFreePages_eq_self_iff]
    exact hrepr.ignored_iff
  · exact ⟨fun i hi => hrepr.freeFrame_freed_iff hpass hrun hi, hrepr.consistent_freed_iff hpass hrun⟩
  · obtain ⟨fl', hrepr'⟩ := frames.consistent ⟨fl, hrepr⟩
    refine ⟨hrepr'.state_allocated_iff, fun i hi hfree => ((hrepr'.freeFrame_iff i).mp hfree).2 hi,
      fun n => ?_, fun a n hcase => ?_⟩
    · obtain ⟨a, s₁, hrun, -⟩ := Consistent.alloc ⟨fl', hrepr'⟩ n
      exact ⟨_, hrun⟩
    · by_cases hrej : RejectedFree A a n
      · exact ⟨s', (buddyFreePages_eq_self_iff s' a n).mpr (hrepr'.ignored_iff.mpr hrej)⟩
      · obtain ⟨s₁, hrun, -⟩ := hrepr'.freePages_named hrej (hcase.resolve_left hrej)
        exact ⟨s₁, hrun⟩

/-- One page of a live block of two: freed on its own it becomes free, and the other page stays
live. A free of a page that is free already is rejected. -/
theorem mismatched_frees_sampleMap :
    MemmapOk sampleMap ∧ ∃ s s', BuddyRun sampleMap s [⟨4, 1⟩] ∧
      buddyFreePages s 0x2000 4 = .ok s ∧ buddyFreePages s 0x5000 1 = .ok s' ∧ s'.FreeFrame 5 ∧
      ¬ s'.FreeFrame 4 := by
  obtain ⟨s₀, s, run₀, halloc⟩ := sampleMap_two_pages
  have run : BuddyRun sampleMap s [⟨4, 1⟩] := run₀.alloc halloc (by decide)
  have hmem : ∀ i, i ∈ framesOf [⟨4, 1⟩] ↔ 4 ≤ i ∧ i < 6 := by
    intro i
    constructor
    · rintro ⟨b, hb, hi⟩
      obtain rfl := List.mem_singleton.mp hb
      exact hi
    · intro hi
      exact ⟨⟨4, 1⟩, List.mem_singleton.mpr rfl, hi⟩
  obtain ⟨hfrees, -⟩ := mismatched_frees sampleMap_ok run
  have hfour : freedFrame 0x2000 ∉ framesOf [⟨4, 1⟩] := fun hin =>
    absurd ((hmem _).mp hin).1 (by decide)
  have hpass : ¬ RejectedFree (framesOf [⟨4, 1⟩]) 0x5000 1 := by
    rintro (h | h | h | h)
    · exact absurd h (by decide)
    · exact absurd h (by decide)
    · exact h (by decide)
    · exact h ((hmem _).mpr (by decide))
  obtain ⟨-, hends, hcarried⟩ := hfrees 0x5000 1
  obtain ⟨s', hrun⟩ := hends.mpr (Or.inr (by decide))
  obtain ⟨hfreed, -⟩ := hcarried hpass s' hrun
  have hrun' : namedRun 0x5000 1 = {5} := block_zero 5
  refine ⟨sampleMap_ok, s, s', run, (hfrees 0x2000 4).1.mpr (Or.inr (Or.inr (Or.inr hfour))), hrun, ?_, ?_⟩
  · rw [hfreed 5 ((hmem 5).mpr (by decide)), hrun']
    rfl
  · rw [hfreed 4 ((hmem 4).mpr (by decide)), hrun']
    exact fun heq => absurd heq (by decide)

/-- A free of the second page of a live block of two pages frees that page. -/
theorem interior_page_freed :
    ∃ s s' live, BuddyRun sampleMap s live ∧
      (∀ b ∈ live, ¬ (b.addr = 0x5000 ∧ b.Named 1)) ∧ buddyFreePages s 0x5000 1 = .ok s' ∧
      s' ≠ s ∧ 5 ∈ framesOf live ∧ s'.FreeFrame 5 := by
  obtain ⟨s₀, s, run₀, halloc⟩ := sampleMap_two_pages
  have run : BuddyRun sampleMap s [⟨4, 1⟩] := run₀.alloc halloc (by decide)
  obtain ⟨fl, hinv, -⟩ := run.inv sampleMap_ok
  have hlive : 5 ∈ framesOf [⟨4, 1⟩] := ⟨⟨4, 1⟩, List.mem_singleton.mpr rfl, by decide, by decide⟩
  have hpass : ¬ RejectedFree (framesOf [⟨4, 1⟩]) 0x5000 1 := by
    rintro (h | h | h | h)
    · exact absurd h (by decide)
    · exact absurd h (by decide)
    · exact h (by decide)
    · exact h hlive
  have hnamed : namedRun 0x5000 1 = {5} := block_zero 5
  obtain ⟨s', hrun⟩ : ∃ s', buddyFreePages s 0x5000 1 = .ok s' :=
    hinv.repr.freePages_ends_iff.mpr (Or.inr (by decide))
  refine ⟨_, s', _, run, fun b hb hname => ?_, hrun, ?_, hlive, ?_⟩
  · obtain rfl := List.mem_singleton.mp hb
    exact absurd hname.1 (by decide)
  · rintro rfl
    exact hpass (hinv.repr.ignored_iff.mp ((buddyFreePages_eq_self_iff _ _ _).mp hrun))
  · rw [hinv.repr.freeFrame_freed_iff hpass hrun hlive, hnamed]
    rfl

end Yoix
