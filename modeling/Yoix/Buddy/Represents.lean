import Yoix.Buddy.Model
import Yoix.Lib.DyadicRange
import Yoix.Lib.Linked

/-!
# What the allocator's arrays represent

`Represents U A H s fl` is the representation invariant of the page allocator. The usable
frames `U` are split into the allocated frames `A`, the frames `H` that are in transit between
two steps of an operation, and the rest, which the free lists `fl` tile with aligned blocks.
The state bytes, the list heads and the links of `s` are exactly those of that abstract state,
and nothing else is left in `s` that the abstract state does not fix.

Between operations nothing is in transit. An operation takes frames off a list (or out of `A`)
into `H`, and puts them back as a free block or as allocated frames: one lemma for each helper
of `buddy.c` says which. The state bytes of frames in `H` are arbitrary, which is what lets a
block grow through buddies whose bytes still say they are free.
-/

namespace Yoix

open Dyadic Linked

/-- The frame lies in a free block, that is, in a block whose first state byte is its order. -/
def Buddy.FreeFrame (s : Buddy) (i : Nat) : Prop :=
  ∃ k ≤ buddyMaxOrder, ∃ f < buddyMaxPages, s.pageState f = k ∧ i ∈ block f k

structure Represents (U A H : Set Nat) (s : Buddy) (fl : FreeLists) : Prop where
  usable_lt : ∀ {i}, i ∈ U → i < buddyMaxPages
  alloc_sub : A ⊆ U
  hole_sub : H ⊆ U
  disjoint : Disjoint A H
  tiling : Tiling buddyMaxOrder (U \ (A ∪ H)) fl
  head : ∀ {k f}, f ∈ fl k → s.pageState f = k
  body : ∀ {k f i}, f ∈ fl k → i ∈ block f k → i ≠ f → s.pageState i = pageStateFreeBody
  allocated : ∀ {i}, i ∈ A → s.pageState i = pageStateAllocated
  reserved : ∀ {i}, i ∉ U → s.pageState i = pageStateReserved
  lists : ∀ k, IsDll s.freeNext s.freePrev uint32Max (s.freeList k) (fl k)
  unlinked : ∀ {f}, (∀ k, f ∉ fl k) → s.freeNext f = uint32Max ∧ s.freePrev f = uint32Max

/-- No frame number is mistaken for the end of a list. -/
theorem ne_uint32Max_of_lt {f : Nat} (h : f < buddyMaxPages) : f ≠ uint32Max := by
  rintro rfl
  exact absurd h (by decide)

/-- A page address the allocator hands out is not its failure value. -/
theorem addr_ne_invalid {g : Nat} (h : g < buddyMaxPages) :
    g * buddyPageSize ≠ buddyInvalidAddress := by
  simp only [buddyMaxPages, buddyMaxPhys, buddyPageSize, buddyInvalidAddress] at *
  omega

namespace Represents

variable {U A H : Set Nat} {s : Buddy} {fl : FreeLists}

/-! ## Reading the invariant

What the arrays say about a frame in a state that represents free lists: the state byte tells
whether the frame is the base of a free block, inside one, allocated or reserved. -/

theorem free_of_mem (h : Represents U A H s fl) {k f i : Nat} (hf : f ∈ fl k)
    (hi : i ∈ block f k) : i ∈ U ∧ i ∉ A ∧ i ∉ H := by
  obtain ⟨hU, hout⟩ := h.tiling.sub hf hi
  exact ⟨hU, fun hA => hout (Or.inl hA), fun hH => hout (Or.inr hH)⟩

theorem head_lt (h : Represents U A H s fl) {k f : Nat} (hf : f ∈ fl k) : f < buddyMaxPages :=
  h.usable_lt (h.free_of_mem hf (base_mem_block f k)).1

theorem order_unique (h : Represents U A H s fl) {k j f : Nat} (hk : f ∈ fl k) (hj : f ∈ fl j) :
    k = j := (h.head hk).symm.trans (h.head hj)

/-- A frame outside `H` is on list `k` exactly when its state byte is `k`. -/
theorem mem_iff_state (h : Represents U A H s fl) {k f : Nat} (hk : k ≤ buddyMaxOrder)
    (hf : f ∉ H) : f ∈ fl k ↔ s.pageState f = k := by
  refine ⟨h.head, fun hstate => ?_⟩
  by_cases hU : f ∈ U
  · by_cases hA : f ∈ A
    · rw [h.allocated hA] at hstate
      subst hstate
      exact absurd hk (by decide)
    · obtain ⟨j, g, hg, hfg⟩ := h.tiling.cover ⟨hU, fun hor => hor.elim hA hf⟩
      by_cases heq : f = g
      · subst heq
        rw [h.head hg] at hstate
        exact hstate ▸ hg
      · rw [h.body hg hfg heq] at hstate
        subst hstate
        exact absurd hk (by decide)
  · rw [h.reserved hU] at hstate
    subst hstate
    exact absurd hk (by decide)

theorem block_end_le (h : Represents U A H s fl) {f k : Nat} (hsub : block f k ⊆ U) :
    f + 2 ^ k ≤ buddyMaxPages := by
  have hpos := Nat.two_pow_pos k
  have hlast : f + (2 ^ k - 1) ∈ block f k := mem_block.mpr ⟨by omega, by omega⟩
  have := h.usable_lt (hsub hlast)
  omega

/-- Between operations the free frames are the usable ones that are not allocated. -/
theorem freeFrame_iff (h : Represents U A ∅ s fl) (i : Nat) :
    s.FreeFrame i ↔ i ∈ U ∧ i ∉ A := by
  constructor
  · rintro ⟨k, hk, f, -, hstate, hi⟩
    have hf := (h.mem_iff_state hk (Set.notMem_empty f)).mpr hstate
    exact ⟨(h.free_of_mem hf hi).1, (h.free_of_mem hf hi).2.1⟩
  · rintro ⟨hU, hA⟩
    obtain ⟨k, f, hf, hi⟩ := h.tiling.cover ⟨hU, by simpa using hA⟩
    exact ⟨k, h.tiling.order_le hf, f, h.head_lt hf, h.head hf, hi⟩

/-- **The abstract state fixes the arrays.** Two states that represent it are equal, list heads,
links and state bytes included. -/
theorem eq_of_same {s' : Buddy} (h : Represents U A ∅ s fl) (h' : Represents U A ∅ s' fl) :
    s = s' := by
  have hstate : s.pageState = s'.pageState := by
    funext i
    by_cases hU : i ∈ U
    · by_cases hA : i ∈ A
      · rw [h.allocated hA, h'.allocated hA]
      · -- a free frame lies in one block, and its byte says head or body
        obtain ⟨k, f, hf, hi⟩ := h.tiling.cover ⟨hU, by simpa using hA⟩
        rcases eq_or_ne i f with rfl | hne
        · rw [h.head hf, h'.head hf]
        · rw [h.body hf hi hne, h'.body hf hi hne]
    · rw [h.reserved hU, h'.reserved hU]
  -- a list determines its head and the links of its frames; all other links are null
  have hheads : s.freeList = s'.freeList := by
    funext k
    exact ((h.lists k).determined (h'.lists k)).1
  have hlinks : ∀ f, s.freeNext f = s'.freeNext f ∧ s.freePrev f = s'.freePrev f := by
    intro f
    by_cases hlisted : ∃ k, f ∈ fl k
    · obtain ⟨k, hf⟩ := hlisted
      exact ((h.lists k).determined (h'.lists k)).2 f hf
    · have hout : ∀ k, f ∉ fl k := fun k hf => hlisted ⟨k, hf⟩
      obtain ⟨hn, hp⟩ := h.unlinked hout
      obtain ⟨hn', hp'⟩ := h'.unlinked hout
      rw [hn, hp, hn', hp']
      exact ⟨rfl, rfl⟩
  have hnext : s.freeNext = s'.freeNext := funext fun f => (hlinks f).1
  have hprev : s.freePrev = s'.freePrev := funext fun f => (hlinks f).2
  cases s
  cases s'
  simp only [Buddy.mk.injEq]
  exact ⟨hstate, hheads, hnext, hprev⟩

/-! ## Marking

Writing the state bytes of a block changes the represented sets by this block and nothing else. -/

/-- Live frames may be put in transit, which is how a free begins: no array changes. -/
theorem takeAllocated (h : Represents U A ∅ s fl) {B : Set Nat} (hsub : B ⊆ A) :
    Represents U (A \ B) B s fl where
  usable_lt := h.usable_lt
  alloc_sub := Set.sdiff_subset.trans h.alloc_sub
  hole_sub := hsub.trans h.alloc_sub
  disjoint := Set.disjoint_sdiff_left
  tiling := h.tiling.congr (by rw [Set.sdiff_union_of_subset hsub, Set.union_empty])
  head := h.head
  body := h.body
  allocated hi := h.allocated hi.1
  reserved := h.reserved
  lists := h.lists
  unlinked := h.unlinked

end Represents

/-- A run of slots filled with `v` is its first slot and the run behind it. -/
theorem update_fill (f : Nat → Nat) (v i n : Nat) :
    (fun j => if i + 1 ≤ j ∧ j < i + 1 + n then v else Function.update f i v j)
      = fun j => if i ≤ j ∧ j < i + (n + 1) then v else f j := by
  funext j
  by_cases hj : j = i
  · rw [hj, Function.update_self, ite_self, if_pos (by omega)]
  · rw [Function.update_of_ne hj]
    exact if_congr (by omega) rfl rfl

/-- The marking loop writes one value to a run of state bytes, and does not leave the array when the
run is inside. -/
theorem fillPageState_eq {v n index : Nat} {s : Buddy} (hle : index + n ≤ buddyMaxPages) :
    fillPageState v n index s = .ok { s with
      pageState := fun i => if index ≤ i ∧ i < index + n then v else s.pageState i } := by
  induction n generalizing index s with
  | zero =>
    have hnone : ∀ i, ¬ (index ≤ i ∧ i < index + 0) := by omega
    simp only [fillPageState, hnone, if_false]
  | succ n ih =>
    unfold fillPageState Buddy.setPageState
    rw [if_pos (by omega), ok_bind, ih (by omega)]
    simp only [update_fill]

/-- The state bytes after `buddy_mark_block_free`. -/
def markFree (state : Nat → Nat) (f k : Nat) : Nat → Nat := fun i =>
  if i = f then k else if f ≤ i ∧ i < f + 2 ^ k then pageStateFreeBody else state i

/-- Marking a block as free writes its order to the first state byte and `FREE_BODY` to the others.
-/
theorem buddyMarkBlockFree_eq {s : Buddy} {f k : Nat} (hle : f + 2 ^ k ≤ buddyMaxPages) :
    buddyMarkBlockFree s f k = .ok { s with pageState := markFree s.pageState f k } := by
  have hpos := Nat.two_pow_pos k
  unfold buddyMarkBlockFree Buddy.setPageState
  rw [if_pos (by omega), ok_bind]
  simp only
  rw [fillPageState_eq (by omega)]
  congr 2
  funext i
  unfold markFree
  by_cases hi : i = f
  · subst hi
    simp
  · have hiff : (f + 1 ≤ i ∧ i < f + 1 + (2 ^ k - 1)) ↔ (f ≤ i ∧ i < f + 2 ^ k) := by omega
    simp only [hiff, if_neg hi, Function.update_of_ne hi]

namespace Represents

variable {U A H : Set Nat} {s : Buddy} {fl : FreeLists}

/-- A block in transit meets no free block. -/
theorem notMem_of_hole (h : Represents U A H s fl) {f k g j i : Nat} (hsub : block f k ⊆ H)
    (hg : g ∈ fl j) (hi : i ∈ block g j) : i ∉ block f k :=
  fun hin => (h.free_of_mem hg hi).2.2 (hsub hin)

/-- `buddy_mark_block_allocated` moves a block in transit to the allocated frames. -/
theorem markAllocated (h : Represents U A H s fl) {f k : Nat} (hsub : block f k ⊆ H) :
    ∃ s', buddyMarkBlockAllocated s f k = .ok s' ∧
      Represents U (A ∪ block f k) (H \ block f k) s' fl := by
  have hle := h.block_end_le (hsub.trans h.hole_sub)
  refine ⟨_, fillPageState_eq hle, ?_⟩
  refine ⟨h.usable_lt, Set.union_subset h.alloc_sub (hsub.trans h.hole_sub),
    Set.sdiff_subset.trans h.hole_sub, ?_, ?_, ?_, ?_, ?_, ?_, h.lists, h.unlinked⟩
  · rw [Set.disjoint_union_left]
    exact ⟨h.disjoint.mono_right Set.sdiff_subset, Set.disjoint_sdiff_right⟩
  · refine h.tiling.congr ?_
    rw [Set.union_assoc, Set.union_sdiff_cancel hsub]
  · intro j g hg
    have hin : ¬ (f ≤ g ∧ g < f + 2 ^ k) := h.notMem_of_hole hsub hg (base_mem_block g j)
    simp only [if_neg hin]
    exact h.head hg
  · intro j g i hg hi hne
    have hin : ¬ (f ≤ i ∧ i < f + 2 ^ k) := h.notMem_of_hole hsub hg hi
    simp only [if_neg hin]
    exact h.body hg hi hne
  · intro i hi
    by_cases hin : f ≤ i ∧ i < f + 2 ^ k
    · simp only [if_pos hin]
    · simp only [if_neg hin]
      exact h.allocated (hi.resolve_right hin)
  · intro i hi
    have hin : ¬ (f ≤ i ∧ i < f + 2 ^ k) := fun hin => hi (h.hole_sub (hsub hin))
    simp only [if_neg hin]
    exact h.reserved hi

/-! ## Putting a block on its list

A push links a block in front of its list. It is stated for the arrays first and for what they
represent after it. -/

theorem freeList_mem (h : Represents U A H s fl) {k : Nat} (hne : s.freeList k ≠ uint32Max) :
    s.freeList k ∈ fl k := by
  cases hlist : fl k with
  | nil => exact absurd ((h.lists k).head_eq_nil_iff.mpr hlist) hne
  | cons g rest =>
    have hdll := h.lists k
    rw [hlist] at hdll
    rw [hdll.head_cons]
    exact List.mem_cons_self

/-- The arrays after `buddy_add_free_block`. -/
def pushed (s : Buddy) (f k : Nat) : Buddy where
  pageState := markFree s.pageState f k
  freeList := Function.update s.freeList k f
  freeNext := Function.update s.freeNext f (s.freeList k)
  freePrev := pushPrev s.freePrev uint32Max (s.freeList k) f

/-- The push stays inside the arrays when the head it follows does. -/
theorem buddyAddFreeBlock_of_head {f k : Nat} (hk : k ≤ buddyMaxOrder)
    (hle : f + 2 ^ k ≤ buddyMaxPages)
    (hhead : s.freeList k = uint32Max ∨ s.freeList k < buddyMaxPages) :
    buddyAddFreeBlock s f k = .ok (pushed s f k) := by
  have hlt : f < buddyMaxPages := Nat.lt_of_lt_of_le (base_mem_block f k).2 hle
  unfold buddyAddFreeBlock
  rw [buddyMarkBlockFree_eq hle, ok_bind]
  simp only [Buddy.getFreeList, if_pos hk, ok_bind, Buddy.setFreePrev, Buddy.setFreeNext,
    Buddy.setFreeList, if_pos hlt]
  by_cases hnone : s.freeList k = uint32Max
  · simp only [hnone, ne_eq, not_true, if_false, pushed, pushPrev]
  · have hbound := hhead.resolve_left hnone
    simp only [ne_eq, hnone, not_false_eq_true, if_true, if_pos hbound, ok_bind, pushed, pushPrev]

/-- Adding a free block that lies inside the arrays ends, with the block in front of its list. -/
theorem buddyAddFreeBlock_eq (h : Represents U A H s fl) {f k : Nat} (hk : k ≤ buddyMaxOrder)
    (hle : f + 2 ^ k ≤ buddyMaxPages) : buddyAddFreeBlock s f k = .ok (pushed s f k) := by
  refine buddyAddFreeBlock_of_head hk hle ?_
  by_cases hnone : s.freeList k = uint32Max
  · exact Or.inl hnone
  · exact Or.inr (h.head_lt (h.freeList_mem hnone))

/-- The links of the other lists do not see a push. -/
theorem pushed_links_of_notMem (h : Represents U A H s fl) {f k x : Nat} (hxf : x ≠ f)
    (hx : x ∉ fl k) : (pushed s f k).freeNext x = s.freeNext x ∧
      (pushed s f k).freePrev x = s.freePrev x := by
  refine ⟨Function.update_of_ne hxf _ _, ?_⟩
  simp only [pushed, pushPrev, Function.update_of_ne hxf]
  split
  · next hhead =>
    refine Function.update_of_ne ?_ _ _
    rintro rfl
    exact hx (h.freeList_mem hhead)
  · rfl

/-- Outside the block the state bytes are the old ones. -/
theorem pushed_pageState {f k i : Nat} (hin : i ∉ block f k) :
    (pushed s f k).pageState i = s.pageState i := by
  have hif : i ≠ f := fun heq => hin (heq ▸ base_mem_block f k)
  simp only [pushed, markFree, if_neg hif]
  exact if_neg hin

/-- The list of the block's order gets a new first node, and the other lists stay. -/
theorem pushed_lists (h : Represents U A H s fl) {f k : Nat} (hfresh : ∀ j, f ∉ fl j)
    (hlt : f < buddyMaxPages) (j : Nat) :
    IsDll (pushed s f k).freeNext (pushed s f k).freePrev uint32Max ((pushed s f k).freeList j)
      (fl.push k f j) := by
  by_cases hj : j = k
  · subst hj
    simp only [pushed, FreeLists.push_self, Function.update_self]
    exact (h.lists j).push (hfresh j) (ne_uint32Max_of_lt hlt)
  · rw [FreeLists.push_of_ne _ _ hj]
    have hlinks : ∀ x ∈ fl j, (pushed s f k).freeNext x = s.freeNext x ∧
        (pushed s f k).freePrev x = s.freePrev x := fun x hx =>
      h.pushed_links_of_notMem (fun heq => hfresh j (heq ▸ hx))
        fun hmem => hj (h.order_unique hx hmem)
    have hhead : (pushed s f k).freeList j = s.freeList j := Function.update_of_ne hj _ _
    rw [hhead]
    exact (h.lists j).frame (fun x hx => (hlinks x hx).1) fun x hx => (hlinks x hx).2

/-- `buddy_add_free_block` turns a block in transit into a free block. -/
theorem addFreeBlock (h : Represents U A H s fl) {f k : Nat} (hk : k ≤ buddyMaxOrder)
    (hf : 2 ^ k ∣ f) (hsub : block f k ⊆ H) :
    ∃ s', buddyAddFreeBlock s f k = .ok s' ∧
      Represents U A (H \ block f k) s' (fl.push k f) := by
  have hle := h.block_end_le (hsub.trans h.hole_sub)
  -- a listed block is free, and the frames in transit are not
  have hfresh : ∀ j, f ∉ fl j := fun j hmem =>
    h.notMem_of_hole hsub hmem (base_mem_block f j) (base_mem_block f k)
  refine ⟨pushed s f k, h.buddyAddFreeBlock_eq hk hle, ?_⟩
  refine ⟨h.usable_lt, h.alloc_sub, Set.sdiff_subset.trans h.hole_sub,
    h.disjoint.mono_right Set.sdiff_subset, ?_, ?_, ?_, ?_, ?_,
    h.pushed_lists hfresh (Nat.lt_of_lt_of_le (base_mem_block f k).2 hle), ?_⟩
  · have hdisj : Disjoint (block f k) (U \ (A ∪ H)) :=
      Set.disjoint_left.mpr fun i hi hfree => hfree.2 (Or.inr (hsub hi))
    refine (h.tiling.push hk hf hdisj).congr ?_
    ext i
    have hiA : i ∈ block f k → i ∉ A := fun hi => Set.disjoint_right.mp h.disjoint (hsub hi)
    have hiU : i ∈ block f k → i ∈ U := fun hi => h.hole_sub (hsub hi)
    simp only [Set.mem_union, Set.mem_sdiff]
    tauto
  · intro j g hg
    rcases FreeLists.mem_push.mp hg with ⟨rfl, rfl⟩ | hg
    · simp [pushed, markFree]
    · rw [pushed_pageState (h.notMem_of_hole hsub hg (base_mem_block g j))]
      exact h.head hg
  · intro j g i hg hi hne
    rcases FreeLists.mem_push.mp hg with ⟨rfl, rfl⟩ | hg
    · simp only [pushed, markFree, if_neg hne, if_pos (mem_block.mp hi)]
    · rw [pushed_pageState (h.notMem_of_hole hsub hg hi)]
      exact h.body hg hi hne
  · intro i hi
    rw [pushed_pageState fun hin => Set.disjoint_left.mp h.disjoint hi (hsub hin)]
    exact h.allocated hi
  · intro i hi
    rw [pushed_pageState fun hin => hi (h.hole_sub (hsub hin))]
    exact h.reserved hi
  · -- a frame that heads no block keeps its links: it is neither the new head nor its successor
    intro g hg
    have hold : ∀ j, g ∉ fl j := fun j hmem => hg j (FreeLists.mem_push.mpr (Or.inr hmem))
    have hgf : g ≠ f := by
      rintro rfl
      exact hg k (FreeLists.mem_push.mpr (Or.inl ⟨rfl, rfl⟩))
    obtain ⟨hn, hp⟩ := h.pushed_links_of_notMem hgf (hold k)
    rw [hn, hp]
    exact h.unlinked hold

/-! ## Taking a block off its list

A removal unlinks a block from any place of its list. The frames are then in no set at all, until
they are marked again. -/

/-- The arrays after a block has been taken off its list. -/
def detached (s : Buddy) (f k : Nat) : Buddy where
  pageState := s.pageState
  freeList := Function.update s.freeList k
    (unlinkHead s.freeNext s.freePrev uint32Max (s.freeList k) f)
  freeNext := unlinkNext s.freeNext s.freePrev uint32Max f
  freePrev := unlinkPrev s.freeNext s.freePrev uint32Max f

/-- `buddy_remove_free_block` succeeds on every block of the list, wherever it stands there. -/
theorem buddyRemoveFreeBlock_eq (h : Represents U A H s fl) {f k : Nat} (hf : f ∈ fl k) :
    buddyRemoveFreeBlock s f k = .ok (true, detached s f k) := by
  have hlt := h.head_lt hf
  have hk := h.tiling.order_le hf
  obtain ⟨hfirst, hbefore, hafter⟩ := (h.lists k).links_of_mem hf
  unfold buddyRemoveFreeBlock
  simp only [Buddy.getFreePrev, Buddy.getFreeNext, Buddy.getFreeList, Buddy.setFreeList,
    Buddy.setFreeNext, Buddy.setFreePrev, if_pos hlt, if_pos hk, ok_bind]
  by_cases hprev : s.freePrev f = uint32Max
  · have hhead := hfirst hprev
    by_cases hnext : s.freeNext f = uint32Max
    · simp [hprev, hnext, hhead, detached, unlinkHead, unlinkNext, unlinkPrev]
    · have hnlt := h.head_lt (hafter hnext).1
      simp [hprev, hnext, hhead, hnlt, detached, unlinkHead, unlinkNext, unlinkPrev]
  · obtain ⟨hpmem, hpnext⟩ := hbefore hprev
    have hplt := h.head_lt hpmem
    by_cases hnext : s.freeNext f = uint32Max
    · simp [hprev, hnext, hplt, hpnext, detached, unlinkHead, unlinkNext, unlinkPrev]
    · have hnlt := h.head_lt (hafter hnext).1
      simp [hprev, hnext, hplt, hnlt, hpnext, detached, unlinkHead, unlinkNext, unlinkPrev]

/-- `buddy_pop_free_block` takes the first block of the list, which is a removal of that block. -/
theorem buddyPopFreeBlock_eq (h : Represents U A H s fl) {f k : Nat} {rest : List Nat}
    (hlist : fl k = f :: rest) : buddyPopFreeBlock s k = .ok (f, detached s f k) := by
  have hf : f ∈ fl k := by rw [hlist]; exact List.mem_cons_self
  have hlt := h.head_lt hf
  have hdll := h.lists k
  rw [hlist] at hdll
  obtain ⟨-, -, hafter⟩ := (h.lists k).links_of_mem hf
  have hne := ne_uint32Max_of_lt hlt
  unfold buddyPopFreeBlock
  simp only [Buddy.getFreeList, if_pos (h.tiling.order_le hf), ok_bind, hdll.head_cons,
    if_neg hne, Buddy.getFreeNext, Buddy.setFreeList, Buddy.setFreeNext, Buddy.setFreePrev,
    if_pos hlt]
  by_cases hnext : s.freeNext f = uint32Max
  · simp [hdll.prev_head, hnext, detached, unlinkHead, unlinkNext, unlinkPrev]
  · have hnlt := h.head_lt (hafter hnext).1
    simp [hdll.prev_head, hnext, hnlt, detached, unlinkHead, unlinkNext, unlinkPrev]

/-- The links of the other blocks of other lists do not see the removal. -/
theorem detached_links_of_notMem (h : Represents U A H s fl) {f k x : Nat} (hf : f ∈ fl k)
    (hx : x ∉ fl k) : (detached s f k).freeNext x = s.freeNext x ∧
      (detached s f k).freePrev x = s.freePrev x := by
  obtain ⟨-, hbefore, hafter⟩ := (h.lists k).links_of_mem hf
  have hxf : x ≠ f := fun heq => hx (heq ▸ hf)
  constructor
  · exact unlinkNext_of_ne hxf fun hprev heq => hx (heq ▸ (hbefore hprev).1)
  · exact unlinkPrev_of_ne hxf fun hnext heq => hx (heq ▸ (hafter hnext).1)

/-- A block taken off its list is in transit. -/
theorem detach (h : Represents U A H s fl) {f k : Nat} (hf : f ∈ fl k) :
    Represents U A (H ∪ block f k) (detached s f k) (fl.remove k f) := by
  have hmem : ∀ {j g}, g ∈ fl.remove k f j → g ∈ fl j := fun hg =>
    ((FreeLists.mem_remove (h.tiling.nodup k)).mp hg).1
  refine ⟨h.usable_lt, h.alloc_sub, ?_, ?_, ?_, fun hg => h.head (hmem hg),
    fun hg hi hne => h.body (hmem hg) hi hne, h.allocated, h.reserved, ?_, ?_⟩
  · exact Set.union_subset h.hole_sub fun i hi => (h.free_of_mem hf hi).1
  · rw [Set.disjoint_union_right]
    exact ⟨h.disjoint, Set.disjoint_right.mpr fun i hi => (h.free_of_mem hf hi).2.1⟩
  · -- the blocks that stay tile what is free and not in transit
    refine (h.tiling.remove hf).congr ?_
    rw [Set.sdiff_sdiff, Set.union_assoc]
  · intro j
    by_cases hj : j = k
    · subst hj
      simp only [detached, FreeLists.remove_self, Function.update_self]
      exact (h.lists j).unlink hf
    · -- another list has no frame in common with this one, so the unlinking does not touch it
      have hlinks : ∀ x ∈ fl j, (detached s f k).freeNext x = s.freeNext x ∧
          (detached s f k).freePrev x = s.freePrev x := fun x hx =>
        h.detached_links_of_notMem hf fun hmem => hj (h.order_unique hx hmem)
      have hhead : (detached s f k).freeList j = s.freeList j := Function.update_of_ne hj _ _
      rw [FreeLists.remove_of_ne _ _ hj, hhead]
      exact (h.lists j).frame (fun x hx => (hlinks x hx).1) fun x hx => (hlinks x hx).2
  · intro g hg
    by_cases hgf : g = f
    · subst hgf
      exact ⟨Function.update_self _ _ _, Function.update_self _ _ _⟩
    · have hold : ∀ j, g ∉ fl j := fun j hin =>
        hg j ((FreeLists.mem_remove (h.tiling.nodup k)).mpr ⟨hin, fun heq => hgf heq.1⟩)
      obtain ⟨hn, hp⟩ := h.detached_links_of_notMem hf (hold k)
      rw [hn, hp]
      exact h.unlinked hold

end Represents

end Yoix
