import Yoix.Buddy.Ownership
import Mathlib.Data.Set.Card
import Mathlib.Order.Interval.Finset.Nat

/-!
# Giving blocks back

Freeing a live block returns exactly its frames, and freeing every live block returns to the
state of the free frames right after initialisation, with one exception: `buddy_alloc_pages`
can hand out the block at physical address 0, and `buddy_free_pages` takes that address for a
null pointer. A block is given back exactly when it is not based at address 0.
-/

namespace Yoix

open Dyadic

/-- The frames that belong to free blocks. -/
def Buddy.freeFrames (s : Buddy) : Set Nat := { i | s.FreeFrame i }

/-- Freeing the block leaves none of its frames allocated and adds all of them to the free
blocks, and nothing else. -/
def GivesBack (s : Buddy) (b : Block) (n : Nat) : Prop :=
  ∃ s', buddyFreePages s b.addr n = .ok s' ∧
    (∀ f ∈ b.frames, s'.pageState f ≠ pageStateAllocated ∧ s'.FreeFrame f) ∧
    s'.freeFrames.ncard = s.freeFrames.ncard + 2 ^ b.order

/-- Free a list of blocks, each with a page count. -/
def freeAll (s : Buddy) : List (Block × Nat) → Except Fault Buddy
  | [] => .ok s
  | (b, n) :: rest => do
    let s ← buddyFreePages s b.addr n
    freeAll s rest

/-- The list names every live block once, in any order, with a matching page count. -/
structure NamesAll (live : List Block) (frees : List (Block × Nat)) : Prop where
  perm : (frees.map Prod.fst).Perm live
  named : ∀ p ∈ frees, p.1.Named p.2

/-! ## One block

The free of a live block gives all of its frames back, unless the block starts at address 0. -/

theorem ncard_block (f k : Nat) : (block f k).ncard = 2 ^ k := by
  rw [block, ← Finset.coe_Ico, Set.ncard_coe_finset, Nat.card_Ico, Nat.add_sub_cancel_left]

theorem finite_block (f k : Nat) : (block f k).Finite := Set.finite_Ico _ _

namespace LiveInv

variable {U : Set Nat} {s : Buddy} {live : List Block} {fl : FreeLists}

theorem freeFrames_eq (h : LiveInv U s live fl) : s.freeFrames = U \ framesOf live := by
  ext i
  exact h.repr.freeFrame_iff i

/-- Free frames are managed ones, of which there are finitely many. -/
theorem finite_freeFrames (h : LiveInv U s live fl) : s.freeFrames.Finite := by
  refine (Set.finite_Iio buddyMaxPages).subset fun i hi => ?_
  rw [h.freeFrames_eq] at hi
  exact h.repr.usable_lt hi.1

/-- A block is given back exactly when its first frame is not frame 0. At frame 0 the call returns
at once, as if nothing had been allocated there. -/
theorem givesBack_iff (h : LiveInv U s live fl) {b : Block} {n : Nat} (hb : b ∈ live)
    (hn : b.Named n) : GivesBack s b n ↔ b.frame ≠ 0 := by
  constructor
  · rintro ⟨s', hrun, hframes, -⟩ h0
    obtain rfl := ok_unique hrun (free_zero s n h0)
    have hbase : b.frame ∈ b.frames := base_mem_block _ _
    exact (hframes _ hbase).1 ((h.state_allocated_iff _).mpr ⟨b, hb, hbase⟩)
  · intro h0
    obtain ⟨s', hrun, hinv⟩ := h.free hb hn h0
    have herase := framesOf_erase hb h.disjoint
    -- the free frames grow by the frames of the block
    have hgrow : s'.freeFrames = s.freeFrames ∪ b.frames := by
      rw [hinv.freeFrames_eq, h.freeFrames_eq, herase, Set.sdiff_sdiff_right,
        Set.inter_eq_right.mpr (h.frames_sub hb)]
    refine ⟨s', hrun, fun f hf => ⟨fun hstate => ?_, ?_⟩, ?_⟩
    · have hlive := (hinv.state_allocated_iff f).mp hstate
      rw [herase] at hlive
      exact hlive.2 hf
    · have : f ∈ s'.freeFrames := by
        rw [hgrow]
        exact Or.inr hf
      exact this
    · have hdisj : Disjoint s.freeFrames b.frames := by
        rw [h.freeFrames_eq]
        exact Set.disjoint_left.mpr fun i hi hib => hi.2 ⟨b, hb, hib⟩
      rw [hgrow, Set.ncard_union_eq hdisj h.finite_freeFrames (finite_block _ _), Block.frames,
        ncard_block]

/-! ## All blocks

Freeing the live blocks one after the other leaves only those at address 0. -/

/-- Freeing a list of live blocks leaves those that are not on it and those at address 0. -/
theorem freeAll : ∀ {frees : List (Block × Nat)} {s : Buddy} {live : List Block}
    {fl : FreeLists} (kept : List Block), LiveInv U s live fl →
    (kept ++ frees.map Prod.fst).Perm live →
    (∀ p ∈ frees, p.1.Named p.2) →
    ∃ s' live' fl', Yoix.freeAll s frees = .ok s' ∧ LiveInv U s' live' fl' ∧
      live'.Perm (kept ++ (frees.map Prod.fst).filter fun b => b.frame = 0)
  | [], s, live, fl, kept, h, hperm, _ =>
    ⟨s, live, fl, rfl, h, by simpa using hperm.symm⟩
  | (b, n) :: rest, s, live, fl, kept, h, hperm, hnamed => by
    have hrest : ∀ p ∈ rest, p.1.Named p.2 := fun p hp => hnamed p (List.mem_cons_of_mem _ hp)
    have hn : b.Named n := hnamed (b, n) List.mem_cons_self
    have hb : b ∈ live := hperm.mem_iff.mp (by simp)
    -- a block at address 0 moves to those kept
    by_cases h0 : b.frame = 0
    · have hkept : (kept ++ [b] ++ rest.map Prod.fst).Perm live := by
        simpa using hperm
      obtain ⟨s', live', fl', hrun, hinv, hlive⟩ := freeAll _ h hkept hrest
      refine ⟨s', live', fl', ?_, hinv, ?_⟩
      · simp only [Yoix.freeAll, free_zero s n h0, ok_bind]
        exact hrun
      · simpa [h0] using hlive
    · obtain ⟨s₁, hrun₁, h₁⟩ := h.free hb hn h0
      have hperm₁ : (kept ++ rest.map Prod.fst).Perm (live.erase b) := by
        have hmid : (b :: (kept ++ rest.map Prod.fst)).Perm live :=
          List.perm_middle.symm.trans hperm
        exact List.Perm.cons_inv (hmid.trans (List.perm_cons_erase hb))
      obtain ⟨s', live', fl', hrun, hinv, hlive⟩ := freeAll _ h₁ hperm₁ hrest
      refine ⟨s', live', fl', ?_, hinv, ?_⟩
      · simp only [Yoix.freeAll, hrun₁, ok_bind]
        exact hrun
      · simpa [h0] using hlive

/-- A live block has one of the orders that the allocator knows. -/
theorem order_le (h : LiveInv U s live fl) {b : Block} (hb : b ∈ live) :
    b.order ≤ buddyMaxOrder := by
  have hend := h.repr.block_end_le (h.frames_sub hb)
  have hpow : 2 ^ b.order ≤ 2 ^ buddyMaxOrder := Nat.le_trans (Nat.le_add_left _ _) hend
  exact (Nat.pow_le_pow_iff_right (by decide)).mp hpow

end LiveInv

theorem buddyOrderFromPages_two_pow {order : Nat} (h : order ≤ buddyMaxOrder) :
    buddyOrderFromPages (2 ^ order) = order := by
  apply Nat.le_antisymm
  · by_contra hlt
    exact absurd (two_pow_lt_of_lt_order (Nat.not_le.mp hlt)) (Nat.lt_irrefl _)
  · have hle : 2 ^ order ≤ 2 ^ buddyMaxOrder := Nat.pow_le_pow_right (by decide) h
    exact (Nat.pow_le_pow_iff_right (by decide)).mp (pages_le_two_pow_order hle)

/-- **A block is given back exactly when it is not based at physical address 0.** For every
state of every run this holds of each live block, and freeing all live blocks, in any order,
restores the free frames of the initial state exactly when none of them is at address 0. -/
theorem given_back_iff_nonzero {response : Option MemmapResponse} (hok : MemmapOk response)
    {s₀ s : Buddy} {live : List Block} (hinit : buddyInit response = .ok s₀)
    (run : BuddyRun response s live) :
    (∀ b ∈ live, ∀ n, b.Named n → (GivesBack s b n ↔ b.frame ≠ 0)) ∧
    ((∀ frees, NamesAll live frees →
        ∃ s', freeAll s frees = .ok s' ∧ s'.freeFrames = s₀.freeFrames) ↔
      ∀ b ∈ live, b.frame ≠ 0) := by
  obtain ⟨fl, hinv, -⟩ := run.inv hok
  obtain ⟨fl₀, hinv₀, -⟩ := (BuddyRun.init hinit).inv hok
  refine ⟨fun b hb n hn => hinv.givesBack_iff hb hn, ?_, ?_⟩
  · intro hall b hb h0
    -- free every live block with its own size
    have hnames : NamesAll live (live.map fun b => (b, 2 ^ b.order)) := by
      refine ⟨by simp [Function.comp_def], fun p hp => ?_⟩
      obtain ⟨c, hc, rfl⟩ := List.mem_map.mp hp
      exact ⟨Nat.one_le_two_pow, buddyOrderFromPages_two_pow (hinv.order_le hc)⟩
    obtain ⟨s', hrun, hfree⟩ := hall _ hnames
    obtain ⟨s₁, live', fl', hrun₁, hinv', hlive⟩ :=
      hinv.freeAll [] (by simpa using hnames.perm) hnames.named
    obtain rfl := ok_unique hrun hrun₁
    have hmem : b ∈ live' := hlive.mem_iff.mpr (by simpa [h0] using hb)
    have hbase : b.frame ∈ b.frames := base_mem_block _ _
    have hback : b.frame ∈ s₀.freeFrames := by
      rw [hinv₀.freeFrames_eq, framesOf_nil]
      exact ⟨hinv.frames_sub hb hbase, Set.notMem_empty _⟩
    rw [← hfree, hinv'.freeFrames_eq] at hback
    exact hback.2 ⟨b, hmem, hbase⟩
  · intro hne frees hnames
    obtain ⟨s', live', fl', hrun, hinv', hlive⟩ :=
      hinv.freeAll [] (by simpa using hnames.perm) hnames.named
    have hnil : live' = [] := by
      rw [List.nil_append] at hlive
      have hempty : ((frees.map Prod.fst).filter fun b => b.frame = 0) = [] := by
        rw [List.filter_eq_nil_iff]
        intro b hb
        simpa using hne b (hnames.perm.mem_iff.mp hb)
      rw [hempty] at hlive
      exact hlive.eq_nil
    subst hnil
    refine ⟨s', hrun, ?_⟩
    rw [hinv'.freeFrames_eq, hinv₀.freeFrames_eq]

/-- A page of the sample map, which has no frame 0 to hand out, is given back. -/
theorem given_back_iff_nonzero_sampleMap :
    MemmapOk sampleMap ∧ ∃ s, BuddyRun sampleMap s [⟨1, 0⟩] ∧ GivesBack s ⟨1, 0⟩ 1 := by
  have hinit : buddyInit sampleMap = .ok _ := rfl
  have run : BuddyRun sampleMap _ [⟨1, 0⟩] :=
    .alloc (n := 1) (a := 0x1000) (.init rfl) rfl (by decide)
  have hboth := given_back_iff_nonzero sampleMap_ok hinit run
  have hback := hboth.1 ⟨1, 0⟩ (by decide) 1 ⟨by decide, by decide⟩
  exact ⟨sampleMap_ok, _, run, hback.mpr (by decide)⟩

/-- A map whose only usable page is the one at physical address 0. -/
def zeroMap : Option MemmapResponse := some ⟨some [some ⟨0, 0x1000, 0⟩]⟩

/-- The page at address 0 is handed out and cannot be given back. -/
theorem page_zero_not_given_back :
    MemmapOk zeroMap ∧ ∃ s, BuddyRun zeroMap s [⟨0, 0⟩] ∧ (⟨0, 0⟩ : Block).Named 1 ∧
      ¬ GivesBack s ⟨0, 0⟩ 1 := by
  have hok : MemmapOk zeroMap := by
    refine ⟨?_, by decide⟩
    rw [show usableEntries zeroMap = [⟨0, 0x1000, 0⟩] from rfl]
    exact List.pairwise_singleton _ _
  have run : BuddyRun zeroMap _ [⟨0, 0⟩] := .alloc (n := 1) (a := 0) (.init rfl) rfl (by decide)
  have hnamed : (⟨0, 0⟩ : Block).Named 1 := ⟨by decide, by decide⟩
  obtain ⟨fl, hinv, -⟩ := run.inv hok
  refine ⟨hok, _, run, hnamed, fun hback => ?_⟩
  exact (hinv.givesBack_iff (by decide) hnamed).mp hback rfl

end Yoix
