import Yoix.Buddy.Coalescing
import Yoix.Lib.DyadicReuse

/-!
# Taking a block and giving it back

For a memory map whose entries do not touch, a request followed by the free of what it returned
leaves the allocator exactly as it was: the merge loop of `buddy_free_pages` retraces the split
loop of `buddy_allocate_block`, and the arrays hold nothing but the abstract lists. When other
requests are served in between, the block may merge less far, but it still goes in front of the
first list that the next request of its order looks at.
-/

namespace Yoix

open Dyadic

namespace LiveInv

variable {U : Set Nat} {s : Buddy} {live : List Block} {fl : FreeLists}

theorem alloc_eq (h : LiveInv U s live fl) {n a : Nat} {s' : Buddy}
    (hrun : buddyAllocPages s n = .ok (a, s')) (hvalid : a ≠ buddyInvalidAddress) :
    ∃ g fl', 1 ≤ n ∧ a = g * buddyPageSize ∧
      takeBlock fl (buddyOrderFromPages n) = some (g, fl') ∧
      LiveInv U s' (⟨g, buddyOrderFromPages n⟩ :: live) fl' := by
  rcases h.alloc n with hfail | ⟨g, fl', s₁, hpos, -, htake, hok, -, hinv⟩
  · exact absurd (ok_unique_pair hrun hfail).1 hvalid
  · obtain ⟨rfl, rfl⟩ := ok_unique_pair hrun hok
    exact ⟨g, fl', hpos, rfl, htake, hinv⟩

end LiveInv

/-! ## At once

A block that is freed right after it was handed out joins the halves it was split from, so that the
whole state is the one from before, list by list. -/

/-- **A request followed by its free is the identity on the allocator.** In every state of every
run of a map whose entries do not touch, freeing the address a request has just returned, with any
page count that rounds to the same order, restores all four arrays. -/
theorem alloc_free_restores {response : Option MemmapResponse} (hok : MemmapOk response)
    (hapart : EntriesApart response) {s s' : Buddy} {live : List Block}
    (run : BuddyRun response s live) {n m a : Nat}
    (halloc : buddyAllocPages s n = .ok (a, s')) (hvalid : a ≠ buddyInvalidAddress)
    (hzero : a ≠ 0) (hpos : 1 ≤ m) (horder : buddyOrderFromPages m = buddyOrderFromPages n) :
    buddyFreePages s' a m = .ok s := by
  obtain ⟨fl, hinv, hkeep⟩ := run.inv hok
  obtain ⟨g, fl', -, rfl, htake, hinv'⟩ := hinv.alloc_eq halloc hvalid
  have hg0 : g ≠ 0 := by
    rintro rfl
    exact hzero (Nat.zero_mul _)
  obtain ⟨s₂, hfree, hinv₂⟩ := hinv'.free (b := ⟨g, buddyOrderFromPages n⟩) (n := m)
    List.mem_cons_self ⟨hpos, horder⟩ hg0
  -- the lists are the old ones, so the arrays are too
  have hlists : fl'.release buddyMaxOrder g (buddyOrderFromPages n) = fl :=
    FreeLists.release_carve hinv.repr.tiling (hkeep (canonical_initLists hok hapart)) htake
  have hrepr := hinv₂.repr
  rw [List.erase_cons_head, hlists] at hrepr
  rw [hinv.repr.eq_of_same hrepr]
  exact hfree

/-- Two pages of the sample map, taken and given back. -/
theorem alloc_free_restores_sampleMap :
    ∃ s s', BuddyRun sampleMap s [] ∧ buddyAllocPages s 2 = .ok (0x4000, s') ∧
      buddyFreePages s' 0x4000 2 = .ok s := by
  obtain ⟨s, s', run, halloc⟩ := sampleMap_two_pages
  exact ⟨s, s', run, halloc, alloc_free_restores sampleMap_ok sampleMap_apart run halloc
    (by decide) (by decide) (by decide) rfl⟩

/-! ## After further requests

With requests in between some of the halves may be gone. The freed block is then still the first one
that the next request of its order finds. -/

/-- A sequence of requests, whatever they return. -/
def allocAll (s : Buddy) : List Nat → Except Fault Buddy
  | [] => .ok s
  | n :: rest => do
    let (_, s) ← buddyAllocPages s n
    allocAll s rest

/-- Further requests only add live blocks, and they never put a second block on a list. -/
theorem LiveInv.allocAll {U : Set Nat} (ns : List Nat) : ∀ {s : Buddy} {live : List Block}
    {fl : FreeLists}, LiveInv U s live fl →
    ∃ s' more fl', Yoix.allocAll s ns = .ok s' ∧ LiveInv U s' (more ++ live) fl' ∧
      ∀ j, (fl j).length ≤ 1 → (fl' j).length ≤ 1 := by
  induction ns with
  | nil =>
    intro s live fl h
    exact ⟨s, [], fl, rfl, h, fun _ hj => hj⟩
  | cons n ns ih =>
    intro s live fl h
    rcases h.alloc n with hfail | ⟨g, fl₁, s₁, -, -, htake, hrun, -, h₁⟩
    · obtain ⟨s', more, fl', hrest, h', hlen⟩ := ih h
      refine ⟨s', more, fl', ?_, h', hlen⟩
      simp only [Yoix.allocAll, hfail, ok_bind]
      exact hrest
    · obtain ⟨s', more, fl', hrest, h', hlen⟩ := ih h₁
      refine ⟨s', more ++ [⟨g, buddyOrderFromPages n⟩], fl', ?_, ?_, fun j hj => ?_⟩
      · simp only [Yoix.allocAll, hrun, ok_bind]
        exact hrest
      · rw [List.append_assoc]
        exact h'
      · exact hlen j (FreeLists.carve_length_le_one htake hj)

/-- The block of a request stays reusable while only requests follow. -/
theorem LiveInv.reusable {U : Set Nat} {s s₂ : Buddy} {live more : List Block}
    {fl fl₁ fl₂ : FreeLists} {order g : Nat} (h : LiveInv U s live fl)
    (hc : Canonical buddyMaxOrder fl) (htake : takeBlock fl order = some (g, fl₁))
    (h₂ : LiveInv U s₂ (more ++ ⟨g, order⟩ :: live) fl₂)
    (hlen : ∀ j, (fl₁ j).length ≤ 1 → (fl₂ j).length ≤ 1) :
    ∃ q, Reusable buddyMaxOrder order q g fl₂ := by
  obtain ⟨q, rest, hle, hlt, hempty, hq, rfl⟩ := FreeLists.carve_cases htake
  have hmem : g ∈ fl q := by rw [hq]; exact List.mem_cons_self
  refine ⟨q, hle, by omega, h.repr.tiling.aligned hmem, fun hqN hbud => ?_, fun j hj hjq => ?_⟩
  · -- a free buddy now would have been free before: requests only take frames
    refine h.repr.tiling.buddy_not_free hc hmem hqN fun i hi => ?_
    obtain ⟨hU, hout, -⟩ := h₂.repr.free_of_mem hbud hi
    refine ⟨hU, fun hold => hout ?_⟩
    obtain ⟨b, hb, hib⟩ : i ∈ framesOf live := by simpa using hold
    exact ⟨b, List.mem_append_right _ (List.mem_cons_of_mem _ hb), hib⟩
  · apply hlen
    rw [FreeLists.split_apply, Nat.add_sub_cancel' hle, if_pos ⟨hj, hjq⟩,
      Function.update_of_ne hjq.ne, hempty j hj hjq]
    simp

/-- **A freed block is the next one reused.** In every state of every run of a map whose entries
do not touch: when a request has returned an address, any further requests are made, and the
address is freed, then the next request of the same size returns it again. -/
theorem freed_block_reused {response : Option MemmapResponse} (hok : MemmapOk response)
    (hapart : EntriesApart response) {s s₁ : Buddy} {live : List Block}
    (run : BuddyRun response s live) {n a : Nat} (halloc : buddyAllocPages s n = .ok (a, s₁))
    (hvalid : a ≠ buddyInvalidAddress) (hzero : a ≠ 0) (ns : List Nat) :
    ∃ s₂ s₃ s₄, allocAll s₁ ns = .ok s₂ ∧ buddyFreePages s₂ a n = .ok s₃ ∧
      buddyAllocPages s₃ n = .ok (a, s₄) := by
  obtain ⟨fl, hinv, hkeep⟩ := run.inv hok
  have hrange : n ≤ 2 ^ buddyMaxOrder := by
    by_contra hbig
    have hfail : buddyAllocPages s n = .ok (buddyInvalidAddress, s) :=
      hinv.repr.allocPages_of_none fun _ hle => absurd hle hbig
    exact hvalid (ok_unique_pair halloc hfail).1
  obtain ⟨g, fl₁, hpos, rfl, htake, hinv₁⟩ := hinv.alloc_eq halloc hvalid
  have hg0 : g ≠ 0 := by
    rintro rfl
    exact hzero (Nat.zero_mul _)
  obtain ⟨s₂, more, fl₂, hall, hinv₂, hlen⟩ := hinv₁.allocAll ns
  obtain ⟨s₃, hfree, hinv₃⟩ := hinv₂.free (b := ⟨g, buddyOrderFromPages n⟩) (n := n)
    (by simp) ⟨hpos, rfl⟩ hg0
  obtain ⟨q, hreuse⟩ := hinv.reusable (hkeep (canonical_initLists hok hapart)) htake hinv₂ hlen
  obtain ⟨fl₄, hagain⟩ := hreuse.carve_release
  obtain ⟨s₄, hrun, -⟩ := hinv₃.repr.allocPages_of_some hpos hrange hagain
  exact ⟨s₂, s₃, s₄, hall, hfree, hrun⟩

/-- Two pages of the sample map are given back after requests for one and for two more pages, and
the next request for two pages gets them again. -/
theorem freed_block_reused_sampleMap :
    ∃ s s₁ s₂ s₃ s₄, BuddyRun sampleMap s [] ∧ buddyAllocPages s 2 = .ok (0x4000, s₁) ∧
      allocAll s₁ [1, 2] = .ok s₂ ∧ buddyFreePages s₂ 0x4000 2 = .ok s₃ ∧
      buddyAllocPages s₃ 2 = .ok (0x4000, s₄) := by
  obtain ⟨s, s₁, run, halloc⟩ := sampleMap_two_pages
  obtain ⟨s₂, s₃, s₄, hall, hfree, hagain⟩ := freed_block_reused sampleMap_ok sampleMap_apart run
    halloc (by decide) (by decide) [1, 2]
  exact ⟨s, s₁, s₂, s₃, s₄, run, halloc, hall, hfree, hagain⟩

end Yoix
