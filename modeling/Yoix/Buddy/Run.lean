import Yoix.Buddy.Init

/-!
# Runs of the page allocator

A run starts with `buddy_init` and continues with requests and frees. The ghost list `live`
records the blocks that have been handed out and not given back. A free names a live block, or
an address in no live block.

`LiveInv` says that the arrays represent the usable frames with exactly the frames of the live
blocks allocated, and that the live blocks are aligned and pairwise disjoint. Every step of a
run ends without a fault and keeps it (`BuddyRun.inv`).
-/

namespace Yoix

open Dyadic Linked

/-! ## Live blocks

The blocks that have been handed out. The arrays do not record them; they are kept beside the state,
to say what the state means. -/

/-- A block handed out by the allocator. -/
structure Block where
  frame : Nat
  order : Nat
  deriving DecidableEq, Repr

namespace Block

def frames (b : Block) : Set Nat := block b.frame b.order

/-- The physical address of the block. -/
def addr (b : Block) : Nat := b.frame * buddyPageSize

/-- `n` pages round to the order of the block. -/
def Named (b : Block) (n : Nat) : Prop := 1 ≤ n ∧ buddyOrderFromPages n = b.order

end Block

/-- The frames of a list of blocks. -/
def framesOf (live : List Block) : Set Nat := { i | ∃ b ∈ live, i ∈ b.frames }

/-- The runs of the allocator, with the blocks that are live after them. -/
inductive BuddyRun (response : Option MemmapResponse) : Buddy → List Block → Prop where
  | init {s : Buddy} (h : buddyInit response = .ok s) : BuddyRun response s []
  | alloc {s s' : Buddy} {live : List Block} {n a : Nat} (run : BuddyRun response s live)
      (h : buddyAllocPages s n = .ok (a, s')) (ha : a ≠ buddyInvalidAddress) :
      BuddyRun response s' (⟨a / buddyPageSize, buddyOrderFromPages n⟩ :: live)
  | allocFail {s s' : Buddy} {live : List Block} {n : Nat} (run : BuddyRun response s live)
      (h : buddyAllocPages s n = .ok (buddyInvalidAddress, s')) : BuddyRun response s' live
  /-- A block at physical address 0 stays live: its free is ignored. -/
  | free {s s' : Buddy} {live : List Block} {b : Block} {n : Nat} (run : BuddyRun response s live)
      (hb : b ∈ live) (hn : b.Named n) (h : buddyFreePages s b.addr n = .ok s') :
      BuddyRun response s' (if b.frame = 0 then live else live.erase b)
  | freeDead {s s' : Buddy} {live : List Block} {a n : Nat} (run : BuddyRun response s live)
      (ha : a < buddyMaxPhys) (hdead : a / buddyPageSize ∉ framesOf live)
      (h : buddyFreePages s a n = .ok s') : BuddyRun response s' live

/-! ## The invariant of a run

Each step of a run keeps it. A request and a free have one lemma each, which says that the call ends
and what it does to the lists. -/

structure LiveInv (U : Set Nat) (s : Buddy) (live : List Block) (fl : FreeLists) : Prop where
  repr : Represents U (framesOf live) ∅ s fl
  aligned : ∀ b ∈ live, 2 ^ b.order ∣ b.frame
  disjoint : live.Pairwise fun b c => Disjoint b.frames c.frames

theorem framesOf_nil : framesOf [] = ∅ := by
  ext i
  simp [framesOf]

/-- A further block adds its frames to those of the live blocks. -/
theorem framesOf_cons (b : Block) (live : List Block) :
    framesOf (b :: live) = framesOf live ∪ b.frames := by
  ext i
  simp only [framesOf, Set.mem_ofPred_eq, List.mem_cons, exists_eq_or_imp, Set.mem_union]
  exact or_comm

theorem framesOf_perm {live live' : List Block} (h : live.Perm live') :
    framesOf live = framesOf live' := by
  ext i
  simp only [framesOf, Set.mem_ofPred_eq, h.mem_iff]

theorem pairwise_disjoint_perm {live live' : List Block} (h : live.Perm live')
    (hpair : live.Pairwise fun b c => Disjoint b.frames c.frames) :
    live'.Pairwise fun b c => Disjoint b.frames c.frames :=
  (h.pairwise_iff fun hd => hd.symm).mp hpair

/-- Taking one block out of a disjoint list takes exactly its frames out. -/
theorem framesOf_erase {live : List Block} {b : Block} (hb : b ∈ live)
    (hpair : live.Pairwise fun b c => Disjoint b.frames c.frames) :
    framesOf (live.erase b) = framesOf live \ b.frames := by
  have hperm := List.perm_cons_erase hb
  obtain ⟨hapart, -⟩ := List.pairwise_cons.mp (pairwise_disjoint_perm hperm hpair)
  have hout : Disjoint (framesOf (live.erase b)) b.frames :=
    Set.disjoint_left.mpr fun i ⟨c, hc, hic⟩ hib => Set.disjoint_left.mp (hapart c hc) hib hic
  rw [framesOf_perm hperm, framesOf_cons, Set.union_sdiff_right, hout.sdiff_eq_left]

namespace LiveInv

variable {U : Set Nat} {s : Buddy} {live : List Block} {fl : FreeLists}

theorem frames_sub (h : LiveInv U s live fl) {b : Block} (hb : b ∈ live) : b.frames ⊆ U :=
  fun _ hi => h.repr.alloc_sub ⟨b, hb, hi⟩

/-- The order of the live blocks does not matter. -/
theorem perm {live' : List Block} (h : LiveInv U s live fl) (hperm : live.Perm live') :
    LiveInv U s live' fl where
  repr := framesOf_perm hperm ▸ h.repr
  aligned b hb := h.aligned b (hperm.mem_iff.mpr hb)
  disjoint := pairwise_disjoint_perm hperm h.disjoint

/-- A request either finds nothing and changes nothing, or hands out a new block. -/
theorem alloc (h : LiveInv U s live fl) (n : Nat) :
    buddyAllocPages s n = .ok (buddyInvalidAddress, s) ∨
    ∃ g fl' s', 1 ≤ n ∧ n ≤ 2 ^ buddyMaxOrder ∧
      takeBlock fl (buddyOrderFromPages n) = some (g, fl') ∧
      buddyAllocPages s n = .ok (g * buddyPageSize, s') ∧ g < buddyMaxPages ∧
      LiveInv U s' (⟨g, buddyOrderFromPages n⟩ :: live) fl' := by
  by_cases hn : 1 ≤ n ∧ n ≤ 2 ^ buddyMaxOrder
  · cases htake : takeBlock fl (buddyOrderFromPages n) with
    | none => exact Or.inl (h.repr.allocPages_of_none fun _ _ => htake)
    | some r =>
      obtain ⟨g, fl'⟩ := r
      obtain ⟨s', hrun, hrepr⟩ := h.repr.allocPages_of_some hn.1 hn.2 htake
      obtain ⟨hdvd, hsub, -⟩ := h.repr.tiling.carve (Nat.le_refl _) htake
      refine Or.inr ⟨g, fl', s', hn.1, hn.2, rfl, hrun, ?_, ?_, ?_, ?_⟩
      · exact h.repr.usable_lt (hsub (base_mem_block g _)).1
      · rw [framesOf_cons]
        exact hrepr
      · intro b hb
        rcases List.mem_cons.mp hb with rfl | hb
        · exact hdvd
        · exact h.aligned b hb
      · refine List.pairwise_cons.mpr ⟨fun b hb => ?_, h.disjoint⟩
        exact Set.disjoint_left.mpr fun i hi hib => (hsub hi).2 (Or.inl ⟨b, hb, hib⟩)
  · exact Or.inl (h.repr.allocPages_of_none fun h1 h2 => absurd ⟨h1, h2⟩ hn)

/-- Giving back a live block that is not at address 0. -/
theorem free (h : LiveInv U s live fl) {b : Block} {n : Nat} (hb : b ∈ live) (hn : b.Named n)
    (h0 : b.frame ≠ 0) : ∃ s', buddyFreePages s b.addr n = .ok s' ∧
      LiveInv U s' (live.erase b) (fl.release buddyMaxOrder b.frame b.order) := by
  obtain ⟨hpos, horder⟩ := hn
  have hdvd := h.aligned b hb
  have hsub : block b.frame b.order ⊆ framesOf live := fun i hi => ⟨b, hb, hi⟩
  rw [← horder] at hdvd hsub
  obtain ⟨s', hrun, hrepr⟩ := h.repr.freePages h0 hpos hdvd hsub
  rw [horder] at hrepr
  refine ⟨s', hrun, ?_, fun c hc => h.aligned c (List.mem_of_mem_erase hc),
    h.disjoint.sublist List.erase_sublist⟩
  rw [framesOf_erase hb h.disjoint]
  exact hrepr

theorem free_zero {b : Block} (s : Buddy) (n : Nat) (h0 : b.frame = 0) :
    buddyFreePages s b.addr n = .ok s := by
  have haddr : b.addr = 0 := by rw [Block.addr, h0, Nat.zero_mul]
  simp only [buddyFreePages, haddr, true_or, if_true]

/-- The free of a live block ends; at address 0 it does nothing. -/
theorem free_ends (h : LiveInv U s live fl) {b : Block} {n : Nat} (hb : b ∈ live)
    (hn : b.Named n) : ∃ s', buddyFreePages s b.addr n = .ok s' := by
  by_cases h0 : b.frame = 0
  · exact ⟨s, free_zero s n h0⟩
  · obtain ⟨s', hrun, -⟩ := h.free hb hn h0
    exact ⟨s', hrun⟩

theorem state_allocated_iff (h : LiveInv U s live fl) (f : Nat) :
    s.pageState f = pageStateAllocated ↔ f ∈ framesOf live :=
  h.repr.state_allocated_iff f

/-- A free of a frame in no live block is ignored. -/
theorem freeDead (h : LiveInv U s live fl) {a n : Nat} (ha : a < buddyMaxPhys)
    (hdead : a / buddyPageSize ∉ framesOf live) : buddyFreePages s a n = .ok s := by
  have hstate : s.pageState (a / buddyPageSize) ≠ pageStateAllocated := fun heq =>
    hdead ((h.state_allocated_iff _).mp heq)
  have hlt : a / buddyPageSize < buddyMaxPages := Nat.div_lt_div_of_lt_of_dvd (by decide) ha
  have hmod : a / buddyPageSize % 2 ^ 32 = a / buddyPageSize := by
    refine Nat.mod_eq_of_lt (hlt.trans (by decide))
  unfold buddyFreePages
  split
  · rfl
  · split
    · rfl
    · simp only [hmod, if_neg (Nat.not_le.mpr hlt), Buddy.getPageState, if_pos hlt, ok_bind,
        ne_eq, hstate, not_false_eq_true, if_true]

end LiveInv

/-- **Every state of a run satisfies the invariant.** If the lists start without free buddies,
they never get any. -/
theorem BuddyRun.inv {response : Option MemmapResponse} (hok : MemmapOk response) {s : Buddy}
    {live : List Block} (run : BuddyRun response s live) :
    ∃ fl, LiveInv (usableFrames response) s live fl ∧
      (Canonical buddyMaxOrder (initLists response) → Canonical buddyMaxOrder fl) := by
  induction run with
  | init h =>
    obtain ⟨s₀, hrun, hrepr⟩ := buddyInit_represents hok
    obtain rfl : s₀ = _ := ok_unique hrun h
    refine ⟨_, ⟨?_, ?_, List.Pairwise.nil⟩, id⟩
    · rw [framesOf_nil]
      exact hrepr
    · exact fun b hb => absurd hb List.not_mem_nil
  | @alloc s s' live n a run h ha ih =>
    obtain ⟨fl, hinv, hcanon⟩ := ih
    rcases hinv.alloc n with hfail | ⟨g, fl', s₁, -, -, htake, hrun, -, hinv'⟩
    · exact absurd (ok_unique_pair h hfail).1 ha
    · obtain ⟨rfl, rfl⟩ := ok_unique_pair h hrun
      refine ⟨fl', ?_, fun h0 => (hcanon h0).carve hinv.repr.tiling (Nat.le_refl _) htake⟩
      rw [Nat.mul_div_cancel g (by decide)]
      exact hinv'
  | @allocFail s s' live n run h ih =>
    obtain ⟨fl, hinv, hcanon⟩ := ih
    rcases hinv.alloc n with hfail | ⟨g, fl', s₁, -, -, -, hrun, hlt, -⟩
    · obtain ⟨-, rfl⟩ := ok_unique_pair h hfail
      exact ⟨fl, hinv, hcanon⟩
    · -- the address of a managed frame is not the failure value
      exact absurd (ok_unique_pair h hrun).1.symm (addr_ne_invalid hlt)
  | @free s s' live b n run hb hn h ih =>
    obtain ⟨fl, hinv, hcanon⟩ := ih
    -- the block at address 0 cannot be given back and stays live
    by_cases h0 : b.frame = 0
    · rw [if_pos h0]
      obtain rfl := ok_unique h (LiveInv.free_zero s n h0)
      exact ⟨fl, hinv, hcanon⟩
    · rw [if_neg h0]
      obtain ⟨s₁, hrun, hinv'⟩ := hinv.free hb hn h0
      obtain rfl := ok_unique h hrun
      exact ⟨_, hinv', fun hinit => (hcanon hinit).release hinv.repr.tiling.nodup _ _⟩
  | @freeDead s s' live a n run ha hdead h ih =>
    obtain ⟨fl, hinv, hcanon⟩ := ih
    obtain rfl := ok_unique h (hinv.freeDead ha hdead)
    exact ⟨fl, hinv, hcanon⟩

end Yoix
