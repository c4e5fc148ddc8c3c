import Yoix.Buddy.Coalescing

/-!
# Initialisation and the memory map

What `buddy_init` makes of a memory map. Its free frames are exactly the frames that lie wholly
inside one usable entry, and every other frame is reserved. Each entry is decomposed on its own:
the blocks made from it tile its whole frames, and each of them is as large as its alignment and
the rest of the entry allow (`init_frees_usable`).

Because the entries are decomposed one at a time, a block never crosses the border between two
of them, not even when they touch. The free blocks are therefore the maximal aligned runs of
frames inside one entry, and two maps give the same free blocks exactly when the same aligned
runs fit into one of their entries (`same_blocks_iff_same_runs`).
-/

namespace Yoix

open Dyadic

/-! ## The blocks of one entry -/

/-- Add a list of free blocks, the first one first. -/
def addBlocks (s : Buddy) : List (Nat × Nat) → Except Fault Buddy
  | [] => .ok s
  | b :: rest => do
    let s ← buddyAddFreeBlock s b.1 b.2
    addBlocks s rest

/-- The loop of `buddy_add_range` adds the blocks of the greedy decomposition, in its order. -/
theorem addRangeLoop_eq_addBlocks (n : Nat) : ∀ (s : Buddy) (frame pages : Nat),
    addRangeLoop n s frame pages = addBlocks s (rangeBlocks buddyMaxOrder n frame pages) := by
  induction n with
  | zero => intro s frame pages; rfl
  | succ n ih =>
    intro s frame pages
    unfold addRangeLoop rangeBlocks
    cases pages with
    | zero => rfl
    | succ p =>
      have hpos : 0 < p + 1 := Nat.succ_pos p
      rw [if_pos hpos, if_neg hpos.ne', rangeOrder_eq hpos, ok_bind]
      unfold addBlocks
      cases hadd : buddyAddFreeBlock s frame (fitOrder frame (p + 1) buddyMaxOrder) with
      | error e => rfl
      | ok t => exact ih t _ _

theorem buddyInitEntry_eq_addBlocks {e : MemmapEntry} (htype : e.type = limineMemmapUsable)
    (hend : e.base + e.length ≤ 2 ^ 52) (s : Buddy) :
    buddyInitEntry s (some e) = addBlocks s (entryBlocks e) := by
  rw [buddyInitEntry_eq htype hend]
  exact addRangeLoop_eq_addBlocks _ s _ _

theorem entryBlocks_greedyTiling (e : MemmapEntry) :
    GreedyTiling buddyMaxOrder (entryRange e).1 (entryRange e).2 (entryBlocks e) :=
  rangeBlocks_greedyTiling (Nat.le_refl _)

theorem mem_frames_iff_entryRange (e : MemmapEntry) (f : Nat) :
    f ∈ e.frames ↔ (entryRange e).1 ≤ f ∧ f < (entryRange e).1 + (entryRange e).2 := by
  rw [← entryRange_eq_frames]
  exact Set.mem_Ico

theorem type_of_mem_usableEntries {response : Option MemmapResponse} {e : MemmapEntry}
    (he : e ∈ usableEntries response) : e.type = limineMemmapUsable := by
  unfold usableEntries at he
  obtain ⟨entry, -, hentry⟩ := List.mem_filterMap.mp he
  exact of_decide_eq_true (Option.filter_eq_some_iff.mp hentry).2

theorem mem_initLists {response : Option MemmapResponse} {f k : Nat} :
    f ∈ initLists response k ↔ ∃ e ∈ usableEntries response, (f, k) ∈ entryBlocks e := by
  rw [initLists, FreeLists.mem_pushAll, List.mem_flatMap]
  exact or_iff_left List.not_mem_nil

/-! ## The usable pages

After `buddy_init` exactly the whole usable pages are free, whatever the order of the entries and
however many of them are `NULL` or reserved. -/

/-- **Initialisation frees exactly the usable pages.** It ends; a managed frame is in a free
block exactly when its bytes lie wholly inside one usable entry, and is reserved otherwise; the
free blocks are those made from the entries; and those made from one entry tile its whole frames,
each as large as its alignment and the rest of the entry allow. -/
theorem init_frees_usable {response : Option MemmapResponse} (hok : MemmapOk response) :
    ∃ s, buddyInit response = .ok s ∧
      (∀ f < 2 ^ 18, s.FreeFrame f ↔ ∃ e ∈ usableEntries response,
        e.base ≤ 4096 * f ∧ 4096 * f + 4096 ≤ e.base + e.length) ∧
      (∀ f < 2 ^ 18, ¬ s.FreeFrame f → s.pageState f = pageStateReserved) ∧
      (∀ k ≤ 18, ∀ f, s.pageState f = k ↔
        ∃ e ∈ usableEntries response, (f, k) ∈ entryBlocks e) ∧
      ∀ e ∈ usableEntries response,
        (∀ t, buddyInitEntry t (some e) = addBlocks t (entryBlocks e)) ∧
        (∀ f, f ∈ e.frames ↔
          (entryRange e).1 ≤ f ∧ f < (entryRange e).1 + (entryRange e).2) ∧
        GreedyTiling 18 (entryRange e).1 (entryRange e).2 (entryBlocks e) := by
  obtain ⟨s, hinit, hrepr⟩ := buddyInit_represents hok
  have hfree : ∀ f, s.FreeFrame f ↔ f ∈ usableFrames response := by
    intro f
    rw [hrepr.freeFrame_iff]
    exact and_iff_left (Set.notMem_empty f)
  refine ⟨s, hinit, fun f hf => ?_, fun f _ hnot => ?_, fun k hk f => ?_, fun e he => ?_⟩
  · rw [hfree]
    constructor
    · intro ⟨e, he, _, hlo, hhi⟩
      exact ⟨e, he, hlo, hhi⟩
    · intro ⟨e, he, hlo, hhi⟩
      exact ⟨e, he, hf, hlo, hhi⟩
  · exact hrepr.reserved fun hU => hnot ((hfree f).mpr hU)
  · rw [← hrepr.mem_iff_state hk (Set.notMem_empty f)]
    exact mem_initLists
  · exact ⟨buddyInitEntry_eq_addBlocks (type_of_mem_usableEntries he) (hok.bounded e he),
      mem_frames_iff_entryRange e, entryBlocks_greedyTiling e⟩

/-- In the sample map frame 5 is the last one that is usable, and frame 6 belongs to the reserved
entry. -/
theorem init_frees_usable_sampleMap :
    MemmapOk sampleMap ∧ ∃ s, buddyInit sampleMap = .ok s ∧ s.FreeFrame 5 ∧
      s.pageState 6 = pageStateReserved := by
  obtain ⟨s, hinit, hfree, hreserved, -⟩ := init_frees_usable sampleMap_ok
  refine ⟨sampleMap_ok, s, hinit, (hfree 5 (by decide)).mpr (by decide), ?_⟩
  apply hreserved 6 (by decide)
  rw [hfree 6 (by decide)]
  decide

/-! ## Two memory maps

Two maps lead to the same free blocks, and so to the same successful requests, exactly when they cut
the usable frames into the same runs. -/

/-- The run of `2 ^ k` frames from `f` on lies inside one usable entry. -/
def FitsEntry (response : Option MemmapResponse) (f k : Nat) : Prop :=
  ∃ e ∈ usableEntries response, block f k ⊆ e.frames

/-- The two states have the same free blocks. -/
def SameBlocks (s s' : Buddy) : Prop :=
  ∀ k ≤ 18, ∀ f, s.pageState f = k ↔ s'.pageState f = k

/-- A request for `n` pages gets a block. -/
def Succeeds (s : Buddy) (n : Nat) : Prop :=
  ∃ a s', buddyAllocPages s n = .ok (a, s') ∧ a ≠ buddyInvalidAddress

/-- An aligned run fits into an entry exactly when one block made from the entry holds it. -/
theorem fitsEntry_iff {response : Option MemmapResponse} {f k : Nat} (hk : k ≤ buddyMaxOrder)
    (hf : 2 ^ k ∣ f) : FitsEntry response f k ↔
      ∃ j g, g ∈ initLists response j ∧ k ≤ j ∧ block f k ⊆ block g j := by
  constructor
  · intro ⟨e, he, hsub⟩
    have hbase := (mem_frames_iff_entryRange e f).mp (hsub (base_mem_block f k))
    have hpos := Nat.two_pow_pos k
    have hlast := (mem_frames_iff_entryRange e (f + (2 ^ k - 1))).mp
      (hsub (mem_block.mpr ⟨by omega, by omega⟩))
    obtain ⟨b, hb, hle, hin⟩ := rangeBlocks_holds hk hf (Nat.le_refl (entryRange e).2)
      hbase.1 (by omega)
    exact ⟨b.2, b.1, mem_initLists.mpr ⟨e, he, hb⟩, hle, hin⟩
  · intro ⟨j, g, hg, _, hin⟩
    obtain ⟨e, he, hb⟩ := mem_initLists.mp hg
    refine ⟨e, he, fun i hi => (mem_frames_iff_entryRange e i).mpr ?_⟩
    exact ((entryBlocks_greedyTiling e).cover i).mp ⟨(g, j), hb, hin hi⟩

/-- A request succeeds exactly when it is for a size that there is and some list from its order
upwards has a block. -/
theorem Represents.succeeds_iff {U A : Set Nat} {s : Buddy} {fl : FreeLists}
    (h : Represents U A ∅ s fl) (n : Nat) : Succeeds s n ↔
      1 ≤ n ∧ n ≤ 2 ^ buddyMaxOrder ∧ ∃ k, buddyOrderFromPages n ≤ k ∧ ∃ f, f ∈ fl k := by
  constructor
  · rintro ⟨a, s', hrun, hne⟩
    -- a request that is out of range, or that finds every list empty, returns the failure value
    by_contra hno
    have hfail := h.allocPages_of_none fun hpos hle => by
      rw [takeBlock, FreeLists.carve_eq_none_iff]
      intro j hj _
      rw [List.eq_nil_iff_forall_not_mem]
      exact fun f hf => hno ⟨hpos, hle, j, hj, f, hf⟩
    exact hne (ok_unique_pair hrun hfail).1
  · rintro ⟨hpos, hle, k, hk, f, hf⟩
    cases htake : takeBlock fl (buddyOrderFromPages n) with
    | none =>
      rw [takeBlock, FreeLists.carve_eq_none_iff] at htake
      have hkmax := h.tiling.order_le hf
      rw [htake k hk (by omega)] at hf
      exact absurd hf List.not_mem_nil
    | some r =>
      obtain ⟨s', hrun, h'⟩ := h.allocPages_of_some hpos hle htake
      have hlt := h'.usable_lt (h'.alloc_sub (Or.inr (base_mem_block r.1 _)))
      exact ⟨_, s', hrun, addr_ne_invalid hlt⟩

/-- The state bytes of two states say what is on their two families of lists. -/
theorem Represents.sameBlocks_iff {U A U' A' : Set Nat} {s s' : Buddy} {fl fl' : FreeLists}
    (h : Represents U A ∅ s fl) (h' : Represents U' A' ∅ s' fl') :
    SameBlocks s s' ↔ ∀ k ≤ 18, ∀ f, f ∈ fl k ↔ f ∈ fl' k := by
  unfold SameBlocks
  apply forall₂_congr
  intro k hk
  apply forall_congr'
  intro f
  rw [h.mem_iff_state hk (Set.notMem_empty f), h'.mem_iff_state hk (Set.notMem_empty f)]

/-- States with the same free blocks serve the same requests. -/
theorem Represents.succeeds_congr {U A U' A' : Set Nat} {s s' : Buddy} {fl fl' : FreeLists}
    (h : Represents U A ∅ s fl) (h' : Represents U' A' ∅ s' fl') (hblocks : SameBlocks s s')
    (n : Nat) : Succeeds s n ↔ Succeeds s' n := by
  rw [h.sameBlocks_iff h'] at hblocks
  rw [h.succeeds_iff, h'.succeeds_iff]
  refine and_congr_right fun _ => and_congr_right fun _ => exists_congr fun k => ?_
  refine and_congr_right fun _ => exists_congr fun f => ⟨fun hf => ?_, fun hf => ?_⟩
  · exact (hblocks k (h.tiling.order_le hf) f).mp hf
  · exact (hblocks k (h'.tiling.order_le hf) f).mpr hf

section TwoMaps

variable {response response' : Option MemmapResponse}

/-- The aligned runs that fit into one entry decide the blocks. -/
theorem mem_initLists_of_runs {s : Buddy} {s' : Buddy}
    (h : Represents (usableFrames response) ∅ ∅ s (initLists response))
    (h' : Represents (usableFrames response') ∅ ∅ s' (initLists response'))
    (hruns : ∀ k ≤ 18, ∀ f, 2 ^ k ∣ f → (FitsEntry response f k ↔ FitsEntry response' f k))
    {k f : Nat} (hf : f ∈ initLists response k) : f ∈ initLists response' k := by
  apply h.tiling.mem_of_refines h'.tiling _ _ hf
  · intro j g hg
    have hj := h.tiling.order_le hg
    have hdvd := h.tiling.aligned hg
    rw [← fitsEntry_iff hj hdvd, ← hruns j hj g hdvd, fitsEntry_iff hj hdvd]
    exact ⟨j, g, hg, Nat.le_refl j, subset_rfl⟩
  · intro j g hg
    have hj := h'.tiling.order_le hg
    have hdvd := h'.tiling.aligned hg
    rw [← fitsEntry_iff hj hdvd, hruns j hj g hdvd, fitsEntry_iff hj hdvd]
    exact ⟨j, g, hg, Nat.le_refl j, subset_rfl⟩

/-- **Two maps give the same free blocks exactly when the same aligned runs of frames fit into
one of their entries.** So the blocks do not depend on the order of the entries, and as long as no
two entries touch they depend on the usable frames only; and maps with the same free blocks serve
the same first requests. -/
theorem same_blocks_iff_same_runs (hok : MemmapOk response) (hok' : MemmapOk response') :
    ∃ s s', buddyInit response = .ok s ∧ buddyInit response' = .ok s' ∧
      (SameBlocks s s' ↔ ∀ k ≤ 18, ∀ f, 2 ^ k ∣ f →
        (FitsEntry response f k ↔ FitsEntry response' f k)) ∧
      ((usableEntries response).Perm (usableEntries response') → SameBlocks s s') ∧
      (usableFrames response = usableFrames response' → EntriesApart response →
        EntriesApart response' → SameBlocks s s') ∧
      (SameBlocks s s' → ∀ n, Succeeds s n ↔ Succeeds s' n) := by
  obtain ⟨s, hinit, h⟩ := buddyInit_represents hok
  obtain ⟨s', hinit', h'⟩ := buddyInit_represents hok'
  have hsame := h.sameBlocks_iff h'
  refine ⟨s, s', hinit, hinit', ⟨fun hblocks k hk f hf => ?_, fun hruns => ?_⟩, fun hperm => ?_,
    fun hframes hapart hapart' => ?_, h.succeeds_congr h'⟩
  · -- a run fits an entry when it lies in one of the blocks, and these are the same
    rw [hsame] at hblocks
    rw [fitsEntry_iff hk hf, fitsEntry_iff hk hf]
    apply exists₂_congr
    intro j g
    refine and_congr_left fun _ => ⟨fun hg => ?_, fun hg => ?_⟩
    · exact (hblocks j (h.tiling.order_le hg) g).mp hg
    · exact (hblocks j (h'.tiling.order_le hg) g).mpr hg
  · rw [hsame]
    intro k _ f
    constructor
    · exact mem_initLists_of_runs h h' hruns
    · exact mem_initLists_of_runs h' h fun k hk f hf => (hruns k hk f hf).symm
  · rw [hsame]
    intro k _ f
    simp only [mem_initLists, hperm.mem_iff]
  · rw [hsame]
    intro k _ f
    -- without touching entries each map gives the one canonical tiling of its frames
    have htiling := h.tiling
    rw [hframes] at htiling
    exact htiling.mem_iff_of_canonical h'.tiling (canonical_initLists hok hapart)
      (canonical_initLists hok' hapart')

end TwoMaps

/-- `sampleMap` with its entries in another order. -/
def reorderedMap : Option MemmapResponse :=
  some ⟨some [some ⟨0x6000, 0x1000, 1⟩, some ⟨0x1000, 0x5000, 0⟩]⟩

/-- The order of the entries does not matter. -/
theorem same_blocks_iff_same_runs_reorderedMap :
    MemmapOk sampleMap ∧ MemmapOk reorderedMap ∧ ∃ s s', buddyInit sampleMap = .ok s ∧
      buddyInit reorderedMap = .ok s' ∧ SameBlocks s s' := by
  have hok : MemmapOk reorderedMap :=
    ⟨sampleMap_ok.disjoint, sampleMap_ok.bounded⟩
  obtain ⟨s, s', hinit, hinit', -, hperm, -⟩ := same_blocks_iff_same_runs sampleMap_ok hok
  exact ⟨sampleMap_ok, hok, s, s', hinit, hinit', hperm (List.Perm.refl _)⟩

/-- Two whole pages given as one entry, and as two entries that touch. -/
def wholeMap : Option MemmapResponse := some ⟨some [some ⟨0x2000, 0x2000, 0⟩]⟩

def splitMap : Option MemmapResponse :=
  some ⟨some [some ⟨0x2000, 0x1000, 0⟩, some ⟨0x3000, 0x1000, 0⟩]⟩

theorem wholeMap_ok : MemmapOk wholeMap where
  disjoint := by
    rw [show usableEntries wholeMap = [⟨0x2000, 0x2000, 0⟩] from rfl]
    exact List.pairwise_singleton _ _
  bounded := by decide

theorem splitMap_ok : MemmapOk splitMap where
  disjoint := by
    rw [show usableEntries splitMap = [⟨0x2000, 0x1000, 0⟩, ⟨0x3000, 0x1000, 0⟩] from rfl,
      List.pairwise_pair, Set.disjoint_left]
    intro i hi hi'
    simp only [MemmapEntry.bytes, Set.mem_Ico] at hi hi'
    omega
  bounded := by decide

theorem usableFrames_splitMap : usableFrames wholeMap = usableFrames splitMap := by
  ext f
  unfold usableFrames
  rw [show usableEntries wholeMap = [⟨0x2000, 0x2000, 0⟩] from rfl,
    show usableEntries splitMap = [⟨0x2000, 0x1000, 0⟩, ⟨0x3000, 0x1000, 0⟩] from rfl]
  simp only [Set.mem_ofPred_eq, List.mem_cons, List.not_mem_nil, or_false, exists_eq_or_imp,
    exists_eq_left, MemmapEntry.frames, buddyPageSize]
  omega

theorem order_zero_of_splitMap {k f : Nat} (hf : f ∈ initLists splitMap k) : k = 0 := by
  obtain ⟨e, he, hb⟩ := mem_initLists.mp hf
  have hblocks : ∀ e ∈ usableEntries splitMap, ∀ b ∈ entryBlocks e, b.2 = 0 := by decide
  exact hblocks e he (f, k) hb

/-- The two maps make the same pages usable, but a request for two pages succeeds under the first
only. -/
theorem split_entry_changes_blocks :
    MemmapOk wholeMap ∧ MemmapOk splitMap ∧ usableFrames wholeMap = usableFrames splitMap ∧
      ∃ s s', buddyInit wholeMap = .ok s ∧ buddyInit splitMap = .ok s' ∧ ¬ SameBlocks s s' ∧
        Succeeds s 2 ∧ ¬ Succeeds s' 2 := by
  obtain ⟨s, hinit, h⟩ := buddyInit_represents wholeMap_ok
  obtain ⟨s', hinit', h'⟩ := buddyInit_represents splitMap_ok
  have hpair : 2 ∈ initLists wholeMap 1 := by decide
  refine ⟨wholeMap_ok, splitMap_ok, usableFrames_splitMap, s, s', hinit, hinit',
    fun hblocks => ?_, ?_, ?_⟩
  · have hstate := (hblocks 1 (by decide) 2).mp (h.head hpair)
    have hmem := (h'.mem_iff_state (by decide) (Set.notMem_empty 2)).mpr hstate
    exact absurd (order_zero_of_splitMap hmem) (by decide)
  · rw [h.succeeds_iff]
    exact ⟨by decide, by decide, 1, by decide, 2, hpair⟩
  · rw [h'.succeeds_iff]
    intro ⟨_, _, k, hk, f, hf⟩
    rw [order_zero_of_splitMap hf] at hk
    exact absurd hk (by decide)

end Yoix
