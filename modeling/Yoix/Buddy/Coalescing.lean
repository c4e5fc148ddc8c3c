import Yoix.Buddy.Ownership
import Mathlib.Data.List.Pairwise

/-!
# Coalescing is canonical

When the usable entries of the memory map do not touch each other, no run ever leaves two
buddies free next to each other. The free blocks are then the maximal aligned runs of free
frames, so they depend on the allocated frames only and not on the history that led to them,
and a request fails only when no aligned run of free frames could hold it.
-/

namespace Yoix

open Dyadic

/-! ## Maps whose entries do not touch

With a gap of a page between the rounded entries, no block of one is the buddy of a block of
another, so the first lists are canonical. -/

/-- The first whole frame of an entry. -/
def MemmapEntry.firstFrame (e : MemmapEntry) : Nat :=
  (e.base + (buddyPageSize - 1)) / buddyPageSize

/-- One past the last whole frame of an entry. -/
def MemmapEntry.endFrame (e : MemmapEntry) : Nat := (e.base + e.length) / buddyPageSize

/-- After rounding to whole pages the two entries do not share an end. -/
def MemmapEntry.Apart (a b : MemmapEntry) : Prop :=
  a.firstFrame < a.endFrame → b.firstFrame < b.endFrame →
    a.endFrame ≠ b.firstFrame ∧ b.endFrame ≠ a.firstFrame

def EntriesApart (response : Option MemmapResponse) : Prop :=
  (usableEntries response).Pairwise MemmapEntry.Apart

/-- Two disjoint entries that do not touch have strictly separated rounded ranges. -/
theorem entryRange_apart {a b : MemmapEntry} (hdisj : Disjoint a.bytes b.bytes)
    (hapart : a.Apart b) (ha : 0 < (entryRange a).2) (hb : 0 < (entryRange b).2) :
    (entryRange a).1 + (entryRange a).2 < (entryRange b).1 ∨
      (entryRange b).1 + (entryRange b).2 < (entryRange a).1 := by
  -- the larger of the two bases is in both entries unless one ends before the other starts
  have hsep : a.base + a.length ≤ b.base ∨ b.base + b.length ≤ a.base := by
    by_contra hover
    push Not at hover
    have hlen : 0 < a.length ∧ 0 < b.length := by
      simp only [entryRange, buddyPageSize] at ha hb
      omega
    have hin : max a.base b.base ∈ a.bytes ∧ max a.base b.base ∈ b.bytes := by
      simp only [MemmapEntry.bytes, Set.mem_Ico]
      omega
    exact Set.disjoint_left.mp hdisj hin.1 hin.2
  simp only [MemmapEntry.Apart, MemmapEntry.firstFrame, MemmapEntry.endFrame, entryRange,
    buddyPageSize] at *
  omega

/-- Initialisation leaves no free buddies: a range is cut into its largest aligned blocks, and two
entries that do not touch give no buddies. -/
theorem canonical_initLists {response : Option MemmapResponse} (hok : MemmapOk response)
    (hapart : EntriesApart response) : Canonical buddyMaxOrder (initLists response) := by
  have hpair : (usableEntries response).Pairwise fun a b => Disjoint a.bytes b.bytes ∧ a.Apart b :=
    hok.disjoint.and hapart
  refine canonical_of_ranges
    (((usableEntries response).map entryRange).filter fun r => 0 < r.2) ?_ ?_
  · have hranges : (((usableEntries response).map entryRange).filter fun r => 0 < r.2).Pairwise
        fun r r' => r.1 + r.2 < r'.1 ∨ r'.1 + r'.2 < r.1 := by
      rw [List.pairwise_filter, List.pairwise_map]
      refine hpair.imp fun ⟨hdisj, hap⟩ ha hb => ?_
      exact entryRange_apart hdisj hap (by simpa using ha) (by simpa using hb)
    have : Std.Symm fun r r' : Nat × Nat => r.1 + r.2 < r'.1 ∨ r'.1 + r'.2 < r.1 :=
      ⟨fun _ _ h => h.symm⟩
    exact fun r hr r' hr' hne => hranges.forall hr hr' hne
  · intro k g hg
    rw [initLists, FreeLists.mem_pushAll] at hg
    obtain ⟨e, he, hblock⟩ := List.mem_flatMap.mp (hg.resolve_right List.not_mem_nil)
    refine ⟨entryRange e, ?_, hblock⟩
    rw [List.mem_filter, decide_eq_true_iff]
    refine ⟨List.mem_map_of_mem he, Nat.pos_of_ne_zero fun hzero => ?_⟩
    rw [entryBlocks, hzero, rangeBlocks_zero_pages] at hblock
    exact absurd hblock List.not_mem_nil

/-! ## Requests under canonical lists

Canonical lists hold a block for every aligned run of free frames, so a request fails only when
there is no such run. -/

namespace LiveInv

variable {U : Set Nat} {s : Buddy} {live : List Block} {fl : FreeLists}

/-- With canonical lists nothing is found exactly when no aligned run of free frames exists. -/
theorem takeBlock_eq_none_iff (h : LiveInv U s live fl) (hc : Canonical buddyMaxOrder fl)
    {order : Nat} (horder : order ≤ buddyMaxOrder) :
    takeBlock fl order = none ↔ ¬ ∃ f, 2 ^ order ∣ f ∧ ∀ i ∈ block f order, s.FreeFrame i := by
  rw [takeBlock, FreeLists.carve_eq_none_iff]
  constructor
  · rintro hnone ⟨f, hdvd, hfree⟩
    have hsub : block f order ⊆ U \ (framesOf live ∪ ∅) := fun i hi => by
      rw [Set.union_empty]
      exact (h.repr.freeFrame_iff i).mp (hfree i hi)
    obtain ⟨j, g, hg, hle, -⟩ := h.repr.tiling.exists_block_of_subset hc horder hdvd hsub
    have hj := h.repr.tiling.order_le hg
    rw [hnone j hle (by omega)] at hg
    exact List.not_mem_nil hg
  · intro hno j hle hj
    refine List.eq_nil_iff_forall_not_mem.mpr fun g hg => hno ⟨g, ?_, fun i hi => ?_⟩
    · exact (pow_dvd_pow 2 hle).trans (h.repr.tiling.aligned hg)
    · have hin : i ∈ block g j := mem_block.mpr ⟨hi.1, hi.2.trans_le
        (Nat.add_le_add_left (Nat.pow_le_pow_right (by decide) hle) g)⟩
      obtain ⟨hU, hA, -⟩ := h.repr.free_of_mem hg hin
      exact (h.repr.freeFrame_iff i).mpr ⟨hU, hA⟩

end LiveInv

/-- **Coalescing is canonical and independent of the history.** In every state of every run no
two buddies are both free blocks; two states of the same map with the same allocated frames
have the same free blocks; and a request ends, succeeds exactly when an aligned run of free
frames of its order exists, and changes nothing when it fails. -/
theorem canonical_coalescing {response : Option MemmapResponse} (hok : MemmapOk response)
    (hapart : EntriesApart response) :
    (∀ s live, BuddyRun response s live → ∀ k < 18, ∀ f,
      ¬ (s.pageState f = k ∧ s.pageState (f ^^^ 2 ^ k) = k)) ∧
    (∀ s s' live live', BuddyRun response s live → BuddyRun response s' live' →
      (∀ f, s.pageState f = pageStateAllocated ↔ s'.pageState f = pageStateAllocated) →
      ∀ k ≤ 18, ∀ f, s.pageState f = k ↔ s'.pageState f = k) ∧
    (∀ s live, BuddyRun response s live → ∀ n, 1 ≤ n → n ≤ 2 ^ 18 →
      ∃ a s', buddyAllocPages s n = .ok (a, s') ∧
        (a ≠ buddyInvalidAddress ↔
          ∃ f, 2 ^ buddyOrderFromPages n ∣ f ∧
            ∀ i ∈ block f (buddyOrderFromPages n), s.FreeFrame i) ∧
        (a = buddyInvalidAddress → s' = s)) := by
  have hcanon := canonical_initLists hok hapart
  refine ⟨fun s live run k hk f hboth => ?_, fun s s' live live' run run' hsame k hk f => ?_,
    fun s live run n hpos hle => ?_⟩
  · obtain ⟨fl, hinv, hkeep⟩ := run.inv hok
    have hiff := fun g => hinv.repr.mem_iff_state (k := k) hk.le (Set.notMem_empty g)
    exact hkeep hcanon k hk f ((hiff _).mpr hboth.1) ((hiff _).mpr hboth.2)
  · obtain ⟨fl, hinv, hkeep⟩ := run.inv hok
    obtain ⟨fl', hinv', hkeep'⟩ := run'.inv hok
    -- canonical lists are fixed by the frames they cover
    have hlive : framesOf live = framesOf live' := by
      ext i
      rw [← hinv.state_allocated_iff, ← hinv'.state_allocated_iff, hsame]
    have htiling := hinv.repr.tiling
    rw [hlive] at htiling
    rw [← hinv.repr.mem_iff_state hk (Set.notMem_empty f),
      ← hinv'.repr.mem_iff_state hk (Set.notMem_empty f)]
    exact htiling.mem_iff_of_canonical hinv'.repr.tiling (hkeep hcanon) (hkeep' hcanon)
  · obtain ⟨fl, hinv, hkeep⟩ := run.inv hok
    have hnone := hinv.takeBlock_eq_none_iff (hkeep hcanon) (buddyOrderFromPages_le n)
    cases htake : takeBlock fl (buddyOrderFromPages n) with
    | none =>
      refine ⟨_, s, hinv.repr.allocPages_of_none fun _ _ => htake, ?_, fun _ => rfl⟩
      exact ⟨fun hne => absurd rfl hne, fun hex => absurd hex (hnone.mp htake)⟩
    | some r =>
      obtain ⟨g, fl'⟩ := r
      obtain ⟨s', hrun, -⟩ := hinv.repr.allocPages_of_some hpos hle htake
      obtain ⟨-, hsub, -⟩ := hinv.repr.tiling.carve (Nat.le_refl _) htake
      have hvalid : g * buddyPageSize ≠ buddyInvalidAddress := by
        have hlt := hinv.repr.usable_lt (hsub (base_mem_block g _)).1
        simp only [buddyMaxPages, buddyMaxPhys, buddyPageSize, buddyInvalidAddress] at hlt ⊢
        omega
      refine ⟨_, s', hrun, ⟨fun _ => ?_, fun _ => hvalid⟩, fun heq => absurd heq hvalid⟩
      by_contra hno
      rw [hnone.mpr hno] at htake
      exact absurd htake (by simp)

theorem sampleMap_apart : EntriesApart sampleMap := by
  unfold EntriesApart
  rw [show usableEntries sampleMap = [⟨0x1000, 0x5000, 0⟩] from rfl]
  exact List.pairwise_singleton _ _

/-- A page taken and given back: no two free blocks are buddies, the free blocks are those from
before again, and a request for two pages gets the run that the page was split off. -/
theorem canonical_coalescing_sampleMap :
    MemmapOk sampleMap ∧ EntriesApart sampleMap ∧ ∃ s₁ s₂ s, BuddyRun sampleMap s₁ [⟨1, 0⟩] ∧
      buddyAllocPages s₁ 1 = .ok (0x4000, s₂) ∧ buddyFreePages s₂ 0x4000 1 = .ok s ∧
      BuddyRun sampleMap s [⟨1, 0⟩] ∧
      (∀ k < 18, ∀ f, ¬ (s.pageState f = k ∧ s.pageState (f ^^^ 2 ^ k) = k)) ∧
      (∀ k ≤ 18, ∀ f, s.pageState f = k ↔ s₁.pageState f = k) ∧
      ∃ a s', buddyAllocPages s 2 = .ok (a, s') ∧ a ≠ buddyInvalidAddress := by
  obtain ⟨s₁, s₂, s, run₁, halloc, hfree, run⟩ := sampleMap_page_and_back
  obtain ⟨hbuddies, hhistory, hserve⟩ := canonical_coalescing sampleMap_ok sampleMap_apart
  obtain ⟨fl₁, hinv₁, -⟩ := run₁.inv sampleMap_ok
  obtain ⟨fl, hinv, -⟩ := run.inv sampleMap_ok
  obtain ⟨a, s', hcall, hiff, -⟩ := hserve s _ run 2 (by decide) (by decide)
  refine ⟨sampleMap_ok, sampleMap_apart, s₁, s₂, s, run₁, halloc, hfree, run,
    hbuddies s _ run, hhistory s s₁ _ _ run run₁ fun f => ?_, a, s', hcall, ?_⟩
  · rw [hinv.state_allocated_iff, hinv₁.state_allocated_iff]
  · refine hiff.mpr ⟨4, by decide, fun i hi => ?_⟩
    obtain ⟨hlo, hhi⟩ : 4 ≤ i ∧ i < 6 := hi
    rw [hinv.repr.freeFrame_iff, framesOf_cons, framesOf_nil, Set.empty_union]
    refine ⟨mem_usableFrames_sampleMap.mpr (by omega), fun hin => ?_⟩
    obtain ⟨-, hlt⟩ : 1 ≤ i ∧ i < 2 := hin
    omega

end Yoix
