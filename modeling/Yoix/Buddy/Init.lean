import Yoix.Buddy.Operations
import Yoix.Lib.Bits

/-!
# Initialisation

`buddy_init` rounds every usable entry of the memory map to whole pages, clips it at 1 GiB and
decomposes it greedily. For a memory map whose usable entries are disjoint and end at or below
`2 ^ 52` no rounding wraps, and the result represents the usable frames, all of them free
(`buddyInit_represents`).
-/

namespace Yoix

open Dyadic

/-! ## Memory maps

What is assumed of the map that the bootloader gives: usable entries do not overlap and end below `2
^ 52`. Nothing is assumed of the other entries. -/

/-- The usable entries of a memory map, in order. -/
def usableEntries (response : Option MemmapResponse) : List MemmapEntry :=
  ((response.bind MemmapResponse.entries).getD []).filterMap fun entry =>
    entry.filter fun e => e.type = limineMemmapUsable

/-- The byte range of an entry. -/
def MemmapEntry.bytes (e : MemmapEntry) : Set Nat := Set.Ico e.base (e.base + e.length)

/-- What is assumed of the bootloader and the architecture. -/
structure MemmapOk (response : Option MemmapResponse) : Prop where
  disjoint : (usableEntries response).Pairwise fun a b => Disjoint a.bytes b.bytes
  bounded : ∀ e ∈ usableEntries response, e.base + e.length ≤ 2 ^ 52

/-- The managed frames that lie wholly inside one entry. -/
def MemmapEntry.frames (e : MemmapEntry) : Set Nat :=
  { f | f < buddyMaxPages ∧ e.base ≤ buddyPageSize * f ∧
      buddyPageSize * f + buddyPageSize ≤ e.base + e.length }

/-- The managed frames that lie wholly inside a usable entry. -/
def usableFrames (response : Option MemmapResponse) : Set Nat :=
  { f | ∃ e ∈ usableEntries response, f ∈ e.frames }

/-- An entry rounded to whole pages and clipped: its first frame and its number of frames. -/
def entryRange (e : MemmapEntry) : Nat × Nat :=
  let first := (e.base + (buddyPageSize - 1)) / buddyPageSize
  let last := min ((e.base + e.length) / buddyPageSize) buddyMaxPages
  (first, last - first)

/-- The run that is computed for an entry consists of the managed frames that lie wholly inside it.
-/
theorem entryRange_eq_frames (e : MemmapEntry) :
    Set.Ico (entryRange e).1 ((entryRange e).1 + (entryRange e).2) = e.frames := by
  ext f
  simp only [entryRange, MemmapEntry.frames, Set.mem_Ico, Set.mem_ofPred_eq, buddyPageSize]
  omega

/-- The blocks made from one entry. -/
def entryBlocks (e : MemmapEntry) : List (Nat × Nat) :=
  rangeBlocks buddyMaxOrder (entryRange e).2 (entryRange e).1 (entryRange e).2

/-- The abstract free lists after initialisation. -/
def initLists (response : Option MemmapResponse) : FreeLists :=
  FreeLists.pushAll (fun _ => []) ((usableEntries response).flatMap entryBlocks)

/-! ## Rounding -/

theorem not64_pageMask : not64 (buddyPageSize - 1) = 2 ^ 64 - 2 ^ 12 := by decide

theorem buddyAlignDown_page (value : Nat) (h : value < 2 ^ 64) :
    buddyAlignDown value buddyPageSize = value / buddyPageSize * buddyPageSize := by
  rw [buddyAlignDown, not64_pageMask, Bits.and_mask_of_lt (by decide) h]
  rfl

/-- Rounding up to a page, unless the sum overflows. -/
theorem buddyAlignUp_page (value : Nat) (h : value + buddyPageSize ≤ 2 ^ 64) :
    buddyAlignUp value buddyPageSize
      = (value + (buddyPageSize - 1)) / buddyPageSize * buddyPageSize := by
  have hlt : value + buddyPageSize - 1 < 2 ^ 64 := by
    simp only [buddyPageSize] at *
    omega
  rw [buddyAlignUp, not64_pageMask, Nat.mod_eq_of_lt hlt, Bits.and_mask_of_lt (by decide) hlt,
    Nat.add_sub_assoc (by decide)]
  rfl

/-! ## The range loop

The blocks of a range are those of the greedy cut, pushed one after the other. -/

/-- The search for the order of the next block finds the largest one that fits. -/
theorem rangeOrder_eq {frame pages : Nat} (hpos : 0 < pages) : ∀ N : Nat,
    rangeOrder frame pages N = .ok (fitOrder frame pages N)
  | 0 => by
    have hguard : ¬ (2 ^ 0 > pages ∨ frame &&& (2 ^ 0 - 1) ≠ 0) := by
      rw [Nat.and_two_pow_sub_one_eq_mod]
      omega
    rw [rangeOrder, if_neg hguard, fitOrder]
  | N + 1 => by
    rw [rangeOrder, fitOrder, Nat.and_two_pow_sub_one_eq_mod]
    split
    · exact rangeOrder_eq hpos N
    · rfl

/-- The loop does not depend on its round counter once it is large enough. -/
theorem addRangeLoop_stable : ∀ {n m : Nat} {s : Buddy} {frame pages : Nat}, pages ≤ n →
    pages ≤ m → addRangeLoop n s frame pages = addRangeLoop m s frame pages
  | 0, m, s, frame, pages, hn, _ => by
    obtain rfl : pages = 0 := by omega
    cases m <;> simp [addRangeLoop]
  | n + 1, 0, s, frame, pages, _, hm => by
    obtain rfl : pages = 0 := by omega
    simp [addRangeLoop]
  | n + 1, m + 1, s, frame, pages, hn, hm => by
    unfold addRangeLoop
    split
    · next hpos =>
      simp only [rangeOrder_eq hpos, ok_bind]
      have hsize := Nat.two_pow_pos (fitOrder frame pages buddyMaxOrder)
      cases buddyAddFreeBlock s frame (fitOrder frame pages buddyMaxOrder) with
      | error e => rfl
      | ok s' => exact addRangeLoop_stable (by omega) (by omega)
    · rfl

/-- `buddy_add_range` as the source writes it, without the bound on its rounds: each of them takes
at least one page. -/
theorem buddyAddRange_eq (s : Buddy) (frame pages : Nat) :
    buddyAddRange s frame pages =
      if pages > 0 then do
        let order ← rangeOrder frame pages buddyMaxOrder
        let s ← buddyAddFreeBlock s frame order
        buddyAddRange s (frame + 2 ^ order) (pages - 2 ^ order)
      else .ok s := by
  cases pages with
  | zero => rfl
  | succ n =>
    have hpos : 0 < n + 1 := Nat.succ_pos n
    rw [if_pos hpos, buddyAddRange, addRangeLoop, if_pos hpos, rangeOrder_eq hpos, ok_bind,
      ok_bind]
    have hsize := Nat.two_pow_pos (fitOrder frame (n + 1) buddyMaxOrder)
    cases buddyAddFreeBlock s frame (fitOrder frame (n + 1) buddyMaxOrder) with
    | error e => rfl
    | ok s' => exact addRangeLoop_stable (by omega) (Nat.le_refl _)

/-- A run that starts with a block is that block and the run behind it. -/
theorem sdiff_block_Ico {H : Set Nat} {frame pages k : Nat} (hfit : 2 ^ k ≤ pages) :
    (H \ block frame k) \ Set.Ico (frame + 2 ^ k) (frame + 2 ^ k + (pages - 2 ^ k))
      = H \ Set.Ico frame (frame + pages) := by
  have hsize := Nat.two_pow_pos k
  rw [Set.sdiff_sdiff]
  congr 1
  ext i
  simp only [Set.mem_union, mem_block, Set.mem_Ico]
  omega

namespace Represents

variable {U A : Set Nat}

/-- Adding a range in transit pushes its blocks. Induction on the bound of the loop; a round moves
one block out of the transit set. -/
theorem addRangeLoop : ∀ {n frame pages : Nat} {H : Set Nat} {s : Buddy} {fl : FreeLists},
    Represents U A H s fl → pages ≤ n → Set.Ico frame (frame + pages) ⊆ H →
    ∃ s', Yoix.addRangeLoop n s frame pages = .ok s' ∧
      Represents U A (H \ Set.Ico frame (frame + pages)) s'
        (fl.pushAll (rangeBlocks buddyMaxOrder n frame pages))
  | 0, frame, pages, H, s, fl, h, hn, _ => by
    obtain rfl : pages = 0 := by omega
    refine ⟨s, rfl, ?_⟩
    simpa [rangeBlocks] using h
  | n + 1, frame, pages, H, s, fl, h, hn, hsub => by
    by_cases hpos : pages = 0
    · subst hpos
      refine ⟨s, rfl, ?_⟩
      simpa [rangeBlocks_zero_pages] using h
    · obtain ⟨hle, hfit, hdvd, -⟩ :=
        fitOrder_spec (f := frame) (Nat.pos_of_ne_zero hpos) buddyMaxOrder
      have horder : rangeOrder frame pages buddyMaxOrder = _ :=
        rangeOrder_eq (Nat.pos_of_ne_zero hpos) buddyMaxOrder
      have hblocks : rangeBlocks buddyMaxOrder (n + 1) frame pages
          = (frame, fitOrder frame pages buddyMaxOrder) ::
            rangeBlocks buddyMaxOrder n (frame + 2 ^ fitOrder frame pages buddyMaxOrder)
              (pages - 2 ^ fitOrder frame pages buddyMaxOrder) := by
        rw [rangeBlocks, if_neg hpos]
      set k := fitOrder frame pages buddyMaxOrder
      have hsize := Nat.two_pow_pos k
      have hfirst : block frame k ⊆ H := fun i hi =>
        hsub ⟨hi.1, Nat.lt_of_lt_of_le hi.2 (by omega)⟩
      obtain ⟨s₁, hrun₁, h₁⟩ := h.addFreeBlock hle hdvd hfirst
      -- what is left of the range is still in transit
      have hrest : Set.Ico (frame + 2 ^ k) (frame + 2 ^ k + (pages - 2 ^ k))
          ⊆ H \ block frame k := by
        intro i hi
        rw [Set.mem_Ico] at hi
        refine ⟨hsub ⟨by omega, by omega⟩, fun hb => ?_⟩
        rw [mem_block] at hb
        omega
      obtain ⟨s₂, hrun₂, h₂⟩ := addRangeLoop (n := n) h₁ (by omega) hrest
      refine ⟨s₂, ?_, ?_⟩
      · simp only [Yoix.addRangeLoop, if_pos (Nat.pos_of_ne_zero hpos), horder, ok_bind, hrun₁]
        exact hrun₂
      · rw [← sdiff_block_Ico hfit, hblocks, FreeLists.pushAll_cons]
        exact h₂

end Represents

/-! ## The whole map

One entry after the other adds its frames, which no other usable entry has; in the end exactly the
usable frames are free. -/

/-- For an entry that ends at or below `2 ^ 52` nothing wraps: its rounded range is added. -/
theorem buddyInitEntry_eq {s : Buddy} {e : MemmapEntry} (htype : e.type = limineMemmapUsable)
    (hend : e.base + e.length ≤ 2 ^ 52) :
    buddyInitEntry s (some e) = buddyAddRange s (entryRange e).1 (entryRange e).2 := by
  have hskip : ∀ first, buddyAddRange s first 0 = .ok s := fun _ => rfl
  have hup := buddyAlignUp_page e.base (by simp only [buddyPageSize]; omega)
  have hdown := buddyAlignDown_page (e.base + e.length) (by omega)
  have hmod : (e.base + e.length) % 2 ^ 64 = e.base + e.length := Nat.mod_eq_of_lt (by omega)
  simp only [buddyInitEntry, htype, ne_eq, not_true, if_false, hmod, hup, hdown, entryRange]
  set first := (e.base + (buddyPageSize - 1)) / buddyPageSize with hfirst
  set last := (e.base + e.length) / buddyPageSize with hlast
  have hdiv : ∀ x, x * buddyPageSize / buddyPageSize = x := fun x =>
    Nat.mul_div_cancel x (by decide)
  rw [hdiv, hdiv]
  have hmax : buddyMaxPages = 262144 := rfl
  split
  · next hle =>
    have hle : last ≤ first := Nat.le_of_mul_le_mul_right hle (by decide)
    rw [show min last buddyMaxPages - first = 0 from by omega, hskip]
  · split
    · next hge => rw [show min last buddyMaxPages - first = 0 from by omega, hskip]
    · next hlt =>
      have hclip : (if last > buddyMaxPages then buddyMaxPages else last)
          = min last buddyMaxPages := by
        split <;> omega
      have hfirst32 : first % 2 ^ 32 = first := Nat.mod_eq_of_lt (by omega)
      have hpages32 : (min last buddyMaxPages - first) % 2 ^ 32 = min last buddyMaxPages - first :=
        Nat.mod_eq_of_lt (by omega)
      rw [hclip, hfirst32, hpages32]

theorem buddyInitEntry_skip {s : Buddy} {entry : Option MemmapEntry}
    (hnone : (entry.filter fun e => e.type = limineMemmapUsable) = none) :
    buddyInitEntry s entry = .ok s := by
  cases entry with
  | none => rfl
  | some e =>
    have htype : ¬ e.type = limineMemmapUsable := by simpa using hnone
    simp only [buddyInitEntry, ne_eq, htype, not_false_eq_true, if_true]

/-- The frames of an entry belong to no entry whose bytes are disjoint from it. -/
theorem frames_sdiff_entryRange {e : MemmapEntry} {rest : List MemmapEntry}
    (hapart : ∀ e' ∈ rest, Disjoint e.bytes e'.bytes) :
    { f | ∃ e' ∈ e :: rest, f ∈ e'.frames }
        \ Set.Ico (entryRange e).1 ((entryRange e).1 + (entryRange e).2)
      = { f | ∃ e' ∈ rest, f ∈ e'.frames } := by
  rw [entryRange_eq_frames]
  ext f
  constructor
  · rintro ⟨⟨e', he', hf⟩, hout⟩
    rcases List.mem_cons.mp he' with rfl | he'
    · exact absurd hf hout
    · exact ⟨e', he', hf⟩
  · rintro ⟨e', he', hf⟩
    refine ⟨⟨e', List.mem_cons_of_mem e he', hf⟩, fun hfe => ?_⟩
    -- the first byte of a common frame would lie in both entries
    have hbyte : buddyPageSize * f ∈ e.bytes → buddyPageSize * f ∉ e'.bytes :=
      fun h1 h2 => Set.disjoint_left.mp (hapart e' he') h1 h2
    simp only [MemmapEntry.frames, MemmapEntry.bytes, Set.mem_ofPred_eq, Set.mem_Ico,
      buddyPageSize] at hf hfe hbyte
    exact hbyte ⟨by omega, by omega⟩ ⟨by omega, by omega⟩

/-- The loop over the entries: each one is in transit until it has been added. -/
theorem buddyInitLoop_represents {U : Set Nat} : ∀ {entries : List (Option MemmapEntry)}
    {s : Buddy} {fl : FreeLists},
    let usable := entries.filterMap fun entry => entry.filter fun e => e.type = limineMemmapUsable
    (usable.Pairwise fun a b => Disjoint a.bytes b.bytes) →
    (∀ e ∈ usable, e.base + e.length ≤ 2 ^ 52) →
    Represents U ∅ { f | ∃ e ∈ usable, f ∈ e.frames } s fl →
    ∃ s', buddyInitLoop s entries = .ok s' ∧
      Represents U ∅ ∅ s' (fl.pushAll (usable.flatMap entryBlocks))
  | [], s, fl, _, _, h => by
    refine ⟨s, rfl, ?_⟩
    simpa using h
  | entry :: rest, s, fl, hpair, hbound, h => by
    cases hfilter : entry.filter fun e => e.type = limineMemmapUsable with
    | none =>
      -- an entry that is not usable is passed over
      rw [List.filterMap_cons_none hfilter] at hpair hbound h ⊢
      obtain ⟨s', hrun, h'⟩ := buddyInitLoop_represents hpair hbound h
      refine ⟨s', ?_, h'⟩
      simp only [buddyInitLoop, buddyInitEntry_skip hfilter, ok_bind]
      exact hrun
    | some e =>
      rw [List.filterMap_cons_some hfilter] at hpair hbound h ⊢
      obtain ⟨rfl, htype⟩ : entry = some e ∧ e.type = limineMemmapUsable := by
        simpa using hfilter
      obtain ⟨hapart, hpair⟩ := List.pairwise_cons.mp hpair
      -- the frames of a usable entry leave the transit set, those of the other entries stay in it
      have hadd := h.addRangeLoop (n := (entryRange e).2) (Nat.le_refl _) (by
        rw [entryRange_eq_frames]
        exact fun f hf => ⟨e, List.mem_cons_self, hf⟩)
      obtain ⟨s₁, hrun₁, h₁⟩ := hadd
      rw [frames_sdiff_entryRange hapart] at h₁
      obtain ⟨s', hrun, h'⟩ := buddyInitLoop_represents hpair
        (fun e' he' => hbound e' (List.mem_cons_of_mem e he')) h₁
      refine ⟨s', ?_, ?_⟩
      · simp only [buddyInitLoop, buddyInitEntry_eq htype (hbound e List.mem_cons_self),
          buddyAddRange, hrun₁, ok_bind]
        exact hrun
      · rw [List.flatMap_cons, FreeLists.pushAll_append]
        exact h'

/-- After `buddy_reset` nothing is free yet: the usable frames are all in transit, to be added range
by range. -/
theorem buddyReset_represents {U : Set Nat} (hlt : ∀ {i}, i ∈ U → i < buddyMaxPages) :
    Represents U ∅ U buddyReset (fun _ => []) where
  usable_lt := hlt
  alloc_sub := Set.empty_subset U
  hole_sub := subset_rfl
  disjoint := Set.empty_disjoint U
  tiling := (Tiling.empty buddyMaxOrder).congr (by simp)
  head h := absurd h List.not_mem_nil
  body h := absurd h List.not_mem_nil
  allocated h := absurd h (Set.notMem_empty _)
  reserved _ := rfl
  lists _ := Linked.IsDll.empty _ _ _
  unlinked _ := ⟨rfl, rfl⟩

/-- `buddy_init` ends and frees exactly the usable frames: the lists hold the blocks of one entry
after the other. -/
theorem buddyInit_represents {response : Option MemmapResponse} (hok : MemmapOk response) :
    ∃ s, buddyInit response = .ok s ∧
      Represents (usableFrames response) ∅ ∅ s (initLists response) := by
  have hreset : Represents (usableFrames response) ∅ (usableFrames response) buddyReset
      (fun _ => []) := buddyReset_represents fun ⟨_, _, hf⟩ => hf.1
  match response, hok, hreset with
  | none, _, hreset =>
    exact ⟨_, rfl, by simpa [usableFrames, usableEntries, initLists] using hreset⟩
  | some ⟨none⟩, _, hreset =>
    exact ⟨_, rfl, by simpa [usableFrames, usableEntries, initLists] using hreset⟩
  | some ⟨some entries⟩, hok, hreset =>
    exact buddyInitLoop_represents hok.disjoint hok.bounded hreset

end Yoix
