import Yoix.Buddy.Init

/-!
# Initialisation on any memory map

Nothing is assumed of the memory map here: entries may overlap, may be `NULL`, and the end of
one may wrap around `2 ^ 64`. The overlapping case rules `Represents` out, since a frame that
is added twice is in two lists. What survives is weaker, and enough for memory safety: every
list head is the end marker or a managed frame (`HeadsManaged`), and the clipping tests of
`buddy_init` bound the range of every entry (`initRange_le`).

The runs of the two loops are relations without a round counter, so that a derivation is a run
that ends. They record the blocks added on the way.

* `HeadsManaged.addFreeBlock`: adding one block touches only managed frames.
* `HeadsManaged.addRangeRun`: the loop of `buddy_add_range` ends.
* `HeadsManaged.initRun`: so does the loop of `buddy_init`.
* `buddyInit_memorySafe`: `buddy_init` ends on every memory map without leaving an array.
-/

namespace Yoix

open Dyadic

/-! ## Resetting the arrays -/

/-- The first loop of `buddy_reset`, with `n` rounds left from page `i` on. -/
def resetPagesLoop : Nat → Nat → Buddy → Except Fault Buddy
  | 0, _, s => .ok s
  | n + 1, i, s => do
    let s ← s.setPageState i pageStateReserved
    let s ← s.setFreeNext i uint32Max
    let s ← s.setFreePrev i uint32Max
    resetPagesLoop n (i + 1) s

/-- The second loop of `buddy_reset`, with `n` rounds left from `order` on. -/
def resetListsLoop : Nat → Nat → Buddy → Except Fault Buddy
  | 0, _, s => .ok s
  | n + 1, order, s => do
    let s ← s.setFreeList order uint32Max
    resetListsLoop n (order + 1) s

/-- `buddy_reset` write by write, from any content of the static arrays. -/
def buddyResetLoops (s : Buddy) : Except Fault Buddy := do
  let s ← resetPagesLoop buddyMaxPages 0 s
  resetListsLoop (buddyMaxOrder + 1) 0 s

/-- The two states hold the same arrays; what lies past the end of an array is not compared. -/
structure SameArrays (s t : Buddy) : Prop where
  pageState : ∀ i < buddyMaxPages, s.pageState i = t.pageState i
  freeList : ∀ order ≤ buddyMaxOrder, s.freeList order = t.freeList order
  freeNext : ∀ i < buddyMaxPages, s.freeNext i = t.freeNext i
  freePrev : ∀ i < buddyMaxPages, s.freePrev i = t.freePrev i

/-- The first loop makes all frames reserved and clears their links. Induction on the frames that
are left. -/
theorem resetPagesLoop_eq {n i : Nat} {s : Buddy} (hle : i + n ≤ buddyMaxPages) :
    resetPagesLoop n i s = .ok { s with
      pageState := fun j => if i ≤ j ∧ j < i + n then pageStateReserved else s.pageState j
      freeNext := fun j => if i ≤ j ∧ j < i + n then uint32Max else s.freeNext j
      freePrev := fun j => if i ≤ j ∧ j < i + n then uint32Max else s.freePrev j } := by
  induction n generalizing i s with
  | zero =>
    have hnone : ∀ j, ¬ (i ≤ j ∧ j < i + 0) := by omega
    simp only [resetPagesLoop, hnone, if_false]
  | succ n ih =>
    have hi : i < buddyMaxPages := by omega
    simp only [resetPagesLoop, Buddy.setPageState, Buddy.setFreeNext, Buddy.setFreePrev, if_pos hi,
      ok_bind]
    rw [ih (by omega)]
    simp only [update_fill]

/-- The second loop makes all lists empty. Induction on the orders that are left. -/
theorem resetListsLoop_eq {n order : Nat} {s : Buddy} (hle : order + n ≤ buddyMaxOrder + 1) :
    resetListsLoop n order s = .ok { s with
      freeList := fun o => if order ≤ o ∧ o < order + n then uint32Max else s.freeList o } := by
  induction n generalizing order s with
  | zero =>
    have hnone : ∀ o, ¬ (order ≤ o ∧ o < order + 0) := by omega
    simp only [resetListsLoop, hnone, if_false]
  | succ n ih =>
    have ho : order ≤ buddyMaxOrder := by omega
    simp only [resetListsLoop, Buddy.setFreeList, if_pos ho, ok_bind]
    rw [ih (by omega)]
    simp only [update_fill]

/-- `buddy_reset` stays inside the arrays and overwrites all of them. -/
theorem buddyResetLoops_sameArrays (s : Buddy) :
    ∃ s', buddyResetLoops s = .ok s' ∧ SameArrays s' buddyReset := by
  rw [buddyResetLoops, resetPagesLoop_eq (by omega), ok_bind, resetListsLoop_eq (by omega)]
  have hpage : ∀ i, i < buddyMaxPages → 0 ≤ i ∧ i < 0 + buddyMaxPages := by omega
  refine ⟨_, rfl, ?_⟩
  exact {
    pageState := fun i hi => if_pos (hpage i hi)
    freeList := fun order ho => if_pos (by omega)
    freeNext := fun i hi => if_pos (hpage i hi)
    freePrev := fun i hi => if_pos (hpage i hi) }

/-! ## Runs of the loops

A run is given by the blocks that it adds, in order. That there is one says that the loops end. -/

/-- A finished run of the loop of `buddy_add_range` from `s`, `frame` and `pages`: the blocks
added, in order, and the state at the end. -/
inductive AddRangeRun : Buddy → Nat → Nat → List (Nat × Nat) → Buddy → Prop where
  | done (s : Buddy) (frame : Nat) : AddRangeRun s frame 0 [] s
  | round {s s₁ s' : Buddy} {frame pages order : Nat} {blocks : List (Nat × Nat)}
      (hpages : pages > 0)
      (horder : rangeOrder frame pages buddyMaxOrder = .ok order)
      (hblock : buddyAddFreeBlock s frame order = .ok s₁)
      (hrest : AddRangeRun s₁ (frame + 2 ^ order) (pages - 2 ^ order) blocks s') :
      AddRangeRun s frame pages ((frame, order) :: blocks) s'

/-- The range that the loop of `buddy_init` adds for an entry; `none` where it continues with
the next one. -/
def initRange : Option MemmapEntry → Option (Nat × Nat)
  | none => none
  | some entry =>
    if entry.type ≠ limineMemmapUsable then none
    else
      let start := buddyAlignUp entry.base buddyPageSize
      let stop := buddyAlignDown ((entry.base + entry.length) % 2 ^ 64) buddyPageSize
      if stop ≤ start then none
      else
        let firstFrame := start / buddyPageSize
        let lastFrame := stop / buddyPageSize
        if firstFrame ≥ buddyMaxPages then none
        else
          let lastFrame := if lastFrame > buddyMaxPages then buddyMaxPages else lastFrame
          some (firstFrame % 2 ^ 32, (lastFrame - firstFrame) % 2 ^ 32)

/-- A finished run of the loop of `buddy_init` over the entries. -/
inductive InitRun : Buddy → List (Option MemmapEntry) → List (Nat × Nat) → Buddy → Prop where
  | nil (s : Buddy) : InitRun s [] [] s
  | skip {s s' : Buddy} {entry : Option MemmapEntry} {rest : List (Option MemmapEntry)}
      {blocks : List (Nat × Nat)} (hrange : initRange entry = none)
      (hrest : InitRun s rest blocks s') : InitRun s (entry :: rest) blocks s'
  | add {s s₁ s' : Buddy} {entry : Option MemmapEntry} {rest : List (Option MemmapEntry)}
      {first pages : Nat} {blocks blocks' : List (Nat × Nat)}
      (hrange : initRange entry = some (first, pages))
      (hrun : AddRangeRun s first pages blocks s₁)
      (hrest : InitRun s₁ rest blocks' s') : InitRun s (entry :: rest) (blocks ++ blocks') s'

theorem AddRangeRun.eq {s s' : Buddy} {frame pages : Nat} {blocks : List (Nat × Nat)}
    (h : AddRangeRun s frame pages blocks s') : buddyAddRange s frame pages = .ok s' := by
  induction h with
  | done s frame => rfl
  | round hpages horder hblock _ ih =>
    rw [buddyAddRange_eq, if_pos hpages, horder, ok_bind, hblock, ok_bind]
    exact ih

/-- An entry is either skipped or adds the range that the clipping tests leave of it. -/
theorem buddyInitEntry_eq_initRange (s : Buddy) (entry : Option MemmapEntry) :
    buddyInitEntry s entry =
      match initRange entry with
      | none => .ok s
      | some (first, pages) => buddyAddRange s first pages := by
  cases entry with
  | none => rfl
  | some e =>
    unfold buddyInitEntry initRange
    dsimp only
    split
    · rfl
    · split
      · rfl
      · split <;> rfl

/-- A run over the entries is what the loop of `buddy_init` does. -/
theorem InitRun.eq {s s' : Buddy} {entries : List (Option MemmapEntry)}
    {blocks : List (Nat × Nat)} (h : InitRun s entries blocks s') :
    buddyInitLoop s entries = .ok s' := by
  induction h with
  | nil s => rfl
  | skip hrange _ ih =>
    rw [buddyInitLoop, buddyInitEntry_eq_initRange, hrange]
    exact ih
  | add hrange hrun _ ih =>
    rw [buddyInitLoop, buddyInitEntry_eq_initRange, hrange]
    dsimp only
    rw [hrun.eq, ok_bind]
    exact ih

/-! ## The clipping tests

What `buddy_init` computes for an entry never reaches past the last managed frame, also when a base
or a length is as large as it can be. -/

/-- Whatever the rounding and the sum of base and length wrapped to, the range that is added
lies below the last managed frame. -/
theorem initRange_le {entry : Option MemmapEntry} {first pages : Nat}
    (h : initRange entry = some (first, pages)) : first + pages ≤ buddyMaxPages := by
  cases entry with
  | none => cases h
  | some e =>
    unfold initRange at h
    dsimp only at h
    split at h
    · cases h
    · split at h
      · cases h
      · next hstop =>
        split at h
        · cases h
        · next hfirst =>
          have hmax : buddyMaxPages = 262144 := rfl
          have hlast := Nat.div_le_div_right (c := buddyPageSize) (Nat.le_of_not_le hstop)
          obtain ⟨rfl, rfl⟩ := Prod.mk.inj (Option.some.inj h)
          -- both narrowings to 32 bits keep their value, since the range is already clipped
          generalize buddyAlignUp e.base buddyPageSize / buddyPageSize = first at *
          generalize buddyAlignDown ((e.base + e.length) % 2 ^ 64) buddyPageSize / buddyPageSize
            = last at *
          have hfirst32 : first % 2 ^ 32 = first := Nat.mod_eq_of_lt (by omega)
          rw [hfirst32]
          split
          · rw [Nat.mod_eq_of_lt (by omega)]
            omega
          · rw [Nat.mod_eq_of_lt (by omega)]
            omega

/-! ## The invariant

The lists and the blocks that were added so far lie inside the arrays. Each step keeps this, so that
no access of the next one is a fault. -/

/-- Every list head is the end marker or a managed frame. -/
def HeadsManaged (s : Buddy) : Prop :=
  ∀ order ≤ buddyMaxOrder, s.freeList order = uint32Max ∨ s.freeList order < buddyMaxPages

/-- A block of an order the arrays have room for, on managed frames only. -/
def BlockManaged (block : Nat × Nat) : Prop :=
  block.2 ≤ buddyMaxOrder ∧ block.1 + 2 ^ block.2 ≤ buddyMaxPages

theorem buddyReset_headsManaged : HeadsManaged buddyReset := fun _ _ => Or.inl rfl

namespace HeadsManaged

variable {s : Buddy}

/-- Adding a block on managed frames stays inside the arrays, also when the frames are on a
list already: only the head of the list is followed. -/
theorem addFreeBlock (h : HeadsManaged s) {frame order : Nat} (hle : order ≤ buddyMaxOrder)
    (hend : frame + 2 ^ order ≤ buddyMaxPages) :
    ∃ s', buddyAddFreeBlock s frame order = .ok s' ∧ HeadsManaged s' := by
  have hpos := Nat.two_pow_pos order
  refine ⟨_, Represents.buddyAddFreeBlock_of_head hle hend (h order hle), fun o ho => ?_⟩
  simp only [Represents.pushed]
  by_cases hoo : o = order
  · right
    rw [hoo, Function.update_self]
    omega
  · rw [Function.update_of_ne hoo]
    exact h o ho

/-- The inner search returns an order the arrays have room for, and its block fits. -/
theorem rangeOrder_spec (frame : Nat) {pages : Nat} (hpages : 0 < pages) :
    ∃ order, rangeOrder frame pages buddyMaxOrder = .ok order ∧ order ≤ buddyMaxOrder ∧
      2 ^ order ≤ pages := by
  obtain ⟨hle, hfit, -, -⟩ := fitOrder_spec (f := frame) hpages buddyMaxOrder
  exact ⟨_, rangeOrder_eq hpages buddyMaxOrder, hle, hfit⟩

/-- Adding a range on managed frames ends, and adds blocks on managed frames only. -/
theorem addRangeRun (pages : Nat) : ∀ {s : Buddy} {frame : Nat}, HeadsManaged s →
    frame + pages ≤ buddyMaxPages →
    ∃ blocks s', AddRangeRun s frame pages blocks s' ∧ HeadsManaged s' ∧
      ∀ block ∈ blocks, BlockManaged block := by
  induction pages using Nat.strong_induction_on with
  | _ pages ih =>
    intro s frame h hend
    rcases Nat.eq_zero_or_pos pages with rfl | hpages
    · exact ⟨[], s, .done s frame, h, fun _ hmem => absurd hmem List.not_mem_nil⟩
    · obtain ⟨order, horder, hle, hfit⟩ := rangeOrder_spec frame hpages
      have hpos := Nat.two_pow_pos order
      have hfits : frame + 2 ^ order ≤ buddyMaxPages := by omega
      obtain ⟨s₁, hblock, h₁⟩ := h.addFreeBlock hle hfits
      obtain ⟨blocks, s', hrun, h', hall⟩ := ih (pages - 2 ^ order) (by omega) h₁
        (by omega : frame + 2 ^ order + (pages - 2 ^ order) ≤ _)
      refine ⟨(frame, order) :: blocks, s', .round hpages horder hblock hrun, h', ?_⟩
      intro block hmem
      rcases List.mem_cons.mp hmem with rfl | hmem
      · exact ⟨hle, hfits⟩
      · exact hall block hmem

/-- The loop over the entries ends, and adds blocks on managed frames only. -/
theorem initRun (entries : List (Option MemmapEntry)) {s : Buddy} (h : HeadsManaged s) :
    ∃ blocks s', InitRun s entries blocks s' ∧ HeadsManaged s' ∧
      ∀ block ∈ blocks, BlockManaged block := by
  induction entries generalizing s with
  | nil => exact ⟨[], s, .nil s, h, fun _ hmem => absurd hmem List.not_mem_nil⟩
  | cons entry rest ih =>
    cases hrange : initRange entry with
    | none =>
      obtain ⟨blocks, s', hrun, h', hall⟩ := ih h
      exact ⟨blocks, s', .skip hrange hrun, h', hall⟩
    | some range =>
      obtain ⟨first, pages⟩ := range
      obtain ⟨blocks, s₁, hadd, h₁, hall⟩ := h.addRangeRun pages (initRange_le hrange)
      obtain ⟨blocks', s', hrun, h', hall'⟩ := ih h₁
      refine ⟨blocks ++ blocks', s', .add hrange hadd hrun, h', fun block hmem => ?_⟩
      rcases List.mem_append.mp hmem with hmem | hmem
      · exact hall block hmem
      · exact hall' block hmem

end HeadsManaged

/-! ## The whole map -/

/-- The entries that `buddy_init` goes through; none when a pointer is `NULL`. -/
def memmapEntries (response : Option MemmapResponse) : List (Option MemmapEntry) :=
  (response.bind MemmapResponse.entries).getD []

/-- `buddy_init` resets the arrays and then goes through the entries of the response, if there is
one. -/
theorem buddyInit_eq (response : Option MemmapResponse) :
    buddyInit response = buddyInitLoop buddyReset (memmapEntries response) := by
  match response with
  | none => rfl
  | some ⟨none⟩ => rfl
  | some ⟨some entries⟩ => rfl

/-- From any content of the arrays and on every memory map `buddy_init` ends without a fault: no
array was indexed past its end and no order search went below order 0. The blocks it adds have
orders up to `buddyMaxOrder` and lie on managed frames. -/
theorem buddyInit_memorySafe (s₀ : Buddy) (response : Option MemmapResponse) :
    (∃ s₁, buddyResetLoops s₀ = .ok s₁ ∧ SameArrays s₁ buddyReset) ∧
      ∃ blocks s, InitRun buddyReset (memmapEntries response) blocks s ∧
        buddyInit response = .ok s ∧
        ∀ frame order, (frame, order) ∈ blocks →
          order ≤ buddyMaxOrder ∧ frame + 2 ^ order ≤ buddyMaxPages := by
  obtain ⟨blocks, s, hrun, -, hall⟩ :=
    buddyReset_headsManaged.initRun (memmapEntries response)
  refine ⟨buddyResetLoops_sameArrays s₀, blocks, s, hrun, ?_, fun frame order hmem =>
    hall (frame, order) hmem⟩
  rw [buddyInit_eq]
  exact hrun.eq

end Yoix
