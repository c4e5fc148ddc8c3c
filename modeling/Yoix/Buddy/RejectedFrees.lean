import Yoix.Buddy.GiveBack

/-!
# Frees that are ignored

`buddy_free_pages` checks its arguments, the range of the frame number it computes from them, and
the state byte of that one frame. Whatever passes these checks is freed: the merge loop only ever
grows the block around the frame, so the frame does not stay allocated.

* `buddyFreePages_eq_self_iff`: in every state a call changes nothing exactly when a check
  rejects it (`Ignored`).
* `Represents.ignored_iff`: in the states of a run, what is rejected is a frame that is not
  allocated.
-/

namespace Yoix

open Dyadic

/-- The frame number that `buddy_free_pages` computes: a `uint32_t`. -/
def freedFrame (physAddr : Nat) : Nat := physAddr / buddyPageSize % 2 ^ 32

/-- One of the checks of `buddy_free_pages` rejects the call. -/
def Ignored (s : Buddy) (physAddr pages : Nat) : Prop :=
  physAddr = 0 ∨ pages = 0 ∨ physAddr % buddyPageSize ≠ 0 ∨ buddyMaxPages ≤ freedFrame physAddr ∨
    s.pageState (freedFrame physAddr) ≠ pageStateAllocated

instance (s : Buddy) (physAddr pages : Nat) : Decidable (Ignored s physAddr pages) :=
  inferInstanceAs (Decidable (_ ∨ _))

/-! ## What a new free block does to the state bytes

Adding a free block writes the state bytes of this block and no others, and a byte it has written
never says `ALLOCATED`. -/

/-- The bytes of a block that has been marked lie inside the array. -/
theorem fillPageState_inside {v : Nat} {n index : Nat} {s s' : Buddy}
    (h : fillPageState v n index s = .ok s') : n = 0 ∨ index + n ≤ buddyMaxPages := by
  induction n generalizing index s with
  | zero => exact Or.inl rfl
  | succ n ih =>
    right
    unfold fillPageState at h
    obtain ⟨t, hset, hfill⟩ := bind_eq_ok.mp h
    unfold Buddy.setPageState at hset
    split at hset
    · next hlt =>
      cases ih hfill with
      | inl hzero => omega
      | inr hle => omega
    · exact absurd hset (by simp)

/-- A block that has been marked lies inside the array. -/
theorem buddyMarkBlockFree_inside {s s' : Buddy} {f k : Nat}
    (h : buddyMarkBlockFree s f k = .ok s') : f + 2 ^ k ≤ buddyMaxPages := by
  have hsize := Nat.two_pow_pos k
  unfold buddyMarkBlockFree at h
  obtain ⟨t, hset, hfill⟩ := bind_eq_ok.mp h
  unfold Buddy.setPageState at hset
  split at hset
  · cases fillPageState_inside hfill with
    | inl hone => omega
    | inr hle => omega
  · exact absurd hset (by simp)

section Links

variable {s s' : Buddy} {i v : Nat}

/-- The links are written to arrays of their own. -/
theorem setFreePrev_pageState (h : s.setFreePrev i v = .ok s') : s'.pageState = s.pageState := by
  unfold Buddy.setFreePrev at h
  split at h
  · rw [← Except.ok.inj h]
  · exact absurd h (by simp)

theorem setFreeNext_pageState (h : s.setFreeNext i v = .ok s') : s'.pageState = s.pageState := by
  unfold Buddy.setFreeNext at h
  split at h
  · rw [← Except.ok.inj h]
  · exact absurd h (by simp)

theorem setFreeList_pageState (h : s.setFreeList i v = .ok s') : s'.pageState = s.pageState := by
  unfold Buddy.setFreeList at h
  split at h
  · rw [← Except.ok.inj h]
  · exact absurd h (by simp)

end Links

/-- The stores that put a block at the head of its list write no state byte. -/
theorem linkHead_pageState {s s' : Buddy} {f k head : Nat}
    (h : (do
      let s ← s.setFreePrev f uint32Max
      let s ← s.setFreeNext f head
      s.setFreeList k f) = .ok s') : s'.pageState = s.pageState := by
  obtain ⟨s₁, hprev, h⟩ := bind_eq_ok.mp h
  obtain ⟨s₂, hnext, h⟩ := bind_eq_ok.mp h
  calc s'.pageState = s₂.pageState := setFreeList_pageState h
    _ = s₁.pageState := setFreeNext_pageState hnext
    _ = s.pageState := setFreePrev_pageState hprev

/-- The state bytes after `buddy_add_free_block`, when it ends: those of the block are marked, the
others are kept. -/
theorem buddyAddFreeBlock_pageState {s s' : Buddy} {f k : Nat}
    (h : buddyAddFreeBlock s f k = .ok s') : s'.pageState = markFree s.pageState f k := by
  unfold buddyAddFreeBlock at h
  obtain ⟨s₁, hmark, h⟩ := bind_eq_ok.mp h
  obtain ⟨head, -, h⟩ := bind_eq_ok.mp h
  have hmarked : s₁.pageState = markFree s.pageState f k := by
    rw [buddyMarkBlockFree_eq (buddyMarkBlockFree_inside hmark)] at hmark
    rw [← Except.ok.inj hmark]
  rw [← hmarked]
  -- the old head, if there is one, gets a link back
  simp only at h
  split at h
  · obtain ⟨s₂, hhead, h⟩ := bind_eq_ok.mp h
    rw [linkHead_pageState h, setFreePrev_pageState hhead]
  · exact linkHead_pageState h

/-- No frame of a block that is marked as free says `ALLOCATED`: the first has an order, the others
say `FREE_BODY`. -/
theorem markFree_ne_allocated {state : Nat → Nat} {f k i : Nat} (hk : k ≤ buddyMaxOrder)
    (hi : i ∈ block f k) : markFree state f k i ≠ pageStateAllocated := by
  unfold markFree
  split
  · intro heq
    rw [heq] at hk
    exact absurd hk (by decide)
  · rw [if_pos (mem_block.mp hi)]
    decide

/-! ## What the merge loop does

The block only grows, and it keeps the frames it had. -/

/-- The merge loop grows the block, aligned or not, by at most as many orders as it has rounds. -/
theorem mergeLoop_grows {n f k : Nat} {s s' : Buddy} {exit : MergeExit} {f' k' : Nat}
    (h : mergeLoop n s f k = .ok (exit, f', k', s')) :
    block f k ⊆ block f' k' ∧ k' ≤ k + n := by
  induction n generalizing s f k with
  | zero =>
    cases h
    exact ⟨subset_rfl, Nat.le_refl _⟩
  | succ n ih =>
    unfold mergeLoop at h
    simp only at h
    -- the first three exits return the block as it came in
    split at h
    · cases h
      exact ⟨subset_rfl, Nat.le_add_right _ _⟩
    obtain ⟨state, -, h⟩ := bind_eq_ok.mp h
    split at h
    · cases h
      exact ⟨subset_rfl, Nat.le_add_right _ _⟩
    obtain ⟨⟨removed, t⟩, -, h⟩ := bind_eq_ok.mp h
    simp only at h
    split at h
    · cases h
      exact ⟨subset_rfl, Nat.le_add_right _ _⟩
    · have hmin : (if f < f ^^^ 2 ^ k then f else f ^^^ 2 ^ k) = min f (f ^^^ 2 ^ k) := by
        split <;> omega
      rw [hmin] at h
      obtain ⟨hsub, hle⟩ := ih h
      exact ⟨(block_subset_min_buddy f k).trans hsub, by omega⟩

/-! ## A call that passes the checks

Such a call frees the frame it names, so it changes the state. Being ignored and leaving the state
as it is are the same. -/

/-- The state byte of the frame decides whether the rest of the function runs. -/
theorem buddyFreePages_of_checks {s : Buddy} {a n : Nat} (h : ¬ Ignored s a n) :
    buddyFreePages s a n = (do
      let order := buddyOrderFromPages n
      let (_, frame, order, s) ← mergeLoop (buddyMaxOrder - order) s (freedFrame a) order
      buddyAddFreeBlock s frame order) := by
  unfold Ignored at h
  push Not at h
  obtain ⟨hzero, hpages, hpage, hlt, hstate⟩ := h
  have hinvalid : a ≠ buddyInvalidAddress := by
    rintro rfl
    exact absurd hpage (by decide)
  have hguard : ¬ (a = 0 ∨ a = buddyInvalidAddress ∨ n = 0) := by tauto
  unfold freedFrame at hlt hstate ⊢
  simp only [buddyFreePages, if_neg hguard, hpage, ne_eq, not_true, if_false,
    if_neg (Nat.not_le.mpr hlt), Buddy.getPageState, if_pos hlt, ok_bind, hstate]

/-- After a call that ends, the frame is no longer allocated. -/
theorem buddyFreePages_frees {s s' : Buddy} {a n : Nat} (h : ¬ Ignored s a n)
    (hrun : buddyFreePages s a n = .ok s') :
    s'.pageState (freedFrame a) ≠ pageStateAllocated := by
  rw [buddyFreePages_of_checks h] at hrun
  obtain ⟨⟨exit, f', k', t⟩, hmerge, hadd⟩ := bind_eq_ok.mp hrun
  obtain ⟨hsub, hle⟩ := mergeLoop_grows hmerge
  have hk' : k' ≤ buddyMaxOrder := by
    have horder := buddyOrderFromPages_le n
    omega
  rw [buddyAddFreeBlock_pageState hadd]
  exact markFree_ne_allocated hk' (hsub (base_mem_block _ _))

/-- **A free changes nothing exactly when a check rejects it**, in every state of the arrays. -/
theorem buddyFreePages_eq_self_iff (s : Buddy) (a n : Nat) :
    buddyFreePages s a n = .ok s ↔ Ignored s a n := by
  constructor
  · intro hrun
    by_contra hpass
    have hstate : s.pageState (freedFrame a) = pageStateAllocated := by
      unfold Ignored at hpass
      tauto
    exact buddyFreePages_frees hpass hrun hstate
  · intro hignored
    unfold buddyFreePages
    -- each of the three guards returns the state as it is
    split
    · rfl
    split
    · rfl
    simp only
    split
    · rfl
    next hguard hpage hrange =>
    have hlt : freedFrame a < buddyMaxPages := Nat.not_le.mp hrange
    have hstate : s.pageState (freedFrame a) ≠ pageStateAllocated := by
      unfold Ignored at hignored
      tauto
    unfold freedFrame at hlt hstate
    rw [Buddy.getPageState, if_pos hlt, ok_bind, if_pos hstate]

/-! ## In the states of a run

Between the calls of a run a state byte says `ALLOCATED` exactly for the frames of live blocks, so the
checks can be read off the live frames. -/

/-- The arguments of a free that is rejected when the frames of `A` are live. -/
def RejectedFree (A : Set Nat) (a n : Nat) : Prop :=
  a = 0 ∨ n = 0 ∨ a % buddyPageSize ≠ 0 ∨ freedFrame a ∉ A

/-- In the states of a run the check of the state byte is a question about the live frames. -/
theorem Represents.ignored_iff {U A : Set Nat} {s : Buddy} {fl : FreeLists}
    (h : Represents U A ∅ s fl) {a n : Nat} : Ignored s a n ↔ RejectedFree A a n := by
  unfold Ignored RejectedFree
  rw [ne_eq (s.pageState _), h.state_allocated_iff]
  -- a frame past the last one is not live
  have hrange : buddyMaxPages ≤ freedFrame a → freedFrame a ∉ A :=
    fun hle hlive => Nat.not_lt.mpr hle (h.usable_lt (h.alloc_sub hlive))
  tauto

end Yoix
