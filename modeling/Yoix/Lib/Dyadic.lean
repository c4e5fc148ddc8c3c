import Mathlib.Data.Nat.Bitwise
import Mathlib.Data.Set.BooleanAlgebra
import Mathlib.Logic.Function.Basic
import Mathlib.Order.BourbakiWitt
import Mathlib.Order.CompletePartialOrder
import Mathlib.Order.Interval.Set.Basic
import Mathlib.Tactic.Ring

/-!
# Dyadic blocks and the tilings kept by a buddy system

A *block* of order `k` based at `f` is the run of `2 ^ k` frames starting at `f`. Blocks whose
base is a multiple of their size are either nested or disjoint, and every such block has a
unique *buddy* `f ^^^ 2 ^ k` with which it makes up a block of the next order.

A buddy system keeps one list of bases per order (`FreeLists`). `Tiling N F fl` says that the
lists tile the set `F` of frames with naturally aligned blocks of order at most `N`; the four
list operations of a buddy system keep it:

* `push` / `remove`: one block more, or one less;
* `split`: give back the upper halves while a block is cut down to a smaller order;
* `carve`: find the first nonempty list from an order on, and cut its first block down;
* `coalesce` / `release`: absorb free buddies for as long as there are any, then push the result.

`Canonical N fl` says that no two buddies are both free. A canonical tiling is determined by
the set it tiles (`Tiling.mem_iff_of_canonical`).
-/

namespace Dyadic

/-! ## Blocks

A block of order `k` is an aligned run of `2 ^ k` frames. Two blocks are nested or apart, which
carries most of what follows. -/

/-- The frames of the block of order `k` based at `f`. -/
def block (f k : Nat) : Set Nat := Set.Ico f (f + 2 ^ k)

theorem mem_block {f k i : Nat} : i ∈ block f k ↔ f ≤ i ∧ i < f + 2 ^ k := Iff.rfl

theorem base_mem_block (f k : Nat) : f ∈ block f k :=
  ⟨Nat.le_refl f, Nat.lt_add_of_pos_right (Nat.two_pow_pos k)⟩

/-- Aligned blocks are nested or disjoint: one common frame puts the smaller one inside. -/
theorem block_subset_of_mem {f k g j i : Nat} (hf : 2 ^ k ∣ f) (hg : 2 ^ j ∣ g) (hkj : k ≤ j)
    (hif : i ∈ block f k) (hig : i ∈ block g j) : block f k ⊆ block g j := by
  have hpow : 2 ^ k ∣ 2 ^ j := pow_dvd_pow 2 hkj
  have hgk : 2 ^ k ∣ g := hpow.trans hg
  rw [mem_block] at hif hig
  have hle : g ≤ f := Nat.le_of_lt_add_of_dvd (by omega) hgk hf
  have hend : f + 2 ^ k ≤ g + 2 ^ j :=
    Nat.le_of_lt_add_of_dvd (by omega) (Nat.dvd_add hf (dvd_refl _)) (Nat.dvd_add hgk hpow)
  intro x hx
  rw [mem_block] at hx ⊢
  omega

/-- Two disjoint blocks lie one after the other. -/
theorem block_apart {f k g j : Nat} (h : Disjoint (block f k) (block g j)) :
    f + 2 ^ k ≤ g ∨ g + 2 ^ j ≤ f := by
  have hk := Nat.two_pow_pos k
  have hj := Nat.two_pow_pos j
  have hmax : max f g ∈ block f k → max f g ∉ block g j := fun h1 h2 =>
    Set.disjoint_left.mp h h1 h2
  simp only [mem_block] at hmax
  omega

theorem block_zero (f : Nat) : block f 0 = {f} := by
  ext i
  rw [mem_block, Set.mem_singleton_iff]
  omega

theorem block_succ (f k : Nat) : block f (k + 1) = block f k ∪ block (f + 2 ^ k) k := by
  ext i
  simp only [Set.mem_union, mem_block, pow_succ]
  omega

/-! ## Buddies

Flipping bit `k` of the base of a block gives its buddy, the other half of the block of the next
order. -/

/-- A block on a boundary of the next order is a lower half: its buddy follows it. -/
theorem buddy_of_dvd {f k : Nat} (h : 2 ^ (k + 1) ∣ f) : f ^^^ 2 ^ k = f + 2 ^ k := by
  obtain ⟨q, rfl⟩ := h
  have heven : Even (2 * q) := even_two_mul q
  have hshift : 2 ^ (k + 1) * q = (2 * q) <<< k := by
    rw [Nat.shiftLeft_eq, pow_succ]; ring
  rw [hshift, ← Nat.one_shiftLeft, ← Nat.shiftLeft_xor_distrib, Nat.xor_one_of_even heven,
    Nat.shiftLeft_eq, Nat.shiftLeft_eq, Nat.shiftLeft_eq]
  ring

/-- A block that is not on such a boundary is an upper half: its buddy precedes it. -/
theorem buddy_of_not_dvd {f k : Nat} (hf : 2 ^ k ∣ f) (h : ¬ 2 ^ (k + 1) ∣ f) :
    2 ^ k ≤ f ∧ f ^^^ 2 ^ k = f - 2 ^ k ∧ 2 ^ (k + 1) ∣ f - 2 ^ k := by
  obtain ⟨q, rfl⟩ := hf
  have hodd : Odd q := by
    rw [← Nat.not_even_iff_odd]
    intro heven
    obtain ⟨r, rfl⟩ := heven.two_dvd
    exact h ⟨r, by rw [pow_succ]; ring⟩
  obtain ⟨r, rfl⟩ := hodd
  have hsub : 2 ^ k * (2 * r + 1) - 2 ^ k = 2 ^ (k + 1) * r := by
    rw [pow_succ, Nat.mul_add, Nat.mul_one, Nat.add_sub_cancel]; ring
  refine ⟨Nat.le_mul_of_pos_right _ (by omega), ?_, ⟨r, hsub⟩⟩
  have hshift : 2 ^ k * (2 * r + 1) = (2 * r + 1) <<< k := by
    rw [Nat.shiftLeft_eq]; ring
  rw [hsub, hshift, ← Nat.one_shiftLeft, ← Nat.shiftLeft_xor_distrib,
    Nat.xor_one_of_odd ⟨r, rfl⟩, Nat.shiftLeft_eq, Nat.add_sub_cancel, pow_succ]
  ring

theorem buddy_buddy (f k : Nat) : (f ^^^ 2 ^ k) ^^^ 2 ^ k = f := by
  rw [Nat.xor_assoc, Nat.xor_self, Nat.xor_zero]

/-- No block is its own buddy, as flipping a bit always changes the number. -/
theorem buddy_ne (f k : Nat) : f ^^^ 2 ^ k ≠ f := by
  intro h
  have hzero : f ^^^ (f ^^^ 2 ^ k) = 0 := by rw [h, Nat.xor_self]
  rw [← Nat.xor_assoc, Nat.xor_self, Nat.zero_xor] at hzero
  exact absurd hzero (Nat.two_pow_pos k).ne'

/-- The lower of two buddies lies on a boundary of the next order. -/
theorem dvd_min_buddy {f k : Nat} (hf : 2 ^ k ∣ f) : 2 ^ (k + 1) ∣ min f (f ^^^ 2 ^ k) := by
  by_cases h : 2 ^ (k + 1) ∣ f
  · rw [buddy_of_dvd h, Nat.min_eq_left (Nat.le_add_right _ _)]
    exact h
  · obtain ⟨hle, heq, hdvd⟩ := buddy_of_not_dvd hf h
    rw [heq, Nat.min_eq_right (Nat.sub_le _ _)]
    exact hdvd

/-- Two buddies make up the block of the next order at the lower of them. -/
theorem block_min_buddy {f k : Nat} (hf : 2 ^ k ∣ f) :
    block (min f (f ^^^ 2 ^ k)) (k + 1) = block f k ∪ block (f ^^^ 2 ^ k) k := by
  by_cases h : 2 ^ (k + 1) ∣ f
  · rw [buddy_of_dvd h, Nat.min_eq_left (Nat.le_add_right _ _), block_succ]
  · obtain ⟨hle, heq, -⟩ := buddy_of_not_dvd hf h
    rw [heq, Nat.min_eq_right (Nat.sub_le _ _), block_succ, Nat.sub_add_cancel hle,
      Set.union_comm]

theorem xor_le_add (x y : Nat) : x ^^^ y ≤ x + y := by
  induction x using Nat.strongRecOn generalizing y with
  | ind x ih =>
    by_cases hx : x = 0
    · rw [hx, Nat.zero_xor, Nat.zero_add]
    · -- halve both numbers: the low bits add up at least as far as they differ
      have hdiv : (x ^^^ y) / 2 = (x / 2) ^^^ (y / 2) := Nat.xor_div_two
      have hmod : (x ^^^ y) % 2 = (x + y) % 2 := Nat.xor_mod_two_eq
      have hhalf := ih (x / 2) (by omega) (y / 2)
      omega

/-- A block lies in the block of the next order at the lower of it and its buddy, aligned or
not. -/
theorem block_subset_min_buddy (f k : Nat) : block f k ⊆ block (min f (f ^^^ 2 ^ k)) (k + 1) := by
  have hle : f ≤ (f ^^^ 2 ^ k) + 2 ^ k := by
    calc f = (f ^^^ 2 ^ k) ^^^ 2 ^ k := (buddy_buddy f k).symm
      _ ≤ (f ^^^ 2 ^ k) + 2 ^ k := xor_le_add _ _
  intro i hi
  rw [mem_block] at hi ⊢
  rw [pow_succ]
  omega

/-- A block and its buddy share no frame: they are the two halves of the next larger block. -/
theorem disjoint_buddy {f k : Nat} (hf : 2 ^ k ∣ f) :
    Disjoint (block f k) (block (f ^^^ 2 ^ k) k) := by
  rw [Set.disjoint_left]
  intro i hi hi'
  rw [mem_block] at hi hi'
  by_cases h : 2 ^ (k + 1) ∣ f
  · rw [buddy_of_dvd h] at hi'
    omega
  · obtain ⟨hle, heq, -⟩ := buddy_of_not_dvd hf h
    rw [heq] at hi'
    omega

/-! ## Free lists

One list of base frames for each order, with the changes that an allocator makes to them. -/

/-- The bases of the free blocks, one list per order. -/
abbrev FreeLists := Nat → List Nat

namespace FreeLists

/-- Put a block in front of the list of its order. -/
def push (fl : FreeLists) (k f : Nat) : FreeLists := Function.update fl k (f :: fl k)

/-- Take a block out of the list of its order. -/
def remove (fl : FreeLists) (k f : Nat) : FreeLists := Function.update fl k ((fl k).erase f)

@[simp] theorem push_self (fl : FreeLists) (k f : Nat) : fl.push k f k = f :: fl k :=
  Function.update_self k _ fl

@[simp] theorem push_of_ne (fl : FreeLists) {k j : Nat} (f : Nat) (h : j ≠ k) :
    fl.push k f j = fl j := Function.update_of_ne h _ fl

@[simp] theorem remove_self (fl : FreeLists) (k f : Nat) : fl.remove k f k = (fl k).erase f :=
  Function.update_self k _ fl

@[simp] theorem remove_of_ne (fl : FreeLists) {k j : Nat} (f : Nat) (h : j ≠ k) :
    fl.remove k f j = fl j := Function.update_of_ne h _ fl

/-- What is listed after a push: the pushed block, and all that was listed before. -/
theorem mem_push {fl : FreeLists} {k f j g : Nat} :
    g ∈ fl.push k f j ↔ (g = f ∧ j = k) ∨ g ∈ fl j := by
  by_cases h : j = k
  · subst h; simp
  · simp [h]

/-- What is listed after a removal: all but the removed block, as it is listed only once. -/
theorem mem_remove {fl : FreeLists} {k f j g : Nat} (hnodup : (fl k).Nodup) :
    g ∈ fl.remove k f j ↔ g ∈ fl j ∧ ¬ (g = f ∧ j = k) := by
  by_cases h : j = k
  · subst h
    simp [hnodup.mem_erase_iff, and_comm]
  · simp [h]

/-- Cutting the block at `frame` from order `order + d` down to `order` gives back the upper
half at every order on the way. -/
def split (frame order : Nat) : Nat → FreeLists → FreeLists
  | 0, fl => fl
  | d + 1, fl => split frame order d (fl.push (order + d) (frame + 2 ^ (order + d)))

/-- Look through `n` lists from order `c` on and cut the first block found down to `order`. -/
def carve (order : Nat) : Nat → Nat → FreeLists → Option (Nat × FreeLists)
  | 0, _, _ => none
  | n + 1, c, fl =>
    match fl c with
    | [] => carve order n (c + 1) fl
    | g :: rest => some (g, split g order (c - order) (Function.update fl c rest))

/-- Absorb the buddy of the block `(f, k)` for as long as it is free, at most `n` times. -/
def coalesce : Nat → FreeLists → Nat → Nat → FreeLists × Nat × Nat
  | 0, fl, f, k => (fl, f, k)
  | n + 1, fl, f, k =>
    if f ^^^ 2 ^ k ∈ fl k then
      coalesce n (fl.remove k (f ^^^ 2 ^ k)) (min f (f ^^^ 2 ^ k)) (k + 1)
    else (fl, f, k)

/-- Give the block `(f, k)` back to lists with orders up to `N`. -/
def release (N : Nat) (fl : FreeLists) (f k : Nat) : FreeLists :=
  let (fl', f', k') := coalesce (N - k) fl f k
  fl'.push k' f'

end FreeLists

/-! ## Tilings

The free lists tile a set of frames when each frame of it lies in exactly one listed block. Each
operation below keeps this and says which set is tiled after it. -/

/-- The lists tile `F` with naturally aligned blocks of order at most `N`. -/
structure Tiling (N : Nat) (F : Set Nat) (fl : FreeLists) : Prop where
  order_le : ∀ {k f}, f ∈ fl k → k ≤ N
  nodup : ∀ k, (fl k).Nodup
  aligned : ∀ {k f}, f ∈ fl k → 2 ^ k ∣ f
  sub : ∀ {k f}, f ∈ fl k → block f k ⊆ F
  cover : ∀ {i}, i ∈ F → ∃ k f, f ∈ fl k ∧ i ∈ block f k
  unique : ∀ {k f j g i}, f ∈ fl k → g ∈ fl j → i ∈ block f k → i ∈ block g j → f = g ∧ k = j

namespace Tiling

open FreeLists

variable {N : Nat} {F : Set Nat} {fl : FreeLists}

theorem congr {G : Set Nat} (h : Tiling N F fl) (hFG : F = G) : Tiling N G fl := hFG ▸ h

theorem empty (N : Nat) : Tiling N ∅ (fun _ => []) where
  order_le h := absurd h List.not_mem_nil
  nodup _ := List.nodup_nil
  aligned h := absurd h List.not_mem_nil
  sub h := absurd h List.not_mem_nil
  cover h := absurd h (Set.notMem_empty _)
  unique h := absurd h List.not_mem_nil

theorem base_mem (h : Tiling N F fl) {k f : Nat} (hf : f ∈ fl k) : f ∈ F :=
  h.sub hf (base_mem_block f k)

/-- A free block covers exactly the frames it should: no other block meets it. -/
theorem notMem_of_ne (h : Tiling N F fl) {k f j g i : Nat} (hf : f ∈ fl k) (hg : g ∈ fl j)
    (hne : ¬ (g = f ∧ j = k)) (hi : i ∈ block g j) : i ∉ block f k := by
  intro hif
  obtain ⟨rfl, rfl⟩ := h.unique hf hg hif hi
  exact hne ⟨rfl, rfl⟩

/-- Pushing an aligned block that is apart from all listed ones adds its frames to the tiled set. -/
theorem push (h : Tiling N F fl) {k f : Nat} (hk : k ≤ N) (hf : 2 ^ k ∣ f)
    (hdisj : Disjoint (block f k) F) : Tiling N (F ∪ block f k) (fl.push k f) := by
  -- the new block meets no old one, since the old ones stay inside `F`
  have hout : ∀ {j g i}, g ∈ fl j → i ∈ block g j → i ∉ block f k := fun hg hi hif =>
    Set.disjoint_left.mp hdisj hif (h.sub hg hi)
  refine ⟨?_, ?_, ?_, ?_, ?_, ?_⟩
  · intro j g hg
    rcases mem_push.mp hg with ⟨rfl, rfl⟩ | hg
    · exact hk
    · exact h.order_le hg
  · intro j
    by_cases hj : j = k
    · subst hj
      rw [push_self]
      exact List.nodup_cons.mpr
        ⟨fun hmem => hout hmem (base_mem_block _ _) (base_mem_block _ _), h.nodup j⟩
    · rw [push_of_ne _ _ hj]
      exact h.nodup j
  · intro j g hg
    rcases mem_push.mp hg with ⟨rfl, rfl⟩ | hg
    · exact hf
    · exact h.aligned hg
  · intro j g hg
    rcases mem_push.mp hg with ⟨rfl, rfl⟩ | hg
    · exact Set.subset_union_right
    · exact (h.sub hg).trans Set.subset_union_left
  · rintro i (hi | hi)
    · obtain ⟨j, g, hg, hig⟩ := h.cover hi
      exact ⟨j, g, mem_push.mpr (Or.inr hg), hig⟩
    · exact ⟨k, f, mem_push.mpr (Or.inl ⟨rfl, rfl⟩), hi⟩
  · intro j g j' g' i hg hg' hi hi'
    rcases mem_push.mp hg with ⟨rfl, rfl⟩ | hold
    · rcases mem_push.mp hg' with ⟨rfl, rfl⟩ | hold'
      · exact ⟨rfl, rfl⟩
      · exact absurd hi (hout hold' hi')
    · rcases mem_push.mp hg' with ⟨rfl, rfl⟩ | hold'
      · exact absurd hi' (hout hold hi)
      · exact h.unique hold hold' hi hi'

/-- Removing a listed block takes exactly its frames out of the tiled set. -/
theorem remove (h : Tiling N F fl) {k f : Nat} (hf : f ∈ fl k) :
    Tiling N (F \ block f k) (fl.remove k f) := by
  have hmem : ∀ {j g}, g ∈ fl.remove k f j → g ∈ fl j ∧ ¬ (g = f ∧ j = k) :=
    fun hg => (mem_remove (h.nodup k)).mp hg
  refine ⟨fun hg => h.order_le (hmem hg).1, ?_, fun hg => h.aligned (hmem hg).1, ?_, ?_, ?_⟩
  · intro j
    by_cases hj : j = k
    · subst hj
      rw [remove_self]
      exact (h.nodup j).erase f
    · rw [remove_of_ne _ _ hj]
      exact h.nodup j
  · intro j g hg i hi
    exact ⟨h.sub (hmem hg).1 hi, h.notMem_of_ne hf (hmem hg).1 (hmem hg).2 hi⟩
  · rintro i ⟨hi, hout⟩
    obtain ⟨j, g, hg, hig⟩ := h.cover hi
    refine ⟨j, g, (mem_remove (h.nodup k)).mpr ⟨hg, ?_⟩, hig⟩
    rintro ⟨rfl, rfl⟩
    exact hout hig
  · intro j g j' g' i hg hg' hi hi'
    exact h.unique (hmem hg).1 (hmem hg').1 hi hi'

/-- Taking the first block of a list is the removal of that block. -/
theorem update_tail_eq_remove {k f : Nat} {rest : List Nat} (heq : fl k = f :: rest) :
    Function.update fl k rest = fl.remove k f := by
  unfold FreeLists.remove
  rw [heq, List.erase_cons_head]

/-- Splitting a block of order `order + d` down to `order` lists the upper halves on the way; the
block of order `order` at its base is left over. -/
theorem split (frame order : Nat) : ∀ {d : Nat} {F : Set Nat} {fl : FreeLists},
    Tiling N F fl → order + d ≤ N → 2 ^ (order + d) ∣ frame →
    Disjoint (block frame (order + d)) F →
    Tiling N (F ∪ (block frame (order + d) \ block frame order)) (fl.split frame order d)
  | 0, F, fl, h, _, _, _ => by simpa [FreeLists.split] using h
  | d + 1, F, fl, h, hle, hdvd, hdisj => by
    have hlow : 2 ^ (order + d) ∣ frame := (pow_dvd_pow 2 (by omega)).trans hdvd
    have hhalves : block frame (order + (d + 1))
        = block frame (order + d) ∪ block (frame + 2 ^ (order + d)) (order + d) :=
      block_succ frame (order + d)
    rw [hhalves, Set.disjoint_union_left] at hdisj
    have hupper := h.push (by omega) (Nat.dvd_add hlow (dvd_refl _)) hdisj.2
    -- the lower half is still apart from what is tiled now
    have hhalf : Disjoint (block frame (order + d))
        (block (frame + 2 ^ (order + d)) (order + d)) := by
      have := disjoint_buddy hlow
      rwa [buddy_of_dvd (k := order + d) hdvd] at this
    have hrec := split frame order (d := d) hupper (by omega) hlow
      (Set.disjoint_union_right.mpr ⟨hdisj.1, hhalf⟩)
    refine hrec.congr ?_
    have hsub : block frame order ⊆ block frame (order + d) :=
      block_subset_of_mem ((pow_dvd_pow 2 (by omega)).trans hlow) hlow (by omega)
        (base_mem_block _ _) (base_mem_block _ _)
    have hout : Disjoint (block (frame + 2 ^ (order + d)) (order + d)) (block frame order) :=
      hhalf.symm.mono_right hsub
    rw [hhalves, Set.union_sdiff_distrib, hout.sdiff_eq_left, Set.union_assoc,
      Set.union_comm (block (frame + 2 ^ (order + d)) (order + d))]

/-- Taking a block and splitting it keeps the lists canonical: of each pair of halves one is used.
-/
theorem carve {order g : Nat} {fl' : FreeLists} : ∀ {n c : Nat}, Tiling N F fl → order ≤ c →
    fl.carve order n c = some (g, fl') →
    2 ^ order ∣ g ∧ block g order ⊆ F ∧ Tiling N (F \ block g order) fl'
  | 0, c, _, _, hcarve => by simp [FreeLists.carve] at hcarve
  | n + 1, c, h, hle, hcarve => by
    unfold FreeLists.carve at hcarve
    cases hlist : fl c with
    | nil =>
      rw [hlist] at hcarve
      exact carve h (by omega) hcarve
    | cons head rest =>
      rw [hlist] at hcarve
      simp only [Option.some.injEq, Prod.mk.injEq] at hcarve
      obtain ⟨rfl, rfl⟩ := hcarve
      have hmem : head ∈ fl c := by rw [hlist]; exact List.mem_cons_self
      have hc : order + (c - order) = c := by omega
      have hrest := h.remove hmem
      rw [update_tail_eq_remove hlist]
      have hsub : block head order ⊆ block head c :=
        block_subset_of_mem ((pow_dvd_pow 2 hle).trans (h.aligned hmem)) (h.aligned hmem) hle
          (base_mem_block _ _) (base_mem_block _ _)
      refine ⟨(pow_dvd_pow 2 hle).trans (h.aligned hmem), hsub.trans (h.sub hmem), ?_⟩
      have hsplit := hrest.split head order (d := c - order)
        (by rw [hc]; exact h.order_le hmem) (by rw [hc]; exact h.aligned hmem)
        (by rw [hc]; exact Set.disjoint_sdiff_right)
      rw [hc] at hsplit
      refine hsplit.congr ?_
      -- what the split gave back, together with the other blocks, is all but the lowest part
      ext i
      simp only [Set.mem_union, Set.mem_sdiff]
      constructor
      · rintro (⟨hF, hout⟩ | ⟨hin, hout⟩)
        · exact ⟨hF, fun hi => hout (hsub hi)⟩
        · exact ⟨h.sub hmem hin, hout⟩
      · rintro ⟨hF, hout⟩
        by_cases hin : i ∈ block head c
        · exact Or.inr ⟨hin, hout⟩
        · exact Or.inl ⟨hF, hin⟩

/-- After coalescing, the grown block can be pushed: it holds the block that was given back
and otherwise only frames that were free. -/
theorem coalesce : ∀ {n : Nat} {F : Set Nat} {fl : FreeLists} {f k : Nat}, Tiling N F fl →
    k + n ≤ N → 2 ^ k ∣ f → Disjoint (block f k) F →
    let r := fl.coalesce n f k
    r.2.2 ≤ N ∧ 2 ^ r.2.2 ∣ r.2.1 ∧ block f k ⊆ block r.2.1 r.2.2 ∧
      block r.2.1 r.2.2 ⊆ F ∪ block f k ∧ Tiling N (F \ block r.2.1 r.2.2) r.1
  | 0, F, fl, f, k, h, hle, hf, hdisj => by
    refine ⟨hle, hf, subset_rfl, Set.subset_union_right, ?_⟩
    exact h.congr hdisj.symm.sdiff_eq_left.symm
  | n + 1, F, fl, f, k, h, hle, hf, hdisj => by
    by_cases hb : f ^^^ 2 ^ k ∈ fl k
    · have hstep : fl.coalesce (n + 1) f k
          = (fl.remove k (f ^^^ 2 ^ k)).coalesce n (min f (f ^^^ 2 ^ k)) (k + 1) := by
        simp only [FreeLists.coalesce, if_pos hb]
      have hjoin := block_min_buddy hf
      -- the joined block lies apart from what stays free
      have hapart : Disjoint (block (min f (f ^^^ 2 ^ k)) (k + 1))
          (F \ block (f ^^^ 2 ^ k) k) := by
        rw [hjoin, Set.disjoint_union_left]
        exact ⟨hdisj.mono_right Set.sdiff_subset, Set.disjoint_sdiff_right⟩
      obtain ⟨hN, hdvd, hsub, hsup, htile⟩ :=
        coalesce (n := n) (h.remove hb) (by omega) (dvd_min_buddy hf) hapart
      rw [← hstep] at hN hdvd hsub hsup htile
      rw [hjoin] at hsub hsup
      refine ⟨hN, hdvd, Set.subset_union_left.trans hsub, ?_, ?_⟩
      · intro i hi
        rcases hsup hi with hi | hi | hi
        · exact Or.inl hi.1
        · exact Or.inr hi
        · exact Or.inl (h.sub hb hi)
      · refine htile.congr ?_
        rw [Set.sdiff_sdiff, Set.union_eq_self_of_subset_left (Set.subset_union_right.trans hsub)]
    · have hstep : fl.coalesce (n + 1) f k = (fl, f, k) := by
        simp only [FreeLists.coalesce, if_neg hb]
      rw [hstep]
      refine ⟨(by omega : k ≤ N), hf, subset_rfl, Set.subset_union_right, ?_⟩
      exact h.congr hdisj.symm.sdiff_eq_left.symm

end Tiling

/-- A search upwards from order `c` finds nothing exactly when all lists that it looks at are empty.
-/
theorem FreeLists.carve_eq_none_iff {fl : FreeLists} {order : Nat} : ∀ {n c : Nat},
    fl.carve order n c = none ↔ ∀ j, c ≤ j → j < c + n → fl j = []
  | 0, c => by
    simp only [FreeLists.carve, true_iff]
    intro j hj hlt
    omega
  | n + 1, c => by
    unfold FreeLists.carve
    cases hlist : fl c with
    | nil =>
      rw [carve_eq_none_iff]
      constructor
      · intro hall j hj hlt
        rcases Nat.eq_or_lt_of_le hj with rfl | hgt
        · exact hlist
        · exact hall j hgt (by omega)
      · intro hall j hj hlt
        exact hall j (by omega) (by omega)
    | cons head rest =>
      simp only [reduceCtorEq, false_iff, not_forall]
      exact ⟨c, Nat.le_refl c, by omega, by simp [hlist]⟩

/-! ## Canonical lists

Lists without two free buddies. They are determined by the set of frames that they tile, so they
cannot tell in which order the blocks came in. -/

/-- No two buddies are both free blocks of the same order (below the top order). -/
def Canonical (N : Nat) (fl : FreeLists) : Prop :=
  ∀ k, k < N → ∀ f ∈ fl k, f ^^^ 2 ^ k ∉ fl k

namespace Canonical

open FreeLists

variable {N : Nat} {F : Set Nat} {fl : FreeLists}

/-- A push keeps the lists canonical when the buddy of the pushed block is not free. -/
theorem push (h : Canonical N fl) {k f : Nat} (hb : k < N → f ^^^ 2 ^ k ∉ fl k) :
    Canonical N (fl.push k f) := by
  intro j hj g hg hbud
  rcases mem_push.mp hg with ⟨rfl, rfl⟩ | hold
  · rcases mem_push.mp hbud with ⟨heq, -⟩ | hbold
    · exact buddy_ne g j heq
    · exact hb hj hbold
  · rcases mem_push.mp hbud with ⟨heq, rfl⟩ | hbold
    · exact hb hj (by rw [← heq, buddy_buddy]; exact hold)
    · exact h j hj g hold hbold

theorem remove (h : Canonical N fl) (hnodup : ∀ k, (fl k).Nodup) (k f : Nat) :
    Canonical N (fl.remove k f) := by
  intro j hj g hg hbud
  exact h j hj g ((mem_remove (hnodup k)).mp hg).1 ((mem_remove (hnodup k)).mp hbud).1

/-- Every half given back by a split has the remaining lower half as its buddy, which is
not free. -/
theorem split {frame order : Nat} : ∀ {d : Nat} {F : Set Nat} {fl : FreeLists},
    Tiling N F fl → Canonical N fl → order + d ≤ N → 2 ^ (order + d) ∣ frame →
    Disjoint (block frame (order + d)) F → Canonical N (fl.split frame order d)
  | 0, _, _, _, h, _, _, _ => by simpa [FreeLists.split] using h
  | d + 1, F, fl, ht, h, hle, hdvd, hdisj => by
    have hlow : 2 ^ (order + d) ∣ frame := (pow_dvd_pow 2 (by omega)).trans hdvd
    have hhalves : block frame (order + (d + 1))
        = block frame (order + d) ∪ block (frame + 2 ^ (order + d)) (order + d) :=
      block_succ frame (order + d)
    rw [hhalves, Set.disjoint_union_left] at hdisj
    have hbuddy : frame ^^^ 2 ^ (order + d) = frame + 2 ^ (order + d) := buddy_of_dvd hdvd
    have hfresh : (frame + 2 ^ (order + d)) ^^^ 2 ^ (order + d) ∉ fl (order + d) := by
      rw [← hbuddy, buddy_buddy]
      intro hmem
      exact Set.disjoint_left.mp hdisj.1 (base_mem_block _ _) (ht.base_mem hmem)
    have hupper := ht.push (by omega) (Nat.dvd_add hlow (dvd_refl _)) hdisj.2
    have hhalf := disjoint_buddy hlow
    rw [hbuddy] at hhalf
    exact split (d := d) hupper (h.push fun _ => hfresh) (by omega) hlow
      (Set.disjoint_union_right.mpr ⟨hdisj.1, hhalf⟩)

theorem carve {order g : Nat} {fl' : FreeLists} : ∀ {n c : Nat}, Tiling N F fl →
    Canonical N fl → order ≤ c → fl.carve order n c = some (g, fl') → Canonical N fl'
  | 0, c, _, _, _, hcarve => by simp [FreeLists.carve] at hcarve
  | n + 1, c, ht, h, hle, hcarve => by
    unfold FreeLists.carve at hcarve
    cases hlist : fl c with
    | nil =>
      rw [hlist] at hcarve
      exact carve ht h (by omega) hcarve
    | cons head rest =>
      rw [hlist] at hcarve
      simp only [Option.some.injEq, Prod.mk.injEq] at hcarve
      obtain ⟨rfl, rfl⟩ := hcarve
      have hmem : head ∈ fl c := by rw [hlist]; exact List.mem_cons_self
      have hc : order + (c - order) = c := by omega
      rw [Tiling.update_tail_eq_remove hlist]
      exact split (ht.remove hmem) (h.remove ht.nodup c head)
        (by rw [hc]; exact ht.order_le hmem) (by rw [hc]; exact ht.aligned hmem)
        (by rw [hc]; exact Set.disjoint_sdiff_right)

/-- Coalescing stops only at the top order or at a buddy that is not free. -/
theorem coalesce : ∀ {n : Nat} {fl : FreeLists} {f k : Nat}, Canonical N fl →
    (∀ k, (fl k).Nodup) → N ≤ k + n →
    let r := fl.coalesce n f k
    Canonical N r.1 ∧ (r.2.2 < N → r.2.1 ^^^ 2 ^ r.2.2 ∉ r.1 r.2.2)
  | 0, fl, f, k, h, _, hle => ⟨h, fun hlt => absurd hlt (by simpa [FreeLists.coalesce] using hle)⟩
  | n + 1, fl, f, k, h, hnodup, hle => by
    by_cases hb : f ^^^ 2 ^ k ∈ fl k
    · have hstep : fl.coalesce (n + 1) f k
          = (fl.remove k (f ^^^ 2 ^ k)).coalesce n (min f (f ^^^ 2 ^ k)) (k + 1) := by
        simp only [FreeLists.coalesce, if_pos hb]
      rw [hstep]
      refine coalesce (h.remove hnodup _ _) (fun j => ?_) (by omega)
      by_cases hj : j = k
      · subst hj
        rw [remove_self]
        exact (hnodup j).erase _
      · rw [remove_of_ne _ _ hj]
        exact hnodup j
    · have hstep : fl.coalesce (n + 1) f k = (fl, f, k) := by
        simp only [FreeLists.coalesce, if_neg hb]
      rw [hstep]
      exact ⟨h, fun _ => hb⟩

theorem release (h : Canonical N fl) (hnodup : ∀ k, (fl k).Nodup) (f k : Nat) :
    Canonical N (fl.release N f k) := by
  obtain ⟨hcanon, hstop⟩ := h.coalesce (n := N - k) (f := f) (k := k) hnodup (by omega)
  exact hcanon.push hstop

end Canonical

namespace Tiling

variable {N : Nat} {F : Set Nat} {fl fl' : FreeLists}

/-- In a canonical tiling an aligned run of free frames lies inside a single free block. By
induction on its order: two halves in different blocks would be two free buddies. -/
theorem exists_block_of_subset (h : Tiling N F fl) (hc : Canonical N fl) :
    ∀ {k f : Nat}, k ≤ N → 2 ^ k ∣ f → block f k ⊆ F →
      ∃ j g, g ∈ fl j ∧ k ≤ j ∧ block f k ⊆ block g j
  | 0, f, _, _, hsub => by
    obtain ⟨j, g, hg, hi⟩ := h.cover (hsub (base_mem_block f 0))
    exact ⟨j, g, hg, Nat.zero_le j,
      block_subset_of_mem (one_dvd f) (h.aligned hg) (Nat.zero_le j) (base_mem_block f 0) hi⟩
  | k + 1, f, hk, hf, hsub => by
    have hlow : 2 ^ k ∣ f := (pow_dvd_pow 2 (by omega)).trans hf
    rw [block_succ] at hsub ⊢
    obtain ⟨j, g, hg, hkj, hgsub⟩ :=
      exists_block_of_subset h hc (by omega) hlow (Set.subset_union_left.trans hsub)
    obtain ⟨j', g', hg', hkj', hgsub'⟩ := exists_block_of_subset h hc (by omega)
      (Nat.dvd_add hlow (dvd_refl _)) (Set.subset_union_right.trans hsub)
    -- a larger block that meets one half holds both
    have hparent : ∀ {j g}, g ∈ fl j → k + 1 ≤ j → f ∈ block g j ∨ f + 2 ^ k ∈ block g j →
        block f (k + 1) ⊆ block g j := by
      intro j g hg hj hor
      rcases hor with hi | hi
      · exact block_subset_of_mem hf (h.aligned hg) hj (base_mem_block _ _) hi
      · refine block_subset_of_mem hf (h.aligned hg) hj ?_ hi
        rw [block_succ]
        exact Or.inr (base_mem_block _ _)
    rw [← block_succ]
    rcases Nat.eq_or_lt_of_le hkj with rfl | hlt
    · rcases Nat.eq_or_lt_of_le hkj' with rfl | hlt'
      · -- both halves are themselves free blocks of order `k`: buddies
        have hfg : g = f := by
          obtain ⟨h1, h2⟩ := mem_block.mp (hgsub (base_mem_block _ _))
          have := Nat.le_of_lt_add_of_dvd h2 hlow (h.aligned hg)
          omega
        have hfg' : g' = f + 2 ^ k := by
          obtain ⟨h1, h2⟩ := mem_block.mp (hgsub' (base_mem_block _ _))
          have := Nat.le_of_lt_add_of_dvd h2 (Nat.dvd_add hlow (dvd_refl _)) (h.aligned hg')
          omega
        subst hfg hfg'
        exact absurd (by rw [buddy_of_dvd hf]; exact hg') (hc k (by omega) g hg)
      · exact ⟨j', g', hg', hlt', hparent hg' hlt' (Or.inr (hgsub' (base_mem_block _ _)))⟩
    · exact ⟨j, g, hg, hlt, hparent hg hlt (Or.inl (hgsub (base_mem_block _ _)))⟩

/-- Two tilings have the same blocks when every block of each lies in a block of the other. -/
theorem mem_of_refines {F' : Set Nat} (h : Tiling N F fl) (h' : Tiling N F' fl')
    (hto : ∀ {k f}, f ∈ fl k → ∃ j g, g ∈ fl' j ∧ k ≤ j ∧ block f k ⊆ block g j)
    (hback : ∀ {k f}, f ∈ fl' k → ∃ j g, g ∈ fl j ∧ k ≤ j ∧ block f k ⊆ block g j)
    {k f : Nat} (hf : f ∈ fl k) : f ∈ fl' k := by
  obtain ⟨j, g, hg, hkj, hsub⟩ := hto hf
  obtain ⟨j', f', hf', hjj', hsub'⟩ := hback hg
  -- the block found by going there and back again is the one we started from
  obtain ⟨rfl, rfl⟩ := h.unique hf hf' (base_mem_block f k) (hsub' (hsub (base_mem_block f k)))
  obtain rfl : k = j := by omega
  obtain ⟨h1, h2⟩ := mem_block.mp (hsub (base_mem_block f k))
  have hle := Nat.le_of_lt_add_of_dvd h2 (h.aligned hf) (h'.aligned hg)
  obtain rfl : g = f := by omega
  exact hg

/-- The free blocks of a canonical tiling are the maximal aligned runs of free frames, so two
canonical tilings of one set have the same blocks. -/
theorem mem_of_canonical (h : Tiling N F fl) (h' : Tiling N F fl') (hc : Canonical N fl)
    (hc' : Canonical N fl') {k f : Nat} (hf : f ∈ fl k) : f ∈ fl' k :=
  h.mem_of_refines h'
    (fun hf => h'.exists_block_of_subset hc' (h.order_le hf) (h.aligned hf) (h.sub hf))
    (fun hg => h.exists_block_of_subset hc (h'.order_le hg) (h'.aligned hg) (h'.sub hg)) hf

theorem mem_iff_of_canonical (h : Tiling N F fl) (h' : Tiling N F fl') (hc : Canonical N fl)
    (hc' : Canonical N fl') {k f : Nat} : f ∈ fl k ↔ f ∈ fl' k :=
  ⟨h.mem_of_canonical h' hc hc', h'.mem_of_canonical h hc' hc⟩

end Tiling

end Dyadic
