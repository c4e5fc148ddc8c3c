import Yoix.Lib.Dyadic

/-!
# Giving a carved block back

`carve` cuts the first block of the first nonempty list down and gives back the upper halves.
`coalesce`, started from what was carved, meets exactly those halves, the smallest first, and
stops at the order the search had stopped at, because in canonical lists the buddy of the block
found there is not free. So `release` undoes `carve`, with every list in its old order
(`release_carve`).

When more blocks are carved in between, some of the halves are gone. The lists between the
order of the request and the order of the block found never hold more than one block then, so
whatever `coalesce` absorbs leaves the list it came from empty, and the next search from the same
order finds the released block first (`carve_release`).
-/

namespace Dyadic

namespace FreeLists

variable {fl fl' : FreeLists} {order g : Nat}

/-! ## What a search finds

A search takes the head of the first list that is not empty, from its own order upwards, and lists
the halves that it splits off. -/

/-- The lists before the one `carve` stops at are empty. -/
theorem carve_cases {n : Nat} : ∀ {c : Nat}, fl.carve order n c = some (g, fl') →
    ∃ q rest, c ≤ q ∧ q < c + n ∧ (∀ j, c ≤ j → j < q → fl j = []) ∧ fl q = g :: rest ∧
      fl' = split g order (q - order) (Function.update fl q rest) := by
  induction n with
  | zero =>
    intro c hcarve
    simp [carve] at hcarve
  | succ n ih =>
    intro c hcarve
    unfold carve at hcarve
    cases hlist : fl c with
    | nil =>
      rw [hlist] at hcarve
      obtain ⟨q, rest, hle, hlt, hempty, hq, heq⟩ := ih hcarve
      refine ⟨q, rest, by omega, by omega, fun j hj hjq => ?_, hq, heq⟩
      rcases Nat.eq_or_lt_of_le hj with rfl | hj
      · exact hlist
      · exact hempty j hj hjq
    | cons head rest =>
      rw [hlist] at hcarve
      simp only [Option.some.injEq, Prod.mk.injEq] at hcarve
      obtain ⟨rfl, rfl⟩ := hcarve
      exact ⟨c, rest, Nat.le_refl c, by omega, fun j hj hjc => by omega, hlist, rfl⟩

/-- When the lists below order `q` are empty, a search takes the head of list `q`. -/
theorem carve_of_empty {q : Nat} {rest : List Nat} (hq : fl q = g :: rest) {n : Nat} :
    ∀ {c : Nat}, c ≤ q → q < c + n → (∀ j, c ≤ j → j < q → fl j = []) →
      ∃ fl', fl.carve order n c = some (g, fl') := by
  induction n with
  | zero =>
    intro c hle hlt
    omega
  | succ n ih =>
    intro c hle hlt hempty
    unfold carve
    rcases Nat.eq_or_lt_of_le hle with rfl | hcq
    · rw [hq]
      exact ⟨_, rfl⟩
    · rw [hempty c (Nat.le_refl c) hcq]
      exact ih hcq (by omega) fun j hj hjq => hempty j (by omega) hjq

/-- A split puts one upper half in front of every list on its way. -/
theorem split_apply (frame order j : Nat) : ∀ {d : Nat} {fl : FreeLists},
    split frame order d fl j =
      if order ≤ j ∧ j < order + d then (frame + 2 ^ j) :: fl j else fl j := by
  intro d
  induction d with
  | zero =>
    intro fl
    rw [if_neg (by omega)]
    rfl
  | succ d ih =>
    intro fl
    unfold split
    rw [ih]
    rcases Nat.lt_trichotomy j (order + d) with hlt | rfl | hgt
    · rw [push_of_ne _ _ hlt.ne]
      simp only [hlt, Nat.lt_succ_of_lt hlt, and_true, Nat.add_succ]
    · rw [push_self, if_neg (by omega), if_pos (by omega)]
    · rw [push_of_ne _ _ hgt.ne', if_neg (by omega), if_neg (by omega)]

/-- No list gets more than one block from a search that starts at the order of the request. -/
theorem carve_length_le_one {n j : Nat} (hcarve : fl.carve order n order = some (g, fl'))
    (hj : (fl j).length ≤ 1) : (fl' j).length ≤ 1 := by
  obtain ⟨q, rest, hle, -, hempty, hq, rfl⟩ := carve_cases hcarve
  rw [split_apply, Nat.add_sub_cancel' hle]
  split
  · next hin =>
    rw [Function.update_of_ne hin.2.ne, hempty j hin.1 hin.2]
    simp
  · rcases eq_or_ne j q with rfl | hne
    · rw [hq] at hj
      rw [Function.update_self]
      exact Nat.le_trans (Nat.le_succ _) hj
    · rw [Function.update_of_ne hne]
      exact hj

/-! ## Undoing a search

Releasing the block that a search has taken joins it with these halves again, one order after the
other. -/

theorem remove_push (fl : FreeLists) (k f : Nat) : (fl.push k f).remove k f = fl := by
  unfold remove
  rw [push_self, List.erase_cons_head, push, Function.update_idem, Function.update_eq_self]

/-- Coalescing from the block that was cut down takes the upper halves back in turn. -/
theorem coalesce_split : ∀ {d n : Nat} {fl : FreeLists}, 2 ^ (order + d) ∣ g →
    (split g order d fl).coalesce (n + d) g order = fl.coalesce n g (order + d) := by
  intro d
  induction d with
  | zero =>
    intro n fl _
    rfl
  | succ d ih =>
    intro n fl hdvd
    have hbuddy : g ^^^ 2 ^ (order + d) = g + 2 ^ (order + d) := buddy_of_dvd hdvd
    have hlow : 2 ^ (order + d) ∣ g := (pow_dvd_pow 2 (by omega)).trans hdvd
    have hmin : min g (g + 2 ^ (order + d)) = g := Nat.min_eq_left (Nat.le_add_right _ _)
    rw [Nat.add_succ n d, ← Nat.succ_add, split, ih hlow, coalesce, hbuddy, push_self,
      if_pos List.mem_cons_self, remove_push, hmin]
    rfl

/-- **Releasing a carved block undoes the search**, with every list in its old order. -/
theorem release_carve {N : Nat} {F : Set Nat} (ht : Tiling N F fl) (hc : Canonical N fl)
    (hcarve : fl.carve order (N + 1 - order) order = some (g, fl')) :
    fl'.release N g order = fl := by
  obtain ⟨q, rest, hle, hlt, -, hq, rfl⟩ := carve_cases hcarve
  have hmem : g ∈ fl q := by rw [hq]; exact List.mem_cons_self
  have hup : order + (q - order) = q := by omega
  have hfuel : N - order = (N - q) + (q - order) := by omega
  -- at the order of the block that was found, its buddy is not free
  have hstop : coalesce (N - q) (Function.update fl q rest) g q
      = (Function.update fl q rest, g, q) := by
    cases hn : N - q with
    | zero => rfl
    | succ n =>
      have hbud : g ^^^ 2 ^ q ∉ rest := fun hin =>
        hc q (by omega) g hmem (by rw [hq]; exact List.mem_cons_of_mem g hin)
      rw [coalesce, Function.update_self, if_neg hbud]
  unfold release
  rw [hfuel, coalesce_split (by rw [hup]; exact ht.aligned hmem), hup, hstop]
  show push (Function.update fl q rest) q g = fl
  rw [push, Function.update_self, Function.update_idem, ← hq, Function.update_eq_self]

end FreeLists

/-! ## Reuse

A block that was taken and released is the next one to be taken, also when others were taken in
between and not released. -/

/-- In a canonical tiling the buddy of a free block is not wholly free. -/
theorem Tiling.buddy_not_free {N q g : Nat} {F : Set Nat} {fl : FreeLists} (h : Tiling N F fl)
    (hc : Canonical N fl) (hg : g ∈ fl q) (hq : q < N) : ¬ block (g ^^^ 2 ^ q) q ⊆ F := by
  intro hsub
  have hdvd := h.aligned hg
  have hparent : block (min g (g ^^^ 2 ^ q)) (q + 1) ⊆ F := by
    rw [block_min_buddy hdvd]
    exact Set.union_subset (h.sub hg) hsub
  obtain ⟨j, b, hb, hle, hin⟩ := h.exists_block_of_subset hc hq (dvd_min_buddy hdvd) hparent
  have hbase : g ∈ block b j := by
    apply hin
    rw [block_min_buddy hdvd]
    exact Or.inl (base_mem_block g q)
  obtain ⟨-, rfl⟩ := h.unique hg hb (base_mem_block g q) hbase
  omega

/-- The block `g` was carved from one of order `q` for a request of order `order`, and since then
blocks were only taken: no list in between holds more than one block, and the buddy of the
original block is not free. -/
structure Reusable (N order q g : Nat) (fl : FreeLists) : Prop where
  order_le : order ≤ q
  le_top : q ≤ N
  aligned : 2 ^ q ∣ g
  buddy : q < N → g ^^^ 2 ^ q ∉ fl q
  single : ∀ j, order ≤ j → j < q → (fl j).length ≤ 1

namespace Reusable

open FreeLists

variable {N order q g : Nat}

/-- What coalescing absorbs on the way up leaves its list empty, and it never gets past the
order of the original block. -/
theorem coalesce : ∀ {n k : Nat} {fl : FreeLists}, Reusable N order q g fl → order ≤ k → k ≤ q →
    k + n = N → (∀ j, order ≤ j → j < k → fl j = []) →
    ∃ fl' k', fl.coalesce n g k = (fl', g, k') ∧ order ≤ k' ∧ k' ≤ N ∧
      ∀ j, order ≤ j → j < k' → fl' j = [] := by
  intro n
  induction n with
  | zero =>
    intro k fl h hk hkq hfuel hempty
    exact ⟨fl, k, rfl, hk, by omega, hempty⟩
  | succ n ih =>
    intro k fl h hk hkq hfuel hempty
    by_cases hb : g ^^^ 2 ^ k ∈ fl k
    · have hlt : k < q := by
        rcases Nat.eq_or_lt_of_le hkq with rfl | hlt
        · exact absurd hb (h.buddy (by omega))
        · exact hlt
      have hbuddy : g ^^^ 2 ^ k = g + 2 ^ k := buddy_of_dvd ((pow_dvd_pow 2 hlt).trans h.aligned)
      have hmin : min g (g + 2 ^ k) = g := Nat.min_eq_left (Nat.le_add_right _ _)
      rw [hbuddy] at hb
      -- the half was the only block of its list
      have hgone : (fl k).erase (g + 2 ^ k) = [] := by
        have hlen := h.single k hk hlt
        rw [← List.length_eq_zero_iff, List.length_erase_of_mem hb]
        omega
      have hstep : fl.coalesce (n + 1) g k = (fl.remove k (g + 2 ^ k)).coalesce n g (k + 1) := by
        rw [FreeLists.coalesce, hbuddy, if_pos hb, hmin]
      rw [hstep]
      apply ih _ (by omega) hlt (by omega)
      · intro j hj hjk
        rcases Nat.eq_or_lt_of_le (Nat.le_of_lt_succ hjk) with rfl | hjk
        · rw [remove_self, hgone]
        · rw [remove_of_ne _ _ hjk.ne]
          exact hempty j hj hjk
      · refine ⟨h.order_le, h.le_top, h.aligned, fun hq => ?_, fun j hj hjq => ?_⟩
        · rw [remove_of_ne _ _ hlt.ne']
          exact h.buddy hq
        · rcases eq_or_ne j k with rfl | hne
          · rw [remove_self, hgone]
            exact Nat.zero_le 1
          · rw [remove_of_ne _ _ hne]
            exact h.single j hj hjq
    · have hstep : fl.coalesce (n + 1) g k = (fl, g, k) := by
        rw [FreeLists.coalesce, if_neg hb]
      exact ⟨fl, k, hstep, hk, by omega, hempty⟩

/-- **The released block is the next one found** for a request of the same order. -/
theorem carve_release {fl : FreeLists} (h : Reusable N order q g fl) :
    ∃ fl', (fl.release N g order).carve order (N + 1 - order) order = some (g, fl') := by
  have hle := h.order_le
  have htop := h.le_top
  obtain ⟨fl₁, k, hrun, hk, hkN, hempty⟩ := h.coalesce (n := N - order) (Nat.le_refl order) hle
    (by omega) fun j hj hjo => by omega
  unfold release
  rw [hrun]
  apply carve_of_empty (q := k) (push_self fl₁ k g) hk (by omega)
  intro j hj hjk
  rw [push_of_ne _ _ hjk.ne]
  exact hempty j hj hjk

end Reusable

end Dyadic
