import Yoix.Lib.Dyadic

/-!
# Greedy dyadic decomposition of a range

A run of `pages` frames from `f` on is cut into blocks from left to right, each of the largest
order that its alignment, the remaining length and the top order `N` allow (`rangeBlocks`).
The blocks tile the run and no block could have been larger in its place
(`rangeBlocks_greedyTiling`), every aligned run of frames inside the run lies in one of them
(`rangeBlocks_holds`), and ranges that do not touch each other decompose into lists without free
buddies (`canonical_of_ranges`).
-/

namespace Dyadic

/-- The largest order up to `k` of a block at `f` that is aligned and fits in `pages`. -/
def fitOrder (f pages : Nat) : Nat → Nat
  | 0 => 0
  | k + 1 =>
    if 2 ^ (k + 1) > pages ∨ f % 2 ^ (k + 1) ≠ 0 then fitOrder f pages k else k + 1

/-- The blocks `(base, order)` of the run of `pages` frames from `f` on, left to right. The
first argument bounds the number of blocks; `pages` of them are always enough. -/
def rangeBlocks (N : Nat) : Nat → Nat → Nat → List (Nat × Nat)
  | 0, _, _ => []
  | n + 1, f, pages =>
    if pages = 0 then []
    else
      let k := fitOrder f pages N
      (f, k) :: rangeBlocks N n (f + 2 ^ k) (pages - 2 ^ k)

/-- Push a list of blocks, the first one first. -/
def FreeLists.pushAll (fl : FreeLists) (bs : List (Nat × Nat)) : FreeLists :=
  bs.foldl (fun fl b => fl.push b.2 b.1) fl

/-! ## The order of one block

The largest order that is aligned at a frame and still fits the pages that are left. -/

/-- The order that is found fits and is aligned, and no larger order up to the limit does both. -/
theorem fitOrder_spec {f pages : Nat} (hpos : 0 < pages) : ∀ k : Nat,
    fitOrder f pages k ≤ k ∧ 2 ^ fitOrder f pages k ≤ pages ∧ 2 ^ fitOrder f pages k ∣ f ∧
      ∀ j, fitOrder f pages k < j → j ≤ k → 2 ^ j ≤ pages → ¬ 2 ^ j ∣ f
  | 0 => ⟨Nat.le_refl 0, hpos, one_dvd f, fun j hj hle => absurd hj (by simp [fitOrder]; omega)⟩
  | k + 1 => by
    by_cases hc : 2 ^ (k + 1) > pages ∨ f % 2 ^ (k + 1) ≠ 0
    · have hstep : fitOrder f pages (k + 1) = fitOrder f pages k := by
        simp only [fitOrder, if_pos hc]
      obtain ⟨hle, hfit, hdvd, hmax⟩ := fitOrder_spec hpos k
      rw [hstep]
      refine ⟨by omega, hfit, hdvd, fun j hlt hj hpow hdj => ?_⟩
      rcases Nat.eq_or_lt_of_le hj with rfl | hj
      · rcases hc with hc | hc
        · omega
        · exact hc (Nat.mod_eq_zero_of_dvd hdj)
      · exact hmax j hlt (by omega) hpow hdj
    · have hstep : fitOrder f pages (k + 1) = k + 1 := by
        simp only [fitOrder, if_neg hc]
      rw [hstep]
      push Not at hc
      exact ⟨Nat.le_refl _, hc.1, Nat.dvd_of_mod_eq_zero hc.2, fun j hlt hj => by omega⟩

/-! ## The blocks of a run

A run of frames is cut greedily from its first frame on. The blocks hold exactly the frames of the
run, and none of them could be larger. -/

theorem rangeBlocks_zero_pages (N n f : Nat) : rangeBlocks N n f 0 = [] := by
  cases n <;> simp [rangeBlocks]

/-- Every block of the decomposition stays inside the run. -/
theorem rangeBlocks_inside {N : Nat} : ∀ {n f pages g k : Nat},
    (g, k) ∈ rangeBlocks N n f pages →
      k ≤ N ∧ 2 ^ k ∣ g ∧ f ≤ g ∧ g + 2 ^ k ≤ f + pages
  | 0, _, _, _, _, h => by simp [rangeBlocks] at h
  | n + 1, f, pages, g, k, h => by
    unfold rangeBlocks at h
    split at h
    · simp at h
    · next hpos =>
      obtain ⟨hle, hfit, hdvd, -⟩ := fitOrder_spec (f := f) (Nat.pos_of_ne_zero hpos) N
      rcases List.mem_cons.mp h with heq | hmem
      · obtain ⟨rfl, rfl⟩ := Prod.mk.inj heq
        exact ⟨hle, hdvd, Nat.le_refl _, by omega⟩
      · obtain ⟨h1, h2, h3, h4⟩ := rangeBlocks_inside hmem
        exact ⟨h1, h2, by omega, by omega⟩

/-- No block of the decomposition could have been one order larger in its place. -/
theorem rangeBlocks_maximal {N : Nat} : ∀ {n f pages g k : Nat},
    (g, k) ∈ rangeBlocks N n f pages → k < N →
      ¬ (2 ^ (k + 1) ∣ g ∧ g + 2 ^ (k + 1) ≤ f + pages)
  | 0, _, _, _, _, h, _ => by simp [rangeBlocks] at h
  | n + 1, f, pages, g, k, h, hk => by
    unfold rangeBlocks at h
    split at h
    · simp at h
    · next hpos =>
      obtain ⟨hle, hfit, hdvd, hmax⟩ := fitOrder_spec (f := f) (Nat.pos_of_ne_zero hpos) N
      rcases List.mem_cons.mp h with heq | hmem
      · obtain ⟨rfl, rfl⟩ := Prod.mk.inj heq
        rintro ⟨hdiv, hend⟩
        exact hmax _ (Nat.lt_succ_self _) (by omega) (by omega) hdiv
      · rintro ⟨hdiv, hend⟩
        exact rangeBlocks_maximal hmem hk ⟨hdiv, by omega⟩

/-- An aligned run inside the range lies in one block of the decomposition. -/
theorem rangeBlocks_holds {N g k : Nat} (hk : k ≤ N) (hg : 2 ^ k ∣ g) : ∀ {n f pages : Nat},
    pages ≤ n → f ≤ g → g + 2 ^ k ≤ f + pages →
      ∃ b ∈ rangeBlocks N n f pages, k ≤ b.2 ∧ block g k ⊆ block b.1 b.2
  | 0, f, pages, hn, hlo, hhi => by
    have hsize := Nat.two_pow_pos k
    omega
  | n + 1, f, pages, hn, hlo, hhi => by
    have hsize := Nat.two_pow_pos k
    have hpos : 0 < pages := by omega
    obtain ⟨-, -, hdvd, hmax⟩ := fitOrder_spec (f := f) hpos N
    unfold rangeBlocks
    rw [if_neg hpos.ne']
    -- either the run starts in the first block, or the rest of the range holds it
    rcases Nat.lt_or_ge g (f + 2 ^ fitOrder f pages N) with hfirst | hrest
    · have hle : k ≤ fitOrder f pages N := by
        by_contra hlt
        push Not at hlt
        have hgf := Nat.le_of_lt_add_of_dvd hfirst ((pow_dvd_pow 2 hlt.le).trans hg) hdvd
        obtain rfl : g = f := by omega
        exact hmax k hlt hk (by omega) hg
      refine ⟨_, List.mem_cons_self, hle, ?_⟩
      exact block_subset_of_mem hg hdvd hle (base_mem_block g k) ⟨hlo, hfirst⟩
    · have hblock := Nat.two_pow_pos (fitOrder f pages N)
      have hfuel : pages - 2 ^ fitOrder f pages N ≤ n := by omega
      obtain ⟨b, hb, hle, hsub⟩ := rangeBlocks_holds hk hg hfuel hrest (by omega)
      exact ⟨b, List.mem_cons_of_mem _ hb, hle, hsub⟩

/-- The blocks of a run share no frame: each starts where the one before it ends. -/
theorem rangeBlocks_disjoint {N : Nat} : ∀ {n f pages : Nat},
    (rangeBlocks N n f pages).Pairwise fun b c => Disjoint (block b.1 b.2) (block c.1 c.2)
  | 0, _, _ => List.Pairwise.nil
  | n + 1, f, pages => by
    unfold rangeBlocks
    split
    · exact List.Pairwise.nil
    · refine List.pairwise_cons.mpr ⟨fun b hb => ?_, rangeBlocks_disjoint⟩
      -- every later block starts at or after the end of the first one
      obtain ⟨-, -, hafter, -⟩ := rangeBlocks_inside hb
      rw [Set.disjoint_left]
      intro i hi hi'
      simp only [mem_block] at hi hi'
      omega

/-- The blocks `bs` cut the run of `pages` frames from `f` on exactly, and none of them could be
larger in its place. -/
structure GreedyTiling (N f pages : Nat) (bs : List (Nat × Nat)) : Prop where
  order_le : ∀ b ∈ bs, b.2 ≤ N
  aligned : ∀ b ∈ bs, 2 ^ b.2 ∣ b.1
  disjoint : bs.Pairwise fun b c => Disjoint (block b.1 b.2) (block c.1 c.2)
  cover : ∀ i, (∃ b ∈ bs, i ∈ block b.1 b.2) ↔ f ≤ i ∧ i < f + pages
  largest : ∀ b ∈ bs, ∀ j ≤ N, 2 ^ j ∣ b.1 → b.1 + 2 ^ j ≤ f + pages → j ≤ b.2

/-- With enough rounds the blocks are the greedy tiling of the run. -/
theorem rangeBlocks_greedyTiling {N n f pages : Nat} (hn : pages ≤ n) :
    GreedyTiling N f pages (rangeBlocks N n f pages) where
  order_le _ hb := (rangeBlocks_inside hb).1
  aligned _ hb := (rangeBlocks_inside hb).2.1
  disjoint := rangeBlocks_disjoint
  cover i := by
    constructor
    · intro ⟨b, hb, hi⟩
      obtain ⟨-, -, hlo, hhi⟩ := rangeBlocks_inside hb
      rw [mem_block] at hi
      omega
    · intro hi
      obtain ⟨b, hb, -, hsub⟩ := rangeBlocks_holds (Nat.zero_le N) (one_dvd i) hn hi.1
        (by rw [pow_zero]; omega)
      exact ⟨b, hb, hsub (base_mem_block i 0)⟩
  largest b hb j hj hdvd hend := by
    by_contra hlt
    push Not at hlt
    have hpow : 2 ^ (b.2 + 1) ≤ 2 ^ j := Nat.pow_le_pow_right (by decide) hlt
    exact rangeBlocks_maximal hb (by omega) ⟨(pow_dvd_pow 2 hlt).trans hdvd, by omega⟩

/-! ## Pushing the blocks of a run

Free lists that start with the blocks of several runs. When the runs do not touch each other, no two
of the blocks are buddies. -/

@[simp] theorem FreeLists.pushAll_nil (fl : FreeLists) : fl.pushAll [] = fl := rfl

@[simp] theorem FreeLists.pushAll_cons (fl : FreeLists) (b : Nat × Nat) (bs : List (Nat × Nat)) :
    fl.pushAll (b :: bs) = (fl.push b.2 b.1).pushAll bs := rfl

theorem FreeLists.pushAll_append (fl : FreeLists) (bs cs : List (Nat × Nat)) :
    fl.pushAll (bs ++ cs) = (fl.pushAll bs).pushAll cs := List.foldl_append

/-- After pushing a series of blocks the lists hold these and what they held before. -/
theorem FreeLists.mem_pushAll {k g : Nat} {bs : List (Nat × Nat)} {fl : FreeLists} :
    g ∈ fl.pushAll bs k ↔ (g, k) ∈ bs ∨ g ∈ fl k := by
  induction bs generalizing fl with
  | nil => simp
  | cons b bs ih =>
    rw [pushAll_cons, ih, mem_push, List.mem_cons, Prod.ext_iff]
    constructor
    · rintro (h | ⟨h1, h2⟩ | h)
      · exact Or.inl (Or.inr h)
      · exact Or.inl (Or.inl ⟨h1, h2⟩)
      · exact Or.inr h
    · rintro ((⟨h1, h2⟩ | h) | h)
      · exact Or.inr (Or.inl ⟨h1, h2⟩)
      · exact Or.inl h
      · exact Or.inr (Or.inr h)

/-- Ranges that neither overlap nor touch decompose into lists without free buddies: within a
range the left buddy would have been taken one order larger, and buddies in two ranges would
make the ranges touch. -/
theorem canonical_of_ranges {N : Nat} {fl : FreeLists} (ranges : List (Nat × Nat))
    (hapart : ∀ r ∈ ranges, ∀ r' ∈ ranges, r ≠ r' → r.1 + r.2 < r'.1 ∨ r'.1 + r'.2 < r.1)
    (hmem : ∀ k g, g ∈ fl k → ∃ r ∈ ranges, (g, k) ∈ rangeBlocks N r.2 r.1 r.2) :
    Canonical N fl := by
  -- it is enough to rule out a free lower half whose upper half is free too
  have hlower : ∀ k < N, ∀ f ∈ fl k, 2 ^ (k + 1) ∣ f → f + 2 ^ k ∉ fl k := by
    intro k hk f hf hdvd hbud
    obtain ⟨r, hr, hfr⟩ := hmem k f hf
    obtain ⟨r', hr', hfr'⟩ := hmem k _ hbud
    obtain ⟨-, -, hlo, hhi⟩ := rangeBlocks_inside hfr
    obtain ⟨-, -, hlo', hhi'⟩ := rangeBlocks_inside hfr'
    have hsize := Nat.two_pow_pos k
    by_cases heq : r = r'
    · subst heq
      exact rangeBlocks_maximal hfr hk ⟨hdvd, by rw [pow_succ]; omega⟩
    · have := hapart r hr r' hr' heq
      omega
  intro k hk f hf hbud
  obtain ⟨r, hr, hfr⟩ := hmem k f hf
  obtain ⟨-, hdvd, -, -⟩ := rangeBlocks_inside hfr
  by_cases hnext : 2 ^ (k + 1) ∣ f
  · rw [buddy_of_dvd hnext] at hbud
    exact hlower k hk f hf hnext hbud
  · obtain ⟨hle, heq, hdown⟩ := buddy_of_not_dvd hdvd hnext
    rw [heq] at hbud
    exact hlower k hk _ hbud hdown (by rw [Nat.sub_add_cancel hle]; exact hf)

end Dyadic
