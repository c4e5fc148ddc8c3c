import Yoix.Vmm.Run
import Mathlib.Order.Interval.Finset.Nat

/-!
# The rights of a mapped page

The processor lets an access through when all four entries on the way to the page allow it. The
page table holds the flags that `vmm_map` was given; the three entries above it hold what
`vmm_get_next_level` wrote when it made the tables, which is `PAGE_PRESENT | PAGE_WRITABLE`
whatever the flags. The writable bit of the flags is therefore the right that results, and the
user bit is not: none of the tables has it.

`MadeByMap` says that the entries above a page are of that kind. It holds at every page whose
entry in the root was absent when a run began (`VmmRun.madeByMap`).
-/

namespace Yoix

open Dyadic

/-- The bits of an entry that the processor combines along a walk. -/
def rightsMask : Nat := pageWritable ||| pageUser

/-- The rights that the processor computes: the bits set in every entry that it reads. -/
def effectiveRights (cr3 : Nat) (k : Kernel) (n : Vpn) : Nat :=
  (Radix.trail pageChild (entries k.mem) 0 (frameOf cr3) n.path).foldr (· &&& ·) rightsMask

/-- Every present entry on the way to the page table is one that `vmm_get_next_level` wrote. -/
def MadeByMap (cr3 : Nat) (k : Kernel) (n : Vpn) : Prop :=
  ∀ p i f, p ++ [i] <+: n.tablePath → k.table cr3 p = some f →
    entries k.mem f i &&& pagePresent ≠ 0 → ∃ g, entries k.mem f i = linkEntry g

/-! ## The bits of the entries

The processor allows a write or a user access only when all four entries of a path do. The three
upper ones that the code makes are writable and not for users. -/

/-- An entry for a new table grants writes and no user accesses. -/
theorem linkEntry_and_rightsMask (g : Nat) : linkEntry g &&& rightsMask = pageWritable := by
  rw [linkEntry_eq]
  show (g * buddyPageSize + 3) &&& (2 ^ 3 - 2 ^ 1) = 2
  rw [Bits.and_mask (by decide)]
  simp only [buddyPageSize]
  omega

/-- One or more entries of new tables leave the writable bit alone and take the user bit away. -/
theorem foldr_linkEntry {es : List Nat} (hes : ∀ e ∈ es, ∃ g, e = linkEntry g) (hne : es ≠ [])
    (x : Nat) : es.foldr (· &&& ·) (x &&& rightsMask) = x &&& pageWritable := by
  have hwritable : rightsMask &&& pageWritable = pageWritable := by decide
  induction es with
  | nil => exact absurd rfl hne
  | cons e es ih =>
    obtain ⟨g, rfl⟩ := hes e List.mem_cons_self
    have hlink := linkEntry_and_rightsMask g
    rw [List.foldr_cons]
    cases es with
    | nil =>
      calc linkEntry g &&& (x &&& rightsMask)
          = x &&& (linkEntry g &&& rightsMask) := Nat.and_left_comm _ _ _
        _ = x &&& pageWritable := by rw [hlink]
    | cons e' es =>
      rw [ih (fun e he => hes e (List.mem_cons_of_mem _ he)) (by simp)]
      calc linkEntry g &&& (x &&& pageWritable)
          = x &&& (linkEntry g &&& (rightsMask &&& pageWritable)) := by
            rw [hwritable, Nat.and_left_comm]
        _ = x &&& pageWritable := by
          rw [← Nat.and_assoc (linkEntry g), hlink, Nat.and_self]

/-- The flags of an entry in the page table are those it was given. -/
theorem entry_and_of_masked {p flags m : Nat} (hm : pageAddrMask &&& m = 0) :
    (p &&& pageAddrMask ||| flags) &&& m = flags &&& m := by
  rw [Nat.and_or_distrib_right, Nat.and_assoc, hm, Nat.and_zero, Nat.zero_or]

/-- The flags have the rights that are left exactly when they do not ask for the user bit. -/
theorem writable_eq_rights_iff (flags : Nat) :
    flags &&& pageWritable = flags &&& rightsMask ↔ flags &&& pageUser = 0 := by
  have hsplit : flags &&& rightsMask = flags &&& pageWritable ||| flags &&& pageUser :=
    Nat.and_or_distrib_left _ _ _
  rw [hsplit]
  constructor
  · intro heq
    have huser := congrArg (· &&& pageUser) heq
    have hapart : pageWritable &&& pageUser = 0 := by decide
    simp only [Nat.and_or_distrib_right, Nat.and_assoc, hapart, Nat.and_zero, Nat.zero_or,
      Nat.and_self] at huser
    exact huser.symm
  · intro hzero
    rw [hzero, Nat.or_zero]

/-! ## Keeping the entries above a page

A path whose upper entries the code has made keeps them, through all calls of any page. -/

namespace MadeByMap

variable {offset cr3 : Nat} {U A held : Set Nat} {fl : FreeLists} {k k' : Kernel} {n : Vpn}

open AddressSpace

/-- A new table is linked by an entry of the right kind, and is empty. -/
theorem link (h : MadeByMap cr3 k n) (hstep : LinkStep offset cr3 U held k k') :
    MadeByMap cr3 k' n := by
  obtain ⟨A, fl, k₁, p, i, f, g, hspace, hr, rfl⟩ := hstep
  obtain ⟨hagree, hlink⟩ := hspace.linkable hr
  have hentries := hspace.entries_link hr
  intro q j t hpre hq hpresent
  unfold Kernel.table at hq
  rw [hentries] at hq hpresent ⊢
  by_cases hat : t = f ∧ j = i
  · exact ⟨g, if_pos hat⟩
  · rw [Radix.set, if_neg hat] at hpresent ⊢
    cases hlink.walk_cases hq with
    | inl hnew =>
      rw [hnew.2, hr.zero j] at hpresent
      exact absurd (Nat.zero_and _) hpresent
    | inr hold =>
      rw [hagree.walk_eq] at hold
      rw [hagree t j ⟨q, hold⟩] at hpresent ⊢
      exact h q j t hpre hold hpresent

/-- A series of links keeps the upper entries of a path that the code has made. -/
theorem links (h : MadeByMap cr3 k n)
    (hsteps : Relation.ReflTransGen (LinkStep offset cr3 U held) k k') : MadeByMap cr3 k' n := by
  induction hsteps with
  | refl => exact h
  | tail _ hstep ih => exact ih.link hstep

/-- A store into a page table is no store above it. -/
theorem putLeaf (h : MadeByMap cr3 k n) (hspace : AddressSpace offset cr3 U A held fl k) {m : Vpn}
    {f value : Nat} (hwalk : k.table cr3 m.tablePath = some f) (hvalue : value < 2 ^ 64) :
    MadeByMap cr3 (k.putEntry f m.index value) n := by
  have hentries := entries_putEntry k f m.index hvalue
  have hkeep : ∀ q, (k.putEntry f m.index value).table cr3 q = k.table cr3 q := by
    intro q
    unfold Kernel.table
    rw [hentries]
    exact Radix.walk_set_of_stop hspace.unshared hwalk (pageChild_three _) (pageChild_three _) q
  intro q j t hpre hq hpresent
  rw [hkeep] at hq
  -- the path to `t` is shorter than the one to the page table `f`
  have hne : t ≠ f := by
    rintro rfl
    have hsame := hspace.unshared q m.tablePath t hq hwalk
    have hlen := hpre.length_le
    rw [List.length_append, hsame] at hlen
    exact absurd hlen (show ¬ 3 + 1 ≤ 3 by decide)
  rw [hentries, Radix.set_of_ne hne] at hpresent ⊢
  exact h q j t hpre hq hpresent

/-- `vmm_map` of any page keeps it: entries that are there stay, and the new ones have the flags of
the source. -/
theorem map (h : MadeByMap cr3 k n) (hspace : AddressSpace offset cr3 U A held fl k) {v : Nat}
    (hn : k.NotHuge cr3 (vpn v)) {p flags : Nat} (hflags : flags < 2 ^ 64) {ok : Bool}
    (hrun : vmmMap (some offset) cr3 k v p flags = .ok (ok, k')) : MadeByMap cr3 k' n := by
  obtain ⟨k₁, A₁, fl₁, hspace₁, -, hlinks, -, hcases⟩ := hspace.mapWalk hn p flags
  cases hcases with
  | inl hfail =>
    obtain ⟨-, rfl⟩ := ok_unique_pair hrun hfail.1
    exact h.links hlinks
  | inr hsome =>
    obtain ⟨f, hwalk, hstore⟩ := hsome
    obtain ⟨-, rfl⟩ := ok_unique_pair hrun hstore
    exact (h.links hlinks).putLeaf hspace₁ hwalk (entry_lt hflags)

/-- `vmm_unmap` of any page keeps it, since it changes no upper entry. -/
theorem unmap (h : MadeByMap cr3 k n) (hspace : AddressSpace offset cr3 U A held fl k) {v : Nat}
    (hn : k.NotHuge cr3 (vpn v)) {ok : Bool}
    (hrun : vmmUnmap (some offset) cr3 k v = .ok (ok, k')) : MadeByMap cr3 k' n := by
  cases hleaf : k.leaf cr3 (vpn v) with
  | none =>
    have habsent := hspace.unmap_absent hn hleaf
    obtain ⟨-, rfl⟩ := ok_unique_pair hrun habsent
    exact h
  | some r =>
    obtain ⟨s, -, -, hfree, -⟩ := hspace.repr.freePage (frameOf r.2 * buddyPageSize)
    obtain ⟨f, hwalk, hclear⟩ := hspace.unmap_eq hn hleaf hfree
    obtain ⟨-, rfl⟩ := ok_unique_pair hrun hclear
    exact h.putLeaf hspace hwalk (by decide)

end MadeByMap

/-- In every run, all tables of a page that the root did not have to begin with were made by
`vmm_map`. -/
theorem VmmRun.madeByMap {response : Option MemmapResponse} {offset cr3 : Nat} {k₀ k : Kernel}
    {c : Client} (h : InitialSpace response offset cr3 k₀)
    (run : VmmRun notShared offset cr3 k₀ k c) {n : Vpn}
    (hroot :
      entries k₀.mem (frameOf cr3) (Fin.ofNat 512 ((n : Nat) / 2 ^ 27)) &&& pagePresent = 0) :
    MadeByMap cr3 k n := by
  induction run with
  | start _ =>
    -- the root is the only table on the way, and its entry is absent
    intro p i f hpre hwalk hpresent
    cases p with
    | nil =>
      obtain rfl := Option.some.inj hwalk
      have hfirst : i = Fin.ofNat 512 ((n : Nat) / 2 ^ 27) := (List.cons_prefix_cons.mp hpre).1
      rw [hfirst] at hpresent
      exact absurd hroot hpresent
    | cons j p =>
      have hfirst : j = Fin.ofNat 512 ((n : Nat) / 2 ^ 27) := (List.cons_prefix_cons.mp hpre).1
      have hstop : pageChild 0 (entries k₀.mem (frameOf cr3) j) = none := by
        rw [hfirst]
        exact if_pos (Or.inl hroot)
      exact absurd ((Radix.walk_cons_none hstop p).symm.trans hwalk) (by simp)
  | alloc _ _ _ ih => exact ih
  | allocFail _ _ ih => exact ih
  | map run hmay hrun ih =>
    have hinv := run.inv h
    obtain ⟨A, fl, hspace⟩ := hinv.space
    exact ih.map hspace (hinv.notHuge _) hmay.1 hrun
  | unmap run _ hrun ih =>
    have hinv := run.inv h
    obtain ⟨A, fl, hspace⟩ := hinv.space
    exact ih.unmap hspace (hinv.notHuge _) hrun

/-! ## The rights after `vmm_map`

They are the requested ones without the user bit, so they are what was asked for exactly when this
was not asked for. -/

/-- The rights of a page whose tables were made by `vmm_map` and whose entry holds `e`. -/
theorem effectiveRights_of_madeByMap {cr3 : Nat} {k : Kernel} {n : Vpn} (hmade : MadeByMap cr3 k n)
    {f : Nat} (hwalk : k.table cr3 n.tablePath = some f) :
    effectiveRights cr3 k n = entries k.mem f n.index &&& pageWritable := by
  have htrail : Radix.trail pageChild (entries k.mem) 0 (frameOf cr3) n.path
      = Radix.trail pageChild (entries k.mem) 0 (frameOf cr3) n.tablePath
        ++ [entries k.mem f n.index] := by
    rw [Vpn.path, Radix.trail_append hwalk, Radix.trail_singleton]
  rw [effectiveRights, htrail, List.foldr_append]
  refine foldr_linkEntry (fun e he => ?_) (by simp [Vpn.tablePath, Radix.trail]) _
  -- the way goes on below every entry on it, so all of them are present
  obtain ⟨p, i, t, hpre, ht, hentry⟩ := Radix.exists_of_mem_trail he
  obtain ⟨r, hr⟩ := Radix.eq_append_cons hpre
  rw [hentry]
  apply hmade p i t hpre ht
  intro habsent
  have hstop : pageChild p.length (entries k.mem t i) = none := if_pos (Or.inl habsent)
  have hnone : k.table cr3 n.tablePath = none := by
    rw [hr]
    have hdead := AddressSpace.table_append_none ((Radix.walk_concat ht i).trans hstop) r
    rw [List.append_assoc] at hdead
    exact hdead
  exact absurd (hwalk.symm.trans hnone) (by simp)

section

variable {offset cr3 : Nat} {U A held : Set Nat} {fl : FreeLists} {k k' : Kernel} {v p flags : Nat}
  (h : AddressSpace offset cr3 U A held fl k) (hn : k.NotHuge cr3 (vpn v))
  (hmade : MadeByMap cr3 k (vpn v)) (hflags : flags < 2 ^ 64)
  (hrun : vmmMap (some offset) cr3 k v p flags = .ok (true, k'))

include h hn hmade hflags hrun

/-- Of the rights that were asked for, the writable one takes effect. -/
theorem effectiveRights_map : effectiveRights cr3 k' (vpn v) = flags &&& pageWritable := by
  have hmade' := hmade.map h hn hflags hrun
  obtain ⟨k₁, A₁, fl₁, hspace, -, -, -, hcases⟩ := h.mapWalk hn p flags
  cases hcases with
  | inl hfail => exact absurd (ok_unique_pair hrun hfail.1).1 (by simp)
  | inr hsome =>
    obtain ⟨f, hwalk, hstore⟩ := hsome
    obtain ⟨-, rfl⟩ := ok_unique_pair hrun hstore
    have hentries := entries_putEntry k₁ f (vpn v).index (entry_lt (p := p) hflags)
    have hwalk' : (k₁.putEntry f (vpn v).index (p &&& pageAddrMask ||| flags)).table cr3
        (vpn v).tablePath = some f := by
      unfold Kernel.table
      rw [hentries]
      exact Radix.walk_set_parent hspace.unshared hwalk
    rw [effectiveRights_of_madeByMap hmade' hwalk', hentries, Radix.set_self,
      entry_and_of_masked (by decide)]

/-- **Requested rights take effect exactly when the user bit is not among them.** In every address
space, for a page that no huge page translates and whose present tables were all made by
`vmm_map`. -/
theorem rights_take_effect_iff :
    effectiveRights cr3 k' (vpn v) = flags &&& rightsMask ↔ flags &&& pageUser = 0 := by
  rw [effectiveRights_map h hn hmade hflags hrun]
  exact writable_eq_rights_iff flags

end

/-- Five frames of `sampleMap` are usable: three new tables never use them up. -/
theorem not_full_sampleMap {A A' : Set Nat} (hA : A ⊆ {1})
    (htake : AddressSpace.TakesAtMost 3 A A') : ¬ usableFrames sampleMap ⊆ A' := by
  intro hfull
  obtain ⟨F, hcard, hsub⟩ := htake
  have hin : Finset.Icc 1 5 ⊆ insert 1 F := by
    intro i hi
    rw [Finset.mem_Icc] at hi
    have husable : i ∈ usableFrames sampleMap := mem_usableFrames_sampleMap.mpr hi
    rw [Finset.mem_insert]
    exact (hsub (hfull husable)).imp (fun hi => hA hi) Finset.mem_coe.mp
  have hle := (Finset.card_le_card hin).trans (Finset.card_insert_le 1 F)
  rw [Nat.card_Icc] at hle
  omega

/-- The client of the samples can map the page at `2 ^ 39`, where the root has no entry yet. -/
theorem sampleRights (p flags : Nat) :
    ∃ A held fl k k', AddressSpace sampleDirectMap sampleCr3 (usableFrames sampleMap) A held fl k ∧
      k.NotHuge sampleCr3 (vpn (2 ^ 39)) ∧ MadeByMap sampleCr3 k (vpn (2 ^ 39)) ∧
      vmmMap (some sampleDirectMap) sampleCr3 k (2 ^ 39) p flags = .ok (true, k') := by
  obtain ⟨s₀, s, hinit, hbuddy, run⟩ := sampleRun notShared
  have hinv := run.inv hinit
  obtain ⟨A, fl, hspace⟩ := hinv.space
  have hslot : Fin.ofNat 512 ((vpn (2 ^ 39) : Nat) / 2 ^ 27) ≠ 0 := by decide
  have hmade := run.madeByMap hinit
    (by rw [entries_sampleTables_of_ne s₀ _ hslot]; exact Nat.zero_and _)
  have hA : A ⊆ {1} := by
    intro f hf
    obtain ⟨fl', hlive, -⟩ := hbuddy.inv sampleMap_ok
    obtain ⟨b, hb, hin⟩ := (hlive.state_allocated_iff f).mp (hspace.repr.allocated hf)
    obtain rfl := List.mem_singleton.mp hb
    exact Nat.le_antisymm (Nat.le_of_lt_succ hin.2) hin.1
  obtain ⟨k₁, A₁, fl₁, -, -, -, htake, hcases⟩ := hspace.mapWalk (hinv.notHuge _) p flags
  cases hcases with
  | inl hfail => exact absurd hfail.2 (not_full_sampleMap hA htake)
  | inr hsome =>
    obtain ⟨f, -, hstore⟩ := hsome
    exact ⟨A, _, fl, _, _, hspace, hinv.notHuge _, hmade, hstore⟩

/-- A writable page without the user bit gets the rights it asks for. -/
theorem rights_take_effect_iff_sampleTables :
    ∃ A held fl k k', AddressSpace sampleDirectMap sampleCr3 (usableFrames sampleMap) A held fl k ∧
      MadeByMap sampleCr3 k (vpn (2 ^ 39)) ∧
      vmmMap (some sampleDirectMap) sampleCr3 k (2 ^ 39) 0x1000 3 = .ok (true, k') ∧
      effectiveRights sampleCr3 k' (vpn (2 ^ 39)) = 3 &&& rightsMask := by
  obtain ⟨A, held, fl, k, k', hspace, hn, hmade, hrun⟩ := sampleRights 0x1000 3
  exact ⟨A, held, fl, k, k', hspace, hmade, hrun,
    (rights_take_effect_iff hspace hn hmade (by decide) hrun).mpr (by decide)⟩

/-- A page mapped for the user is not accessible to the user. -/
theorem user_right_lost :
    ∃ A held fl k k', AddressSpace sampleDirectMap sampleCr3 (usableFrames sampleMap) A held fl k ∧
      k.NotHuge sampleCr3 (vpn (2 ^ 39)) ∧ MadeByMap sampleCr3 k (vpn (2 ^ 39)) ∧
      vmmMap (some sampleDirectMap) sampleCr3 k (2 ^ 39) 0x1000 7 = .ok (true, k') ∧
      effectiveRights sampleCr3 k' (vpn (2 ^ 39)) ≠ 7 &&& rightsMask := by
  obtain ⟨A, held, fl, k, k', hspace, hn, hmade, hrun⟩ := sampleRights 0x1000 7
  refine ⟨A, held, fl, k, k', hspace, hn, hmade, hrun, ?_⟩
  rw [effectiveRights_map hspace hn hmade (by decide) hrun]
  decide

end Yoix
