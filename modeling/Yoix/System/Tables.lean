import Yoix.System.Heap
import Yoix.Vmm.AddressSpace

/-!
# The page tables beside other owners of frames

What the calls of `vmm.c` do to the rest of the kernel, and what the rest of the kernel does to the
tables. `vmm_map` allocates frames for tables only, and neither it nor `vmm_unmap` touches the caches
of the heap (`AddressSpace.map_takesTables`, `AddressSpace.unmap_caches`). A change of memory outside
the tables changes no translation (`AddressSpace.congr`).
-/

namespace Yoix

open Dyadic Memory

/-! ## Changes outside the tables

An address space depends on the tables and on the page allocator. Stores of others to frames they
hold leave it alone. -/

/-- The tables are read only through their own frames. -/
theorem AddressSpace.congr {offset cr3 : Nat} {U A held : Set Nat} {fl : FreeLists} {k : Kernel}
    (h : AddressSpace offset cr3 U A held fl k) {A' held' F : Set Nat} {fl' : FreeLists}
    {k' : Kernel} (hr : Represents U A' ∅ k'.buddy fl') (hwrites : WritesOnly F k k')
    (hout : ∀ t, k.IsTable cr3 t → t ∉ F) (hheld : held' ⊆ A')
    (htables : ∀ t, k.IsTable cr3 t → t ∈ U → t ∈ A' ∧ t ∉ held') :
    AddressSpace offset cr3 U A' held' fl' k' ∧ (∀ t, k'.IsTable cr3 t ↔ k.IsTable cr3 t) ∧
      (∀ p, k'.table cr3 p = k.table cr3 p) ∧ ∀ n, k'.leaf cr3 n = k.leaf cr3 n := by
  have hagree : Radix.AgreeReachable pageChild (entries k.mem) (entries k'.mem) (frameOf cr3) := by
    intro t i ht
    have hpage : SameAt k'.mem k.mem (t * buddyPageSize) buddyPageSize :=
      hwrites.sameAt (hout t ht) (Nat.le_refl buddyPageSize)
    refine readLE_congr (hpage.mono ?_ ?_)
    · exact Nat.le_add_right _ _
    · simp only [buddyPageSize]
      omega
  have hsame : ∀ t, k'.IsTable cr3 t ↔ k.IsTable cr3 t := hagree.reachable_iff
  refine ⟨⟨h.direct, hr, hheld, hagree.unshared h.unshared,
    fun t ht => htables t ((hsame t).mp ht), fun t ht => h.mapped t ((hsame t).mp ht)⟩, hsame,
    fun p => hagree.walk_eq p, fun n => hagree.find_eq n.path⟩

/-! ## Stores and the caches -/

theorem Kernel.store_heapCaches {hhdm : Option Nat} {k k' : Kernel} {virt bytes value : Nat}
    (h : k.store hhdm virt bytes value = .ok k') : k'.heapCaches = k.heapCaches := by
  obtain ⟨phys, -, hk⟩ := bind_eq_ok.mp h
  rw [← Except.ok.inj hk]

theorem zeroEntriesLoop_heapCaches {hhdm : Option Nat} {pageVirt n i : Nat} {k k' : Kernel}
    (h : zeroEntriesLoop hhdm pageVirt n k i = .ok k') : k'.heapCaches = k.heapCaches := by
  induction n generalizing k i with
  | zero => rw [← Except.ok.inj h]
  | succ n ih =>
    obtain ⟨k₁, hstore, hrest⟩ := bind_eq_ok.mp h
    rw [ih hrest, Kernel.store_heapCaches hstore]

theorem makePage_heapCaches {hhdm : Option Nat} {k k' : Kernel} {a : Nat}
    (h : makePage hhdm k = .ok (a, k')) : k'.heapCaches = k.heapCaches := by
  obtain ⟨⟨pagePhy, s⟩, -, h⟩ := bind_eq_ok.mp h
  dsimp only at h
  split at h
  · rw [← (Prod.mk.inj (Except.ok.inj h)).2]
  · obtain ⟨k₁, hloop, h⟩ := bind_eq_ok.mp h
    rw [← (Prod.mk.inj (Except.ok.inj h)).2, zeroEntriesLoop_heapCaches hloop]

/-! ## Frames taken for tables

The frames that `vmm_map` takes become tables, all of them: none is lost on the way, also when the
walk fails in the middle. -/

/-- Between the two states frames have been allocated for tables only. -/
structure TakesTables (cr3 : Nat) (k k' : Kernel) : Prop where
  caches : k'.heapCaches = k.heapCaches
  owned : ∀ f, k'.buddy.pageState f = pageStateAllocated →
    k.buddy.pageState f = pageStateAllocated ∨ k'.IsTable cr3 f
  keep : ∀ f, k.IsTable cr3 f → k'.IsTable cr3 f

theorem TakesTables.refl (cr3 : Nat) (k : Kernel) : TakesTables cr3 k k :=
  ⟨rfl, fun _ hf => Or.inl hf, fun _ hf => hf⟩

/-- Frames that two steps take for tables are all tables in the end. -/
theorem TakesTables.trans {cr3 : Nat} {k k' k'' : Kernel} (h : TakesTables cr3 k k')
    (h' : TakesTables cr3 k' k'') : TakesTables cr3 k k'' := by
  refine ⟨h'.caches.trans h.caches, fun f hf => ?_, fun f hf => h'.keep f (h.keep f hf)⟩
  rcases h'.owned f hf with hf | hf
  · exact (h.owned f hf).imp_right (h'.keep f)
  · exact Or.inr hf

namespace AddressSpace

variable {offset cr3 : Nat} {U A held : Set Nat} {fl : FreeLists} {k k' : Kernel}

/-- One level of a walk takes at most one frame, and that is the table it links. -/
theorem nextLevel_takesTables (h : AddressSpace offset cr3 U A held fl k)
    {p : List (Fin 512)} {i : Fin 512} {f r : Nat} (hwalk : k.table cr3 p = some f)
    (hlen : p.length ≤ 2)
    (hrun : vmmGetNextLevel (some offset) k (tablePtr offset f) i = .ok (r, k')) :
    TakesTables cr3 k k' := by
  have hflt := (isTable_of_table hwalk).lt
  rw [vmmGetNextLevel, k.getEntry_tablePtr h.direct.offset_lt hflt, ok_bind] at hrun
  split at hrun
  · next habsent =>
    rcases makePage_cases h.direct h.repr with
      ⟨hmake, -⟩ | ⟨g, k₁, fl₁, hmake, hg, hrepr, hout, hzero⟩
    · rw [hmake, ok_bind] at hrun
      obtain ⟨-, rfl⟩ := ok_unique_pair hrun rfl
      exact .refl cr3 _
    · have hr : ReadyToLink cr3 U A k k₁ p i f g := ⟨hlen, hwalk, habsent, hg, hout, hzero⟩
      have hcaches := makePage_heapCaches hmake
      rw [hmake, ok_bind] at hrun
      dsimp only at hrun
      rw [if_neg (addr_ne_invalid (h.repr.usable_lt hg.1)),
        k₁.setEntry_tablePtr h.direct.offset_lt hflt, ok_bind] at hrun
      obtain ⟨-, rfl⟩ := ok_unique_pair hrun rfl
      refine ⟨hcaches, fun t ht => ?_, fun t ht => (h.link_grows hr).isTable_keep ht⟩
      -- the one new frame has been linked
      rcases (hrepr.state_allocated_iff t).mp ht with hA | rfl
      · exact Or.inl (h.repr.allocated hA)
      · exact Or.inr ⟨p ++ [i], h.table_link hr⟩
  · obtain ⟨-, rfl⟩ := ok_unique_pair hrun rfl
    exact .refl cr3 _

/-- `vmm_map` allocates frames for tables only, one at each level that has no entry yet. Each level
is a step that takes at most one. -/
theorem map_takesTables (h : AddressSpace offset cr3 U A held fl k) {v phys flags : Nat} {ok : Bool}
    (hn : k.NotHuge cr3 (vpn v)) (hflags : flags < 2 ^ 64)
    (hrun : vmmMap (some offset) cr3 k v phys flags = .ok (ok, k')) : TakesTables cr3 k k' := by
  -- one level after the other; each may find no free frame, which ends the call
  obtain ⟨r₁, k₁, A₁, fl₁, hrun₁, hs₁, hg₁, -, -, hr₁⟩ :=
    h.getNextLevel hn (root_table k) (Nat.zero_le 2) ⟨_, rfl⟩
  have ht₁ := h.nextLevel_takesTables (root_table k) (Nat.zero_le 2) hrun₁
  rw [vmmMap, phyToVirt_and_mask, if_neg h.root_mapped, pml4Index_eq, hrun₁, ok_bind] at hrun
  dsimp only at hrun
  split at hrun
  · obtain ⟨-, rfl⟩ := ok_unique_pair hrun rfl
    exact ht₁
  · next hne₁ =>
    obtain ⟨f₁, rfl, hw₁⟩ := hr₁.resolve_left fun hnull => hne₁ hnull.1
    obtain ⟨r₂, k₂, A₂, fl₂, hrun₂, hs₂, hg₂, -, -, hr₂⟩ :=
      hs₁.getNextLevel (hg₁.notHuge hn) hw₁ (Nat.le_succ 1) ⟨_, rfl⟩
    have ht₂ := ht₁.trans (hs₁.nextLevel_takesTables hw₁ (Nat.le_succ 1) hrun₂)
    rw [pdptIndex_eq, hrun₂, ok_bind] at hrun
    dsimp only at hrun
    split at hrun
    · obtain ⟨-, rfl⟩ := ok_unique_pair hrun rfl
      exact ht₂
    · next hne₂ =>
      obtain ⟨f₂, rfl, hw₂⟩ := hr₂.resolve_left fun hnull => hne₂ hnull.1
      obtain ⟨r₃, k₃, A₃, fl₃, hrun₃, hs₃, -, -, -, hr₃⟩ :=
        hs₂.getNextLevel ((hg₁.trans hg₂).notHuge hn) hw₂ (Nat.le_refl 2) ⟨_, rfl⟩
      have ht₃ := ht₂.trans (hs₂.nextLevel_takesTables hw₂ (Nat.le_refl 2) hrun₃)
      rw [pdIndex_eq, hrun₃, ok_bind] at hrun
      dsimp only at hrun
      split at hrun
      · obtain ⟨-, rfl⟩ := ok_unique_pair hrun rfl
        exact ht₃
      · next hne₃ =>
        obtain ⟨f₃, rfl, hw₃⟩ := hr₃.resolve_left fun hnull => hne₃ hnull.1
        rw [ptIndex_eq, k₃.setEntry_tablePtr h.direct.offset_lt (isTable_of_table hw₃).lt,
          ok_bind] at hrun
        obtain ⟨-, rfl⟩ := ok_unique_pair hrun rfl
        -- the last entry is a leaf: no table comes or goes
        have hput := hs₃.putLeaf hw₃ (entry_lt (p := phys) hflags)
        exact ht₃.trans ⟨rfl, fun f hf => Or.inl hf, fun f hf => (hput.2.1 f).mpr hf⟩

/-- The tables that `vmm_map` adds lie in frames that were free. -/
theorem map_tables (h : AddressSpace offset cr3 U A held fl k) {v phys flags : Nat} {ok : Bool}
    (hn : k.NotHuge cr3 (vpn v)) (hflags : flags < 2 ^ 64)
    (hrun : vmmMap (some offset) cr3 k v phys flags = .ok (ok, k')) (f : Nat)
    (hf : k'.IsTable cr3 f) : k.IsTable cr3 f ∨ f ∈ U \ A := by
  obtain ⟨k₁, A₁, fl₁, hspace, hgrows, -, -, hcases⟩ := h.mapWalk hn phys flags
  rcases hcases with ⟨hfail, -⟩ | ⟨t, hwalk, hput⟩
  · obtain ⟨-, rfl⟩ := ok_unique_pair hrun hfail
    exact hgrows.tables f hf
  · obtain ⟨-, rfl⟩ := ok_unique_pair hrun hput
    exact hgrows.tables f (((hspace.putLeaf hwalk (entry_lt (p := phys) hflags)).2.1 f).mp hf)

/-- `vmm_unmap` leaves the caches of the heap alone: it writes one entry, and frees a page. -/
theorem unmap_caches (h : AddressSpace offset cr3 U A held fl k) {v : Nat} {ok : Bool}
    (hn : k.NotHuge cr3 (vpn v)) (hrun : vmmUnmap (some offset) cr3 k v = .ok (ok, k')) :
    k'.heapCaches = k.heapCaches := by
  cases hleaf : k.leaf cr3 (vpn v) with
  | none =>
    obtain ⟨-, rfl⟩ := ok_unique_pair hrun (h.unmap_absent hn hleaf)
    rfl
  | some r =>
    obtain ⟨s, -, -, hfree, -⟩ := h.repr.freePage (frameOf r.2 * buddyPageSize)
    obtain ⟨f, -, hcall⟩ := h.unmap_eq hn hleaf hfree
    obtain ⟨-, rfl⟩ := ok_unique_pair hrun hcall
    rfl

/-! ## Tables stay -/

/-- An entry of a page table leads to no table. -/
theorem table_putEntry (h : AddressSpace offset cr3 U A held fl k) {n : Vpn} {f value : Nat}
    (hwalk : k.table cr3 n.tablePath = some f) (hvalue : value < 2 ^ 64) (p : List (Fin 512)) :
    (k.putEntry f n.index value).table cr3 p = k.table cr3 p := by
  unfold Kernel.table
  rw [entries_putEntry k f n.index hvalue]
  exact Radix.walk_set_of_stop h.unshared hwalk (pageChild_three _) (pageChild_three _) p

/-- `vmm_map` leaves the tables where they are: a table that a path leads to is found there
afterwards too. -/
theorem map_table (h : AddressSpace offset cr3 U A held fl k) {v phys flags : Nat} {ok : Bool}
    (hn : k.NotHuge cr3 (vpn v)) (hflags : flags < 2 ^ 64)
    (hrun : vmmMap (some offset) cr3 k v phys flags = .ok (ok, k')) {p : List (Fin 512)} {f : Nat}
    (hf : k.table cr3 p = some f) : k'.table cr3 p = some f := by
  obtain ⟨k₁, A₁, fl₁, hspace, hgrows, -, -, hcases⟩ := h.mapWalk hn phys flags
  have hkeep := hgrows.table_keep p f hf
  cases hcases with
  | inl hfail =>
    obtain ⟨-, rfl⟩ := ok_unique_pair hrun hfail.1
    exact hkeep
  | inr hsome =>
    obtain ⟨t, hwalk, hput⟩ := hsome
    obtain ⟨-, rfl⟩ := ok_unique_pair hrun hput
    rw [hspace.table_putEntry hwalk (entry_lt (p := phys) hflags)]
    exact hkeep

/-- `vmm_unmap` leaves the tables where they are, also when they have become empty. -/
theorem unmap_table (h : AddressSpace offset cr3 U A held fl k) {v : Nat} {ok : Bool}
    (hn : k.NotHuge cr3 (vpn v)) (hrun : vmmUnmap (some offset) cr3 k v = .ok (ok, k'))
    (p : List (Fin 512)) : k'.table cr3 p = k.table cr3 p := by
  cases hleaf : k.leaf cr3 (vpn v) with
  | none =>
    obtain ⟨-, rfl⟩ := ok_unique_pair hrun (h.unmap_absent hn hleaf)
    rfl
  | some r =>
    obtain ⟨s, -, -, hfree, -⟩ := h.repr.freePage (frameOf r.2 * buddyPageSize)
    obtain ⟨f, hwalk, hcall⟩ := h.unmap_eq hn hleaf hfree
    obtain ⟨-, rfl⟩ := ok_unique_pair hrun hcall
    exact h.table_putEntry hwalk (by decide) p

end AddressSpace

end Yoix
