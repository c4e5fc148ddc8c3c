import Yoix.Buddy.Operations
import Yoix.Vmm.Tables
import Mathlib.Data.Finset.Card
import Mathlib.Logic.Relation

/-!
# Address spaces beside the page allocator

`AddressSpace` is the invariant of the page-table code: the allocator's arrays represent its
frames, no table is reached along two paths, and a table in a managed frame lies in an allocated
frame that no client holds. Each function of `vmm.c` gets one lemma that says what it does to
such a state; `Grows` is what the tables made on the way down to a page amount to.
-/

namespace Yoix

open Dyadic Memory

/-- The bootloader's direct map: the managed frames are not at `NULL`. -/
structure DirectMap (offset : Nat) : Prop where
  offset_lt : offset < 2 ^ 64
  managed : ∀ f < buddyMaxPages, tablePtr offset f ≠ 0

structure AddressSpace (offset cr3 : Nat) (U A held : Set Nat) (fl : FreeLists) (k : Kernel) :
    Prop where
  direct : DirectMap offset
  repr : Represents U A ∅ k.buddy fl
  held_sub : held ⊆ A
  unshared : Radix.Unshared pageChild (entries k.mem) (frameOf cr3)
  tables : ∀ f, k.IsTable cr3 f → f ∈ U → f ∈ A ∧ f ∉ held
  mapped : ∀ f, k.IsTable cr3 f → tablePtr offset f ≠ 0

/-- The page is not translated by a huge page. -/
def Kernel.NotHuge (cr3 : Nat) (k : Kernel) (n : Vpn) : Prop :=
  ∀ d e, k.leaf cr3 n = some (d, e) → d = 3

/-- The frame of a table fits the address bits of an entry. -/
theorem Kernel.IsTable.lt {cr3 : Nat} {k : Kernel} {f : Nat} (h : k.IsTable cr3 f) :
    f < 2 ^ 40 := by
  obtain ⟨p, hwalk⟩ := h
  refine Radix.walk_mem (P := fun s => s < 2 ^ 40) (fun d e s hs => ?_) (frameOf_lt cr3) hwalk
  rw [(pageChild_eq_some hs).2.2]
  exact frameOf_lt e

/-- On the way to a page that no huge page translates, a present entry leads to a table. -/
theorem Kernel.NotHuge.child {cr3 : Nat} {k : Kernel} {n : Vpn} (h : k.NotHuge cr3 n)
    {p : List (Fin 512)} {i : Fin 512} {f : Nat} (hpre : p ++ [i] <+: n.path)
    (hlen : p.length ≤ 2) (hwalk : k.table cr3 p = some f)
    (hpresent : entries k.mem f i &&& pagePresent ≠ 0) :
    pageChild p.length (entries k.mem f i) = some (frameOf (entries k.mem f i)) := by
  cases hc : pageChild p.length (entries k.mem f i) with
  | some s => rw [(pageChild_eq_some hc).2.2]
  | none =>
    obtain ⟨r, hr⟩ := Radix.eq_append_cons hpre
    have hleaf : k.leaf cr3 n = pageLeaf p.length (entries k.mem f i) := by
      show Radix.find pageChild pageLeaf (entries k.mem) 0 (frameOf cr3) n.path = _
      rw [hr]
      exact Radix.find_of_stop hwalk hc
    rw [pageLeaf, if_neg hpresent] at hleaf
    have hdepth := h _ _ hleaf
    omega

/-! ## Entries as the code reads them

The present bit alone decides whether the code takes an entry for a table. Where no huge page is in
the way, this is also what the processor does. -/

/-- The code takes the entry for one that leads to the table in frame `g`. -/
structure Leads (offset : Nat) (k : Kernel) (f : Nat) (i : Fin 512) (g : Nat) : Prop where
  present : entries k.mem f i &&& pagePresent ≠ 0
  frame : frameOf (entries k.mem f i) = g
  mapped : tablePtr offset g ≠ 0

section Leads

variable {offset cr3 f g : Nat} {i : Fin 512} {k : Kernel} (hoff : offset < 2 ^ 64)

include hoff

theorem vmmGetNextLevel_of_leads (hf : f < 2 ^ 40) (h : Leads offset k f i g) :
    vmmGetNextLevel (some offset) k (tablePtr offset f) i = .ok (tablePtr offset g, k) := by
  rw [vmmGetNextLevel, k.getEntry_tablePtr hoff hf, ok_bind, if_neg h.present,
    phyToVirt_and_mask, h.frame]

theorem vmmGetExistingLevel_of_leads (hf : f < 2 ^ 40) (h : Leads offset k f i g) :
    vmmGetExistingLevel (some offset) k (tablePtr offset f) i = .ok (tablePtr offset g) := by
  rw [vmmGetExistingLevel, k.getEntry_tablePtr hoff hf, ok_bind, if_neg h.present,
    phyToVirt_and_mask, h.frame]

theorem vmmGetExistingLevel_of_absent (hf : f < 2 ^ 40)
    (h : entries k.mem f i &&& pagePresent = 0) :
    vmmGetExistingLevel (some offset) k (tablePtr offset f) i = .ok 0 := by
  rw [vmmGetExistingLevel, k.getEntry_tablePtr hoff hf, ok_bind, if_pos h]

end Leads

theorem Leads.lt {offset f g : Nat} {i : Fin 512} {k : Kernel} (h : Leads offset k f i g) :
    g < 2 ^ 40 := h.frame ▸ frameOf_lt _

/-- The three entries on the way to `v`, as the code reads them. -/
structure LeadsTo (offset cr3 : Nat) (k : Kernel) (v f₁ f₂ f₃ : Nat) : Prop where
  root : tablePtr offset (frameOf cr3) ≠ 0
  pml4 : Leads offset k (frameOf cr3) (Fin.ofNat 512 ((vpn v : Nat) / 2 ^ 27)) f₁
  pdpt : Leads offset k f₁ (Fin.ofNat 512 ((vpn v : Nat) / 2 ^ 18)) f₂
  pd : Leads offset k f₂ (Fin.ofNat 512 ((vpn v : Nat) / 2 ^ 9)) f₃

section LeadsTo

variable {offset cr3 v f₁ f₂ f₃ : Nat} {k : Kernel} (hoff : offset < 2 ^ 64)
  (h : LeadsTo offset cr3 k v f₁ f₂ f₃)

include hoff h

/-- `vmm_map` makes no table where the entries are present. -/
theorem LeadsTo.vmmMap_eq (phys flags : Nat) :
    vmmMap (some offset) cr3 k v phys flags
      = .ok (true, k.putEntry f₃ (vpn v).index (phys &&& pageAddrMask ||| flags)) := by
  simp only [vmmMap, phyToVirt_and_mask, if_neg h.root, pml4Index_eq, pdptIndex_eq, pdIndex_eq,
    ptIndex_eq, vmmGetNextLevel_of_leads hoff (frameOf_lt cr3) h.pml4, ok_bind,
    if_neg h.pml4.mapped,
    vmmGetNextLevel_of_leads hoff h.pml4.lt h.pdpt, if_neg h.pdpt.mapped,
    vmmGetNextLevel_of_leads hoff h.pdpt.lt h.pd, if_neg h.pd.mapped,
    k.setEntry_tablePtr hoff h.pd.lt]

/-- `vmm_unmap` where the entries are present: the last entry is cleared and its frame freed, in one
equation that the callers cite. -/
theorem LeadsTo.vmmUnmap_eq {s : Buddy}
    (hpresent : entries k.mem f₃ (vpn v).index &&& pagePresent ≠ 0)
    (hfree : buddyFreePage k.buddy (entries k.mem f₃ (vpn v).index &&& pageAddrMask) = .ok s) :
    vmmUnmap (some offset) cr3 k v
      = .ok (true, { k.putEntry f₃ (vpn v).index 0 with buddy := s }) := by
  have hbuddy : (k.putEntry f₃ (vpn v).index 0).buddy = k.buddy := rfl
  simp only [vmmUnmap, phyToVirt_and_mask, if_neg h.root, pml4Index_eq, pdptIndex_eq, pdIndex_eq,
    ptIndex_eq, vmmGetExistingLevel_of_leads hoff (frameOf_lt cr3) h.pml4, ok_bind,
    if_neg h.pml4.mapped,
    vmmGetExistingLevel_of_leads hoff h.pml4.lt h.pdpt, if_neg h.pdpt.mapped,
    vmmGetExistingLevel_of_leads hoff h.pdpt.lt h.pd, if_neg h.pd.mapped,
    k.getEntry_tablePtr hoff h.pd.lt, if_neg hpresent, k.setEntry_tablePtr hoff h.pd.lt, hbuddy,
    hfree]

/-- An absent entry on the last level gives the error value. -/
theorem LeadsTo.vmmGetPhys_eq (habsent : entries k.mem f₃ (vpn v).index &&& pagePresent = 0) :
    vmmGetPhys (some offset) cr3 k v = .ok buddyInvalidAddress := by
  simp only [vmmGetPhys, phyToVirt_and_mask, if_neg h.root, pml4Index_eq, pdptIndex_eq, pdIndex_eq,
    ptIndex_eq, vmmGetExistingLevel_of_leads hoff (frameOf_lt cr3) h.pml4, ok_bind,
    if_neg h.pml4.mapped,
    vmmGetExistingLevel_of_leads hoff h.pml4.lt h.pdpt, if_neg h.pdpt.mapped,
    vmmGetExistingLevel_of_leads hoff h.pdpt.lt h.pd, if_neg h.pd.mapped,
    k.getEntry_tablePtr hoff h.pd.lt, if_pos habsent]

end LeadsTo

/-! ## New pages

`Make_Page` takes a free page and fills it with entries that are all 0, or takes nothing. -/

/-- The loop of `Make_Page` clears the entries it is given and touches no other page. -/
theorem zeroEntriesLoop_spec {offset g : Nat} (hoff : offset < 2 ^ 64) (hg : g < 2 ^ 40)
    (n i : Nat) (k : Kernel) (hle : i + n ≤ 512) :
    ∃ mem', zeroEntriesLoop (some offset) (tablePtr offset g) n k i = .ok { k with mem := mem' } ∧
      SameOutside mem' k.mem (g * buddyPageSize) buddyPageSize ∧
      (∀ j : Fin 512, (j : Nat) < i → entries mem' g j = entries k.mem g j) ∧
      ∀ j : Fin 512, i ≤ j → (j : Nat) < i + n → entries mem' g j = 0 := by
  induction n generalizing i k with
  | zero => exact ⟨k.mem, rfl, fun x _ => rfl, fun j _ => rfl, fun j h1 h2 => by omega⟩
  | succ n ih =>
    have hi : i < 512 := by omega
    have hset : entries (k.putEntry g ⟨i, hi⟩ 0).mem = Radix.set (entries k.mem) g ⟨i, hi⟩ 0 :=
      entries_putEntry k g ⟨i, hi⟩ (by decide)
    -- the later rounds leave entry `i` alone
    obtain ⟨mem', hrun, hout, hkeep, hzero⟩ := ih (i + 1) (k.putEntry g ⟨i, hi⟩ 0) (by omega)
    refine ⟨mem', ?_, ?_, fun j hj => ?_, fun j hlo hhi => ?_⟩
    · have hstore := k.setEntry_tablePtr hoff hg ⟨i, hi⟩ 0
      show k.setEntry (some offset) (tablePtr offset g) i 0 >>= _ = _
      rw [hstore, ok_bind]
      exact hrun
    · apply hout.trans
      apply (sameOutside_writeLE k.mem (g * buddyPageSize + 8 * i) 8 0).mono
      · omega
      · simp only [buddyPageSize]
        omega
    · rw [hkeep j (by omega), hset, Radix.set, if_neg]
      intro heq
      exact absurd (congrArg Fin.val heq.2) (Nat.ne_of_lt hj)
    · by_cases hij : (j : Nat) = i
      · rw [hkeep j (by omega), hset, show j = ⟨i, hi⟩ from Fin.ext hij, Radix.set_self]
      · exact hzero j (by omega) (by omega)

/-- `Make_Page` fails when no frame is free, or returns a cleared page in a frame that was
free. -/
theorem makePage_cases {offset : Nat} {U A : Set Nat} {fl : FreeLists} {k : Kernel}
    (hd : DirectMap offset) (h : Represents U A ∅ k.buddy fl) :
    (makePage (some offset) k = .ok (buddyInvalidAddress, k) ∧ U ⊆ A) ∨
    ∃ g k' fl', makePage (some offset) k = .ok (g * buddyPageSize, k') ∧ g ∈ U \ A ∧
      Represents U (A ∪ {g}) ∅ k'.buddy fl' ∧
      SameOutside k'.mem k.mem (g * buddyPageSize) buddyPageSize ∧
      ∀ i, entries k'.mem g i = 0 := by
  cases h.allocPage with
  | inl hfail =>
    refine Or.inl ⟨?_, hfail.2⟩
    rw [makePage, hfail.1, ok_bind]
    rfl
  | inr hsome =>
    obtain ⟨g, s', fl', hrun, hg, h'⟩ := hsome
    have hlt : g < buddyMaxPages := h.usable_lt hg.1
    obtain ⟨mem', hloop, hout, -, hzero⟩ := zeroEntriesLoop_spec hd.offset_lt
      (Nat.lt_trans hlt (by decide)) 512 0 { k with buddy := s' } (Nat.le_refl 512)
    right
    refine ⟨g, { k with buddy := s', mem := mem' }, fl', ?_, hg, h', hout, fun i => ?_⟩
    · rw [makePage, hrun, ok_bind]
      show (if g * buddyPageSize = buddyInvalidAddress then _ else _) = _
      rw [if_neg (addr_ne_invalid hlt)]
      show zeroEntriesLoop (some offset) (tablePtr offset g) 512 { k with buddy := s' } 0 >>= _ = _
      rw [hloop, ok_bind]
    · exact hzero i (Nat.zero_le _) (by omega)

/-! ## Growing the tree

What the steps of a walk may do to the tree: add tables, which were free frames before, with
everything reachable before still reachable and unchanged. -/

/-- Every byte that differs lies in a table, which was one before or lies in a frame that was
free. -/
def Confined (cr3 : Nat) (U A : Set Nat) (k k' : Kernel) : Prop :=
  ∀ x, k'.mem x ≠ k.mem x → k'.IsTable cr3 (x / buddyPageSize) ∧
    (k.IsTable cr3 (x / buddyPageSize) ∨ x / buddyPageSize ∈ U \ A)

/-- `k'` has the translations of `k`, with new empty tables in frames that were free. -/
structure Grows (cr3 : Nat) (U A A' : Set Nat) (k k' : Kernel) : Prop where
  leaf_eq : ∀ n, k'.leaf cr3 n = k.leaf cr3 n
  table_keep : ∀ p f, k.table cr3 p = some f → k'.table cr3 p = some f
  alloc_sub : A ⊆ A'
  tables : ∀ f, k'.IsTable cr3 f → k.IsTable cr3 f ∨ f ∈ U \ A
  confined : Confined cr3 U A k k'

namespace Grows

variable {cr3 : Nat} {U A A' A'' : Set Nat} {k k' k'' : Kernel}

theorem refl (cr3 : Nat) (U A : Set Nat) (k : Kernel) : Grows cr3 U A A k k where
  leaf_eq _ := rfl
  table_keep _ _ h := h
  alloc_sub := subset_rfl
  tables _ h := Or.inl h
  confined _ h := absurd rfl h

theorem isTable_keep (h : Grows cr3 U A A' k k') {f : Nat} (hf : k.IsTable cr3 f) :
    k'.IsTable cr3 f := by
  obtain ⟨p, hp⟩ := hf
  exact ⟨p, h.table_keep p f hp⟩

/-- A table of the grown tree that lies in a frame allocated before was a table before. -/
theorem was_table (h : Grows cr3 U A A' k k') {f : Nat}
    (hf : k'.IsTable cr3 f ∨ f ∈ U \ A') : k.IsTable cr3 f ∨ f ∈ U \ A := by
  cases hf with
  | inl hold => exact h.tables f hold
  | inr hnew => exact Or.inr ⟨hnew.1, fun hA => hnew.2 (h.alloc_sub hA)⟩

/-- Growth composes: the tables that were new at first are old ones later. -/
theorem trans (h : Grows cr3 U A A' k k') (h' : Grows cr3 U A' A'' k' k'') :
    Grows cr3 U A A'' k k'' where
  leaf_eq n := (h'.leaf_eq n).trans (h.leaf_eq n)
  table_keep p f ht := h'.table_keep p f (h.table_keep p f ht)
  alloc_sub := h.alloc_sub.trans h'.alloc_sub
  tables f hf := h.was_table (h'.tables f hf)
  confined x hx := by
    by_cases hx' : k''.mem x = k'.mem x
    · have hfirst := h.confined x (by rw [← hx']; exact hx)
      exact ⟨h'.isTable_keep hfirst.1, hfirst.2⟩
    · have hsecond := h'.confined x hx'
      exact ⟨hsecond.1, h.was_table hsecond.2⟩

/-- Growth brings no huge page, as new tables lead to tables or nowhere. -/
theorem notHuge (h : Grows cr3 U A A' k k') {n : Vpn} (hn : k.NotHuge cr3 n) :
    k'.NotHuge cr3 n := by
  intro d e hleaf
  rw [h.leaf_eq] at hleaf
  exact hn d e hleaf

end Grows

namespace AddressSpace

variable {offset cr3 : Nat} {U A held : Set Nat} {fl : FreeLists} {k : Kernel}

theorem isTable_of_table {p : List (Fin 512)} {f : Nat} (hwalk : k.table cr3 p = some f) :
    k.IsTable cr3 f := ⟨p, hwalk⟩

theorem not_isTable (h : AddressSpace offset cr3 U A held fl k) {g : Nat} (hg : g ∈ U \ A) :
    ¬ k.IsTable cr3 g := fun htable => hg.2 (h.tables g htable hg.1).1

/-- A cleared page in the free frame `g`, about to be linked at the absent entry `i` of the table
in frame `f`, the one at the end of `p`. Clearing it has turned `k` into `k₁`. -/
structure ReadyToLink (cr3 : Nat) (U A : Set Nat) (k k₁ : Kernel) (p : List (Fin 512))
    (i : Fin 512) (f g : Nat) : Prop where
  len : p.length ≤ 2
  walk : k.table cr3 p = some f
  absent : entries k.mem f i &&& pagePresent = 0
  free : g ∈ U \ A
  outside : SameOutside k₁.mem k.mem (g * buddyPageSize) buddyPageSize
  zero : ∀ j, entries k₁.mem g j = 0

section Link

variable {k₁ : Kernel} {p : List (Fin 512)} {i : Fin 512} {f g : Nat}

/-- Clearing the page touched no table, and the tree is ready to take it. -/
theorem linkable (h : AddressSpace offset cr3 U A held fl k)
    (hr : ReadyToLink cr3 U A k k₁ p i f g) :
    Radix.AgreeReachable pageChild (entries k.mem) (entries k₁.mem) (frameOf cr3) ∧
      Radix.Linkable pageChild pageLeaf (entries k₁.mem) (frameOf cr3) f g p i (linkEntry g) := by
  -- the cleared page was free, and no table lies in a free frame
  have hother : ∀ t j, k.IsTable cr3 t → entries k₁.mem t j = entries k.mem t j := by
    intro t j ht
    apply entries_eq_of_sameOutside hr.outside
    intro heq
    exact h.not_isTable hr.free (heq ▸ ht)
  have hagree : Radix.AgreeReachable pageChild (entries k.mem) (entries k₁.mem) (frameOf cr3) :=
    hother
  have hsame := hother f i ⟨p, hr.walk⟩
  have hlt : g < 2 ^ 40 := Nat.lt_trans (h.repr.usable_lt hr.free.1) (by decide)
  refine ⟨hagree, hagree.unshared h.unshared, ?_, ?_, ?_, ?_, ?_, pageChild_linkEntry hlt hr.len⟩
  · rw [hagree.walk_eq]
    exact hr.walk
  · rw [hsame]
    exact if_pos (Or.inl hr.absent)
  · rw [hsame]
    exact if_pos hr.absent
  · rw [hagree.reachable_iff]
    exact h.not_isTable hr.free
  · intro d j
    rw [hr.zero j]
    exact ⟨pageChild_zero d, pageLeaf_zero d⟩

/-- Linking a table is a store to one entry of the tree. -/
theorem entries_link (h : AddressSpace offset cr3 U A held fl k)
    (hr : ReadyToLink cr3 U A k k₁ p i f g) :
    entries (k₁.putEntry f i (linkEntry g)).mem
      = Radix.set (entries k₁.mem) f i (linkEntry g) := by
  have hlt : g < buddyMaxPages := h.repr.usable_lt hr.free.1
  apply entries_putEntry
  rw [linkEntry_eq]
  simp only [buddyMaxPages, buddyMaxPhys, buddyPageSize] at hlt ⊢
  omega

/-- A table of the grown tree is the new page or an old table. -/
theorem isTable_link (h : AddressSpace offset cr3 U A held fl k)
    (hr : ReadyToLink cr3 U A k k₁ p i f g) {t : Nat}
    (ht : (k₁.putEntry f i (linkEntry g)).IsTable cr3 t) : t = g ∨ k.IsTable cr3 t := by
  obtain ⟨hagree, hlink⟩ := h.linkable hr
  obtain ⟨q, hq⟩ := ht
  rw [h.entries_link hr] at hq
  cases hlink.walk_cases hq with
  | inl hnew => exact Or.inl hnew.2
  | inr hold =>
    rw [hagree.walk_eq] at hold
    exact Or.inr ⟨q, hold⟩

/-- The new table is reached through the entry that was linked. -/
theorem table_link (h : AddressSpace offset cr3 U A held fl k)
    (hr : ReadyToLink cr3 U A k k₁ p i f g) :
    (k₁.putEntry f i (linkEntry g)).table cr3 (p ++ [i]) = some g := by
  unfold Kernel.table
  rw [h.entries_link hr]
  exact (h.linkable hr).2.walk_new

/-- Linking a cleared page keeps the invariant: the new table has no entries, so nothing else is
reached through it. -/
theorem link (h : AddressSpace offset cr3 U A held fl k)
    (hr : ReadyToLink cr3 U A k k₁ p i f g) {fl₁ : FreeLists}
    (hrepr : Represents U (A ∪ {g}) ∅ k₁.buddy fl₁) :
    AddressSpace offset cr3 U (A ∪ {g}) held fl₁ (k₁.putEntry f i (linkEntry g)) := by
  refine ⟨h.direct, hrepr, h.held_sub.trans Set.subset_union_left, ?_, fun t ht hU => ?_,
    fun t ht => ?_⟩
  · rw [h.entries_link hr]
    exact (h.linkable hr).2.unshared_link
  · cases h.isTable_link hr ht with
    | inl hnew =>
      rw [hnew]
      exact ⟨Or.inr rfl, fun hheld => hr.free.2 (h.held_sub hheld)⟩
    | inr hold => exact ⟨Or.inl (h.tables t hold hU).1, (h.tables t hold hU).2⟩
  · cases h.isTable_link hr ht with
    | inl hnew =>
      rw [hnew]
      exact h.direct.managed g (h.repr.usable_lt hr.free.1)
    | inr hold => exact h.mapped t hold

/-- Linking a cleared page keeps every translation, and the only new table is the linked page. -/
theorem link_grows (h : AddressSpace offset cr3 U A held fl k)
    (hr : ReadyToLink cr3 U A k k₁ p i f g) :
    Grows cr3 U A (A ∪ {g}) k (k₁.putEntry f i (linkEntry g)) := by
  obtain ⟨hagree, hlink⟩ := h.linkable hr
  have hentries := h.entries_link hr
  have hkeep : ∀ q t, k.table cr3 q = some t →
      (k₁.putEntry f i (linkEntry g)).table cr3 q = some t := by
    intro q t hq
    unfold Kernel.table
    rw [hentries]
    apply hlink.walk_keep
    rw [hagree.walk_eq]
    exact hq
  refine ⟨fun n => ?_, hkeep, Set.subset_union_left, fun t ht => ?_, fun x hx => ?_⟩
  · unfold Kernel.leaf
    rw [hentries, hlink.find_eq, hagree.find_eq]
  · cases h.isTable_link hr ht with
    | inl hnew => exact Or.inr (hnew ▸ hr.free)
    | inr hold => exact Or.inl hold
  · -- a changed byte lies in the linking entry or in the cleared page
    by_cases hx₁ : k₁.mem x = k.mem x
    · rw [frame_of_putEntry_ne (by rw [hx₁]; exact hx)]
      exact ⟨⟨p, hkeep p f hr.walk⟩, Or.inl ⟨p, hr.walk⟩⟩
    · rw [frame_of_sameOutside_ne hr.outside hx₁]
      exact ⟨⟨p ++ [i], h.table_link hr⟩, Or.inr hr.free⟩

end Link

/-- A cleared page has been linked below a table of `k`. -/
def LinkStep (offset cr3 : Nat) (U held : Set Nat) (k k' : Kernel) : Prop :=
  ∃ A fl k₁ p i f g, AddressSpace offset cr3 U A held fl k ∧ ReadyToLink cr3 U A k k₁ p i f g ∧
    k' = k₁.putEntry f i (linkEntry g)

/-- At most `n` frames have been allocated. -/
def TakesAtMost (n : Nat) (A A' : Set Nat) : Prop := ∃ F : Finset Nat, F.card ≤ n ∧ A' ⊆ A ∪ F

theorem TakesAtMost.none (A : Set Nat) (n : Nat) : TakesAtMost n A A :=
  ⟨∅, Nat.zero_le n, Set.subset_union_left⟩

theorem TakesAtMost.trans {m n : Nat} {A A' A'' : Set Nat} (h : TakesAtMost m A A')
    (h' : TakesAtMost n A' A'') : TakesAtMost (m + n) A A'' := by
  obtain ⟨F, hF, hsub⟩ := h
  obtain ⟨F', hF', hsub'⟩ := h'
  refine ⟨F ∪ F', (Finset.card_union_le F F').trans (Nat.add_le_add hF hF'), ?_⟩
  rw [Finset.coe_union, ← Set.union_assoc]
  exact hsub'.trans (Set.union_subset_union_left _ hsub)

/-- **One step down, making tables.** `vmm_get_next_level` reaches the table below the entry,
taking at most one frame, or finds no frame for it and returns `NULL`. -/
theorem getNextLevel (h : AddressSpace offset cr3 U A held fl k) {n : Vpn}
    (hn : k.NotHuge cr3 n) {p : List (Fin 512)} {i : Fin 512} {f : Nat}
    (hwalk : k.table cr3 p = some f) (hlen : p.length ≤ 2) (hpre : p ++ [i] <+: n.path) :
    ∃ r k' A' fl', vmmGetNextLevel (some offset) k (tablePtr offset f) i = .ok (r, k') ∧
      AddressSpace offset cr3 U A' held fl' k' ∧ Grows cr3 U A A' k k' ∧
      Relation.ReflTransGen (LinkStep offset cr3 U held) k k' ∧ TakesAtMost 1 A A' ∧
      (r = 0 ∧ U ⊆ A' ∨ ∃ f', r = tablePtr offset f' ∧ k'.table cr3 (p ++ [i]) = some f') := by
  have hflt := (isTable_of_table hwalk).lt
  have hget := k.getEntry_tablePtr h.direct.offset_lt hflt i
  -- the entry leads on already, or a new page is linked there if a frame is free
  by_cases habsent : entries k.mem f i &&& pagePresent = 0
  · cases makePage_cases h.direct h.repr with
    | inl hfail =>
      refine ⟨0, k, A, fl, ?_, h, Grows.refl cr3 U A k, .refl, .none A 1,
        Or.inl ⟨rfl, hfail.2⟩⟩
      rw [vmmGetNextLevel, hget, ok_bind, if_pos habsent, hfail.1, ok_bind]
      rfl
    | inr hsome =>
      obtain ⟨g, k₁, fl₁, hmake, hg, hrepr, hout, hzero⟩ := hsome
      have hr : ReadyToLink cr3 U A k k₁ p i f g := ⟨hlen, hwalk, habsent, hg, hout, hzero⟩
      refine ⟨tablePtr offset g, _, A ∪ {g}, fl₁, ?_, h.link hr hrepr, h.link_grows hr,
        .single ⟨A, fl, k₁, p, i, f, g, h, hr, rfl⟩, ⟨{g}, Nat.le_refl 1, by simp⟩,
        Or.inr ⟨g, rfl, h.table_link hr⟩⟩
      have hne := addr_ne_invalid (h.repr.usable_lt hg.1)
      rw [vmmGetNextLevel, hget, ok_bind, if_pos habsent, hmake, ok_bind]
      show (if g * buddyPageSize = buddyInvalidAddress then _ else _) = _
      rw [if_neg hne, k₁.setEntry_tablePtr h.direct.offset_lt hflt, ok_bind]
      rfl
  · have htable := (Radix.walk_concat hwalk i).trans (hn.child hpre hlen hwalk habsent)
    have hne := h.mapped _ (isTable_of_table htable)
    exact ⟨_, k, A, fl, vmmGetNextLevel_of_leads h.direct.offset_lt hflt ⟨habsent, rfl, hne⟩, h,
      Grows.refl cr3 U A k, .refl, .none A 1, Or.inr ⟨_, rfl, htable⟩⟩

/-! ## Page-table entries

A store to an entry of the last level changes the translation of one page. -/

/-- The page table of a page and its entry decide the translation. -/
theorem leaf_eq {n : Vpn} {f : Nat} (hwalk : k.table cr3 n.tablePath = some f) :
    k.leaf cr3 n = pageLeaf 3 (entries k.mem f n.index) :=
  Radix.find_of_stop hwalk (pageChild_three _)

/-- A page that no huge page translates has no translation without a page table. -/
theorem leaf_eq_none {n : Vpn} (hn : k.NotHuge cr3 n) (hwalk : k.table cr3 n.tablePath = none) :
    k.leaf cr3 n = none := by
  cases hleaf : k.leaf cr3 n with
  | none => rfl
  | some r =>
    -- the translating entry lies at depth 3, so there is a page table after all
    obtain ⟨p, i, f, hpre, hp, -, hr⟩ := Radix.exists_of_find hleaf
    rw [Nat.zero_add] at hr
    rw [(pageLeaf_eq_some hr).2] at hleaf
    have hdepth : p.length = 3 := hn p.length _ hleaf
    have heq : p ++ [i] = n.path := hpre.eq_of_length (by
      rw [List.length_append, hdepth]
      rfl)
    have htable : p = n.tablePath := (List.append_inj heq hdepth).1
    rw [← htable] at hwalk
    exact absurd (hp.symm.trans hwalk) (by simp)

/-- A store into the entry of a page changes the translation of that page only. -/
theorem putLeaf (h : AddressSpace offset cr3 U A held fl k) {n : Vpn} {f value : Nat}
    (hwalk : k.table cr3 n.tablePath = some f) (hvalue : value < 2 ^ 64) :
    let k' := k.putEntry f n.index value
    AddressSpace offset cr3 U A held fl k' ∧ (∀ t, k'.IsTable cr3 t ↔ k.IsTable cr3 t) ∧
      ∀ m, k'.leaf cr3 m = if m = n then pageLeaf 3 value else k.leaf cr3 m := by
  intro k'
  have hentries : entries k'.mem = Radix.set (entries k.mem) f n.index value :=
    entries_putEntry k f n.index hvalue
  -- entries of the last level lead to no table, before the write and after it
  have hold : pageChild n.tablePath.length (entries k.mem f n.index) = none := pageChild_three _
  have hnew : pageChild n.tablePath.length value = none := pageChild_three _
  have htables : ∀ t, k'.IsTable cr3 t ↔ k.IsTable cr3 t := by
    intro t
    show (∃ p, Radix.walk pageChild (entries k'.mem) 0 (frameOf cr3) p = some t) ↔ _
    simp only [hentries, Radix.walk_set_of_stop h.unshared hwalk hold hnew]
    rfl
  refine ⟨⟨h.direct, h.repr, h.held_sub, ?_, fun t ht => h.tables t ((htables t).mp ht),
    fun t ht => h.mapped t ((htables t).mp ht)⟩, htables, fun m => ?_⟩
  · rw [hentries]
    exact Radix.unshared_set_of_stop h.unshared hwalk hold hnew
  · show Radix.find pageChild pageLeaf (entries k'.mem) 0 (frameOf cr3) m.path = _
    rw [hentries]
    split
    · next heq =>
      rw [heq]
      exact Radix.find_set_self h.unshared hwalk hnew []
    · next hne =>
      exact (Radix.agreeOn_set h.unshared hwalk value (Vpn.not_prefix_path hne)).find_eq

/-! ## The functions of the interface

`vmm_map`, `vmm_unmap` and `vmm_get_phys` on an address space: each ends, and says what it has
changed. -/

theorem root_table (k : Kernel) : k.table cr3 [] = some (frameOf cr3) := rfl

theorem root_mapped (h : AddressSpace offset cr3 U A held fl k) :
    tablePtr offset (frameOf cr3) ≠ 0 := h.mapped _ ⟨[], rfl⟩

/-- One step down through an existing entry, and what follows it. -/
theorem getExistingLevel {α : Type} (h : AddressSpace offset cr3 U A held fl k) {n : Vpn}
    (hn : k.NotHuge cr3 n) {p : List (Fin 512)} {i : Fin 512} {f : Nat}
    (hwalk : k.table cr3 p = some f) (hlen : p.length ≤ 2) (hpre : p ++ [i] <+: n.path)
    (stop : Except Fault α) (next : Nat → Except Fault α) :
    (do
      let below ← vmmGetExistingLevel (some offset) k (tablePtr offset f) i
      if below = 0 then stop else next below)
      = match k.table cr3 (p ++ [i]) with
        | none => stop
        | some f' => next (tablePtr offset f') := by
  have htable : k.table cr3 (p ++ [i]) = pageChild p.length (entries k.mem f i) :=
    Radix.walk_concat hwalk i
  have hflt := (isTable_of_table hwalk).lt
  by_cases habsent : entries k.mem f i &&& pagePresent = 0
  · rw [htable, pageChild, if_pos (Or.inl habsent),
      vmmGetExistingLevel_of_absent h.direct.offset_lt hflt habsent, ok_bind, if_pos rfl]
  · have hchild := hn.child hpre hlen hwalk habsent
    have hne := h.mapped _ (isTable_of_table (htable.trans hchild))
    rw [htable, hchild,
      vmmGetExistingLevel_of_leads h.direct.offset_lt hflt ⟨habsent, rfl, hne⟩, ok_bind]
    exact if_neg hne

/-- A table that is missing at one level is missing at the levels below it. -/
theorem table_append_none {p : List (Fin 512)} (h : k.table cr3 p = none) (q : List (Fin 512)) :
    k.table cr3 (p ++ q) = none := by
  rw [Kernel.table, Radix.walk_append]
  exact congrArg (Option.bind · _) h

/-- The first half of `vmm_unmap` and `vmm_get_phys`: the walk to the page table. -/
theorem existingWalk {α : Type} (h : AddressSpace offset cr3 U A held fl k) {v : Nat}
    (hn : k.NotHuge cr3 (vpn v)) (stop : Except Fault α) (next : Nat → Except Fault α) :
    (if phyToVirt (some offset) (cr3 &&& pageAddrMask) = 0 then stop
      else do
        let pdpt ← vmmGetExistingLevel (some offset) k
          (phyToVirt (some offset) (cr3 &&& pageAddrMask)) (pml4Index v)
        if pdpt = 0 then stop
        else do
          let pd ← vmmGetExistingLevel (some offset) k pdpt (pdptIndex v)
          if pd = 0 then stop
          else do
            let pt ← vmmGetExistingLevel (some offset) k pd (pdIndex v)
            if pt = 0 then stop else next pt)
      = match k.table cr3 (vpn v).tablePath with
        | none => stop
        | some f => next (tablePtr offset f) := by
  rw [phyToVirt_and_mask, if_neg h.root_mapped, pml4Index_eq, pdptIndex_eq, pdIndex_eq,
    h.getExistingLevel hn (root_table k) (Nat.zero_le 2) ⟨_, rfl⟩]
  split
  · next h₁ => rw [show k.table cr3 (vpn v).tablePath = none from table_append_none h₁ [_, _]]
  · next f₁ h₁ =>
    rw [h.getExistingLevel hn h₁ (Nat.le_succ 1) ⟨_, rfl⟩]
    split
    · next h₂ => rw [show k.table cr3 (vpn v).tablePath = none from table_append_none h₂ [_]]
    · next f₂ h₂ => exact h.getExistingLevel hn h₂ (Nat.le_refl 2) ⟨_, rfl⟩ stop next

/-- What `vmm_get_phys` returns: the address in the entry with the low bits of the virtual address,
or `BUDDY_INVALID_ADDRESS` when some level has no entry. -/
theorem getPhys (h : AddressSpace offset cr3 U A held fl k) {v : Nat}
    (hn : k.NotHuge cr3 (vpn v)) :
    vmmGetPhys (some offset) cr3 k v = .ok (match k.leaf cr3 (vpn v) with
      | none => buddyInvalidAddress
      | some (_, e) => frameOf e * buddyPageSize + v % buddyPageSize) := by
  unfold vmmGetPhys
  rw [h.existingWalk hn]
  cases hwalk : k.table cr3 (vpn v).tablePath with
  | none => rw [leaf_eq_none hn hwalk]
  | some f =>
    rw [leaf_eq hwalk]
    show k.getEntry (some offset) (tablePtr offset f) (ptIndex v) >>= _ = _
    rw [ptIndex_eq, k.getEntry_tablePtr h.direct.offset_lt (isTable_of_table hwalk).lt, ok_bind,
      pageLeaf]
    split
    · rfl
    · have hoffset : v &&& 0xFFF = v % buddyPageSize := Nat.and_two_pow_sub_one_eq_mod v 12
      have hlow : v % buddyPageSize < 2 ^ 12 := Nat.mod_lt _ (by decide)
      have hor : buddyPageSize * frameOf (entries k.mem f (vpn v).index) ||| v % buddyPageSize
          = buddyPageSize * frameOf (entries k.mem f (vpn v).index) + v % buddyPageSize :=
        (Nat.two_pow_add_eq_or_of_lt hlow _).symm
      show Except.ok (entries k.mem f (vpn v).index &&& pageAddrMask ||| v &&& 0xFFF) = _
      rw [hoffset, ← frameOf_mul, Nat.mul_comm, hor, Nat.mul_comm]

/-- The way of `vmm_map` to the page table, with at most three new tables: it runs out of frames,
or stores the entry there. -/
theorem mapWalk (h : AddressSpace offset cr3 U A held fl k) {v : Nat}
    (hn : k.NotHuge cr3 (vpn v)) (phys flags : Nat) :
    ∃ k' A' fl', AddressSpace offset cr3 U A' held fl' k' ∧ Grows cr3 U A A' k k' ∧
      Relation.ReflTransGen (LinkStep offset cr3 U held) k k' ∧ TakesAtMost 3 A A' ∧
      (vmmMap (some offset) cr3 k v phys flags = .ok (false, k') ∧ U ⊆ A' ∨
      ∃ f, k'.table cr3 (vpn v).tablePath = some f ∧
        vmmMap (some offset) cr3 k v phys flags
          = .ok (true, k'.putEntry f (vpn v).index (phys &&& pageAddrMask ||| flags))) := by
  -- one call of `vmm_get_next_level` for each level; the walk stops at the first failed one
  obtain ⟨r₁, k₁, A₁, fl₁, hrun₁, hs₁, hg₁, hl₁, hc₁, hr₁⟩ :=
    h.getNextLevel hn (root_table k) (Nat.zero_le 2) ⟨_, rfl⟩
  cases hr₁ with
  | inl hnull =>
    refine ⟨k₁, A₁, fl₁, hs₁, hg₁, hl₁, hc₁.trans (.none A₁ 2), Or.inl ⟨?_, hnull.2⟩⟩
    simp only [vmmMap, phyToVirt_and_mask, if_neg h.root_mapped, pml4Index_eq, hrun₁, ok_bind,
      hnull.1, if_true]
  | inr hsome =>
    obtain ⟨f₁, rfl, ht₁⟩ := hsome
    have hne₁ := hs₁.mapped f₁ (isTable_of_table ht₁)
    obtain ⟨r₂, k₂, A₂, fl₂, hrun₂, hs₂, hg₂, hl₂, hc₂, hr₂⟩ :=
      hs₁.getNextLevel (hg₁.notHuge hn) ht₁ (Nat.le_succ 1) ⟨_, rfl⟩
    have hg₁₂ := hg₁.trans hg₂
    have hl₁₂ := hl₁.trans hl₂
    have hc₁₂ := hc₁.trans hc₂
    cases hr₂ with
    | inl hnull =>
      refine ⟨k₂, A₂, fl₂, hs₂, hg₁₂, hl₁₂, hc₁₂.trans (.none A₂ 1), Or.inl ⟨?_, hnull.2⟩⟩
      simp only [vmmMap, phyToVirt_and_mask, if_neg h.root_mapped, pml4Index_eq, hrun₁, ok_bind,
        if_neg hne₁, pdptIndex_eq, hrun₂, hnull.1, if_true]
    | inr hsome =>
      obtain ⟨f₂, rfl, ht₂⟩ := hsome
      have hne₂ := hs₂.mapped f₂ (isTable_of_table ht₂)
      obtain ⟨r₃, k₃, A₃, fl₃, hrun₃, hs₃, hg₃, hl₃, hc₃, hr₃⟩ :=
        hs₂.getNextLevel (hg₁₂.notHuge hn) ht₂ (Nat.le_refl 2) ⟨_, rfl⟩
      refine ⟨k₃, A₃, fl₃, hs₃, hg₁₂.trans hg₃, hl₁₂.trans hl₃, hc₁₂.trans hc₃, ?_⟩
      cases hr₃ with
      | inl hnull =>
        refine Or.inl ⟨?_, hnull.2⟩
        simp only [vmmMap, phyToVirt_and_mask, if_neg h.root_mapped, pml4Index_eq, hrun₁, ok_bind,
          if_neg hne₁, pdptIndex_eq, hrun₂, if_neg hne₂, pdIndex_eq, hrun₃, hnull.1,
          if_true]
      | inr hsome =>
        obtain ⟨f₃, rfl, ht₃⟩ := hsome
        have hne₃ := hs₃.mapped f₃ (isTable_of_table ht₃)
        refine Or.inr ⟨f₃, ht₃, ?_⟩
        simp only [vmmMap, phyToVirt_and_mask, if_neg h.root_mapped, pml4Index_eq, hrun₁, ok_bind,
          if_neg hne₁, pdptIndex_eq, hrun₂, if_neg hne₂, pdIndex_eq, hrun₃, if_neg hne₃,
          ptIndex_eq, k₃.setEntry_tablePtr h.direct.offset_lt (isTable_of_table ht₃).lt]

/-- **What `vmm_map` does.** It ends, it keeps the invariant, and it changes the translation of
its page alone, when it reports success. It fails only when no frame is free any more. -/
theorem map (h : AddressSpace offset cr3 U A held fl k) {v : Nat} (hn : k.NotHuge cr3 (vpn v))
    (phys : Nat) {flags : Nat} (hflags : flags < 2 ^ 64) :
    ∃ ok k' A' fl', vmmMap (some offset) cr3 k v phys flags = .ok (ok, k') ∧
      AddressSpace offset cr3 U A' held fl' k' ∧ A ⊆ A' ∧ Confined cr3 U A k k' ∧
      (ok = false → U ⊆ A') ∧
      ∀ m, k'.leaf cr3 m = if ok = true ∧ m = vpn v
        then pageLeaf 3 (phys &&& pageAddrMask ||| flags) else k.leaf cr3 m := by
  obtain ⟨k₁, A₁, fl₁, hspace, hgrows, -, -, hrun⟩ := h.mapWalk hn phys flags
  cases hrun with
  | inl hfail =>
    refine ⟨false, k₁, A₁, fl₁, hfail.1, hspace, hgrows.alloc_sub, hgrows.confined,
      fun _ => hfail.2, fun m => ?_⟩
    rw [hgrows.leaf_eq m, if_neg (by simp)]
  | inr hsome =>
    obtain ⟨f, hwalk, hrun⟩ := hsome
    have hput := hspace.putLeaf hwalk (entry_lt (p := phys) hflags)
    refine ⟨true, _, A₁, fl₁, hrun, hput.1, hgrows.alloc_sub, fun x hx => ?_,
      fun hfalse => absurd hfalse (by decide), fun m => ?_⟩
    · rw [hput.2.1]
      by_cases hx₁ : k₁.mem x = k.mem x
      · rw [frame_of_putEntry_ne (by rw [hx₁]; exact hx)]
        exact ⟨isTable_of_table hwalk, hgrows.tables f (isTable_of_table hwalk)⟩
      · exact hgrows.confined x hx₁
    · rw [hput.2.2 m, hgrows.leaf_eq m]
      simp only [true_and]

/-- `vmm_unmap` of a page without a translation: it gives up where the first entry is missing, and
nothing changes. -/
theorem unmap_absent (h : AddressSpace offset cr3 U A held fl k) {v : Nat}
    (hn : k.NotHuge cr3 (vpn v)) (hleaf : k.leaf cr3 (vpn v) = none) :
    vmmUnmap (some offset) cr3 k v = .ok (false, k) := by
  unfold vmmUnmap
  rw [h.existingWalk hn]
  cases hwalk : k.table cr3 (vpn v).tablePath with
  | none => rfl
  | some f =>
    rw [leaf_eq hwalk, pageLeaf] at hleaf
    show k.getEntry (some offset) (tablePtr offset f) (ptIndex v) >>= _ = _
    rw [ptIndex_eq, k.getEntry_tablePtr h.direct.offset_lt (isTable_of_table hwalk).lt, ok_bind]
    split at hleaf
    · next habsent => exact if_pos habsent
    · exact absurd hleaf (by simp)

/-- `vmm_unmap` of a page with a translation clears the entry and frees its frame. -/
theorem unmap_eq (h : AddressSpace offset cr3 U A held fl k) {v d e : Nat}
    (hn : k.NotHuge cr3 (vpn v)) (hleaf : k.leaf cr3 (vpn v) = some (d, e)) {s : Buddy}
    (hfree : buddyFreePage k.buddy (frameOf e * buddyPageSize) = .ok s) :
    ∃ f, k.table cr3 (vpn v).tablePath = some f ∧
      vmmUnmap (some offset) cr3 k v
        = .ok (true, { k.putEntry f (vpn v).index 0 with buddy := s }) := by
  cases hwalk : k.table cr3 (vpn v).tablePath with
  | none => exact absurd (hleaf.symm.trans (leaf_eq_none hn hwalk)) (by simp)
  | some f =>
    have htable := isTable_of_table hwalk
    obtain ⟨hpresent, hentry⟩ := pageLeaf_eq_some ((leaf_eq hwalk).symm.trans hleaf)
    rw [(Prod.mk.inj hentry).2, frameOf_mul] at hfree
    refine ⟨f, rfl, ?_⟩
    unfold vmmUnmap
    rw [h.existingWalk hn, hwalk]
    show k.getEntry (some offset) (tablePtr offset f) (ptIndex v) >>= _ = _
    rw [ptIndex_eq, k.getEntry_tablePtr h.direct.offset_lt htable.lt, ok_bind,
      if_neg hpresent, k.setEntry_tablePtr h.direct.offset_lt htable.lt, ok_bind]
    show buddyFreePage k.buddy _ >>= _ = _
    rw [hfree, ok_bind]

/-- **What `vmm_unmap` does to a page with a translation.** It clears the entry and gives its
frame number, cut to 32 bits, to the page allocator. -/
theorem unmap_present (h : AddressSpace offset cr3 U A held fl k) {v d e : Nat}
    (hn : k.NotHuge cr3 (vpn v)) (hleaf : k.leaf cr3 (vpn v) = some (d, e)) :
    ∃ k' A' fl', vmmUnmap (some offset) cr3 k v = .ok (true, k') ∧
      buddyFreePage k.buddy (frameOf e * buddyPageSize) = .ok k'.buddy ∧
      Represents U A' ∅ k'.buddy fl' ∧ A' ⊆ A ∧ A \ {frameOf e % 2 ^ 32} ⊆ A' ∧
      Radix.Unshared pageChild (entries k'.mem) (frameOf cr3) ∧
      (∀ t, k'.IsTable cr3 t ↔ k.IsTable cr3 t) ∧ Confined cr3 U A k k' ∧
      ∀ m, k'.leaf cr3 m = if m = vpn v then none else k.leaf cr3 m := by
  obtain ⟨s', A', fl', hfree, hrepr, hsub, hkeep⟩ := h.repr.freePage (frameOf e * buddyPageSize)
  rw [Nat.mul_div_cancel (frameOf e) (by decide)] at hkeep
  obtain ⟨f, hwalk, hrun⟩ := h.unmap_eq hn hleaf hfree
  have hput := h.putLeaf hwalk (show 0 < 2 ^ 64 by decide)
  refine ⟨_, A', fl', hrun, hfree, hrepr, hsub, hkeep, hput.1.unshared, hput.2.1, fun x hx => ?_,
    hput.2.2⟩
  have htable := isTable_of_table hwalk
  rw [frame_of_putEntry_ne hx]
  exact ⟨(hput.2.1 f).mpr htable, Or.inl htable⟩

end AddressSpace

end Yoix
