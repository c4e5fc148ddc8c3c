import Yoix.Buddy.Ownership
import Yoix.Vmm.AddressSpace

/-!
# The page-table code and the processor's translation

`vmm.c` walks the tables as the processor does, except that it does not look at bit 7: it takes
the entry of a huge page for one that leads to a table. For an address that no huge page
translates, `vmm_get_phys` returns what the processor's walk returns, and `vmm_map` and
`vmm_unmap` write to tables only and change no other page's translation, whatever huge pages
there are elsewhere. Under a huge page the code reads ordinary memory as a table
(`hugeSpace`).
-/

namespace Yoix

open Dyadic Memory

/-! ## Well-formed address spaces

A tree of tables beside the page allocator, with huge pages allowed. What the code does there is
right for pages that lie in no huge page. -/

/-- An address space beside a page allocator in the middle of a run: no table is reached along
two paths or lies in a free frame, and the direct map covers the tables. -/
structure WellFormedSpace (response : Option MemmapResponse) (offset cr3 : Nat) (k : Kernel)
    (live : List Block) : Prop where
  memmap : MemmapOk response
  run : BuddyRun response k.buddy live
  direct : DirectMap offset
  unshared : Radix.Unshared pageChild (entries k.mem) (frameOf cr3)
  not_free : ∀ f, k.IsTable cr3 f → ¬ k.buddy.FreeFrame f
  mapped : ∀ f, k.IsTable cr3 f → tablePtr offset f ≠ 0

/-- Such a space is one for the page-table code, with nothing held by a client. -/
theorem WellFormedSpace.addressSpace {response : Option MemmapResponse} {offset cr3 : Nat}
    {k : Kernel} {live : List Block} (h : WellFormedSpace response offset cr3 k live) :
    ∃ fl, AddressSpace offset cr3 (usableFrames response) (framesOf live) ∅ fl k := by
  obtain ⟨fl, hinv, -⟩ := h.run.inv h.memmap
  refine ⟨fl, h.direct, hinv.repr, Set.empty_subset _, h.unshared, fun f hf hU => ?_, h.mapped⟩
  refine ⟨?_, Set.notMem_empty f⟩
  by_contra hA
  exact h.not_free f hf ((hinv.repr.freeFrame_iff f).mpr ⟨hU, hA⟩)

/-- Every byte that differs lies in a table, which was one before or lies in a frame that was
free. -/
def WritesTables (cr3 : Nat) (k k' : Kernel) : Prop :=
  ∀ x, k'.mem x ≠ k.mem x → k'.IsTable cr3 (x / buddyPageSize) ∧
    (k.IsTable cr3 (x / buddyPageSize) ∨ k.buddy.FreeFrame (x / buddyPageSize))

/-- The processor translates every other page as before. -/
def KeepsOthers (cr3 v : Nat) (k k' : Kernel) : Prop :=
  ∀ w, vpn w ≠ vpn v → hwTranslate cr3 k' w = hwTranslate cr3 k w

/-- The page-table functions agree with the processor at `v`. -/
structure RespectsTranslation (offset cr3 v : Nat) (k : Kernel) : Prop where
  getPhys : vmmGetPhys (some offset) cr3 k v
    = .ok ((hwTranslate cr3 k v).getD buddyInvalidAddress)
  map : ∀ phys flags, flags < 2 ^ 64 → ∃ ok k',
    vmmMap (some offset) cr3 k v phys flags = .ok (ok, k') ∧ WritesTables cr3 k k' ∧
      KeepsOthers cr3 v k k'
  unmap : ∃ ok k', vmmUnmap (some offset) cr3 k v = .ok (ok, k') ∧ WritesTables cr3 k k' ∧
    KeepsOthers cr3 v k k'

section

variable {offset cr3 v : Nat} {U A : Set Nat} {fl : FreeLists} {k k' : Kernel}

/-- A step that is confined to tables and free frames writes only to tables. -/
theorem Confined.writesTables (hrepr : Represents U A ∅ k.buddy fl)
    (h : Confined cr3 U A k k') : WritesTables cr3 k k' := by
  intro x hx
  obtain ⟨htable, hwas⟩ := h x hx
  exact ⟨htable, hwas.imp_right (hrepr.freeFrame_iff _).mpr⟩

theorem keepsOthers_of_leaf (h : ∀ m, m ≠ vpn v → k'.leaf cr3 m = k.leaf cr3 m) :
    KeepsOthers cr3 v k k' := by
  intro w hw
  rw [hwTranslate, hwTranslate, h _ hw]

/-- Outside huge pages the result of `vmm_get_phys` is the processor's. -/
theorem getPhys_eq_hwTranslate {held : Set Nat} (h : AddressSpace offset cr3 U A held fl k)
    (hn : k.NotHuge cr3 (vpn v)) :
    vmmGetPhys (some offset) cr3 k v
      = .ok ((hwTranslate cr3 k v).getD buddyInvalidAddress) := by
  rw [h.getPhys hn, hwTranslate]
  cases hleaf : k.leaf cr3 (vpn v) with
  | none => rfl
  | some r =>
    obtain ⟨d, e⟩ := r
    obtain rfl := hn d e hleaf
    show Except.ok (frameOf e * buddyPageSize + v % buddyPageSize)
      = .ok ((e &&& pageAddrMask) + v % 2 ^ 12)
    rw [frameOf_mul]
    rfl

end

/-- **Translation outside huge pages.** At every address that is not translated by a huge page,
`vmm_get_phys` returns the processor's translation, and `vmm_map` and `vmm_unmap` end, write to
tables only and leave the translation of every other page as it is. -/
theorem respects_translation {response : Option MemmapResponse} {offset cr3 : Nat} {k : Kernel}
    {live : List Block} (h : WellFormedSpace response offset cr3 k live) {v : Nat}
    (hn : k.NotHuge cr3 (vpn v)) : RespectsTranslation offset cr3 v k := by
  obtain ⟨fl, hspace⟩ := h.addressSpace
  refine ⟨getPhys_eq_hwTranslate hspace hn, fun phys flags hflags => ?_, ?_⟩
  · obtain ⟨ok, k', A', fl', hrun, -, -, hconf, -, hleaf⟩ := hspace.map hn phys hflags
    refine ⟨ok, k', hrun, hconf.writesTables hspace.repr, keepsOthers_of_leaf fun m hm => ?_⟩
    rw [hleaf m, if_neg fun hand => hm hand.2]
  · cases hleaf : k.leaf cr3 (vpn v) with
    | none =>
      exact ⟨false, k, hspace.unmap_absent hn hleaf, fun x hx => absurd rfl hx, fun w _ => rfl⟩
    | some r =>
      obtain ⟨k', A', fl', hrun, -, -, -, -, -, -, hconf, hleaf'⟩ :=
        hspace.unmap_present hn hleaf
      refine ⟨true, k', hrun, hconf.writesTables hspace.repr, keepsOthers_of_leaf fun m hm => ?_⟩
      rw [hleaf' m, if_neg hm]

/-! ## Sample address spaces -/

/-- Memory without a byte set, beside a page allocator. -/
def blankKernel (s : Buddy) : Kernel := ⟨s, fun _ => 0, fun _ => ⟨0, 0⟩⟩

/-- The tables of the samples start in frame 16. -/
def sampleCr3 : Nat := 0x10000

/-- Where the bootloader puts the direct map of the samples. -/
def sampleDirectMap : Nat := 0xFFFF800000000000

theorem entries_blankKernel (s : Buddy) : entries (blankKernel s).mem = fun _ _ => 0 := by
  funext f i
  exact readLE_of_zero fun _ _ => rfl

theorem sampleDirectMap_ne_zero {f : Nat} (hf : f < 2 ^ 30) : tablePtr sampleDirectMap f ≠ 0 := by
  simp only [tablePtr, phyToVirt, sampleDirectMap, buddyPageSize]
  omega

theorem sampleDirectMap_ok : DirectMap sampleDirectMap where
  offset_lt := by decide
  managed _ hf := sampleDirectMap_ne_zero (Nat.lt_trans hf (by decide))

/-- Each table leads to at most one other, in the next frame, through the entry that `via` names for its
depth. -/
def Chained (via : Nat → Fin 512) (k : Kernel) (root : Nat) : Prop :=
  ∀ d i s, pageChild d (entries k.mem (root + d) i) = some s → i = via d ∧ s = root + d + 1

section

variable {via : Nat → Fin 512} {k : Kernel} {root cr3 : Nat}

/-- A walk through a chain follows the one link of each table, so its length says where it is. -/
theorem Chained.walk (h : Chained via k root) {p : List (Fin 512)} {d f : Nat} (hd : d ≤ 3)
    (hwalk : Radix.walk pageChild (entries k.mem) d (root + d) p = some f) :
    p = (List.range' d p.length).map via ∧ f = root + d + p.length ∧ d + p.length ≤ 3 := by
  induction p generalizing d with
  | nil => exact ⟨rfl, (Option.some.inj hwalk).symm, hd⟩
  | cons i p ih =>
    cases hc : pageChild d (entries k.mem (root + d) i) with
    | none =>
      rw [Radix.walk_cons_none hc] at hwalk
      exact absurd hwalk (by simp)
    | some s =>
      rw [Radix.walk_cons_some hc] at hwalk
      obtain ⟨rfl, rfl⟩ := h d i s hc
      obtain ⟨hp, hf, hlen⟩ := ih (Nat.succ_le_succ (pageChild_eq_some hc).1) hwalk
      rw [List.length_cons, List.range'_succ, List.map_cons, ← hp]
      exact ⟨rfl, by omega, by omega⟩

/-- No table of a chain hangs in two places. -/
theorem Chained.unshared (h : Chained via k (frameOf cr3)) :
    Radix.Unshared pageChild (entries k.mem) (frameOf cr3) := by
  intro p q f hp hq
  obtain ⟨hp', hfp, -⟩ := h.walk (d := 0) (Nat.zero_le 3) hp
  obtain ⟨hq', hfq, -⟩ := h.walk (d := 0) (Nat.zero_le 3) hq
  rw [hp', hq', show p.length = q.length by omega]

/-- The tables of a chain are four frames in a row. -/
theorem Chained.range (h : Chained via k (frameOf cr3)) {f : Nat} (hf : k.IsTable cr3 f) :
    frameOf cr3 ≤ f ∧ f ≤ frameOf cr3 + 3 := by
  obtain ⟨p, hp⟩ := hf
  obtain ⟨-, hfp, hlen⟩ := h.walk (d := 0) (Nat.zero_le 3) hp
  omega

end

/-- A chain of tables from frame 16 on is well formed beside the allocator of `sampleMap`. -/
theorem Chained.wellFormedSpace {via : Nat → Fin 512} {k : Kernel} {live : List Block}
    (h : Chained via k (frameOf sampleCr3)) (run : BuddyRun sampleMap k.buddy live) :
    WellFormedSpace sampleMap sampleDirectMap sampleCr3 k live := by
  have hroot : frameOf sampleCr3 = 16 := by decide
  refine ⟨sampleMap_ok, run, sampleDirectMap_ok, h.unshared, fun f hf hfree => ?_, fun f hf => ?_⟩
  · obtain ⟨fl, hinv, -⟩ := run.inv sampleMap_ok
    have hle := (mem_usableFrames_sampleMap.mp ((hinv.repr.freeFrame_iff f).mp hfree).1).2
    have hrange := h.range hf
    omega
  · have hrange := h.range hf
    exact sampleDirectMap_ne_zero (by omega)

/-- The first 1 GiB is a huge page onto the first 1 GiB of memory. The first word of memory
happens to look like a present entry that leads to frame 32. -/
def hugeSpace (s : Buddy) : Kernel :=
  (((blankKernel s).putEntry 16 0 0x11003).putEntry 17 0 0x83).putEntry 0 0 0x20003

theorem entries_hugeSpace (s : Buddy) : entries (hugeSpace s).mem =
    Radix.set (Radix.set (Radix.set (fun _ _ => 0) 16 0 0x11003) 17 0 0x83) 0 0 0x20003 := by
  rw [hugeSpace, entries_putEntry _ _ _ (by decide), entries_putEntry _ _ _ (by decide),
    entries_putEntry _ _ _ (by decide), entries_blankKernel]

/-- The space with a huge page is a chain of three tables: the entry of the third one is the huge
page. -/
theorem chained_hugeSpace (s : Buddy) :
    Chained (fun _ => 0) (hugeSpace s) (frameOf sampleCr3) := by
  intro d i f hc
  have hroot : frameOf sampleCr3 = 16 := by decide
  rw [entries_hugeSpace, hroot] at hc
  rw [hroot]
  by_cases hi : i = 0
  · subst hi
    match d, (pageChild_eq_some hc).1 with
    | 0, _ => exact ⟨rfl, (Option.some.inj hc).symm⟩
    | 1, _ => exact absurd (show none = some f from hc) (by simp)
    | 2, _ => exact absurd (show none = some f from hc) (by simp)
  · simp only [Radix.set, hi, and_false, if_false] at hc
    rw [pageChild_zero] at hc
    exact absurd hc (by simp)

/-- Next to the huge page the functions agree with the processor. -/
theorem respects_translation_hugeSpace :
    ∃ s, WellFormedSpace sampleMap sampleDirectMap sampleCr3 (hugeSpace s) [] ∧
      RespectsTranslation sampleDirectMap sampleCr3 0x8000000000 (hugeSpace s) := by
  obtain ⟨s, hinit, -⟩ := buddyInit_represents sampleMap_ok
  have hspace := (chained_hugeSpace s).wellFormedSpace (.init hinit)
  have hleaf : (hugeSpace s).leaf sampleCr3 (vpn 0x8000000000) = none := by
    rw [Kernel.leaf, entries_hugeSpace]
    decide
  have hn : (hugeSpace s).NotHuge sampleCr3 (vpn 0x8000000000) := by
    intro d e hsome
    rw [hleaf] at hsome
    exact absurd hsome (by simp)
  exact ⟨s, hspace, respects_translation hspace hn⟩

/-- The code descends through the huge page into frame 32. -/
theorem leadsTo_hugeSpace (s : Buddy) :
    LeadsTo sampleDirectMap sampleCr3 (hugeSpace s) 0 17 0 32 := by
  refine ⟨sampleDirectMap_ne_zero (by decide), ?_, ?_, ?_⟩
  all_goals
    refine ⟨?_, ?_, sampleDirectMap_ne_zero (by decide)⟩
    all_goals
      rw [entries_hugeSpace]
      decide

/-- Under a huge page `vmm_get_phys` misses the translation, and `vmm_map` writes into ordinary
memory. -/
theorem huge_page_taken_for_table :
    ∃ s, WellFormedSpace sampleMap sampleDirectMap sampleCr3 (hugeSpace s) [] ∧
      hwTranslate sampleCr3 (hugeSpace s) 0 = some 0 ∧
      vmmGetPhys (some sampleDirectMap) sampleCr3 (hugeSpace s) 0 = .ok buddyInvalidAddress ∧
      ∃ k', vmmMap (some sampleDirectMap) sampleCr3 (hugeSpace s) 0 0x5000 3 = .ok (true, k') ∧
        ¬ WritesTables sampleCr3 (hugeSpace s) k' := by
  obtain ⟨s, hinit, -⟩ := buddyInit_represents sampleMap_ok
  have hlt : sampleDirectMap < 2 ^ 64 := by decide
  have hchain := chained_hugeSpace s
  have hleads := leadsTo_hugeSpace s
  refine ⟨s, hchain.wellFormedSpace (.init hinit), ?_, hleads.vmmGetPhys_eq hlt ?_, _,
    hleads.vmmMap_eq hlt 0x5000 3, fun hwrites => ?_⟩
  · rw [hwTranslate, Kernel.leaf, entries_hugeSpace]
    decide
  · rw [entries_hugeSpace]
    decide
  · -- the first byte of frame 32 changes from 0 to 3
    have hwas := (hwrites (32 * 4096) (show (3 : UInt8) ≠ 0 by decide)).2
    have hroot : frameOf sampleCr3 = 16 := by decide
    cases hwas with
    | inl htable =>
      have hrange := hchain.range htable
      rw [hroot] at hrange
      exact absurd hrange.2 (by decide)
    | inr hfree =>
      obtain ⟨fl, hinv, -⟩ := BuddyRun.inv sampleMap_ok (.init hinit)
      have hle := (mem_usableFrames_sampleMap.mp ((hinv.repr.freeFrame_iff _).mp hfree).1).2
      exact absurd hle (by decide)

end Yoix
