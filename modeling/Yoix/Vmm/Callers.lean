import Yoix.Vmm.Run

/-!
# Callers of the page-table code

`vmm_map` needs up to three frames for tables and fails when they run out. `Kernel.HasFree` counts
the free frames; with more than three of them `vmm_map` succeeds, and a call of `vmm_map` or
`buddy_alloc_page` lowers the count by what it takes.

The callers in the kernel map pages of the direct map: `directPage` is the page of a frame.
-/

namespace Yoix

open Dyadic Memory

/-! ## Pages of the direct map

`init_IOAPIC` and `enable_apic` map a device at the direct-map pointer of a page. What follows says
which page that is and what an access there reaches. -/

/-- The virtual page of the direct map where a frame is. -/
def directPage (offset f : Nat) : Vpn := vpn (phyToVirt (some offset) (f * buddyPageSize))

theorem frame_lt {f : Nat} (hf : f < buddyMaxPages) : f < 2 ^ 32 :=
  Nat.lt_trans hf (by decide)

theorem directPage_inj {offset f g : Nat} (hf : f < 2 ^ 32) (hg : g < 2 ^ 32)
    (h : directPage offset f = directPage offset g) : f = g := by
  have hval := congrArg Fin.val h
  simp only [directPage, vpn, phyToVirt, Fin.val_ofNat, buddyPageSize] at *
  omega

/-- The pointers to the bytes of a frame lie in its page. -/
theorem phyToVirt_page {offset : Nat} (hpage : buddyPageSize ∣ offset) (f : Nat) {d : Nat}
    (hd : d < buddyPageSize) :
    vpn (phyToVirt (some offset) (f * buddyPageSize) + d) = directPage offset f ∧
      (phyToVirt (some offset) (f * buddyPageSize) + d) % buddyPageSize = d := by
  obtain ⟨m, rfl⟩ := hpage
  refine ⟨Fin.ext ?_, ?_⟩
  · simp only [directPage, vpn, phyToVirt, Fin.val_ofNat, buddyPageSize] at *
    omega
  · simp only [phyToVirt, buddyPageSize] at *
    omega

/-- The pointers to the first 4 GiB are canonical addresses of the upper half. -/
def CanonicalMap (offset : Nat) : Prop := 2 ^ 64 - 2 ^ 47 ≤ offset ∧ offset + 2 ^ 32 ≤ 2 ^ 64

/-- With such a direct map all pointers to the first 4 GiB are canonical, so that the processor uses
their translation. -/
theorem CanonicalMap.pointer {offset f d : Nat} (h : CanonicalMap offset) (hf : f < 2 ^ 20)
    (hd : d < buddyPageSize) : IsCanonical (phyToVirt (some offset) (f * buddyPageSize) + d) := by
  obtain ⟨hlow, hhigh⟩ := h
  have hlt : f * buddyPageSize + offset < 2 ^ 64 := by
    simp only [buddyPageSize] at *
    omega
  right
  rw [phyToVirt, Nat.mod_eq_of_lt hlt]
  simp only [buddyPageSize] at *
  omega

section

variable {offset cr3 : Nat} {U : Set Nat} {k : Kernel} {c : Client} {f g flags d : Nat}
  (h : ClientSpace offset cr3 U k c) (hpage : buddyPageSize ∣ offset)
  (hmap : c.map (directPage offset f) = some (g, flags)) (hd : d < buddyPageSize)

include h hpage hmap hd

/-- What the processor translates the bytes behind a pointer of the direct map to. -/
theorem ClientSpace.hwTranslate_direct :
    hwTranslate cr3 k (phyToVirt (some offset) (f * buddyPageSize) + d)
      = some (g * buddyPageSize + d) := by
  obtain ⟨hvpn, hmod⟩ := phyToVirt_page hpage f hd
  rw [← h.map_eq, Kernel.pageMap, Option.map_eq_some_iff, ← hvpn] at hmap
  obtain ⟨⟨depth, e⟩, hleaf, hentry⟩ := hmap
  obtain rfl := h.notHuge _ depth e hleaf
  have hframe : frameOf e = g := (Prod.mk.inj hentry).1
  rw [hwTranslate, hleaf, ← hframe, frameOf_mul]
  show some ((e &&& pageAddrMask) + _ % 2 ^ 12) = _
  rw [show (2 : Nat) ^ 12 = buddyPageSize from rfl, hmod]

theorem ClientSpace.getPhys_direct :
    vmmGetPhys (some offset) cr3 k (phyToVirt (some offset) (f * buddyPageSize) + d)
      = .ok (g * buddyPageSize + d) := by
  obtain ⟨A, fl, hspace⟩ := h.space
  rw [getPhys_eq_hwTranslate hspace (h.notHuge _), h.hwTranslate_direct hpage hmap hd]
  rfl

theorem ClientSpace.hwAccess_direct (hcanon : CanonicalMap offset) (hf : f < 2 ^ 20) :
    hwAccess cr3 k (phyToVirt (some offset) (f * buddyPageSize) + d)
      = some (g * buddyPageSize + d) := by
  rw [hwAccess, if_pos (hcanon.pointer hf hd), h.hwTranslate_direct hpage hmap hd]

end

/-! ## Free frames

Neither caller checks a result, so both rely on free frames. A map takes at most three for tables.
-/

/-- At least `n` frames are free. -/
def Kernel.HasFree (k : Kernel) (n : Nat) : Prop :=
  ∃ F : Finset Nat, n ≤ F.card ∧ ∀ f ∈ F, k.buddy.FreeFrame f

section

variable {offset cr3 : Nat} {U : Set Nat} {k k' : Kernel} {c : Client}

/-- What is free after at most `m` more frames have been taken. -/
theorem Kernel.HasFree.after {A A' : Set Nat} {fl fl' : FreeLists} {m n : Nat}
    (h : k.HasFree (m + n)) (hr : Represents U A ∅ k.buddy fl)
    (hr' : Represents U A' ∅ k'.buddy fl') (htakes : AddressSpace.TakesAtMost m A A') :
    k'.HasFree n := by
  classical
  obtain ⟨F, hcard, hF⟩ := h
  obtain ⟨G, hG, hsub⟩ := htakes
  refine ⟨F \ G, ?_, fun f hf => (hr'.freeFrame_iff f).mpr ?_⟩
  · have := Finset.le_card_sdiff G F
    omega
  · obtain ⟨hfF, hfG⟩ := Finset.mem_sdiff.mp hf
    obtain ⟨hU, hA⟩ := (hr.freeFrame_iff f).mp (hF f hfF)
    refine ⟨hU, fun hA' => ?_⟩
    rcases hsub hA' with hold | hnew
    · exact hA hold
    · exact hfG hnew

/-- `vmm_map` takes at most three frames and frees none. -/
theorem ClientSpace.map_hasFree (h : ClientSpace offset cr3 U k c) {v p flags n : Nat} {ok : Bool}
    (hrun : vmmMap (some offset) cr3 k v p flags = .ok (ok, k')) (hfree : k.HasFree (3 + n)) :
    k'.HasFree n ∧ ∀ f, k'.buddy.FreeFrame f → k.buddy.FreeFrame f := by
  obtain ⟨A, fl, hspace⟩ := h.space
  obtain ⟨k₁, A', fl', hspace', hgrows, -, htakes, hcases⟩ :=
    hspace.mapWalk (h.notHuge (vpn v)) p flags
  -- storing the entry leaves the page allocator alone
  have hbuddy : k'.buddy = k₁.buddy := by
    rcases hcases with ⟨hfail, -⟩ | ⟨f, -, hput⟩
    · rw [(ok_unique_pair hrun hfail).2]
    · rw [(ok_unique_pair hrun hput).2]
      rfl
  have hr' : Represents U A' ∅ k'.buddy fl' := hbuddy ▸ hspace'.repr
  refine ⟨hfree.after hspace.repr hr' htakes, fun f hf => ?_⟩
  obtain ⟨hU, hA⟩ := (hr'.freeFrame_iff f).mp hf
  exact (hspace.repr.freeFrame_iff f).mpr ⟨hU, fun hold => hA (hgrows.alloc_sub hold)⟩

/-- With four free frames `vmm_map` succeeds, and takes at most three of them: one for each level
below the root. -/
theorem ClientSpace.map_succeeds (h : ClientSpace offset cr3 U k c) (v : Nat) {p flags n : Nat}
    (hlt : p < 2 ^ 52) (hflags : flags < 2 ^ 64) (hbits : flags &&& pageAddrMask = 0)
    (hfree : k.HasFree (3 + n)) (hn : 1 ≤ n) :
    ∃ k', vmmMap (some offset) cr3 k v p flags = .ok (true, k') ∧ k'.HasFree n ∧
      (∀ f, k'.buddy.FreeFrame f → k.buddy.FreeFrame f) ∧
      ClientSpace offset cr3 U k' (c.mapped v p flags) := by
  obtain ⟨ok, k', hrun, hfull, hclient⟩ := h.map v hlt hflags hbits
  obtain ⟨hfree', hold⟩ := h.map_hasFree hrun hfree
  cases ok with
  | false =>
    obtain ⟨F, hcard, hF⟩ := hfree'
    obtain ⟨g, hg⟩ := Finset.card_pos.mp (Nat.lt_of_lt_of_le hn hcard)
    exact absurd (hF g hg) (hfull rfl g)
  | true => exact ⟨k', hrun, hfree', hold, hclient⟩

/-- A page of the allocator, when one is free. -/
theorem ClientSpace.alloc_hasFree (h : ClientSpace offset cr3 U k c) {n : Nat}
    (hfree : k.HasFree (1 + n)) :
    ∃ f s, buddyAllocPage k.buddy = .ok (f * buddyPageSize, s) ∧ f < buddyMaxPages ∧
      k.buddy.FreeFrame f ∧ f ∉ c.held ∧ ({ k with buddy := s } : Kernel).HasFree n ∧
      (∀ g, s.FreeFrame g → k.buddy.FreeFrame g) ∧
      ClientSpace offset cr3 U { k with buddy := s } (c.alloc (f * buddyPageSize)) := by
  obtain ⟨A, fl, hspace⟩ := h.space
  have hr := hspace.repr
  rcases hr.allocPage with ⟨-, hfull⟩ | ⟨f, s, fl', hrun, hf, hr'⟩
  · obtain ⟨F, hcard, hF⟩ := hfree
    obtain ⟨g, hg⟩ := Finset.card_pos.mp (show 0 < F.card by omega)
    obtain ⟨hU, hA⟩ := (hr.freeFrame_iff g).mp (hF g hg)
    exact absurd (hfull hU) hA
  · have hlt : f < buddyMaxPages := hr.usable_lt hf.1
    rcases h.alloc with hfail | ⟨f', s', hrun', -, hnew, hclient⟩
    · exact absurd (ok_unique_pair hrun hfail).1 (addr_ne_invalid hlt)
    obtain ⟨haddr, rfl⟩ := ok_unique_pair hrun hrun'
    obtain rfl : f = f' := Nat.eq_of_mul_eq_mul_right (by decide) haddr
    refine ⟨f, s, hrun, hlt, (hr.freeFrame_iff f).mpr hf, hnew, hfree.after hr hr' ⟨{f}, ?_, ?_⟩,
      fun g hg => ?_, hclient⟩
    · exact Nat.le_of_eq (Finset.card_singleton f)
    · rw [Finset.coe_singleton]
    · obtain ⟨hU, hA⟩ := (hr'.freeFrame_iff g).mp hg
      exact (hr.freeFrame_iff g).mpr ⟨hU, fun hold => hA (Or.inl hold)⟩

end

theorem sampleTables_hasFree {s₀ : Buddy} (hinit : buddyInit sampleMap = .ok s₀) :
    (sampleTables s₀).HasFree 5 := by
  obtain ⟨s, hinit', hrepr⟩ := buddyInit_represents sampleMap_ok
  obtain rfl := ok_unique hinit hinit'
  refine ⟨{1, 2, 3, 4, 5}, by decide, fun f hf => (hrepr.freeFrame_iff f).mpr ⟨?_, ?_⟩⟩
  · simp only [Finset.mem_insert, Finset.mem_singleton] at hf
    exact mem_usableFrames_sampleMap.mpr (by omega)
  · exact Set.notMem_empty f

theorem sampleClient_starts (s₀ : Buddy) : (sampleClient s₀).Starts sampleCr3 (sampleTables s₀) :=
  ⟨fun f hf => absurd hf (Set.notMem_empty f), rfl, rfl⟩

end Yoix
