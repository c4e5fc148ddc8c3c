import Yoix.Ioapic.Model
import Yoix.Apic.Model
import Yoix.Vmm.Callers
import Mathlib.Data.List.Forall2

/-!
# The windows to the IOAPICs

The last loop of `init_IOAPIC` takes a page for each IOAPIC and maps the pointer of that page to the
registers of the IOAPIC instead. The page itself is given up: it stays allocated, and its pointer
leads to the device from now on. Neither `buddy_alloc_page` nor `vmm_map` is checked, so the loop
relies on free frames, one for the page and up to three for tables.
-/

namespace Yoix

open Dyadic Memory

/-! ## The loop -/

/-- The flags of a window. -/
def windowFlags : Nat := pagePresent ||| pageWritable ||| pagePcd

section

variable (hhdm : Option Nat) (cr3 : Nat)

/-- The loop of `init_IOAPIC` that makes the virtual addresses: `virt_Address` for the addresses
that are left. -/
def mapWindowsLoop (k : Kernel) : List UInt32 → Except Fault (List Nat × Kernel)
  | [] => .ok ([], k)
  | phys :: rest => do
    let (page, buddy) ← buddyAllocPage k.buddy
    let virt := phyToVirt hhdm page
    let (_, k) ← vmmMap hhdm cr3 { k with buddy } virt phys.toNat windowFlags
    let (virts, k) ← mapWindowsLoop k rest
    .ok (virt :: virts, k)

/-- `init_IOAPIC` up to the two registers it reads in the end. -/
def initIoapicWindows (k : Kernel) (mem : Nat → UInt8) (madtHeader : Nat) :
    Except Fault (IoapicTables × List Nat × Kernel) := do
  let tables := initIoapic mem madtHeader
  let (virtAddress, k) ← mapWindowsLoop hhdm cr3 k tables.physAddress
  .ok (tables, virtAddress, k)

end

/-! ## One window -/

section

variable {offset cr3 : Nat} {U : Set Nat} {k k' : Kernel} {c : Client}

/-- A round of the loop with five free frames: a page that was free is given up for the window, and
at most four frames have been taken. -/
theorem ClientSpace.window (h : ClientSpace offset cr3 U k c) {n : Nat} (hfree : k.HasFree (4 + n))
    (hn : 1 ≤ n) (phys : UInt32) :
    ∃ f s k', buddyAllocPage k.buddy = .ok (f * buddyPageSize, s) ∧
      vmmMap (some offset) cr3 { k with buddy := s } (phyToVirt (some offset) (f * buddyPageSize))
        phys.toNat windowFlags = .ok (true, k') ∧
      f < buddyMaxPages ∧ k.buddy.FreeFrame f ∧ f ∉ c.held ∧
      (∀ g, k'.buddy.FreeFrame g → k.buddy.FreeFrame g) ∧ k'.HasFree n ∧
      ClientSpace offset cr3 U k' ((c.alloc (f * buddyPageSize)).mapped
        (phyToVirt (some offset) (f * buddyPageSize)) phys.toNat windowFlags) := by
  rw [show 4 + n = 1 + (3 + n) by omega] at hfree
  obtain ⟨f, s, halloc, hlt, hf, hnew, hfree₁, hold₁, hclient⟩ := h.alloc_hasFree hfree
  have hphys : phys.toNat < 2 ^ 52 := Nat.lt_trans phys.toNat_lt (by decide)
  obtain ⟨k', hrun, hfree', hold', hclient'⟩ := hclient.map_succeeds
    (phyToVirt (some offset) (f * buddyPageSize)) hphys (show windowFlags < 2 ^ 64 by decide)
    (by decide) hfree₁ hn
  exact ⟨f, s, k', halloc, hrun, hlt, hf, hnew, fun g hg => hold₁ g (hold' g hg), hfree', hclient'⟩

/-! ## All windows

Windows that were made stay when later ones are made, as each has a page of its own. -/

/-- The window at `virt` is the pointer of a page given up for it, and leads to `phys`. -/
def Window (offset : Nat) (k : Kernel) (c c' : Client) (virt : Nat) (phys : UInt32) : Prop :=
  ∃ f, virt = phyToVirt (some offset) (f * buddyPageSize) ∧ f < buddyMaxPages ∧
    k.buddy.FreeFrame f ∧ f ∉ c.held ∧ f ∈ c'.held ∧
    c'.map (vpn virt) = some (phys.toNat / buddyPageSize, windowFlags)

/-- Each element of the one list has a partner in the other. -/
theorem exists_of_forall₂ {α β : Type} {R : α → β → Prop} {as : List α} {bs : List β}
    (h : List.Forall₂ R as bs) {a : α} (ha : a ∈ as) : ∃ b ∈ bs, R a b := by
  induction h with
  | nil => exact absurd ha List.not_mem_nil
  | cons hab _ ih =>
    rcases List.mem_cons.mp ha with rfl | hmem
    · exact ⟨_, List.mem_cons_self, hab⟩
    · obtain ⟨b, hb, hr⟩ := ih hmem
      exact ⟨b, List.mem_cons_of_mem _ hb, hr⟩

/-- **The loop.** Later rounds leave the windows of the earlier ones alone, since their pages are
held by then. -/
theorem ClientSpace.mapWindowsLoop (phys : List UInt32) (h : ClientSpace offset cr3 U k c)
    (hfree : k.HasFree (4 * phys.length + 1)) :
    ∃ virts k' c', mapWindowsLoop (some offset) cr3 k phys = .ok (virts, k') ∧
      ClientSpace offset cr3 U k' c' ∧ c.held ⊆ c'.held ∧
      List.Forall₂ (Window offset k c c') virts phys ∧ (virts.map vpn).Nodup ∧
      ∀ n ∉ virts.map vpn, c'.map n = c.map n := by
  induction phys generalizing k c with
  | nil => exact ⟨[], k, c, rfl, h, subset_rfl, .nil, List.nodup_nil, fun n _ => rfl⟩
  | cons p rest ih =>
    rw [List.length_cons, show 4 * (rest.length + 1) + 1 = 4 + (4 * rest.length + 1) by omega] at hfree
    obtain ⟨f, s, k₁, halloc, hmap, hlt, hf, hnew, hold, hfree₁, h₁⟩ := h.window hfree (by omega) p
    obtain ⟨virts, k', c', hrun, h', hsub, hwin, hnodup, hother⟩ := ih h₁ hfree₁
    set virt := phyToVirt (some offset) (f * buddyPageSize) with hvirt
    have hheld₁ : ((c.alloc (f * buddyPageSize)).mapped virt p.toNat windowFlags).held
        = insert f c.held := by
      show insert (f * buddyPageSize / buddyPageSize) c.held = _
      rw [Nat.mul_div_cancel f (by decide)]
    -- the later pages are new to the client, which holds this one by then
    have hfresh : vpn virt ∉ virts.map vpn := by
      intro hmem
      obtain ⟨virt', hvirt', heq⟩ := List.mem_map.mp hmem
      obtain ⟨p', -, g, rfl, hg, -, hnewg, -⟩ := exists_of_forall₂ hwin hvirt'
      rw [hheld₁] at hnewg
      exact hnewg (Or.inl (directPage_inj (frame_lt hg) (frame_lt hlt) heq))
    have hmap₁ := Client.map_mapped (c.alloc (f * buddyPageSize)) virt p.toNat
      (show windowFlags &&& pagePresent ≠ 0 by decide)
    refine ⟨virt :: virts, k', c', ?_, h', fun g hg => ?_, .cons ?_ (hwin.imp fun v q hq => ?_),
      List.nodup_cons.mpr ⟨hfresh, hnodup⟩, fun n hn => ?_⟩
    · rw [Yoix.mapWindowsLoop, halloc, ok_bind]
      dsimp only
      rw [hmap, ok_bind]
      dsimp only
      rw [hrun, ok_bind]
    · exact hsub (hheld₁ ▸ Or.inr hg)
    · -- the later rounds leave the entry of this window alone
      exact ⟨f, hvirt, hlt, hf, hnew, hsub (hheld₁ ▸ Or.inl rfl), (hother _ hfresh).trans hmap₁⟩
    · obtain ⟨g, rfl, hg, hgf, hgnew, hgheld, hgmap⟩ := hq
      exact ⟨g, rfl, hg, hold g hgf, fun hin => hgnew (hheld₁ ▸ Or.inr hin), hgheld, hgmap⟩
    · obtain ⟨hne, hrest⟩ := not_or.mp (List.mem_cons.not.mp hn)
      rw [hother n hrest]
      exact Function.update_of_ne hne _ _

/-- **The windows lead to the IOAPICs.** After any run of the page-table code, with more than four
free frames for each IOAPIC of the MADT, the loop ends and gives every IOAPIC a pointer of its own.
An access of the processor to a byte behind that pointer reaches the byte of the IOAPIC's page; all
other pages keep their translations. The page behind a pointer was free before; afterwards it is
allocated and no table. The run starts from the bootloader's tables, which use no huge pages
(`InitialSpace`): under one the loop would write into memory that is no table
(`huge_page_taken_for_table`). -/
theorem ioapic_windows_lead_to_devices {response : Option MemmapResponse} {k₀ : Kernel}
    (h : InitialSpace response offset cr3 k₀) (hpage : buddyPageSize ∣ offset)
    (hcanon : CanonicalMap offset)
    (run : VmmRun notShared offset cr3 k₀ k c) (mem : Nat → UInt8) (madtHeader : Nat)
    (hfree : k.HasFree (4 * (initIoapic mem madtHeader).physAddress.length + 1)) :
    ∃ virts k', initIoapicWindows (some offset) cr3 k mem madtHeader
        = .ok (initIoapic mem madtHeader, virts, k') ∧
      List.Forall₂ (fun virt (p : UInt32) => ∀ d < buddyPageSize,
        hwAccess cr3 k' (virt + d) = some (p.toNat / buddyPageSize * buddyPageSize + d))
        virts (initIoapic mem madtHeader).physAddress ∧
      (virts.map vpn).Nodup ∧
      (∀ n ∉ virts.map vpn, k'.pageMap cr3 n = k.pageMap cr3 n) ∧
      ∀ virt ∈ virts, ∃ f, virt = phyToVirt (some offset) (f * buddyPageSize) ∧
        k.buddy.FreeFrame f ∧ k'.buddy.pageState f = pageStateAllocated ∧ ¬ k'.IsTable cr3 f := by
  have hclient := (run.inv h).client
  obtain ⟨virts, k', c', hrun, h', -, hwin, hnodup, hother⟩ :=
    hclient.mapWindowsLoop (initIoapic mem madtHeader).physAddress hfree
  obtain ⟨A, fl, hspace⟩ := h'.space
  refine ⟨virts, k', by rw [initIoapicWindows, hrun, ok_bind], hwin.imp fun virt p hw d hd => ?_,
    hnodup, fun n hn => ?_, fun virt hvirt => ?_⟩
  · obtain ⟨f, rfl, hlt, -, -, -, hmap⟩ := hw
    exact h'.hwAccess_direct hpage hmap hd hcanon (Nat.lt_trans hlt (by decide))
  · rw [h'.map_eq, hclient.map_eq]
    exact hother n hn
  · obtain ⟨p, -, f, hv, hlt, hf, -, hheld, -⟩ := exists_of_forall₂ hwin hvirt
    have hA := hspace.held_sub hheld
    refine ⟨f, hv, hf, hspace.repr.allocated hA, fun htable => ?_⟩
    exact (hspace.tables f htable (hspace.repr.alloc_sub hA)).2 hheld

end

theorem sampleDirectMap_canonical : CanonicalMap sampleDirectMap := ⟨by decide, by decide⟩

/-- A MADT with one IOAPIC, at `0xFEC00000`. -/
def windowMadt : Nat → UInt8
  | 4 => 56
  | 44 => 1
  | 45 => 12
  | 50 => 0xC0
  | 51 => 0xFE
  | _ => 0

theorem windowMadt_physAddress : (initIoapic windowMadt 0).physAddress = [0xFEC00000] := by
  decide

/-- One IOAPIC at `0xFEC00000`. Its window is at the pointer of the page that was free. -/
theorem ioapic_windows_lead_to_devices_windowMadt :
    ∃ k k' virt, initIoapicWindows (some sampleDirectMap) sampleCr3 k windowMadt 0
        = .ok (initIoapic windowMadt 0, [virt], k') ∧
      hwAccess sampleCr3 k' (virt + 0x10) = some 0xFEC00010 := by
  obtain ⟨s₀, hinit, -⟩ := buddyInit_represents sampleMap_ok
  have hfree : (sampleTables s₀).HasFree
      (4 * (initIoapic windowMadt 0).physAddress.length + 1) := by
    rw [windowMadt_physAddress]
    exact sampleTables_hasFree hinit
  obtain ⟨virts, k', hrun, hwin, -⟩ := ioapic_windows_lead_to_devices
    (initialSpace_sampleTables (.init hinit)) (by decide) sampleDirectMap_canonical
    (.start (sampleClient_starts s₀)) windowMadt 0 hfree
  rw [windowMadt_physAddress] at hwin
  obtain ⟨virt, rest, hvirt, hnil, rfl⟩ := List.forall₂_cons_right_iff.mp hwin
  rw [List.forall₂_nil_right_iff.mp hnil] at hrun
  exact ⟨_, k', virt, hrun, hvirt 0x10 (by decide)⟩

end Yoix
