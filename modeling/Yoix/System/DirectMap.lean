import Yoix.System.Ownership

/-!
# The direct map in a run

The memory code reads and writes physical memory through the direct map, and `vmm_map` and
`vmm_unmap` could take it away under its feet. They do not: a frame that is found at its pointer stays
there, whatever is called, unless the client that holds the frame gives the pointer up. Such a frame
never gets back to the page allocator, so nobody else ever follows the lost pointer.
-/

namespace Yoix

open Memory

/-- The frame is found at its pointer, or the pointer is given up. -/
def Owners.Direct (offset : Nat) (g : Owners) (f : Nat) : Prop :=
  f ∈ g.givenUp ∨ ∃ flags, g.client.map (directPage offset f) = some (f, flags)

section

variable {offset cr3 : Nat} {k₀ k k' k'' : Kernel} {g g' g'' : Owners}

/-- One call keeps the place of a frame in the direct map, or its pointer is given up, which
`vmm_map` of that page to something else does. A page is unmapped only after that. -/
theorem Owners.Direct.after {f : Nat} (h : g.Direct offset f) (hf : f < 2 ^ 32) {call : SystemCall}
    (hallowed : call.Allowed offset g) (r : Nat) (k k' : Kernel) :
    (call.after offset g r k k').Direct offset f := by
  cases call with
  | kmalloc size =>
    rw [SystemCall.after]
    split
    · exact h
    · exact h
  | kfree ptr => exact h
  | store virt bytes value => exact h
  | buddyAllocPage =>
    rw [SystemCall.after]
    split
    · exact h
    · exact h
  | buddyFreePage physAddr => exact h
  | vmmMap virtAddr physAddr flags =>
    rw [SystemCall.after]
    split
    · exact h
    · by_cases hdiverts : Diverts offset virtAddr physAddr flags f
      · exact Or.inl (Or.inr hdiverts)
      · refine h.imp Or.inl ?_
        rintro ⟨flags', hmap⟩
        show ∃ flags', Function.update g.client.map (vpn virtAddr) _ (directPage offset f) = _
        by_cases hpage : directPage offset f = vpn virtAddr
        · -- the page is mapped to its own frame once more
          have hown : ¬ (f = physAddr / buddyPageSize → flags &&& pagePresent = 0) :=
            fun himp => hdiverts ⟨hf, hpage, himp⟩
          obtain ⟨rfl, hpresent⟩ := Classical.not_imp.mp hown
          exact ⟨flags, by rw [hpage, Function.update_self, if_neg hpresent]⟩
        · exact ⟨flags', by rw [Function.update_of_ne hpage, hmap]⟩
  | vmmUnmap virtAddr =>
    rw [SystemCall.after]
    split
    · exact h
    · by_cases hpage : directPage offset f = vpn virtAddr
      · exact Or.inl (hallowed.2.1 f hf hpage)
      · refine h.imp_right ?_
        rintro ⟨flags', hmap⟩
        exact ⟨flags', (Function.update_of_ne hpage _ _).trans hmap⟩

/-- A client keeps the pages whose pointer it has given up: it may neither free nor unmap them. -/
theorem Owners.givenUp_after (h : g.givenUp ⊆ g.client.held) {call : SystemCall}
    (hallowed : call.Allowed offset g) (r : Nat) (k k' : Kernel) :
    (call.after offset g r k k').givenUp ⊆ (call.after offset g r k k').client.held := by
  cases call with
  | kmalloc size =>
    rw [SystemCall.after]
    split
    · exact h
    · exact h
  | kfree ptr => exact h
  | store virt bytes value => exact h
  | buddyAllocPage =>
    rw [SystemCall.after]
    split
    · exact h
    · exact fun f hf => Or.inr (h hf)
  | buddyFreePage physAddr =>
    -- a frame whose pointer is given up may not be freed
    obtain ⟨f₀, ⟨-, hkept⟩, rfl, -⟩ := hallowed
    intro f hf
    refine ⟨h hf, ?_⟩
    rw [Nat.mul_div_cancel f₀ (by decide)]
    rintro rfl
    exact hkept hf
  | vmmMap virtAddr physAddr flags =>
    rw [SystemCall.after]
    split
    · exact h
    · rintro f (hf | hf)
      · exact h hf
      · exact hallowed.2 f hf
  | vmmUnmap virtAddr =>
    rw [SystemCall.after]
    split
    · exact h
    · -- nor may it be unmapped
      exact fun f hf => ⟨h hf, fun flags hmap => hallowed.2.2 f flags hmap hf⟩

theorem SystemRun.givenUp_held (run : SystemRun offset cr3 k₀ k g) : g.givenUp ⊆ g.client.held := by
  induction run with
  | start h hheld => exact Set.empty_subset _
  | call call run hallowed h ih => exact Owners.givenUp_after ih hallowed _ _ _

/-- Along a trace a frame keeps its place in the direct map, or its pointer is given up. -/
theorem SystemTrace.direct {X : Set Nat} (trace : SystemTrace offset cr3 X k g k' g') {f : Nat}
    (hf : f < 2 ^ 32) (h : g.Direct offset f) : g'.Direct offset f := by
  induction trace with
  | refl => exact h
  | call call trace hallowed hstore hkeep hrun ih => exact ih.after hf hallowed _ _ _

/-- A trace from a state of a run leads to a state of a run. -/
theorem SystemTrace.run {X : Set Nat} (run : SystemRun offset cr3 k₀ k g)
    (trace : SystemTrace offset cr3 X k g k' g') : SystemRun offset cr3 k₀ k' g' := by
  induction trace with
  | refl => exact run
  | call call trace hallowed hstore hkeep hrun ih => exact .call call ih hallowed hrun

theorem SystemTrace.trans {X : Set Nat} (h : SystemTrace offset cr3 X k g k' g')
    (h' : SystemTrace offset cr3 X k' g' k'' g'') : SystemTrace offset cr3 X k g k'' g'' := by
  induction h' with
  | refl => exact h
  | call call trace hallowed hstore hkeep hrun ih => exact .call call ih hallowed hstore hkeep hrun

theorem SystemTrace.single {r : Nat} (call : SystemCall) (hallowed : call.Allowed offset g)
    (h : call.exec offset cr3 k = .ok (r, k')) :
    SystemTrace offset cr3 ∅ k g k' (call.after offset g r k k') :=
  .call call .refl hallowed (Set.empty_disjoint _) (fun x hx => absurd hx (Set.notMem_empty x)) h

variable {response : Option MemmapResponse}

/-- With four free frames, the page of a device in the direct map can be mapped to the device. -/
theorem SystemRun.mapDirect (hstart : SystemStart response offset cr3 k₀)
    (run : SystemRun offset cr3 k₀ k g) {f flags : Nat} (hlow : buddyMaxPages ≤ f)
    (hhigh : f < 2 ^ 32) (hflags : flags < 2 ^ 64) (hbits : flags &&& pageAddrMask = 0)
    (hpresent : flags &&& pagePresent ≠ 0) {n : Nat} (hfree : k.HasFree (3 + n)) (hn : 1 ≤ n) :
    ∃ k₁ g₁, vmmMap (some offset) cr3 k (phyToVirt (some offset) (f * buddyPageSize))
        (f * buddyPageSize) flags = .ok (true, k₁) ∧
      SystemTrace offset cr3 ∅ k g k₁ g₁ ∧ k₁.HasFree n ∧
      k₁.pageMap cr3 (directPage offset f) = some (f, flags) := by
  have hdiv : f * buddyPageSize / buddyPageSize = f := Nat.mul_div_cancel f (by decide)
  have hphys : 2 ^ 30 ≤ f * buddyPageSize ∧ f * buddyPageSize < 2 ^ 44 := by
    simp only [buddyMaxPages, buddyMaxPhys, buddyPageSize] at *
    omega
  have hallowed : SystemCall.Allowed offset g
      (.vmmMap (phyToVirt (some offset) (f * buddyPageSize)) (f * buddyPageSize) flags) := by
    refine ⟨⟨hflags, hbits, Or.inr hphys⟩, ?_⟩
    rintro f' ⟨hf', hdirect, habsent⟩
    obtain rfl := directPage_inj hf' hhigh hdirect
    exact absurd (habsent hdiv.symm) hpresent
  obtain ⟨slabs, hinv⟩ := run.inv hstart
  obtain ⟨k₁, hmap, hfree₁, -, hclient⟩ := hinv.vmm.client.map_succeeds
    (phyToVirt (some offset) (f * buddyPageSize)) (Nat.lt_trans hphys.2 (by decide)) hflags hbits
    hfree hn
  have hexec : SystemCall.exec offset cr3 k (.vmmMap (phyToVirt (some offset) (f * buddyPageSize))
      (f * buddyPageSize) flags) = .ok (1, k₁) := by
    rw [SystemCall.exec, hmap, ok_bind]
    rfl
  refine ⟨k₁, _, hmap, SystemTrace.single _ hallowed hexec, hfree₁, ?_⟩
  rw [hclient.map_eq]
  exact (Client.map_mapped _ _ _ hpresent).trans (by rw [hdiv])

/-- The registers of a device that is found at its pointer stay there: no client can hold a frame of
device memory. -/
theorem SystemRun.map_device (hstart : SystemStart response offset cr3 k₀)
    (run : SystemRun offset cr3 k₀ k g) {f flags : Nat} (hlow : buddyMaxPages ≤ f)
    (hhigh : f < 2 ^ 32) (hdirect : k.pageMap cr3 (directPage offset f) = some (f, flags))
    (trace : SystemTrace offset cr3 ∅ k g k' g') :
    ∃ flags', g'.client.map (directPage offset f) = some (f, flags') := by
  obtain ⟨slabs, hinv⟩ := run.inv hstart
  have run' := trace.run run
  obtain ⟨slabs', hinv'⟩ := run'.inv hstart
  obtain ⟨A, fl, hspace⟩ := hinv'.space
  have hmap : g.client.map (directPage offset f) = some (f, flags) :=
    hdirect ▸ congrFun hinv.vmm.map_eq.symm _
  rcases trace.direct hhigh (Or.inr ⟨flags, hmap⟩) with hgiven | hkept
  · have hA := hspace.held_sub (Or.inl (run'.givenUp_held hgiven))
    exact absurd (hspace.repr.usable_lt (hspace.repr.alloc_sub hA)) (Nat.not_lt.mpr hlow)
  · exact hkept

/-- **The direct map survives.** A frame that the page tables have at its pointer in some state of a
run is found there in every later state, byte for byte, by the processor's walk and by
`vmm_get_phys`, unless its pointer is given up. Then the frame stays allocated and the client is its
only owner. -/
theorem direct_map_survives (hstart : SystemStart response offset cr3 k₀)
    (run : SystemRun offset cr3 k₀ k g) {f flags : Nat} (hf : f < 2 ^ 32)
    (hdirect : k.pageMap cr3 (directPage offset f) = some (f, flags))
    (trace : SystemTrace offset cr3 ∅ k g k' g') :
    (∀ d < buddyPageSize,
      hwTranslate cr3 k' (phyToVirt (some offset) (f * buddyPageSize) + d)
        = some (f * buddyPageSize + d) ∧
      vmmGetPhys (some offset) cr3 k' (phyToVirt (some offset) (f * buddyPageSize) + d)
        = .ok (f * buddyPageSize + d)) ∨
    f ∈ g'.givenUp ∧ k'.buddy.pageState f = pageStateAllocated ∧
      ∀ w : Owner, w.Owns cr3 k' g' f ↔ w = .client := by
  obtain ⟨slabs, hinv⟩ := run.inv hstart
  have run' := trace.run run
  obtain ⟨slabs', hinv'⟩ := run'.inv hstart
  obtain ⟨A, fl, hspace⟩ := hinv'.space
  have hmap : g.client.map (directPage offset f) = some (f, flags) :=
    hdirect ▸ congrFun hinv.vmm.map_eq.symm _
  rcases trace.direct hf (Or.inr ⟨flags, hmap⟩) with hgiven | ⟨flags', hmap'⟩
  · right
    have hheld := run'.givenUp_held hgiven
    have hA := hspace.held_sub (Or.inl hheld)
    have hU := hspace.repr.alloc_sub hA
    have hne : f ≠ 0 := fun heq => hstart.env.zero_unusable (heq ▸ hU)
    refine ⟨hgiven, hspace.repr.allocated hA, fun w => ⟨fun hw => ?_, ?_⟩⟩
    · exact hinv'.owner_unique hU hne hw hheld
    · rintro rfl
      exact hheld
  · left
    intro d hd
    exact ⟨hinv'.vmm.client.hwTranslate_direct hstart.env.offset_aligned hmap' hd,
      hinv'.vmm.client.getPhys_direct hstart.env.offset_aligned hmap' hd⟩

end

/-- The page of the local APIC is mapped, and a page is taken after that. -/
theorem sampleDevice :
    ∃ (k₀ k k' : Kernel) (g g' : Owners), SystemStart sampleMap sampleDirectMap sampleCr3 k₀ ∧
      SystemRun sampleDirectMap sampleCr3 k₀ k g ∧
      SystemTrace sampleDirectMap sampleCr3 ∅ k g k' g' ∧
      k.pageMap sampleCr3 (directPage sampleDirectMap 0xFEE00) = some (0xFEE00, 3) := by
  obtain ⟨s₀, -, -, hstart, -⟩ := sampleSystem
  obtain ⟨s, hinit, hs⟩ : ∃ s, buddyInit sampleMap = .ok s ∧
      (heapInit (sampleTables s₀)).buddy = s := by
    obtain ⟨k, s, hinit, heq⟩ := hstart.booted
    exact ⟨s, hinit, congrArg Kernel.buddy heq⟩
  obtain rfl : s₀ = s := hs
  have run : SystemRun sampleDirectMap sampleCr3 (heapInit (sampleTables s₀))
      (heapInit (sampleTables s₀)) ⟨[], sampleClient s₀, ∅⟩ :=
    .start ⟨fun f hf => absurd hf (Set.notMem_empty f), rfl, rfl⟩ rfl
  obtain ⟨k, g, -, t, -, hdirect⟩ := run.mapDirect hstart (f := 0xFEE00) (by decide) (by decide)
    (show 3 < 2 ^ 64 by decide) (by decide) (by decide)
    (show Kernel.HasFree _ (3 + 2) from sampleTables_hasFree hinit) (by decide)
  have run₁ := t.run run
  obtain ⟨slabs, hinv⟩ := run₁.inv hstart
  obtain ⟨r, k', -, hexec, -⟩ := hinv.allocPage
  have trace := SystemTrace.single .buddyAllocPage (g := g) trivial hexec
  exact ⟨_, k, k', g, _, hstart, run₁, trace, hdirect⟩

/-- The registers of the local APIC, mapped at their pointer and found there later. -/
theorem direct_map_survives_sampleSystem :
    ∃ (k₀ k k' : Kernel) (g g' : Owners), SystemStart sampleMap sampleDirectMap sampleCr3 k₀ ∧
      SystemRun sampleDirectMap sampleCr3 k₀ k g ∧
      SystemTrace sampleDirectMap sampleCr3 ∅ k g k' g' ∧
      k.pageMap sampleCr3 (directPage sampleDirectMap 0xFEE00) = some (0xFEE00, 3) ∧
      (0xFEE00 ∉ g'.givenUp →
        hwTranslate sampleCr3 k' 0xFFFF8000FEE000B0 = some 0xFEE000B0) := by
  obtain ⟨k₀, k, k', g, g', hstart, run, trace, hdirect⟩ := sampleDevice
  refine ⟨k₀, k, k', g, g', hstart, run, trace, hdirect, fun hkept => ?_⟩
  rcases direct_map_survives hstart run (by decide) hdirect trace with hphys | ⟨hgiven, -⟩
  · exact (hphys 0xB0 (by decide)).1
  · exact absurd hgiven hkept

end Yoix
