import Yoix.System.DirectMap

/-!
# Mapping again

`vmm_map` makes tables where there are none, and may run out of frames then. `vmm_unmap` takes none of
them away, also when they have become empty, and nothing else in the kernel writes to them. So a page
that was mapped once can be mapped again at any time, together with the other pages of its table, and
this takes no frame (`remap_needs_no_frame`). The price is that the frames of the tables never come
back.
-/

namespace Yoix

open Dyadic

section

variable {response : Option MemmapResponse} {offset cr3 : Nat} {k₀ k k' : Kernel} {g g' : Owners}

/-- A trace writes to managed frames and tables only. -/
theorem SystemTrace.contained {X : Set Nat} (hstart : SystemStart response offset cr3 k₀)
    (run : SystemRun offset cr3 k₀ k g) (trace : SystemTrace offset cr3 X k g k' g') :
    Contained cr3 (usableFrames response) k k' := by
  induction trace with
  | refl => exact .refl _ _ k
  | call call trace hallowed hstore hkeep h ih =>
    obtain ⟨slabs, hinv⟩ := (trace.run run).inv hstart
    obtain ⟨r, k'', slabs', hrun, ⟨-, hstep⟩, -⟩ := hinv.step hstart.env.zero_unusable
      hstart.env.offset_lt hstart.env.offset_aligned hallowed
    obtain ⟨rfl, rfl⟩ := ok_unique_pair h hrun
    exact ih.trans hstep

namespace AddressSpace

variable {U A held : Set Nat} {fl : FreeLists}

/-- A table below another one is reached through a present entry. -/
theorem leads_of_table (h : AddressSpace offset cr3 U A held fl k) {p : List (Fin 512)} {i : Fin 512}
    {f f' : Nat} (hwalk : k.table cr3 p = some f) (hbelow : k.table cr3 (p ++ [i]) = some f') :
    Leads offset k f i f' := by
  have hchild : pageChild p.length (entries k.mem f i) = some f' :=
    (Radix.walk_concat hwalk i).symm.trans hbelow
  obtain ⟨-, hpresent, rfl⟩ := pageChild_eq_some hchild
  exact ⟨hpresent, rfl, h.mapped _ (isTable_of_table hbelow)⟩

theorem table_above {p : List (Fin 512)} {i : Fin 512} {f' : Nat}
    (h : k.table cr3 (p ++ [i]) = some f') : ∃ f, k.table cr3 p = some f := by
  cases hwalk : k.table cr3 p with
  | none =>
    rw [table_append_none hwalk [i]] at h
    cases h
  | some f => exact ⟨f, rfl⟩

/-- `vmm_map` takes no frame where there is a page table already. -/
theorem map_of_table (h : AddressSpace offset cr3 U A held fl k) {v f₃ : Nat}
    (hf : k.table cr3 (vpn v).tablePath = some f₃) (phys flags : Nat) :
    vmmMap (some offset) cr3 k v phys flags
      = .ok (true, k.putEntry f₃ (vpn v).index (phys &&& pageAddrMask ||| flags)) := by
  obtain ⟨f₂, h₂⟩ := table_above (p := [_, _]) hf
  obtain ⟨f₁, h₁⟩ := table_above (p := [_]) h₂
  have hleads : LeadsTo offset cr3 k v f₁ f₂ f₃ :=
    { root := h.root_mapped
      pml4 := h.leads_of_table (root_table k) h₁
      pdpt := h.leads_of_table h₁ h₂
      pd := h.leads_of_table h₂ hf }
  exact hleads.vmmMap_eq h.direct.offset_lt phys flags

end AddressSpace

theorem tablePath_eq {v w : Nat} (h : w / 2 ^ 21 % 2 ^ 27 = v / 2 ^ 21 % 2 ^ 27) :
    (vpn w).tablePath = (vpn v).tablePath := by
  have hword : ∀ x d : Nat, d = 9 ∨ d = 18 ∨ d = 27 →
      ((vpn x : Nat) / 2 ^ d) % 512 = x / 2 ^ 21 % 2 ^ 27 / 2 ^ (d - 9) % 512 := by
    intro x d hd
    show x / 2 ^ 12 % 2 ^ 36 / 2 ^ d % 512 = _
    rcases hd with rfl | rfl | rfl <;> omega
  unfold Vpn.tablePath
  simp only [List.cons.injEq, and_true, Fin.ext_iff, Fin.val_ofNat]
  rw [hword w 27 (by decide), hword w 18 (by decide), hword w 9 (by decide), h]
  exact ⟨(hword v 27 (by decide)).symm, (hword v 18 (by decide)).symm, (hword v 9 (by decide)).symm⟩

/-- **Mapping again takes no frame.** A page that is mapped in some state of a run can be mapped in
every later one, whatever was called in between and also when no frame is free any more, and so can
all pages of the same 2 MiB. The tables that there were are still there, and their frames are still
allocated. -/
theorem remap_needs_no_frame (hstart : SystemStart response offset cr3 k₀)
    (run : SystemRun offset cr3 k₀ k g) (trace : SystemTrace offset cr3 ∅ k g k' g') :
    (∀ v w, g.client.map (vpn v) ≠ none → w / 2 ^ 21 % 2 ^ 27 = v / 2 ^ 21 % 2 ^ 27 →
      ∀ phys flags, ∃ k'', vmmMap (some offset) cr3 k' w phys flags = .ok (true, k'') ∧
        k''.buddy = k'.buddy) ∧
    ∀ f, k.IsTable cr3 f → k'.IsTable cr3 f ∧
      (f ∈ usableFrames response → k'.buddy.pageState f = pageStateAllocated) := by
  obtain ⟨slabs, hinv⟩ := run.inv hstart
  obtain ⟨slabs', hinv'⟩ := (trace.run run).inv hstart
  obtain ⟨A', fl', hspace'⟩ := hinv'.space
  have hkeeps := (trace.contained hstart run).keeps
  constructor
  · intro v w hmapped hnear phys flags
    -- the page has a translation, so there is a page table for it
    cases hwalk : k.table cr3 (vpn v).tablePath with
    | none =>
      have hleaf := AddressSpace.leaf_eq_none (hinv.vmm.notHuge (vpn v)) hwalk
      have hview : k.pageMap cr3 (vpn v) = g.client.map (vpn v) := congrFun hinv.vmm.map_eq _
      rw [Kernel.pageMap, hleaf] at hview
      exact absurd hview.symm hmapped
    | some f =>
      have hlater := hkeeps _ f hwalk
      rw [← tablePath_eq hnear] at hlater
      exact ⟨_, hspace'.map_of_table hlater phys flags, rfl⟩
  · rintro f ⟨p, hp⟩
    have htable : k'.IsTable cr3 f := ⟨p, hkeeps p f hp⟩
    refine ⟨htable, fun hU => ?_⟩
    exact hspace'.repr.allocated (hspace'.tables f htable hU).1

end

/-- The neighbour of the page of the local APIC. -/
theorem remap_needs_no_frame_sampleSystem :
    ∃ (k₀ k k' k'' : Kernel) (g g' : Owners), SystemStart sampleMap sampleDirectMap sampleCr3 k₀ ∧
      SystemRun sampleDirectMap sampleCr3 k₀ k g ∧
      SystemTrace sampleDirectMap sampleCr3 ∅ k g k' g' ∧
      vmmMap (some sampleDirectMap) sampleCr3 k' 0xFFFF8000FEE01000 0xFEE01000 3 = .ok (true, k'') ∧
      k''.buddy = k'.buddy := by
  obtain ⟨k₀, k, k', g, g', hstart, run, trace, hdirect⟩ := sampleDevice
  obtain ⟨slabs, hinv⟩ := run.inv hstart
  have hmapped : g.client.map (vpn 0xFFFF8000FEE00000) ≠ none := by
    have hview : k.pageMap sampleCr3 (vpn 0xFFFF8000FEE00000) = g.client.map (vpn 0xFFFF8000FEE00000) :=
      congrFun hinv.vmm.map_eq _
    rw [← hview, show k.pageMap sampleCr3 (vpn 0xFFFF8000FEE00000) = some (0xFEE00, 3) from hdirect]
    exact Option.some_ne_none _
  obtain ⟨k'', hmap, hbuddy⟩ := (remap_needs_no_frame hstart run trace).1 0xFFFF8000FEE00000
    0xFFFF8000FEE01000 hmapped (by decide) 0xFEE01000 3
  exact ⟨k₀, k, k', k'', g, g', hstart, run, trace, hmap, hbuddy⟩

end Yoix
