import Yoix.Vmm.Run

/-!
# The page tables refine a finite map

Over every run of a client that maps each of its frames at one page at a time, the tables hold
exactly the map that the client has built: lookups read it, a successful `vmm_map` adds one
entry to it, `vmm_unmap` removes one, and a `vmm_map` that runs out of frames leaves it alone.
-/

namespace Yoix

open Dyadic Memory

/-- The answer of the finite map to a lookup of `v`. -/
def Client.phys (c : Client) (v : Nat) : Nat :=
  match c.map (vpn v) with
  | none => buddyInvalidAddress
  | some (f, _) => f * buddyPageSize + v % buddyPageSize

/-- `vmm_get_phys` looks the page up in the client's map. -/
theorem VmmInv.getPhys {offset cr3 : Nat} {U : Set Nat} {k : Kernel} {c : Client}
    (h : VmmInv offset cr3 U k c) (v : Nat) :
    vmmGetPhys (some offset) cr3 k v = .ok (c.phys v) := by
  obtain ⟨A, fl, hspace⟩ := h.space
  rw [hspace.getPhys (h.notHuge (vpn v)), Client.phys, ← h.map_eq, Kernel.pageMap]
  cases k.leaf cr3 (vpn v) with
  | none => rfl
  | some r => rfl

/-- **The page tables refine a finite map.** In every state of every run the tables hold the
client's map, `vmm_get_phys` looks it up, a `vmm_map` that succeeds adds its entry, one that
fails changes nothing and only happens when no frame is free, and `vmm_unmap` returns whether
the page was mapped and removes it. -/
theorem refines_finite_map {response : Option MemmapResponse} {offset cr3 : Nat}
    {k₀ k : Kernel} {c : Client} (h : InitialSpace response offset cr3 k₀)
    (run : VmmRun onePage offset cr3 k₀ k c) :
    k.pageMap cr3 = c.map ∧
    (∀ v, vmmGetPhys (some offset) cr3 k v = .ok (c.phys v)) ∧
    (∀ v p flags, onePage.mayMap c v p flags →
      ∃ ok k', vmmMap (some offset) cr3 k v p flags = .ok (ok, k') ∧
        k'.pageMap cr3 = (if ok then
          Function.update c.map (vpn v) (some (p / buddyPageSize, flags)) else c.map) ∧
        (ok = false → ∀ f, ¬ k'.buddy.FreeFrame f)) ∧
    (∀ v, onePage.mayUnmap c v →
      ∃ k', vmmUnmap (some offset) cr3 k v = .ok ((c.map (vpn v)).isSome, k') ∧
        k'.pageMap cr3 = Function.update c.map (vpn v) none) ∧
    (∃ r, buddyAllocPage k.buddy = .ok r) := by
  -- under this policy no shared frame is unmapped, so the invariant of those runs applies
  obtain ⟨run', hone⟩ := run.toNotShared h
  have hinv := run'.inv h
  refine ⟨hinv.map_eq, hinv.getPhys, fun v p flags hmay => ?_, fun v hmay => ?_, ?_⟩
  · obtain ⟨ok, k', hrun, hfull, hinv'⟩ := hinv.map v hmay.1
    refine ⟨ok, k', hrun, ?_, hfull⟩
    rw [hinv'.map_eq]
    cases ok with
    | false => rfl
    | true =>
      show Function.update c.map (vpn v) _ = _
      rw [if_neg hmay.2.1]
      rfl
  · obtain ⟨k', hrun, hinv'⟩ := hinv.unmap (hone.mayUnmap hmay)
    refine ⟨k', hrun, ?_⟩
    rw [hinv'.map_eq]
    cases hmap : c.map (vpn v) with
    | none => exact (Function.update_eq_self_iff.mpr hmap.symm).symm
    | some r => rfl
  · cases hinv.alloc with
    | inl hfail => exact ⟨_, hfail⟩
    | inr hsome =>
      obtain ⟨g, s, hrun, -⟩ := hsome
      exact ⟨_, hrun⟩

/-- A page that was taken and mapped at `0x5000` is found there, with the offset inside the page. -/
theorem refines_finite_map_sampleTables :
    ∃ k₀ k c, InitialSpace sampleMap sampleDirectMap sampleCr3 k₀ ∧
      VmmRun onePage sampleDirectMap sampleCr3 k₀ k c ∧
      vmmGetPhys (some sampleDirectMap) sampleCr3 k 0x5123 = .ok 0x1123 := by
  obtain ⟨s₀, s, hspace, -, run⟩ := sampleRun onePage
  have hleads := (hasSampleTables_sampleTables s).leadsTo (show 0x5000 < 2 ^ 21 by decide)
  have hmay : onePage.mayMap ((sampleClient s₀).alloc 0x1000) 0x5000 0x1000 3 :=
    ⟨⟨by decide, by decide, Or.inl (Or.inl rfl)⟩, by decide,
      fun _ n hmaps => absurd hmaps.1 (Set.notMem_empty n)⟩
  have run' := run.map hmay (hleads.vmmMap_eq sampleDirectMap_ok.offset_lt 0x1000 3)
  have hphys := (refines_finite_map hspace run').2.1 0x5123
  refine ⟨_, _, _, hspace, run', hphys.trans ?_⟩
  show Except.ok ((((sampleClient s₀).alloc 0x1000).mapped 0x5000 0x1000 3).phys 0x5123) = _
  rw [Client.phys, show vpn 0x5123 = vpn 0x5000 by decide, Client.map_mapped _ _ _ (by decide)]
  rfl

end Yoix
