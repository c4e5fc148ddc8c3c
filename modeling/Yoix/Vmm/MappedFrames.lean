import Yoix.Vmm.Run

/-!
# Mapped frames and the page allocator

`vmm_unmap` gives the frame of the page back to the page allocator, whoever else refers to it.
A client that unmaps a frame only where no other page is mapped to it, and that puts no address
bits into the flags, therefore never sees a table or a mapped frame among the free ones; a
client that does either of the two may.
-/

namespace Yoix

open Dyadic Memory

/-- No table and no frame that a present entry written by `vmm_map` refers to is free. -/
def NothingMappedIsFree (cr3 : Nat) (k : Kernel) (c : Client) : Prop :=
  (∀ f, k.IsTable cr3 f → ¬ k.buddy.FreeFrame f) ∧
    ∀ n ∈ c.written, ∀ f flags, k.pageMap cr3 n = some (f, flags) → ¬ k.buddy.FreeFrame f

/-- **No mapped or table frame is free.** In every state of every run of a client that does not
unmap shared frames, and every call of such a client ends. -/
theorem nothing_mapped_is_free {response : Option MemmapResponse} {offset cr3 : Nat}
    {k₀ k : Kernel} {c : Client} (h : InitialSpace response offset cr3 k₀)
    (run : VmmRun notShared offset cr3 k₀ k c) :
    NothingMappedIsFree cr3 k c ∧
    (∃ r, buddyAllocPage k.buddy = .ok r) ∧
    (∀ v p flags, notShared.mayMap c v p flags →
      ∃ r, vmmMap (some offset) cr3 k v p flags = .ok r) ∧
    (∀ v, notShared.mayUnmap c v → ∃ r, vmmUnmap (some offset) cr3 k v = .ok r) := by
  have hinv := run.inv h
  obtain ⟨A, fl, hspace⟩ := hinv.space
  refine ⟨⟨fun f hf hfree => ?_, fun n hn f flags hmap hfree => ?_⟩, ?_, fun v p flags hmay => ?_,
    fun v hmay => ?_⟩
  · obtain ⟨hU, hA⟩ := (hspace.repr.freeFrame_iff f).mp hfree
    exact hA (hspace.tables f hf hU).1
  · obtain ⟨hU, hA⟩ := (hspace.repr.freeFrame_iff f).mp hfree
    rw [hinv.map_eq] at hmap
    cases hinv.backed n f ⟨hn, flags, hmap⟩ with
    | inl hheld => exact hA (hspace.held_sub hheld)
    | inr hdevice => exact Nat.not_le.mpr (hspace.repr.usable_lt hU) hdevice.1
  · cases hinv.alloc with
    | inl hfail => exact ⟨_, hfail⟩
    | inr hsome =>
      obtain ⟨g, s, hrun, -⟩ := hsome
      exact ⟨_, hrun⟩
  · obtain ⟨ok, k', hrun, -⟩ := hinv.map v hmay
    exact ⟨_, hrun⟩
  · obtain ⟨k', hrun, -⟩ := hinv.unmap hmay
    exact ⟨_, hrun⟩

/-! ## Clients that share

A frame that is mapped twice is freed by the first unmap, and flags with address bits in them map a
frame that is nobody's. Both are what the code does by design. -/

/-- A client that maps any frame it holds and unmaps any page it mapped. -/
def sharing : Policy where
  mayMap c _ p flags := flags < 2 ^ 64 ∧ p / buddyPageSize ∈ c.held
  mayUnmap c v := vpn v ∈ c.written

/-- A page of the sample that is mapped at `0x5000`. -/
theorem nothing_mapped_is_free_sampleTables :
    ∃ k₀ k c, InitialSpace sampleMap sampleDirectMap sampleCr3 k₀ ∧
      VmmRun notShared sampleDirectMap sampleCr3 k₀ k c ∧ c.Maps (vpn 0x5000) 1 ∧
      NothingMappedIsFree sampleCr3 k c := by
  obtain ⟨s₀, s, hspace, -, run⟩ := sampleRun notShared
  have hleads := (hasSampleTables_sampleTables s).leadsTo (show 0x5000 < 2 ^ 21 by decide)
  have hmay : notShared.mayMap ((sampleClient s₀).alloc 0x1000) 0x5000 0x1000 3 :=
    ⟨by decide, by decide, Or.inl (Or.inl rfl)⟩
  have run' := run.map hmay (hleads.vmmMap_eq sampleDirectMap_ok.offset_lt 0x1000 3)
  exact ⟨_, _, _, hspace, run', ⟨Or.inl rfl, 3, Client.map_mapped _ _ _ (by decide)⟩,
    (nothing_mapped_is_free hspace run').1⟩

/-- A frame mapped at two pages is free after the first `vmm_unmap`, while the other page still
maps it. -/
theorem shared_frame_freed :
    ∃ k₀ k c, InitialSpace sampleMap sampleDirectMap sampleCr3 k₀ ∧
      VmmRun sharing sampleDirectMap sampleCr3 k₀ k c ∧ vpn 0x6000 ∈ c.written ∧
      k.pageMap sampleCr3 (vpn 0x6000) = some (1, 3) ∧ k.buddy.FreeFrame 1 := by
  have hlt := sampleDirectMap_ok.offset_lt
  obtain ⟨s₀, s, hspace, hbuddy, run⟩ := sampleRun sharing
  obtain ⟨fl, hinv, -⟩ := hbuddy.inv sampleMap_ok
  obtain ⟨s', hfree, hinv'⟩ := hinv.free (b := ⟨1, 0⟩) (n := 1) (by decide)
    ⟨by decide, by decide⟩ (by decide)
  have htables := hasSampleTables_sampleTables s
  have htables₁ := htables.putEntry (vpn 0x5000).index (show 0x1003 < 2 ^ 64 by decide)
  have htables₂ := htables₁.putEntry (vpn 0x6000).index (show 0x1003 < 2 ^ 64 by decide)
  have htables₃ := htables₂.putEntry (vpn 0x5000).index (show 0 < 2 ^ 64 by decide)
  have run₁ := run.map (v := 0x5000) (p := 0x1000) ⟨by decide, Or.inl rfl⟩
    ((htables.leadsTo (by decide)).vmmMap_eq hlt 0x1000 3)
  have run₂ := run₁.map (v := 0x6000) (p := 0x1000) ⟨by decide, Or.inl rfl⟩
    ((htables₁.leadsTo (by decide)).vmmMap_eq hlt 0x1000 3)
  have hentry : entries (((sampleTables s).putEntry 19 (vpn 0x5000).index 0x1003).putEntry 19
      (vpn 0x6000).index 0x1003).mem 19 (vpn 0x5000).index = 0x1003 := by
    rw [entries_putEntry _ _ _ (by decide), entries_putEntry _ _ _ (by decide), Radix.set,
      if_neg (by decide), Radix.set_self]
  have run₃ := run₂.unmap (v := 0x5000) (Or.inr (Or.inl rfl))
    ((htables₂.leadsTo (by decide)).vmmUnmap_eq hlt (by rw [hentry]; decide)
      (by rw [hentry]; exact hfree))
  refine ⟨_, _, _, hspace, run₃, ⟨Or.inl rfl, by decide⟩, ?_, ?_⟩
  · apply htables₃.pageMap (e := 0x1003) (by decide) _ (by decide)
    rw [entries_putEntry _ _ _ (by decide), entries_putEntry _ _ _ (by decide), Radix.set,
      if_neg (by decide), Radix.set_self]
  · apply (hinv'.repr.freeFrame_iff 1).mpr
    refine ⟨hinv.frames_sub List.mem_cons_self (base_mem_block 1 0), ?_⟩
    rintro ⟨b, hb, -⟩
    exact absurd hb List.not_mem_nil

/-- Flags with address bits make the entry refer to another frame than the client's. -/
theorem flags_map_free_frame :
    ∃ k₀ k c, InitialSpace sampleMap sampleDirectMap sampleCr3 k₀ ∧
      VmmRun sharing sampleDirectMap sampleCr3 k₀ k c ∧ vpn 0x5000 ∈ c.written ∧
      k.pageMap sampleCr3 (vpn 0x5000) = some (3, 1) ∧ k.buddy.FreeFrame 3 := by
  obtain ⟨s₀, s, hspace, hbuddy, run⟩ := sampleRun sharing
  obtain ⟨fl, hinv, -⟩ := hbuddy.inv sampleMap_ok
  have htables := hasSampleTables_sampleTables s
  have htables₁ := htables.putEntry (vpn 0x5000).index (show 0x3001 < 2 ^ 64 by decide)
  have run₁ := run.map (v := 0x5000) (p := 0x1000) ⟨by decide, Or.inl rfl⟩
    ((htables.leadsTo (by decide)).vmmMap_eq sampleDirectMap_ok.offset_lt 0x1000 0x2001)
  refine ⟨_, _, _, hspace, run₁, Or.inl rfl, ?_, ?_⟩
  · apply htables₁.pageMap (e := 0x3001) (by decide) _ (by decide)
    rw [entries_putEntry _ _ _ (by decide), Radix.set_self]
  · apply (hinv.repr.freeFrame_iff 3).mpr
    refine ⟨⟨⟨0x1000, 0x5000, 0⟩, List.mem_cons_self, by decide, by decide, by decide⟩, ?_⟩
    rintro ⟨b, hb, hin⟩
    obtain rfl := List.mem_singleton.mp hb
    exact absurd hin.2 (by decide)

/-- Both ways in which a mapped frame can be free. -/
theorem mapped_frame_free :
    (∃ k₀ k c, InitialSpace sampleMap sampleDirectMap sampleCr3 k₀ ∧
      VmmRun sharing sampleDirectMap sampleCr3 k₀ k c ∧ vpn 0x6000 ∈ c.written ∧
      k.pageMap sampleCr3 (vpn 0x6000) = some (1, 3) ∧ k.buddy.FreeFrame 1) ∧
    (∃ k₀ k c, InitialSpace sampleMap sampleDirectMap sampleCr3 k₀ ∧
      VmmRun sharing sampleDirectMap sampleCr3 k₀ k c ∧ vpn 0x5000 ∈ c.written ∧
      k.pageMap sampleCr3 (vpn 0x5000) = some (3, 1) ∧ k.buddy.FreeFrame 3) :=
  ⟨shared_frame_freed, flags_map_free_frame⟩

end Yoix
