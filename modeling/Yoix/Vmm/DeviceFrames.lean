import Yoix.Buddy.RejectedFrees
import Yoix.Vmm.Run

/-!
# Frames outside the managed gigabyte

A client may map any address that fits into an entry, for instance the registers of a device.
`vmm_unmap` gives every frame to `buddy_free_page`, which is to ignore those it does not manage.
It compares the number of the frame with the number of managed frames after cutting it to 32
bits: a frame whose number is that of an allocated frame modulo `2 ^ 32` is not ignored, and the
allocated frame is freed in its place.

`DeviceRun` has the runs of a client that maps device memory anywhere and unmaps a page of it
only while no allocated frame stands in for it.
-/

namespace Yoix

open Dyadic

/-- A frame of the client, or any address from 1 GiB on that fits into an entry. -/
def MayMapAny (c : Client) (p flags : Nat) : Prop :=
  flags < 2 ^ 64 ∧ flags &&& pageAddrMask = 0 ∧ p < 2 ^ 52 ∧
    (p / buddyPageSize ∈ c.held ∨ buddyMaxPhys ≤ p)

/-- What `vmm_unmap` frees is the frame of the page, which no other page is mapped to, or
nothing. -/
def UnmapsOwn (k : Kernel) (c : Client) (v : Nat) : Prop :=
  c.map (vpn v) = none ∨ ∃ f, c.Maps (vpn v) f ∧
    (f ∈ c.held → ∀ n, c.Maps n f → n = vpn v) ∧
    (f ∉ c.held → k.buddy.pageState (f % 2 ^ 32) ≠ pageStateAllocated)

inductive DeviceRun (offset cr3 : Nat) (k₀ : Kernel) : Kernel → Client → Prop where
  | start {c : Client} (h : c.Starts cr3 k₀) : DeviceRun offset cr3 k₀ k₀ c
  | alloc {k : Kernel} {c : Client} {a : Nat} {s : Buddy} (run : DeviceRun offset cr3 k₀ k c)
      (h : buddyAllocPage k.buddy = .ok (a, s)) (ha : a ≠ buddyInvalidAddress) :
      DeviceRun offset cr3 k₀ { k with buddy := s } (c.alloc a)
  | allocFail {k : Kernel} {c : Client} {s : Buddy} (run : DeviceRun offset cr3 k₀ k c)
      (h : buddyAllocPage k.buddy = .ok (buddyInvalidAddress, s)) :
      DeviceRun offset cr3 k₀ { k with buddy := s } c
  | map {k k' : Kernel} {c : Client} {v p flags : Nat} {ok : Bool}
      (run : DeviceRun offset cr3 k₀ k c) (hmay : MayMapAny c p flags)
      (h : vmmMap (some offset) cr3 k v p flags = .ok (ok, k')) :
      DeviceRun offset cr3 k₀ k' (if ok then c.mapped v p flags else c)
  | unmap {k k' : Kernel} {c : Client} {v : Nat} {ok : Bool}
      (run : DeviceRun offset cr3 k₀ k c) (hmay : UnmapsOwn k c v)
      (h : vmmUnmap (some offset) cr3 k v = .ok (ok, k')) :
      DeviceRun offset cr3 k₀ k' (if ok then c.unmapped v else c)

/-! ## The invariant

As for other clients, but with device memory at any address that fits an entry, also from `2 ^ 44`
on, where frame numbers no longer fit 32 bits. -/

structure DeviceInv (offset cr3 : Nat) (U : Set Nat) (k : Kernel) (c : Client) : Prop where
  client : ClientSpace offset cr3 U k c
  backed : ∀ n f, c.Maps n f → f ∈ c.held ∨ buddyMaxPages ≤ f

namespace DeviceInv

variable {offset cr3 : Nat} {U : Set Nat} {k : Kernel} {c : Client}

theorem alloc (h : DeviceInv offset cr3 U k c) :
    buddyAllocPage k.buddy = .ok (buddyInvalidAddress, k.buddy) ∨
    ∃ g s, buddyAllocPage k.buddy = .ok (g * buddyPageSize, s) ∧ g < buddyMaxPages ∧
      DeviceInv offset cr3 U { k with buddy := s } (c.alloc (g * buddyPageSize)) := by
  cases h.client.alloc with
  | inl hfail => exact Or.inl hfail
  | inr hsome =>
    obtain ⟨g, s, hrun, hlt, -, hclient⟩ := hsome
    refine Or.inr ⟨g, s, hrun, hlt, hclient, fun n f hmaps => ?_⟩
    cases h.backed n f hmaps with
    | inl hold => exact Or.inl (Set.mem_insert_of_mem _ hold)
    | inr hdevice => exact Or.inr hdevice

/-- Mapping an own frame or any device frame ends and keeps the invariant. -/
theorem map (h : DeviceInv offset cr3 U k c) (v : Nat) {p flags : Nat}
    (hmay : MayMapAny c p flags) :
    ∃ ok k', vmmMap (some offset) cr3 k v p flags = .ok (ok, k') ∧
      DeviceInv offset cr3 U k' (if ok then c.mapped v p flags else c) := by
  obtain ⟨hflags, hbits, hlt, hown⟩ := hmay
  obtain ⟨ok, k', hrun, -, hclient⟩ := h.client.map v hlt hflags hbits
  refine ⟨ok, k', hrun, hclient, ?_⟩
  cases ok with
  | false => exact h.backed
  | true =>
    intro n f hmaps
    cases Client.maps_mapped hmaps with
    | inl hnew =>
      rw [hnew.2]
      apply hown.imp_right
      intro hdevice
      exact Nat.div_le_div_right hdevice
    | inr hold => exact h.backed n f hold.2

/-- Unmapping ends and keeps the invariant, when the frame of the page, as the allocator sees it, is
the client's own or above managed memory. -/
theorem unmap (h : DeviceInv offset cr3 U k c) {v : Nat} (hmay : UnmapsOwn k c v) :
    ∃ ok k', vmmUnmap (some offset) cr3 k v = .ok (ok, k') ∧
      DeviceInv offset cr3 U k' (if ok then c.unmapped v else c) := by
  cases hmay with
  | inl hnone => exact ⟨false, k, h.client.unmap_none hnone, h⟩
  | inr hsome =>
    obtain ⟨f, ⟨-, flags, hmap⟩, halone, hignored⟩ := hsome
    obtain ⟨k', hrun, -, hclient⟩ := h.client.unmap_some hmap
    refine ⟨true, k', hrun, hclient fun hstate => ?_, fun n g hmaps => ?_⟩
    · by_contra hout
      exact hignored hout hstate
    · obtain ⟨hne, hold⟩ := Client.maps_unmapped hmaps
      apply (h.backed n g hold).imp_left
      intro hheld
      refine (Client.mem_held_unmapped hmap g).mpr ⟨hheld, ?_⟩
      rintro rfl
      exact hne (halone hheld n hold)

/-- What `vmm_unmap` does to the page allocator, for a page mapped to a frame it does not
manage. -/
theorem unmap_device (h : DeviceInv offset cr3 U k c) {v f flags : Nat}
    (hmap : c.map (vpn v) = some (f, flags)) (hf : buddyMaxPages ≤ f) :
    ∃ k', vmmUnmap (some offset) cr3 k v = .ok (true, k') ∧
      (k'.buddy = k.buddy ↔ k.buddy.pageState (f % 2 ^ 32) ≠ pageStateAllocated) := by
  obtain ⟨k', hrun, hfree, -⟩ := h.client.unmap_some hmap
  refine ⟨k', hrun, ?_⟩
  have hsame : k'.buddy = k.buddy ↔ buddyFreePages k.buddy (f * buddyPageSize) 1 = .ok k.buddy := by
    rw [show buddyFreePages k.buddy (f * buddyPageSize) 1 = .ok k'.buddy from hfree,
      Except.ok.injEq]
  have hframe : freedFrame (f * buddyPageSize) = f % 2 ^ 32 := by
    rw [freedFrame, Nat.mul_div_cancel f (by decide)]
  rw [hsame, buddyFreePages_eq_self_iff, Ignored, hframe]
  -- of the checks only the last two can reject a page from 1 GiB on
  have hzero : f * buddyPageSize ≠ 0 := by
    simp only [buddyMaxPages, buddyMaxPhys, buddyPageSize] at hf ⊢
    omega
  have hpage : f * buddyPageSize % buddyPageSize = 0 := Nat.mul_mod_left _ _
  have hrange : buddyMaxPages ≤ f % 2 ^ 32 →
      k.buddy.pageState (f % 2 ^ 32) ≠ pageStateAllocated := by
    intro hle hstate
    obtain ⟨A, fl, hspace⟩ := h.client.space
    rw [hspace.repr.state_allocated_iff] at hstate
    exact Nat.not_lt.mpr hle (hspace.repr.usable_lt (hspace.repr.alloc_sub hstate))
  constructor
  · rintro (hnull | hnone | hcut | hle | hstate)
    · exact absurd hnull hzero
    · exact absurd hnone (by decide)
    · exact absurd hpage hcut
    · exact hrange hle
    · exact hstate
  · exact fun hstate => Or.inr (Or.inr (Or.inr (Or.inr hstate)))

end DeviceInv

/-- Every state of a run satisfies the invariant. Induction on the run, with one lemma for each
call. -/
theorem DeviceRun.inv {response : Option MemmapResponse} {offset cr3 : Nat} {k₀ k : Kernel}
    {c : Client} (h : InitialSpace response offset cr3 k₀) (run : DeviceRun offset cr3 k₀ k c) :
    DeviceInv offset cr3 (usableFrames response) k c := by
  induction run with
  -- nothing has been mapped yet
  | start hc =>
    refine ⟨(h.inv hc).client, fun n f hmaps => ?_⟩
    rw [Client.Maps, hc.written] at hmaps
    exact absurd hmaps.1 (Set.notMem_empty n)
  | alloc _ hrun ha ih =>
    cases ih.alloc with
    | inl hfail => exact absurd (ok_unique_pair hrun hfail).1 ha
    | inr hsome =>
      obtain ⟨g, s, hrun', -, hinv⟩ := hsome
      obtain ⟨rfl, rfl⟩ := ok_unique_pair hrun hrun'
      exact hinv
  | allocFail _ hrun ih =>
    cases ih.alloc with
    | inl hfail =>
      obtain ⟨-, rfl⟩ := ok_unique_pair hrun hfail
      exact ih
    | inr hsome =>
      obtain ⟨g, s, hrun', hlt, -⟩ := hsome
      exact absurd (ok_unique_pair hrun hrun').1.symm
        (addr_ne_invalid hlt)
  | map _ hmay hrun ih =>
    obtain ⟨ok, k', hrun', hinv⟩ := ih.map _ hmay
    obtain ⟨rfl, rfl⟩ := ok_unique_pair hrun hrun'
    exact hinv
  | unmap _ hmay hrun ih =>
    obtain ⟨ok, k', hrun', hinv⟩ := ih.unmap hmay
    obtain ⟨rfl, rfl⟩ := ok_unique_pair hrun hrun'
    exact hinv

/-! ## High frees

A free at an address above managed memory is ignored as long as its frame number, cut to 32 bits, is
above it too. -/

/-- **A free from 1 GiB on changes nothing exactly when no allocated frame has its number modulo
`2 ^ 32`.** The first part is about `buddy_free_pages` in every state of its arrays; the second
about `vmm_unmap` of a page mapped to device memory, in every state of every run. -/
theorem high_frees_ignored_iff (s : Buddy) (response : Option MemmapResponse) :
    (∀ a n, buddyMaxPhys ≤ a →
      (buddyFreePages s a n = .ok s ↔
        n = 0 ∨ a % buddyPageSize ≠ 0 ∨ buddyMaxPages ≤ freedFrame a ∨
          s.pageState (freedFrame a) ≠ pageStateAllocated)) ∧
    ∀ offset cr3 k₀ k c, InitialSpace response offset cr3 k₀ → DeviceRun offset cr3 k₀ k c →
      ∀ v f flags, c.map (vpn v) = some (f, flags) → buddyMaxPages ≤ f →
      ∃ k', vmmUnmap (some offset) cr3 k v = .ok (true, k') ∧
        (k'.buddy = k.buddy ↔ k.buddy.pageState (f % 2 ^ 32) ≠ pageStateAllocated) := by
  constructor
  · intro a n ha
    rw [buddyFreePages_eq_self_iff, Ignored]
    have hzero : a ≠ 0 := by
      simp only [buddyMaxPhys] at ha
      omega
    tauto
  · intro offset cr3 k₀ k c h run v f flags hmap hf
    exact (run.inv h).unmap_device hmap hf

/-- The client of the samples maps `p` at `0x5000`, after it has taken the page at `0x1000`. -/
theorem sampleDeviceRun {p : Nat} (hlt : p < 2 ^ 52) (hdevice : buddyMaxPhys ≤ p) :
    ∃ k₀ k k₁ c, InitialSpace sampleMap sampleDirectMap sampleCr3 k₀ ∧
      DeviceRun sampleDirectMap sampleCr3 k₀ k c ∧
      vmmMap (some sampleDirectMap) sampleCr3 k 0x5000 p 3 = .ok (true, k₁) ∧
      BuddyRun sampleMap k₁.buddy [⟨1, 0⟩] ∧
      DeviceRun sampleDirectMap sampleCr3 k₀ k₁ (c.mapped 0x5000 p 3) := by
  obtain ⟨s₀, s, hspace, hstart, halloc, hbuddy⟩ := sampleBoot
  have run : DeviceRun sampleDirectMap sampleCr3 (sampleTables s₀) (sampleTables s)
      ((sampleClient s₀).alloc 0x1000) := .alloc (.start hstart) halloc (by decide)
  have hmap := ((hasSampleTables_sampleTables s).leadsTo (show 0x5000 < 2 ^ 21 by decide)).vmmMap_eq
    sampleDirectMap_ok.offset_lt p 3
  exact ⟨_, _, _, _, hspace, run, hmap, hbuddy,
    run.map ⟨by decide, by decide, hlt, Or.inr hdevice⟩ hmap⟩

/-- The registers of an IOAPIC at `0xFEC00000`, mapped at `0x5000` and unmapped again: the allocator
is as before. -/
theorem high_frees_ignored_iff_sampleTables :
    ∃ k₀ k c k', InitialSpace sampleMap sampleDirectMap sampleCr3 k₀ ∧
      DeviceRun sampleDirectMap sampleCr3 k₀ k c ∧ c.map (vpn 0x5000) = some (0xFEC00, 3) ∧
      vmmUnmap (some sampleDirectMap) sampleCr3 k 0x5000 = .ok (true, k') ∧ k'.buddy = k.buddy ∧
      buddyFreePages k.buddy 0xFEC00000 4 = .ok k.buddy := by
  have hdevice : buddyMaxPhys ≤ 0xFEC00000 := by decide
  obtain ⟨k₀, -, k, c, hspace, -, -, hbuddy, run⟩ := sampleDeviceRun (by decide) hdevice
  obtain ⟨hfree, hunmap⟩ := high_frees_ignored_iff k.buddy sampleMap
  have hmap : (c.mapped 0x5000 0xFEC00000 3).map (vpn 0x5000) = some (0xFEC00, 3) :=
    c.map_mapped 0x5000 0xFEC00000 (by decide)
  obtain ⟨k', hrun, hiff⟩ := hunmap _ _ _ _ _ hspace run _ _ _ hmap (by decide)
  obtain ⟨fl, hinv, -⟩ := hbuddy.inv sampleMap_ok
  -- frame `0xFEC00` is not managed, so it is not allocated
  have hstate : k.buddy.pageState (0xFEC00 % 2 ^ 32) ≠ pageStateAllocated := by
    rw [ne_eq, hinv.state_allocated_iff]
    rintro ⟨b, hb, hin⟩
    obtain rfl := List.mem_singleton.mp hb
    exact absurd hin.2 (by decide)
  refine ⟨k₀, k, _, k', hspace, run, hmap, hrun, hiff.mpr hstate, ?_⟩
  exact (hfree 0xFEC00000 4 hdevice).mpr (Or.inr (Or.inr (Or.inl (by decide))))

/-- A page mapped to `2 ^ 44 + 0x1000`: unmapping it frees the allocated frame 1. -/
theorem aliased_frame_freed :
    ∃ k₀ k k₁ k₂ c, InitialSpace sampleMap sampleDirectMap sampleCr3 k₀ ∧
      DeviceRun sampleDirectMap sampleCr3 k₀ k c ∧
      vmmMap (some sampleDirectMap) sampleCr3 k 0x5000 (2 ^ 44 + 0x1000) 3 = .ok (true, k₁) ∧
      vmmUnmap (some sampleDirectMap) sampleCr3 k₁ 0x5000 = .ok (true, k₂) ∧
      BuddyRun sampleMap k₁.buddy [⟨1, 0⟩] ∧
      buddyFreePages k₁.buddy (2 ^ 44 + 0x1000) 1 = .ok k₂.buddy ∧ k₂.buddy ≠ k₁.buddy := by
  obtain ⟨k₀, k, k₁, c, hspace, run, hmapped, hbuddy, run₁⟩ :=
    sampleDeviceRun (p := 2 ^ 44 + 0x1000) (by decide) (by decide)
  have hinv := run₁.inv hspace
  have hmap : (c.mapped 0x5000 (2 ^ 44 + 0x1000) 3).map (vpn 0x5000) = some (2 ^ 32 + 1, 3) :=
    c.map_mapped 0x5000 (2 ^ 44 + 0x1000) (by decide)
  obtain ⟨k₂, hrun, hiff⟩ := hinv.unmap_device hmap (by decide)
  obtain ⟨k₂', hrun', hfree, -⟩ := hinv.client.unmap_some hmap
  obtain ⟨-, rfl⟩ := ok_unique_pair hrun hrun'
  refine ⟨k₀, k, k₁, k₂, c, hspace, run, hmapped, hrun, hbuddy, hfree, fun hsame => ?_⟩
  obtain ⟨fl, hlive, -⟩ := hbuddy.inv sampleMap_ok
  have hone : 1 ∈ framesOf [⟨1, 0⟩] := ⟨⟨1, 0⟩, List.mem_singleton.mpr rfl, by decide, by decide⟩
  exact hiff.mp hsame ((hlive.state_allocated_iff 1).mpr hone)

end Yoix
