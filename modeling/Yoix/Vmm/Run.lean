import Yoix.Vmm.HugePages
import Mathlib.Logic.Function.Basic

/-!
# Runs of the page-table code

A client takes pages from the page allocator, maps frames it holds or frames of device memory,
and unmaps pages. `Client` records what it knows: the frames it holds, the pages whose entry it
wrote, and the map from virtual pages to frames and flags that it has built. A `Policy` says
which calls it may make.

`VmmInv` connects the client's view to the machine: its map is the one the tables hold, and what
it has mapped is a frame it holds or device memory. Every call that `notShared` allows ends and
keeps it (`VmmRun.inv`); `onePage` allows fewer calls (`VmmRun.toNotShared`).
-/

namespace Yoix

open Dyadic Memory

/-- The finite map that the tables hold: for each translated page its frame and flags. -/
def Kernel.pageMap (cr3 : Nat) (k : Kernel) (n : Vpn) : Option (Nat × Nat) :=
  (k.leaf cr3 n).map fun (_, e) => (frameOf e, flagsOf e)

/-! ## Clients

A client holds the frames it has got from the allocator, and keeps a record of the map it has built
and of the pages it has written itself. -/

structure Client where
  held : Set Nat
  written : Set Vpn
  map : Vpn → Option (Nat × Nat)

namespace Client

/-- After `buddy_alloc_page` has returned `a`. -/
def alloc (c : Client) (a : Nat) : Client := { c with held := insert (a / buddyPageSize) c.held }

/-- After `vmm_map(v, p, flags)` has returned true. -/
def mapped (c : Client) (v p flags : Nat) : Client :=
  { c with
    written := insert (vpn v) c.written
    map := Function.update c.map (vpn v)
      (if flags &&& pagePresent = 0 then none else some (p / buddyPageSize, flags)) }

/-- After `vmm_unmap(v)` has returned true. The frame has gone back to the page allocator. -/
def unmapped (c : Client) (v : Nat) : Client where
  held := { f ∈ c.held | ∀ flags, c.map (vpn v) ≠ some (f, flags) }
  written := c.written \ {vpn v}
  map := Function.update c.map (vpn v) none

/-- The page is mapped to `f` by the client. -/
def Maps (c : Client) (n : Vpn) (f : Nat) : Prop :=
  n ∈ c.written ∧ ∃ flags, c.map n = some (f, flags)

/-- A frame the client may map: one it holds, or one between 1 GiB and `2 ^ 44`. -/
def Mappable (c : Client) (f : Nat) : Prop := f ∈ c.held ∨ buddyMaxPages ≤ f ∧ f < 2 ^ 32

theorem map_mapped (c : Client) (v p : Nat) {flags : Nat} (h : flags &&& pagePresent ≠ 0) :
    (c.mapped v p flags).map (vpn v) = some (p / buddyPageSize, flags) := by
  show Function.update c.map (vpn v) _ (vpn v) = _
  rw [Function.update_self, if_neg h]

/-- After a map the client maps what it mapped, and else what it mapped before at other pages. -/
theorem maps_mapped {c : Client} {v p flags f : Nat} {n : Vpn}
    (h : (c.mapped v p flags).Maps n f) :
    n = vpn v ∧ f = p / buddyPageSize ∨ n ≠ vpn v ∧ c.Maps n f := by
  obtain ⟨hin, fl, hmap⟩ := h
  replace hmap : Function.update c.map (vpn v) _ n = some (f, fl) := hmap
  rw [Function.update_apply] at hmap
  split at hmap
  · next heq =>
    split at hmap
    · exact absurd hmap (by simp)
    · exact Or.inl ⟨heq, (Prod.mk.inj (Option.some.inj hmap)).1.symm⟩
  · next hne => exact Or.inr ⟨hne, hin.resolve_left hne, fl, hmap⟩

/-- After an unmap the client maps what it mapped before at other pages. -/
theorem maps_unmapped {c : Client} {v f : Nat} {n : Vpn} (h : (c.unmapped v).Maps n f) :
    n ≠ vpn v ∧ c.Maps n f := by
  obtain ⟨⟨hin, hne⟩, fl, hmap⟩ := h
  replace hmap : Function.update c.map (vpn v) none n = some (f, fl) := hmap
  rw [Function.update_of_ne hne] at hmap
  exact ⟨hne, hin, fl, hmap⟩

/-- With the page its frame is given back, and no other frame. -/
theorem mem_held_unmapped {c : Client} {v f flags : Nat} (hmap : c.map (vpn v) = some (f, flags))
    (g : Nat) : g ∈ (c.unmapped v).held ↔ g ∈ c.held ∧ g ≠ f := by
  constructor
  · intro hg
    exact ⟨hg.1, fun heq => hg.2 flags (heq ▸ hmap)⟩
  · intro hg
    exact ⟨hg.1, fun fl heq =>
      hg.2 (Prod.mk.inj (Option.some.inj (hmap.symm.trans heq))).1.symm⟩

/-- The client has mapped nothing yet and holds allocated frames. -/
structure Starts (c : Client) (cr3 : Nat) (k : Kernel) : Prop where
  held : ∀ f ∈ c.held, k.buddy.pageState f = pageStateAllocated
  written : c.written = ∅
  map : c.map = k.pageMap cr3

end Client

/-- The calls a client may make. -/
structure Policy where
  mayMap : Client → Nat → Nat → Nat → Prop
  mayUnmap : Client → Nat → Prop

/-- The flags are flags, and the frame is held or lies in device memory. -/
def MayMap (c : Client) (p flags : Nat) : Prop :=
  flags < 2 ^ 64 ∧ flags &&& pageAddrMask = 0 ∧
    (p / buddyPageSize ∈ c.held ∨ 2 ^ 30 ≤ p ∧ p < 2 ^ 44)

/-- A held frame is mapped at one page at a time. -/
def onePage : Policy where
  mayMap c v p flags := MayMap c p flags ∧ flags &&& pagePresent ≠ 0 ∧
    (p / buddyPageSize ∈ c.held → ∀ n, c.Maps n (p / buddyPageSize) → n = vpn v)
  mayUnmap c v := vpn v ∈ c.written ∨ c.map (vpn v) = none

/-- A held frame is unmapped only where no other page is mapped to it. -/
def notShared : Policy where
  mayMap c _ p flags := MayMap c p flags
  mayUnmap c v := c.map (vpn v) = none ∨
    ∃ f, c.Maps (vpn v) f ∧ (f ∈ c.held → ∀ n, c.Maps n f → n = vpn v)

/-- The runs of a client from `k₀` on. -/
inductive VmmRun (policy : Policy) (offset cr3 : Nat) (k₀ : Kernel) : Kernel → Client → Prop where
  | start {c : Client} (h : c.Starts cr3 k₀) : VmmRun policy offset cr3 k₀ k₀ c
  | alloc {k : Kernel} {c : Client} {a : Nat} {s : Buddy} (run : VmmRun policy offset cr3 k₀ k c)
      (h : buddyAllocPage k.buddy = .ok (a, s)) (ha : a ≠ buddyInvalidAddress) :
      VmmRun policy offset cr3 k₀ { k with buddy := s } (c.alloc a)
  | allocFail {k : Kernel} {c : Client} {s : Buddy} (run : VmmRun policy offset cr3 k₀ k c)
      (h : buddyAllocPage k.buddy = .ok (buddyInvalidAddress, s)) :
      VmmRun policy offset cr3 k₀ { k with buddy := s } c
  | map {k k' : Kernel} {c : Client} {v p flags : Nat} {ok : Bool}
      (run : VmmRun policy offset cr3 k₀ k c) (hmay : policy.mayMap c v p flags)
      (h : vmmMap (some offset) cr3 k v p flags = .ok (ok, k')) :
      VmmRun policy offset cr3 k₀ k' (if ok then c.mapped v p flags else c)
  | unmap {k k' : Kernel} {c : Client} {v : Nat} {ok : Bool}
      (run : VmmRun policy offset cr3 k₀ k c) (hmay : policy.mayUnmap c v)
      (h : vmmUnmap (some offset) cr3 k v = .ok (ok, k')) :
      VmmRun policy offset cr3 k₀ k' (if ok then c.unmapped v else c)

/-! ## The first state

Nothing is assumed of what the bootloader has mapped, except that no huge page is among it. -/

/-- What is assumed of the bootloader: a tree of tables without huge pages, outside the managed
memory and inside the direct map, beside a page allocator in the middle of a run. -/
structure InitialSpace (response : Option MemmapResponse) (offset cr3 : Nat) (k : Kernel) :
    Prop where
  memmap : MemmapOk response
  run : ∃ live, BuddyRun response k.buddy live
  direct : DirectMap offset
  noHuge : ∀ p f i, k.table cr3 p = some f → 1 ≤ p.length → p.length ≤ 2 →
    entries k.mem f i &&& pagePresent ≠ 0 → entries k.mem f i &&& pageHuge = 0
  unshared : Radix.Unshared pageChild (entries k.mem) (frameOf cr3)
  unmanaged : ∀ f, k.IsTable cr3 f → f ∉ usableFrames response
  mapped : ∀ f, k.IsTable cr3 f → tablePtr offset f ≠ 0

/-- No walk from the root meets a huge page. -/
theorem InitialSpace.notHuge {response : Option MemmapResponse} {offset cr3 : Nat} {k : Kernel}
    (h : InitialSpace response offset cr3 k) (n : Vpn) : k.NotHuge cr3 n := by
  intro d e hleaf
  obtain ⟨p, i, f, hpre, hp, hstop, hr⟩ := Radix.exists_of_find hleaf
  rw [Nat.zero_add] at hstop hr
  have hlen : p.length ≤ 3 := by
    have hle := hpre.length_le
    rw [List.length_append] at hle
    exact Nat.le_of_succ_le_succ hle
  obtain ⟨hpresent, hentry⟩ := pageLeaf_eq_some hr
  obtain ⟨rfl, -⟩ := Prod.mk.inj hentry
  unfold pageChild at hstop
  split at hstop
  · next hcond =>
    -- a present entry ends the walk in a page table, or as a huge page
    rcases hcond with habsent | hdepth | ⟨hdepth, hhuge⟩
    · exact absurd habsent hpresent
    · omega
    · by_contra hne
      exact hhuge (h.noHuge p f i hp hdepth (by omega) hpresent)
  · exact absurd hstop (by simp)

/-! ## The invariant of a run

The tables hold the client's map, the frames of the tables, of the client and the free ones are
different, and what the client has mapped is its own or device memory. -/

/-- What connects the client's view to the machine. -/
structure VmmInv (offset cr3 : Nat) (U : Set Nat) (k : Kernel) (c : Client) : Prop where
  space : ∃ A fl, AddressSpace offset cr3 U A c.held fl k
  notHuge : ∀ n, k.NotHuge cr3 n
  map_eq : k.pageMap cr3 = c.map
  backed : ∀ n f, c.Maps n f → c.Mappable f

/-- A client that starts in the first state satisfies the invariant: it has written nothing yet, and
its map is what the tables hold. -/
theorem InitialSpace.inv {response : Option MemmapResponse} {offset cr3 : Nat} {k : Kernel}
    (h : InitialSpace response offset cr3 k) {c : Client} (hc : c.Starts cr3 k) :
    VmmInv offset cr3 (usableFrames response) k c := by
  obtain ⟨live, run⟩ := h.run
  obtain ⟨fl, hinv, -⟩ := run.inv h.memmap
  refine ⟨⟨framesOf live, fl, h.direct, hinv.repr, fun f hf => ?_, h.unshared, fun f hf hU => ?_,
    h.mapped⟩, h.notHuge, hc.map.symm, fun n f hmaps => ?_⟩
  · exact (hinv.state_allocated_iff f).mp (hc.held f hf)
  · exact absurd hU (h.unmanaged f hf)
  · rw [Client.Maps, hc.written] at hmaps
    exact absurd hmaps.1 (Set.notMem_empty n)

/-- What a page maps to after `vmm_map`: nothing without the present bit, otherwise the frame with
the flags that were given. -/
theorem pageMap_entry {p flags : Nat} (hlt : p < 2 ^ 52) (hflags : flags < 2 ^ 64)
    (hbits : flags &&& pageAddrMask = 0) :
    (pageLeaf 3 (p &&& pageAddrMask ||| flags)).map (fun (_, e) => (frameOf e, flagsOf e))
      = if flags &&& pagePresent = 0 then none else some (p / buddyPageSize, flags) := by
  have hframe : frameOf p = p / buddyPageSize := by
    rw [frameOf_eq, Nat.mod_eq_of_lt hlt]
    rfl
  rw [pageLeaf, present_entry]
  split
  · rfl
  · show some (frameOf (p &&& pageAddrMask ||| flags), flagsOf (p &&& pageAddrMask ||| flags)) = _
    rw [frameOf_entry hbits, flagsOf_entry hflags hbits, hframe]

/-! ### What every call keeps

The part of the invariant that does not depend on what the client may map. One lemma for each call
says that it ends and what the client's map is afterwards. -/

/-- The part of the invariant that holds whatever the client maps: it holds no table, and its map
is the one the tables hold. -/
structure ClientSpace (offset cr3 : Nat) (U : Set Nat) (k : Kernel) (c : Client) : Prop where
  space : ∃ A fl, AddressSpace offset cr3 U A c.held fl k
  notHuge : ∀ n, k.NotHuge cr3 n
  map_eq : k.pageMap cr3 = c.map

namespace ClientSpace

variable {offset cr3 : Nat} {U : Set Nat} {k : Kernel} {c : Client}

theorem held_lt (h : ClientSpace offset cr3 U k c) {f : Nat} (hf : f ∈ c.held) :
    f < buddyMaxPages := by
  obtain ⟨A, fl, hspace⟩ := h.space
  exact hspace.repr.usable_lt (hspace.repr.alloc_sub (hspace.held_sub hf))

/-- A page of the allocator joins the frames of the client. -/
theorem alloc (h : ClientSpace offset cr3 U k c) :
    buddyAllocPage k.buddy = .ok (buddyInvalidAddress, k.buddy) ∨
    ∃ g s, buddyAllocPage k.buddy = .ok (g * buddyPageSize, s) ∧ g < buddyMaxPages ∧ g ∉ c.held ∧
      ClientSpace offset cr3 U { k with buddy := s } (c.alloc (g * buddyPageSize)) := by
  obtain ⟨A, fl, hspace⟩ := h.space
  cases hspace.repr.allocPage with
  | inl hfail => exact Or.inl hfail.1
  | inr hsome =>
    obtain ⟨g, s, fl', hrun, hg, hrepr⟩ := hsome
    have hheld : (c.alloc (g * buddyPageSize)).held = insert g c.held := by
      rw [Client.alloc, Nat.mul_div_cancel g (by decide)]
    refine Or.inr ⟨g, s, hrun, hspace.repr.usable_lt hg.1, fun hold => ?_,
      ⟨A ∪ {g}, fl', hspace.direct, hrepr, ?_, hspace.unshared, fun f hf hU => ?_,
        hspace.mapped⟩, h.notHuge, h.map_eq⟩
    · exact hg.2 (hspace.held_sub hold)
    · rw [hheld]
      exact Set.insert_subset (Or.inr rfl) (hspace.held_sub.trans Set.subset_union_left)
    · obtain ⟨hA, hout⟩ := hspace.tables f hf hU
      refine ⟨Or.inl hA, ?_⟩
      rw [hheld]
      rintro (rfl | hin)
      · exact hg.2 hA
      · exact hout hin

/-- `vmm_map` of any address that the mask can hold. -/
theorem map (h : ClientSpace offset cr3 U k c) (v : Nat) {p flags : Nat} (hlt : p < 2 ^ 52)
    (hflags : flags < 2 ^ 64) (hbits : flags &&& pageAddrMask = 0) :
    ∃ ok k', vmmMap (some offset) cr3 k v p flags = .ok (ok, k') ∧
      (ok = false → ∀ f, ¬ k'.buddy.FreeFrame f) ∧
      ClientSpace offset cr3 U k' (if ok then c.mapped v p flags else c) := by
  obtain ⟨A, fl, hspace⟩ := h.space
  obtain ⟨ok, k', A', fl', hrun, hspace', hsub, -, hfull, hleaf⟩ :=
    hspace.map (h.notHuge (vpn v)) p hflags
  refine ⟨ok, k', hrun, fun hfalse f hfree => ?_, ?_⟩
  · have hf := (hspace'.repr.freeFrame_iff f).mp hfree
    exact hf.2 (hfull hfalse hf.1)
  cases ok with
  | false =>
    -- tables may have been linked, but no page has a new translation
    have hsame : ∀ m, k'.leaf cr3 m = k.leaf cr3 m := by
      intro m
      rw [hleaf m, if_neg (by simp)]
    refine ⟨⟨A', fl', hspace'⟩, fun n d e he => ?_, ?_⟩
    · rw [hsame] at he
      exact h.notHuge n d e he
    · show k'.pageMap cr3 = c.map
      rw [← h.map_eq]
      funext m
      rw [Kernel.pageMap, hsame]
      rfl
  | true =>
    simp only [true_and] at hleaf
    refine ⟨⟨A', fl', hspace'⟩, fun n d e he => ?_, ?_⟩
    · rw [hleaf] at he
      split at he
      · exact (Prod.mk.inj (pageLeaf_eq_some he).2).1
      · exact h.notHuge n d e he
    · funext m
      show (k'.leaf cr3 m).map _ = Function.update c.map (vpn v) _ m
      rw [hleaf m, Function.update_apply, ← h.map_eq]
      split
      · exact pageMap_entry hlt hflags hbits
      · rfl

/-- A page the client maps nothing at: `vmm_unmap` reports it. -/
theorem unmap_none (h : ClientSpace offset cr3 U k c) {v : Nat} (hnone : c.map (vpn v) = none) :
    vmmUnmap (some offset) cr3 k v = .ok (false, k) := by
  obtain ⟨A, fl, hspace⟩ := h.space
  apply hspace.unmap_absent (h.notHuge (vpn v))
  rw [← h.map_eq, Kernel.pageMap, Option.map_eq_none_iff] at hnone
  exact hnone

/-- A page the client maps to `f`: `vmm_unmap` ends and frees `f`, its number cut to 32 bits. The
client's view stays right if what it frees is a frame of the client, or nothing. -/
theorem unmap_some (h : ClientSpace offset cr3 U k c) {v f flags : Nat}
    (hmap : c.map (vpn v) = some (f, flags)) :
    ∃ k', vmmUnmap (some offset) cr3 k v = .ok (true, k') ∧
      buddyFreePage k.buddy (f * buddyPageSize) = .ok k'.buddy ∧
      ((k.buddy.pageState (f % 2 ^ 32) = pageStateAllocated → f ∈ c.held) →
        ClientSpace offset cr3 U k' (c.unmapped v)) := by
  obtain ⟨A, fl, hspace⟩ := h.space
  have hleaf := hmap
  rw [← h.map_eq, Kernel.pageMap, Option.map_eq_some_iff] at hleaf
  obtain ⟨⟨d, e⟩, hleaf, hentry⟩ := hleaf
  obtain ⟨k', A', fl', hrun, hfree, hrepr, hsub, hkeep, hun, htables, -, hleaf'⟩ :=
    hspace.unmap_present (h.notHuge (vpn v)) hleaf
  rw [show frameOf e = f from (Prod.mk.inj hentry).1] at hfree hkeep
  refine ⟨k', hrun, hfree, fun hown => ?_⟩
  -- an allocated frame that the call frees is `f` itself, which the client holds
  have hfreed : f % 2 ^ 32 ∈ A → f ∈ c.held ∧ f % 2 ^ 32 = f := by
    intro hA
    have hheld := hown (hspace.repr.allocated hA)
    exact ⟨hheld, Nat.mod_eq_of_lt (Nat.lt_trans (h.held_lt hheld) (by decide))⟩
  refine ⟨⟨A', fl', hspace.direct, hrepr, fun g hg => ?_, hun, fun t ht hU => ?_,
    fun t ht => hspace.mapped t ((htables t).mp ht)⟩, fun n d' e' he => ?_, ?_⟩
  · obtain ⟨hold, hne⟩ := (Client.mem_held_unmapped hmap g).mp hg
    refine hkeep ⟨hspace.held_sub hold, fun heq => hne ?_⟩
    rw [show g = f % 2 ^ 32 from heq]
    exact (hfreed (heq ▸ hspace.held_sub hold)).2
  · obtain ⟨hA, hout⟩ := hspace.tables t ((htables t).mp ht) hU
    refine ⟨hkeep ⟨hA, fun heq => hout ?_⟩, fun hin =>
      hout ((Client.mem_held_unmapped hmap t).mp hin).1⟩
    obtain ⟨hheld, hcut⟩ := hfreed (heq ▸ hA)
    rw [show t = f % 2 ^ 32 from heq, hcut]
    exact hheld
  · rw [hleaf'] at he
    split at he
    · exact absurd he (by simp)
    · exact h.notHuge n d' e' he
  · funext m
    show (k'.leaf cr3 m).map _ = Function.update c.map (vpn v) none m
    rw [hleaf' m, Function.update_apply, ← h.map_eq]
    split
    · rfl
    · rfl

end ClientSpace

namespace VmmInv

variable {offset cr3 : Nat} {U : Set Nat} {k : Kernel} {c : Client}

theorem client (h : VmmInv offset cr3 U k c) : ClientSpace offset cr3 U k c :=
  ⟨h.space, h.notHuge, h.map_eq⟩

theorem of_client (h : ClientSpace offset cr3 U k c) (hbacked : ∀ n f, c.Maps n f → c.Mappable f) :
    VmmInv offset cr3 U k c := ⟨h.space, h.notHuge, h.map_eq, hbacked⟩

/-- What a client may map is its own or device memory, with an address that fits an entry. -/
theorem mappable_of_mayMap (h : VmmInv offset cr3 U k c) {p flags : Nat}
    (hmay : MayMap c p flags) : c.Mappable (p / buddyPageSize) ∧ p < 2 ^ 52 := by
  rcases hmay.2.2 with hheld | ⟨hlo, hhi⟩
  · have hlt := h.client.held_lt hheld
    refine ⟨Or.inl hheld, ?_⟩
    simp only [buddyMaxPages, buddyMaxPhys, buddyPageSize] at hlt
    omega
  · refine ⟨Or.inr ?_, by omega⟩
    simp only [buddyMaxPages, buddyMaxPhys, buddyPageSize]
    omega

/-- A page of the allocator joins the frames of the client, and nothing is mapped to it yet. -/
theorem alloc (h : VmmInv offset cr3 U k c) :
    buddyAllocPage k.buddy = .ok (buddyInvalidAddress, k.buddy) ∨
    ∃ g s, buddyAllocPage k.buddy = .ok (g * buddyPageSize, s) ∧ g < buddyMaxPages ∧
      (∀ n, ¬ c.Maps n g) ∧
      VmmInv offset cr3 U { k with buddy := s } (c.alloc (g * buddyPageSize)) := by
  cases h.client.alloc with
  | inl hfail => exact Or.inl hfail
  | inr hsome =>
    obtain ⟨g, s, hrun, hlt, hnew, hclient⟩ := hsome
    refine Or.inr ⟨g, s, hrun, hlt, fun n hmaps => ?_, of_client hclient fun n f hmaps => ?_⟩
    · cases h.backed n g hmaps with
      | inl hold => exact hnew hold
      | inr hdevice => exact Nat.not_le.mpr hlt hdevice.1
    · cases h.backed n f hmaps with
      | inl hold => exact Or.inl (Set.mem_insert_of_mem _ hold)
      | inr hdevice => exact Or.inr hdevice

/-- `vmm_map` of a frame the client may map: the map of the client is updated, or no frame is free
and the map stays. -/
theorem map (h : VmmInv offset cr3 U k c) (v : Nat) {p flags : Nat} (hmay : MayMap c p flags) :
    ∃ ok k', vmmMap (some offset) cr3 k v p flags = .ok (ok, k') ∧
      (ok = false → ∀ f, ¬ k'.buddy.FreeFrame f) ∧
      VmmInv offset cr3 U k' (if ok then c.mapped v p flags else c) := by
  obtain ⟨hown, hlt⟩ := h.mappable_of_mayMap hmay
  obtain ⟨ok, k', hrun, hfull, hclient⟩ := h.client.map v hlt hmay.1 hmay.2.1
  refine ⟨ok, k', hrun, hfull, of_client hclient ?_⟩
  cases ok with
  | false => exact h.backed
  | true =>
    intro n f hmaps
    cases Client.maps_mapped hmaps with
    | inl hnew => exact hnew.2 ▸ hown
    | inr hold => exact h.backed n f hold.2

/-- `vmm_unmap` of a page that the client mapped, when no other page of it shares a held
frame. -/
theorem unmap_maps (h : VmmInv offset cr3 U k c) {v f : Nat} (hmaps : c.Maps (vpn v) f)
    (halone : f ∈ c.held → ∀ n, c.Maps n f → n = vpn v) :
    ∃ k', vmmUnmap (some offset) cr3 k v = .ok (true, k') ∧
      VmmInv offset cr3 U k' (c.unmapped v) := by
  have hown := h.backed (vpn v) f hmaps
  obtain ⟨-, flags, hmap⟩ := hmaps
  obtain ⟨k', hrun, -, hclient⟩ := h.client.unmap_some hmap
  refine ⟨k', hrun, of_client (hclient fun hstate => ?_) fun n g hmaps => ?_⟩
  · -- the number of a device frame fits into 32 bits, and no such frame is managed
    cases hown with
    | inl hheld => exact hheld
    | inr hdevice =>
      obtain ⟨A, fl, hspace⟩ := h.space
      rw [Nat.mod_eq_of_lt hdevice.2, hspace.repr.state_allocated_iff] at hstate
      exact absurd (hspace.repr.usable_lt (hspace.repr.alloc_sub hstate))
        (Nat.not_lt.mpr hdevice.1)
  · obtain ⟨hne, hold⟩ := Client.maps_unmapped hmaps
    cases h.backed n g hold with
    | inl hheld =>
      refine Or.inl ((Client.mem_held_unmapped hmap g).mpr ⟨hheld, ?_⟩)
      rintro rfl
      exact hne (halone hheld n hold)
    | inr hdevice => exact Or.inr hdevice

/-- What `vmm_unmap` returns and leaves, for every call that `notShared` allows. -/
theorem unmap (h : VmmInv offset cr3 U k c) {v : Nat} (hmay : notShared.mayUnmap c v) :
    ∃ k', vmmUnmap (some offset) cr3 k v = .ok ((c.map (vpn v)).isSome, k') ∧
      VmmInv offset cr3 U k' (if (c.map (vpn v)).isSome then c.unmapped v else c) := by
  cases hmay with
  | inl hnone =>
    rw [hnone]
    exact ⟨k, h.client.unmap_none hnone, h⟩
  | inr hsome =>
    obtain ⟨f, hmaps, halone⟩ := hsome
    obtain ⟨k', hrun, hinv⟩ := h.unmap_maps hmaps halone
    obtain ⟨-, flags, hmap⟩ := hmaps
    rw [hmap]
    exact ⟨k', hrun, hinv⟩

end VmmInv

/-- **Every state of a run satisfies the invariant.** Induction on the run, with one lemma for each
call. -/
theorem VmmRun.inv {response : Option MemmapResponse} {offset cr3 : Nat} {k₀ k : Kernel}
    {c : Client} (h : InitialSpace response offset cr3 k₀)
    (run : VmmRun notShared offset cr3 k₀ k c) :
    VmmInv offset cr3 (usableFrames response) k c := by
  induction run with
  | start hc => exact h.inv hc
  | alloc _ hrun ha ih =>
    cases ih.alloc with
    | inl hfail => exact absurd (ok_unique_pair hrun hfail).1 ha
    | inr hsome =>
      obtain ⟨g, s, hrun', -, -, hinv⟩ := hsome
      obtain ⟨rfl, rfl⟩ := ok_unique_pair hrun hrun'
      exact hinv
  | allocFail _ hrun ih =>
    cases ih.alloc with
    | inl hfail =>
      obtain ⟨-, rfl⟩ := ok_unique_pair hrun hfail
      exact ih
    | inr hsome =>
      obtain ⟨g, s, hrun', hlt, -, -⟩ := hsome
      exact absurd (ok_unique_pair hrun hrun').1.symm
        (addr_ne_invalid hlt)
  | map _ hmay hrun ih =>
    obtain ⟨ok, k', hrun', -, hinv⟩ := ih.map _ hmay
    obtain ⟨rfl, rfl⟩ := ok_unique_pair hrun hrun'
    exact hinv
  | unmap _ hmay hrun ih =>
    obtain ⟨k', hrun', hinv⟩ := ih.unmap hmay
    obtain ⟨rfl, rfl⟩ := ok_unique_pair hrun hrun'
    exact hinv

/-! ## One page at a time

A client that maps each of its frames at one page only may also unmap it there, which makes it a
client that shares nothing. -/

/-- No held frame is mapped at two pages. -/
def Client.OnePage (c : Client) : Prop :=
  ∀ f ∈ c.held, ∀ n m, c.Maps n f → c.Maps m f → n = m

/-- With one page for each frame, no other page is mapped to the frame that is unmapped. -/
theorem Client.OnePage.mayUnmap {c : Client} (h : c.OnePage) {v : Nat}
    (hmay : onePage.mayUnmap c v) : notShared.mayUnmap c v := by
  cases hmap : c.map (vpn v) with
  | none => exact Or.inl hmap
  | some r =>
    have hin : vpn v ∈ c.written := by
      cases hmay with
      | inl hin => exact hin
      | inr hnone => exact absurd (hmap.symm.trans hnone) (by simp)
    have hmaps : c.Maps (vpn v) r.1 := ⟨hin, r.2, hmap⟩
    exact Or.inr ⟨r.1, hmaps, fun hheld n hn => h r.1 hheld n (vpn v) hn hmaps⟩

/-- Mapping within the policy keeps one page for each frame. -/
theorem Client.OnePage.mapped {c : Client} (h : c.OnePage) {v p flags : Nat}
    (hmay : onePage.mayMap c v p flags) : (c.mapped v p flags).OnePage := by
  intro f hf n m hn hm
  -- the policy says that the page written is the only one of its frame
  have hnew : ∀ n, c.Maps n (p / buddyPageSize) → p / buddyPageSize ∈ c.held → n = vpn v :=
    fun n hn hheld => hmay.2.2 hheld n hn
  rcases Client.maps_mapped hn with ⟨rfl, rfl⟩ | ⟨-, hn⟩
  · rcases Client.maps_mapped hm with ⟨rfl, -⟩ | ⟨-, hm⟩
    · rfl
    · exact (hnew m hm hf).symm
  · rcases Client.maps_mapped hm with ⟨rfl, rfl⟩ | ⟨-, hm⟩
    · exact hnew n hn hf
    · exact h f hf n m hn hm

theorem Client.OnePage.unmapped {c : Client} (h : c.OnePage) (v : Nat) :
    (c.unmapped v).OnePage := by
  intro f hf n m hn hm
  exact h f hf.1 n m (Client.maps_unmapped hn).2 (Client.maps_unmapped hm).2

/-- A client that maps each held frame at one page at a time never unmaps a shared one. -/
theorem VmmRun.toNotShared {response : Option MemmapResponse} {offset cr3 : Nat} {k₀ k : Kernel}
    {c : Client} (h : InitialSpace response offset cr3 k₀)
    (run : VmmRun onePage offset cr3 k₀ k c) :
    VmmRun notShared offset cr3 k₀ k c ∧ c.OnePage := by
  induction run with
  | start hc =>
    refine ⟨.start hc, fun f _ n m hn _ => ?_⟩
    rw [Client.Maps, hc.written] at hn
    exact absurd hn.1 (Set.notMem_empty n)
  | alloc _ hrun ha ih =>
    refine ⟨.alloc ih.1 hrun ha, fun f hf n m hn hm => ?_⟩
    cases (ih.1.inv h).alloc with
    | inl hfail => exact absurd (ok_unique_pair hrun hfail).1 ha
    | inr hsome =>
      -- the new frame is not mapped anywhere yet
      obtain ⟨g, s, hrun', -, hfresh, -⟩ := hsome
      obtain ⟨rfl, -⟩ := ok_unique_pair hrun hrun'
      rw [Client.alloc, Nat.mul_div_cancel g (by decide)] at hf
      rcases hf with rfl | hold
      · exact absurd hn (hfresh n)
      · exact ih.2 f hold n m hn hm
  | allocFail _ hrun ih => exact ⟨.allocFail ih.1 hrun, ih.2⟩
  | @map k k' c v p flags ok _ hmay hrun ih =>
    refine ⟨.map ih.1 hmay.1 hrun, ?_⟩
    cases ok with
    | false => exact ih.2
    | true => exact ih.2.mapped hmay
  | @unmap k k' c v ok _ hmay hrun ih =>
    refine ⟨.unmap ih.1 (ih.2.mayUnmap hmay) hrun, ?_⟩
    cases ok with
    | false => exact ih.2
    | true => exact ih.2.unmapped v

/-! ## A sample address space -/

/-- One table of each level, the page table empty. -/
def sampleTables (s : Buddy) : Kernel :=
  (((blankKernel s).putEntry 16 0 0x11003).putEntry 17 0 0x12003).putEntry 18 0 0x13003

theorem entries_sampleTables (s : Buddy) : entries (sampleTables s).mem =
    Radix.set (Radix.set (Radix.set (fun _ _ => 0) 16 0 0x11003) 17 0 0x12003) 18 0 0x13003 := by
  rw [sampleTables, entries_putEntry _ _ _ (by decide), entries_putEntry _ _ _ (by decide),
    entries_putEntry _ _ _ (by decide), entries_blankKernel]

theorem entries_sampleTables_of_ne (s : Buddy) (f : Nat) {i : Fin 512} (hi : i ≠ 0) :
    entries (sampleTables s).mem f i = 0 := by
  rw [entries_sampleTables]
  simp only [Radix.set, hi, and_false, if_false]

theorem chained_sampleTables (s : Buddy) :
    Chained (fun _ => 0) (sampleTables s) (frameOf sampleCr3) := by
  intro d i f hc
  have hroot : frameOf sampleCr3 = 16 := by decide
  rw [hroot] at hc ⊢
  by_cases hi : i = 0
  · subst hi
    rw [entries_sampleTables] at hc
    match d, (pageChild_eq_some hc).1 with
    | 0, _ => exact ⟨rfl, (Option.some.inj hc).symm⟩
    | 1, _ => exact ⟨rfl, (Option.some.inj hc).symm⟩
    | 2, _ => exact ⟨rfl, (Option.some.inj hc).symm⟩
  · rw [entries_sampleTables_of_ne s _ hi, pageChild_zero] at hc
    exact absurd hc (by simp)

/-- The sample address space is one that a run may start in. -/
theorem initialSpace_sampleTables {s : Buddy} {live : List Block}
    (run : BuddyRun sampleMap s live) :
    InitialSpace sampleMap sampleDirectMap sampleCr3 (sampleTables s) := by
  have hchain := chained_sampleTables s
  have hspace := hchain.wellFormedSpace (k := sampleTables s) run
  have hroot : frameOf sampleCr3 = 16 := by decide
  refine ⟨sampleMap_ok, ⟨live, run⟩, sampleDirectMap_ok, fun p f i hp hlo hhi hpresent => ?_,
    hspace.unshared, fun f hf hU => ?_, hspace.mapped⟩
  · obtain ⟨-, hf, -⟩ := hchain.walk (d := 0) (Nat.zero_le 3) hp
    rw [hroot] at hf
    by_cases hi : i = 0
    · subst hi
      rw [entries_sampleTables]
      have hcases : f = 17 ∨ f = 18 := by omega
      rcases hcases with rfl | rfl <;> decide
    · rw [entries_sampleTables_of_ne s f hi] at hpresent
      exact absurd (Nat.zero_and _) hpresent
  · have hle := (mem_usableFrames_sampleMap.mp hU).2
    have hrange := hchain.range hf
    omega

/-- The three upper tables lead to the page table in frame 19, whatever it holds. -/
structure HasSampleTables (k : Kernel) : Prop where
  pml4 : entries k.mem 16 0 = 0x11003
  pdpt : entries k.mem 17 0 = 0x12003
  pd : entries k.mem 18 0 = 0x13003

theorem hasSampleTables_sampleTables (s : Buddy) : HasSampleTables (sampleTables s) := by
  refine ⟨?_, ?_, ?_⟩
  all_goals
    rw [entries_sampleTables]
    decide

theorem HasSampleTables.putEntry {k : Kernel} (h : HasSampleTables k) (i : Fin 512) {value : Nat}
    (hvalue : value < 2 ^ 64) : HasSampleTables (k.putEntry 19 i value) := by
  refine ⟨?_, ?_, ?_⟩
  all_goals rw [entries_putEntry k 19 i hvalue, Radix.set_of_ne (by decide)]
  · exact h.pml4
  · exact h.pdpt
  · exact h.pd

theorem low_index {v m : Nat} (hv : v < 2 ^ 21) (hm : 9 ≤ m) :
    Fin.ofNat 512 ((vpn v : Nat) / 2 ^ m) = 0 := by
  have hlow : (vpn v : Nat) / 2 ^ m = 0 := by
    apply Nat.div_eq_of_lt
    have hle : (2 : Nat) ^ 9 ≤ 2 ^ m := Nat.pow_le_pow_right (by decide) hm
    show v / 2 ^ 12 % 2 ^ 36 < 2 ^ m
    omega
  rw [hlow]
  rfl

/-- All pages of the first 2 MiB are in the last table of the chain. -/
theorem HasSampleTables.leadsTo {k : Kernel} (h : HasSampleTables k) {v : Nat} (hv : v < 2 ^ 21) :
    LeadsTo sampleDirectMap sampleCr3 k v 17 18 19 := by
  have hroot : frameOf sampleCr3 = 16 := by decide
  refine ⟨sampleDirectMap_ne_zero (by decide), ?_, ?_, ?_⟩
  · rw [low_index hv (by decide), hroot]
    exact ⟨by rw [h.pml4]; decide, by rw [h.pml4]; decide, sampleDirectMap_ne_zero (by decide)⟩
  · rw [low_index hv (by decide)]
    exact ⟨by rw [h.pdpt]; decide, by rw [h.pdpt]; decide, sampleDirectMap_ne_zero (by decide)⟩
  · rw [low_index hv (by decide)]
    exact ⟨by rw [h.pd]; decide, by rw [h.pd]; decide, sampleDirectMap_ne_zero (by decide)⟩

/-- The page table in frame 19 decides what the low pages map to. -/
theorem HasSampleTables.pageMap {k : Kernel} (h : HasSampleTables k) {v : Nat} (hv : v < 2 ^ 21)
    {e : Nat} (he : entries k.mem 19 (vpn v).index = e) (hpresent : e &&& pagePresent ≠ 0) :
    k.pageMap sampleCr3 (vpn v) = some (frameOf e, flagsOf e) := by
  have hroot : frameOf sampleCr3 = 16 := by decide
  have htable : k.table sampleCr3 (vpn v).tablePath = some 19 := by
    rw [Vpn.tablePath, low_index hv (by decide), low_index hv (by decide),
      low_index hv (by decide), Kernel.table, hroot,
      Radix.walk_cons_some (s := 17) (by rw [h.pml4]; decide),
      Radix.walk_cons_some (s := 18) (by rw [h.pdpt]; decide),
      Radix.walk_cons_some (s := 19) (by rw [h.pd]; decide)]
    rfl
  rw [Kernel.pageMap, AddressSpace.leaf_eq htable, he, pageLeaf, if_neg hpresent]
  rfl

/-- A client without a frame, and then with frame 1. -/
def sampleClient (s : Buddy) : Client := ⟨∅, ∅, (sampleTables s).pageMap sampleCr3⟩

/-- The samples boot, and the first page of the allocator is the one at `0x1000`. -/
theorem sampleBoot : ∃ s₀ s, InitialSpace sampleMap sampleDirectMap sampleCr3 (sampleTables s₀) ∧
    (sampleClient s₀).Starts sampleCr3 (sampleTables s₀) ∧
    buddyAllocPage s₀ = .ok (0x1000, s) ∧ BuddyRun sampleMap s [⟨1, 0⟩] := by
  obtain ⟨s₀, s, hinit, halloc⟩ : ∃ s₀ s, buddyInit sampleMap = .ok s₀ ∧
      buddyAllocPage s₀ = .ok (0x1000, s) := ⟨_, _, rfl, rfl⟩
  exact ⟨s₀, s, initialSpace_sampleTables (.init hinit),
    ⟨fun f hf => absurd hf (Set.notMem_empty f), rfl, rfl⟩, halloc,
    .alloc (.init hinit) halloc (by decide)⟩

theorem sampleRun (policy : Policy) : ∃ s₀ s,
    InitialSpace sampleMap sampleDirectMap sampleCr3 (sampleTables s₀) ∧
      BuddyRun sampleMap s [⟨1, 0⟩] ∧
      VmmRun policy sampleDirectMap sampleCr3 (sampleTables s₀) (sampleTables s)
        ((sampleClient s₀).alloc 0x1000) := by
  obtain ⟨s₀, s, hspace, hstart, halloc, run⟩ := sampleBoot
  exact ⟨s₀, s, hspace, run, .alloc (.start hstart) halloc (by decide)⟩

end Yoix
