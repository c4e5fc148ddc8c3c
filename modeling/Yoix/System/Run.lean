import Yoix.System.Tables
import Yoix.Vmm.Callers

/-!
# Runs of the memory system

The page allocator, the heap and the page-table code on one kernel, with calls in any order. `Owners`
records who holds what: the live regions of the heap, and a client that takes pages, maps and unmaps
them. A client stores only into its own regions and pages. The direct map is where all of this memory
is read and written, so a client leaves it alone, but for the pages it holds: as `init_IOAPIC` does, it
may map the pointer of such a page elsewhere.

`SystemInv` is the invariant. The tables, the heap and the client hold different frames, every
allocated frame has one of these owners, and the tables hold the client's map. One lemma for each
call says that it ends and keeps the invariant, and that it changes no byte that a client owns unless
it is that client's store (`SystemInv.step`); `SystemRun.inv` is the run lemma.
-/

namespace Yoix

open Dyadic Memory

/-! ## Calls

One type for all calls, with what they do, what a client may call, and what the owners are
afterwards. -/

structure Owners where
  live : List LiveObject
  client : Client
  /-- The frames of the client whose pointer leads elsewhere. -/
  givenUp : Set Nat

/-- Mapping the page of `v` to `p` takes its place in the direct map from the frame `f`. -/
def Diverts (offset v p flags f : Nat) : Prop :=
  f < 2 ^ 32 ∧ directPage offset f = vpn v ∧ (f = p / buddyPageSize → flags &&& pagePresent = 0)

inductive SystemCall where
  | kmalloc (size : Nat)
  | kfree (ptr : Nat)
  /-- A store of a client. -/
  | store (virt bytes value : Nat)
  | buddyAllocPage
  | buddyFreePage (physAddr : Nat)
  | vmmMap (virtAddr physAddr flags : Nat)
  | vmmUnmap (virtAddr : Nat)
  deriving DecidableEq, Repr

namespace SystemCall

section

variable (offset cr3 : Nat)

/-- The call, with the value it returns. -/
def exec (k : Kernel) : SystemCall → Except Fault (Nat × Kernel)
  | kmalloc size => Yoix.kmalloc (some offset) k size
  | kfree ptr => do
    let k ← Yoix.kfree (some offset) k ptr
    .ok (0, k)
  | store virt bytes value => do
    let k ← k.store (some offset) virt bytes value
    .ok (0, k)
  | buddyAllocPage => do
    let (a, buddy) ← Yoix.buddyAllocPage k.buddy
    .ok (a, { k with buddy })
  | buddyFreePage physAddr => do
    let buddy ← Yoix.buddyFreePage k.buddy physAddr
    .ok (0, { k with buddy })
  | vmmMap virtAddr physAddr flags => do
    let (ok, k) ← Yoix.vmmMap (some offset) cr3 k virtAddr physAddr flags
    .ok (ok.toNat, k)
  | vmmUnmap virtAddr => do
    let (ok, k) ← Yoix.vmmUnmap (some offset) cr3 k virtAddr
    .ok (ok.toNat, k)

/-- The physical addresses that a store writes to. -/
def target : SystemCall → Set Nat
  | store virt bytes _ =>
    Set.Ico ((virt + (2 ^ 64 - offset)) % 2 ^ 64) ((virt + (2 ^ 64 - offset)) % 2 ^ 64 + bytes)
  | _ => ∅

/-- What a client may call. It frees and unmaps what it holds and nobody else uses, and stores into
its own regions and pages. It may give up the pointer of a page it holds, and keeps that page from
then on; the rest of the direct map stays as it is. -/
def Allowed (g : Owners) : SystemCall → Prop
  | kmalloc size => size < 2 ^ 64
  | kfree ptr => ∃ o ∈ g.live, o.ptr = ptr
  | store virt bytes _ =>
    (∃ o ∈ g.live, o.size ≤ 2 ^ 64 - 9 ∧ o.ptr ≤ virt ∧ virt + bytes ≤ o.ptr + o.size) ∨
      ∃ f ∈ g.client.held \ g.givenUp, ∃ d,
        virt = phyToVirt (some offset) (f * buddyPageSize) + d ∧ d + bytes ≤ buddyPageSize
  | buddyAllocPage => True
  | buddyFreePage physAddr => ∃ f ∈ g.client.held \ g.givenUp, physAddr = f * buddyPageSize ∧
      ∀ n, ¬ g.client.Maps n f
  | vmmMap virtAddr physAddr flags => MayMap g.client physAddr flags ∧
      ∀ f, Diverts offset virtAddr physAddr flags f → f ∈ g.client.held
  | vmmUnmap virtAddr => notShared.mayUnmap g.client virtAddr ∧
      (∀ f < 2 ^ 32, directPage offset f = vpn virtAddr → f ∈ g.givenUp) ∧
      ∀ f flags, g.client.map (vpn virtAddr) = some (f, flags) → f ∉ g.givenUp

/-- Who holds what after the call has returned `r` and turned `k` into `k'`. -/
def after (g : Owners) (r : Nat) (k k' : Kernel) : SystemCall → Owners
  | kmalloc size => if r = 0 then g else
      { g with live := ⟨r, size, newlyAllocated k.buddy k'.buddy⟩ :: g.live }
  | kfree ptr => { g with live := g.live.eraseP fun o => o.ptr = ptr }
  | store _ _ _ => g
  | buddyAllocPage => if r = buddyInvalidAddress then g else
      { g with client := g.client.alloc r }
  | buddyFreePage physAddr =>
      { g with client :=
        { g.client with held := g.client.held \ {physAddr / buddyPageSize} } }
  | vmmMap virtAddr physAddr flags => if r = 0 then g else
      { g with
        client := g.client.mapped virtAddr physAddr flags
        givenUp := g.givenUp ∪ { f | Diverts offset virtAddr physAddr flags f } }
  | vmmUnmap virtAddr => if r = 0 then g else
      { g with client := g.client.unmapped virtAddr }

end

end SystemCall

/-- The runs of the memory system from `k₀` on. -/
inductive SystemRun (offset cr3 : Nat) (k₀ : Kernel) : Kernel → Owners → Prop where
  | start {c : Client} (h : c.Starts cr3 k₀) (hheld : c.held = ∅) :
      SystemRun offset cr3 k₀ k₀ ⟨[], c, ∅⟩
  | call {k k' : Kernel} {g : Owners} {r : Nat} (call : SystemCall)
      (run : SystemRun offset cr3 k₀ k g) (hallowed : call.Allowed offset g)
      (h : call.exec offset cr3 k = .ok (r, k')) :
      SystemRun offset cr3 k₀ k' (call.after offset g r k k')

/-- What the system is started with: the environment of the heap, and a tree of tables as for the
page-table code, right after `buddy_init` and `heap_init`. -/
structure SystemStart (response : Option MemmapResponse) (offset cr3 : Nat) (k₀ : Kernel) :
    Prop where
  env : HeapEnv response offset
  space : InitialSpace response offset cr3 k₀
  booted : ∃ (k : Kernel) (s : Buddy), buddyInit response = .ok s ∧
    k₀ = heapInit { k with buddy := s }

/-! ## The invariant

Three parties share the frames: the heap, the tables and the client. The invariant says what each of
them holds and that nothing else is allocated. -/

/-- A client beside frames that are held by somebody else. -/
def Client.beside (c : Client) (H : Set Nat) : Client := { c with held := c.held ∪ H }

/-- Unmapping a frame of the client leaves the other frames where they are. -/
theorem Client.beside_unmapped {c : Client} {H : Set Nat} {v : Nat}
    (h : ∀ f ∈ H, ∀ flags, c.map (vpn v) ≠ some (f, flags)) :
    (c.beside H).unmapped v = (c.unmapped v).beside H := by
  have hheld : { f ∈ c.held ∪ H | ∀ flags, c.map (vpn v) ≠ some (f, flags) }
      = { f ∈ c.held | ∀ flags, c.map (vpn v) ≠ some (f, flags) } ∪ H := by
    ext f
    constructor
    · rintro ⟨hf | hf, hne⟩
      · exact Or.inl ⟨hf, hne⟩
      · exact Or.inr hf
    · rintro (hf | hf)
      · exact ⟨Or.inl hf.1, hf.2⟩
      · exact ⟨Or.inr hf, h f hf⟩
  show Client.mk _ _ _ = Client.mk _ _ _
  rw [Client.mk.injEq]
  exact ⟨hheld, rfl, rfl⟩

structure SystemInv (offset cr3 : Nat) (U : Set Nat) (k : Kernel) (g : Owners)
    (slabs : List Slab) : Prop where
  vmm : VmmInv offset cr3 U k (g.client.beside (heapFrames offset g.live slabs))
  heap : HeapPart offset k g.live slabs
  apart : Disjoint g.client.held (heapFrames offset g.live slabs)
  backed : ∀ n f, g.client.Maps n f → g.client.Mappable f
  owned : ∀ f, k.buddy.pageState f = pageStateAllocated →
    f ∈ g.client.held ∪ heapFrames offset g.live slabs ∨ k.IsTable cr3 f

/-- Of the memory that is not managed, a call writes to tables only, and it makes no table there. No
table goes away. -/
structure Contained (cr3 : Nat) (U : Set Nat) (k k' : Kernel) : Prop where
  keeps : ∀ p f, k.table cr3 p = some f → k'.table cr3 p = some f
  tables : ∀ f, k'.IsTable cr3 f → k.IsTable cr3 f ∨ f ∈ U
  bytes : ∀ x, k'.mem x ≠ k.mem x → k.IsTable cr3 (x / buddyPageSize) ∨ x / buddyPageSize ∈ U

theorem Contained.refl (cr3 : Nat) (U : Set Nat) (k : Kernel) : Contained cr3 U k k :=
  ⟨fun _ _ hf => hf, fun _ hf => Or.inl hf, fun _ hx => absurd rfl hx⟩

/-- Calls that write only to managed frames and tables do so together. -/
theorem Contained.trans {cr3 : Nat} {U : Set Nat} {k k' k'' : Kernel} (h : Contained cr3 U k k')
    (h' : Contained cr3 U k' k'') : Contained cr3 U k k'' := by
  have hold : ∀ f, k'.IsTable cr3 f ∨ f ∈ U → k.IsTable cr3 f ∨ f ∈ U :=
    fun f hf => hf.elim (h.tables f) Or.inr
  refine ⟨fun p f hf => h'.keeps p f (h.keeps p f hf), fun f hf => hold f (h'.tables f hf),
    fun x hx => ?_⟩
  by_cases hsame : k'.mem x = k.mem x
  · exact hold _ (h'.bytes x (hsame ▸ hx))
  · exact h.bytes x hsame

/-- The frames of the clients. -/
def Owners.frames (offset : Nat) (g : Owners) (slabs : List Slab) : Set Nat :=
  g.client.held ∪ heapFrames offset g.live slabs

namespace SystemInv

variable {offset cr3 : Nat} {U : Set Nat} {k k' : Kernel} {g g' : Owners} {slabs slabs' : List Slab}

theorem space (h : SystemInv offset cr3 U k g slabs) :
    ∃ A fl, AddressSpace offset cr3 U A (g.frames offset slabs) fl k := h.vmm.space

/-- Of the allocated frames, the tables are those that no client holds. -/
theorem isTable_iff (h : SystemInv offset cr3 U k g slabs) {A : Set Nat} {fl : FreeLists}
    (hspace : AddressSpace offset cr3 U A (g.frames offset slabs) fl k) (f : Nat) :
    f ∈ U ∧ k.IsTable cr3 f ↔ f ∈ A ∧ f ∉ g.frames offset slabs := by
  constructor
  · rintro ⟨hU, hf⟩
    exact hspace.tables f hf hU
  · rintro ⟨hA, hout⟩
    refine ⟨hspace.repr.alloc_sub hA, ?_⟩
    exact (h.owned f (hspace.repr.allocated hA)).resolve_left hout

/-- A call that leaves the tables and the client's map as they are. The frames that nobody of the
clients holds are the same before and after it, and none of them is written to. -/
theorem rebuild (h : SystemInv offset cr3 U k g slabs) {A A' F : Set Nat} {fl fl' : FreeLists}
    (hspace : AddressSpace offset cr3 U A (g.frames offset slabs) fl k)
    (hr : Represents U A' ∅ k'.buddy fl') (hwrites : WritesOnly F k k') (hF : F ⊆ U)
    (hFout : ∀ f ∈ F, f ∈ A → f ∈ g.frames offset slabs)
    (hsub : g'.frames offset slabs' ⊆ A')
    (hrest : ∀ f, f ∈ A' ∧ f ∉ g'.frames offset slabs' ↔ f ∈ A ∧ f ∉ g.frames offset slabs)
    (hmap : g'.client.map = g.client.map) (hpart : HeapPart offset k' g'.live slabs')
    (hapart : Disjoint g'.client.held (heapFrames offset g'.live slabs'))
    (hbacked : ∀ n f, g'.client.Maps n f → g'.client.Mappable f) :
    SystemInv offset cr3 U k' g' slabs' ∧ Contained cr3 U k k' := by
  -- the tables among the frames that are written to would be held by nobody, so there are none
  obtain ⟨hspace', htables, htable, hleaf⟩ := hspace.congr hr hwrites (fun t ht htF => by
    obtain ⟨hA, hout⟩ := hspace.tables t ht (hF htF)
    exact hout (hFout t htF hA)) hsub fun t ht hU => (hrest t).mpr (hspace.tables t ht hU)
  refine ⟨⟨⟨⟨A', fl', hspace'⟩, fun n d e he => ?_, ?_, fun n f hmaps => ?_⟩, hpart, hapart,
    hbacked, fun f hf => ?_⟩, fun p f hf => (htable p).trans hf,
    fun f hf => Or.inl ((htables f).mp hf),
    fun x hx => Or.inr (hF (hwrites x hx))⟩
  · -- no huge page has come in
    rw [hleaf] at he
    exact h.vmm.notHuge n d e he
  · -- neither the tables nor the client's map have changed
    have hview : k.pageMap cr3 = g.client.map := h.vmm.map_eq
    show k'.pageMap cr3 = g'.client.map
    rw [hmap, ← hview]
    funext n
    rw [Kernel.pageMap, hleaf]
    rfl
  · exact (hbacked n f hmaps).imp_left fun hheld => Or.inl hheld
  · -- a frame that nobody of the clients holds was such a frame before, so it is a table
    by_cases hout : f ∈ g'.frames offset slabs'
    · exact Or.inl hout
    · have hA := (hrest f).mp ⟨(hr.state_allocated_iff f).mp hf, hout⟩
      exact Or.inr ((htables f).mpr ((h.isTable_iff hspace f).mpr hA).2)

/-! ## One call

Each lemma shows that the call ends, keeps the invariant, and changes no byte of what the client
owns beyond its own store. -/

/-- What every call does: it ends, it keeps the invariant and the memory that is not managed, and a
byte it changes is one that it stores to, or lies in no frame of a client. -/
def Steps (offset cr3 : Nat) (U : Set Nat) (k : Kernel) (g : Owners) (slabs : List Slab)
    (call : SystemCall) : Prop :=
  ∃ r k' slabs', call.exec offset cr3 k = .ok (r, k') ∧
    (SystemInv offset cr3 U k' (call.after offset g r k k') slabs' ∧ Contained cr3 U k k') ∧
    ∀ x, k'.mem x ≠ k.mem x →
      x ∈ call.target offset ∨ x / buddyPageSize ∉ g.frames offset slabs

/-- A frame that the page-table code writes to is a table, or was free. -/
theorem writesOnly_of_confined {A : Set Nat} {fl : FreeLists}
    (hspace : AddressSpace offset cr3 U A (g.frames offset slabs) fl k)
    (hconfined : Confined cr3 U A k k') :
    WritesOnly (g.frames offset slabs)ᶜ k k' := by
  intro x hx hin
  have hA := hspace.held_sub hin
  rcases (hconfined x hx).2 with htable | hfree
  · exact (hspace.tables _ htable (hspace.repr.alloc_sub hA)).2 hin
  · exact hfree.2 hA

/-- A page that a client holds is free once `buddy_free_page` has ended. -/
theorem freed_of_unmap {A A' : Set Nat} {fl fl' : FreeLists} {f : Nat}
    (hspace : AddressSpace offset cr3 U A (g.frames offset slabs) fl k) (h0 : 0 ∉ U)
    (hf : f ∈ g.client.held) (hfree : buddyFreePage k.buddy (f * buddyPageSize) = .ok k'.buddy)
    (hr : Represents U A' ∅ k'.buddy fl') : f ∉ A' := by
  have hone : buddyOrderFromPages 1 = 0 := by decide
  have hA : f ∈ A := hspace.held_sub (Or.inl hf)
  obtain ⟨s, hrun, hr'⟩ := hspace.repr.freePages
    (fun heq : f = 0 => h0 (heq ▸ hspace.repr.alloc_sub hA)) (Nat.le_refl 1)
    (by rw [hone]; exact one_dvd f) (by rw [hone, block_zero]; exact Set.singleton_subset_iff.mpr hA)
  rw [hone, block_zero, ← ok_unique hfree hrun] at hr'
  intro hA'
  exact ((hr'.state_allocated_iff f).mp (hr.allocated hA')).2 rfl

section

variable (h : SystemInv offset cr3 U k g slabs)

include h

/-- The heap takes free frames. They were nobody's, so the tables and the client keep theirs. -/
theorem kmalloc (h0 : 0 ∉ U) (hoff : offset < 2 ^ 64) (hpage : buddyPageSize ∣ offset) {size : Nat}
    (hsize : size < 2 ^ 64) : Steps offset cr3 U k g slabs (.kmalloc size) := by
  obtain ⟨A, fl, hspace⟩ := h.space
  have hsub : heapFrames offset g.live slabs ⊆ A :=
    Set.subset_union_right.trans hspace.held_sub
  -- the frames that the heap takes were free, so nobody held them
  have hgrow : ∀ {k' : Kernel} {live' : List LiveObject} {slabs' : List Slab} {A' : Set Nat}
      {fl' : FreeLists}, HeapTakes offset U A A' fl' k k' g.live live' slabs slabs' →
      (SystemInv offset cr3 U k' { g with live := live' } slabs' ∧ Contained cr3 U k k') ∧
      ∀ x, k'.mem x ≠ k.mem x → x / buddyPageSize ∉ g.frames offset slabs := by
    intro k' live' slabs' A' fl' ht
    have hframes : ∀ f, f ∈ ({ g with live := live' } : Owners).frames offset slabs' ↔
        f ∈ g.frames offset slabs ∨ f ∈ A' \ A := by
      intro f
      show f ∈ g.client.held ∪ heapFrames offset live' slabs' ↔ _
      rw [ht.frames, ← Set.union_assoc]
      rfl
    refine ⟨h.rebuild hspace ht.repr ht.writes (fun f hf => ht.repr.alloc_sub hf.1)
      (fun f hf hA => absurd hA hf.2) (fun f hf => ?_) (fun f => ?_) rfl ht.part ?_ h.backed,
      fun x hx hin => (ht.writes x hx).2 (hspace.held_sub hin)⟩
    · -- what the clients hold is allocated
      rcases (hframes f).mp hf with hf | hf
      · exact ht.sub (hspace.held_sub hf)
      · exact hf.1
    · -- the tables are the same frames as before
      rw [hframes]
      constructor
      · rintro ⟨hA', hout⟩
        exact ⟨by_contra fun hA => hout (Or.inr ⟨hA', hA⟩), fun hf => hout (Or.inl hf)⟩
      · rintro ⟨hA, hout⟩
        exact ⟨ht.sub hA, fun hf => hf.elim hout fun hnew => hnew.2 hA⟩
    · -- the new frames were free, so the client did not hold them
      rw [ht.frames]
      refine Set.disjoint_union_right.mpr ⟨h.apart, Set.disjoint_left.mpr fun f hf hnew => ?_⟩
      exact hnew.2 (hspace.held_sub (Or.inl hf))
  rcases h.heap.kmalloc hoff hpage h0 hspace.repr hsub hsize with
    ⟨k', slabs', A', fl', hrun, ht⟩ | ⟨p, k', A', fl', hp, hrun, ht⟩
  · exact ⟨0, k', slabs', hrun, (hgrow ht).1, fun x hx => Or.inr ((hgrow ht).2 x hx)⟩
  · refine ⟨p, k', slabs, hrun, ?_, fun x hx => Or.inr ((hgrow ht).2 x hx)⟩
    rw [SystemCall.after, if_neg hp]
    exact (hgrow ht).1

/-- The heap gives the frames of one region back, and keeps all others. -/
theorem kfree (h0 : 0 ∉ U) (hoff : offset < 2 ^ 64) (hpage : buddyPageSize ∣ offset) {ptr : Nat}
    (hlive : ∃ o ∈ g.live, o.ptr = ptr) : Steps offset cr3 U k g slabs (.kfree ptr) := by
  obtain ⟨A, fl, hspace⟩ := h.space
  obtain ⟨o₀, ho₀, hptr₀⟩ := hlive
  obtain ⟨o, before, after, -, hptr, hlist, herase⟩ :=
    List.exists_of_eraseP (p := fun o : LiveObject => decide (o.ptr = ptr)) ho₀
      (decide_eq_true hptr₀)
  have hptr : o.ptr = ptr := of_decide_eq_true hptr
  have hpart := h.heap
  have hsub : heapFrames offset g.live slabs ⊆ A :=
    Set.subset_union_right.trans hspace.held_sub
  rw [hlist] at hpart hsub
  obtain ⟨s', fl', hrun, hr, hpart', hframes⟩ := hpart.kfree hoff hpage h0 hspace.repr hsub
  -- the frames of the region were the heap's, so that the client has none of them
  have htaken : o.taken ⊆ heapFrames offset g.live slabs := by
    rw [hlist, (hpart.large o (List.mem_append_right _ List.mem_cons_self)).taken]
    exact fun f hf => mem_heapFrames
      (HeapInv.block_mem (List.mem_append_right _ List.mem_cons_self)) hf
  have hafter : SystemCall.after offset g 0 k { k with buddy := s' } (.kfree ptr)
      = { g with live := before ++ after } := by
    rw [SystemCall.after, herase]
  -- the clients keep all frames but those of the region
  have hheld : ∀ f, f ∈ ({ g with live := before ++ after } : Owners).frames offset slabs ↔
      f ∈ g.frames offset slabs ∧ f ∉ o.taken := by
    intro f
    show f ∈ g.client.held ∪ heapFrames offset (before ++ after) slabs ↔ _
    rw [hframes, ← hlist]
    constructor
    · rintro (hf | hf)
      · exact ⟨Or.inl hf, fun htf => Set.disjoint_left.mp h.apart hf (htaken htf)⟩
      · exact ⟨Or.inr hf.1, hf.2⟩
    · rintro ⟨hf | hf, hout⟩
      · exact Or.inl hf
      · exact Or.inr ⟨hf, hout⟩
  refine ⟨0, { k with buddy := s' }, slabs, ?_, ?_, fun x hx => absurd rfl hx⟩
  · rw [SystemCall.exec, ← hptr, hrun, ok_bind]
  · rw [hafter]
    refine h.rebuild (F := ∅) hspace hr (.of_eq rfl) (Set.empty_subset U)
      (fun f hf => absurd hf (Set.notMem_empty f)) (fun f hf => ?_) (fun f => ?_) rfl hpart' ?_
      h.backed
    · exact ⟨hspace.held_sub ((hheld f).mp hf).1, ((hheld f).mp hf).2⟩
    · rw [hheld]
      constructor
      · rintro ⟨⟨hA, hout⟩, hf⟩
        exact ⟨hA, fun hin => hf ⟨hin, hout⟩⟩
      · rintro ⟨hA, hout⟩
        exact ⟨⟨hA, fun htf => hout (Or.inr (htaken htf))⟩, fun hf => hout hf.1⟩
    · show Disjoint g.client.held (heapFrames offset (before ++ after) slabs)
      rw [hframes, ← hlist]
      exact h.apart.mono_right Set.sdiff_subset

/-- Nothing changes hands in a store, which stays inside frames that the client or the heap holds.
-/
theorem store_frames (hoff : offset < 2 ^ 64) {virt bytes : Nat} (value : Nat)
    (hallowed : SystemCall.Allowed offset g (.store virt bytes value)) :
    ∃ m F, k.store (some offset) virt bytes value = .ok { k with mem := m } ∧
      HeapPart offset { k with mem := m } g.live slabs ∧ WritesOnly F k { k with mem := m } ∧
      F ⊆ g.frames offset slabs := by
  obtain ⟨A, fl, hspace⟩ := h.space
  have hsub : heapFrames offset g.live slabs ⊆ A :=
    Set.subset_union_right.trans hspace.held_sub
  rcases hallowed with ⟨o, ho, hsize, hlo, hhi⟩ | ⟨f, ⟨hf, -⟩, d, rfl, hd⟩
  · -- a store into a region
    obtain ⟨m, hrun, hpart, hwrites⟩ :=
      h.heap.store hoff hspace.repr hsub ho hsize value hlo hhi
    refine ⟨m, o.taken, hrun, hpart, hwrites, fun f hf => Or.inr ?_⟩
    rw [(h.heap.large o ho).taken] at hf
    exact mem_heapFrames (HeapInv.block_mem ho) hf
  · -- a store into a page, which is apart from the heap
    have hlt : f < buddyMaxPages :=
      hspace.repr.usable_lt (hspace.repr.alloc_sub (hspace.held_sub (Or.inl hf)))
    have hphys : f * buddyPageSize + d < 2 ^ 64 := by
      simp only [buddyMaxPages, buddyMaxPhys, buddyPageSize] at *
      omega
    have hwrites : WritesOnly {f} k
        { k with mem := writeLE k.mem (f * buddyPageSize + d) bytes value } := by
      refine .of_sameOutside ?_ (Set.mem_singleton f)
      exact (sameOutside_writeLE _ _ _ _).mono (by omega) (by omega)
    refine ⟨_, {f}, k.store_phyToVirt hoff hphys bytes value, h.heap.congr rfl hwrites ?_, hwrites,
      Set.singleton_subset_iff.mpr (Or.inl hf)⟩
    exact Set.disjoint_singleton_left.mpr fun hheap => Set.disjoint_left.mp h.apart hf hheap

/-- A store into a region or a page of the client changes no table and no header. -/
theorem store (hoff : offset < 2 ^ 64) {virt bytes value : Nat}
    (hallowed : SystemCall.Allowed offset g (.store virt bytes value)) :
    Steps offset cr3 U k g slabs (.store virt bytes value) := by
  obtain ⟨A, fl, hspace⟩ := h.space
  obtain ⟨m, F, hrun, hpart, hwrites, hF⟩ := h.store_frames hoff value hallowed
  refine ⟨0, { k with mem := m }, slabs, by rw [SystemCall.exec, hrun, ok_bind], ?_, fun x hx => ?_⟩
  · exact h.rebuild hspace hspace.repr hwrites
      (fun f hf => hspace.repr.alloc_sub (hspace.held_sub (hF hf))) (fun f hf _ => hF hf)
      hspace.held_sub (fun f => Iff.rfl) rfl hpart h.apart h.backed
  · -- every byte that has changed is one that the store is for
    left
    have hmem : m = writeLE k.mem ((virt + (2 ^ 64 - offset)) % 2 ^ 64) bytes value :=
      congrArg Kernel.mem (ok_unique hrun rfl)
    rw [hmem] at hx
    by_contra hout
    refine hx (writeLE_of_notMem ?_)
    simp only [SystemCall.target, Set.mem_Ico] at hout
    omega

/-- The client gets a frame that was free, or nothing happens. -/
theorem allocPage : Steps offset cr3 U k g slabs .buddyAllocPage := by
  obtain ⟨A, fl, hspace⟩ := h.space
  rcases hspace.repr.allocPage with ⟨hrun, -⟩ | ⟨f, s, fl', hrun, hf, hr⟩
  · -- there is no page
    refine ⟨buddyInvalidAddress, k, slabs, by rw [SystemCall.exec, hrun, ok_bind], ?_,
      fun x hx => absurd rfl hx⟩
    rw [SystemCall.after, if_pos rfl]
    exact ⟨h, .refl cr3 U k⟩
  · have hlt : f < buddyMaxPages := hspace.repr.usable_lt hf.1
    -- the new page was free, so it was nobody's
    have hnew : f ∉ g.frames offset slabs := fun hin => hf.2 (hspace.held_sub hin)
    have hheld : (g.client.alloc (f * buddyPageSize)).held = insert f g.client.held := by
      rw [Client.alloc, Nat.mul_div_cancel f (by decide)]
    have hframes : ({ g with client := g.client.alloc (f * buddyPageSize) } : Owners).frames
        offset slabs = insert f (g.frames offset slabs) := by
      rw [Owners.frames, hheld, Set.insert_union]
      rfl
    refine ⟨f * buddyPageSize, { k with buddy := s }, slabs, by rw [SystemCall.exec, hrun, ok_bind],
      ?_, fun x hx => absurd rfl hx⟩
    rw [SystemCall.after, if_neg (addr_ne_invalid hlt)]
    refine h.rebuild (F := ∅) hspace hr (.of_eq rfl) (Set.empty_subset U)
      (fun f hf => absurd hf (Set.notMem_empty f)) ?_ (fun f' => ?_) rfl
      (h.heap.congr (F := ∅) rfl (.of_eq rfl) (Set.empty_disjoint _)) ?_ fun n f' hmaps => ?_
    · rw [hframes]
      exact Set.insert_subset (Or.inr rfl) (hspace.held_sub.trans Set.subset_union_left)
    · -- it is no table either
      rw [hframes]
      constructor
      · rintro ⟨hA | rfl, hout⟩
        · exact ⟨hA, fun hin => hout (Or.inr hin)⟩
        · exact absurd (Or.inl rfl) hout
      · rintro ⟨hA, hout⟩
        refine ⟨Or.inl hA, ?_⟩
        rintro (rfl | hin)
        · exact hf.2 hA
        · exact hout hin
    · show Disjoint (g.client.alloc (f * buddyPageSize)).held _
      rw [hheld]
      exact Set.disjoint_insert_left.mpr ⟨fun hheap => hnew (Or.inr hheap), h.apart⟩
    · refine (h.backed n f' hmaps).imp_left fun hold => ?_
      show f' ∈ (g.client.alloc (f * buddyPageSize)).held
      rw [hheld]
      exact Or.inr hold

/-- The client gives up a frame that is mapped nowhere. -/
theorem freePage (h0 : 0 ∉ U) {f : Nat} (hf : f ∈ g.client.held) (hun : ∀ n, ¬ g.client.Maps n f) :
    Steps offset cr3 U k g slabs (.buddyFreePage (f * buddyPageSize)) := by
  obtain ⟨A, fl, hspace⟩ := h.space
  have hone : buddyOrderFromPages 1 = 0 := by decide
  have hA : f ∈ A := hspace.held_sub (Or.inl hf)
  have hblock : block f 0 = {f} := block_zero f
  obtain ⟨s, hrun, hr⟩ := hspace.repr.freePages
    (fun heq : f = 0 => h0 (heq ▸ hspace.repr.alloc_sub hA)) (Nat.le_refl 1)
    (by rw [hone]; exact one_dvd f)
    (by rw [hone, hblock]; exact Set.singleton_subset_iff.mpr hA)
  rw [hone, hblock] at hr
  have hdiv : f * buddyPageSize / buddyPageSize = f := Nat.mul_div_cancel f (by decide)
  -- the clients keep all frames but this one
  have hframes : ∀ f', f' ∈ (SystemCall.after offset g 0 k { k with buddy := s }
      (.buddyFreePage (f * buddyPageSize))).frames offset slabs ↔
      f' ∈ g.frames offset slabs ∧ f' ≠ f := by
    intro f'
    show f' ∈ g.client.held \ {f * buddyPageSize / buddyPageSize} ∪ _ ↔ _
    rw [hdiv]
    constructor
    · rintro (hin | hin)
      · exact ⟨Or.inl hin.1, hin.2⟩
      · refine ⟨Or.inr hin, ?_⟩
        rintro rfl
        exact Set.disjoint_left.mp h.apart hf hin
    · rintro ⟨hin | hin, hne⟩
      · exact Or.inl ⟨hin, hne⟩
      · exact Or.inr hin
  refine ⟨0, { k with buddy := s }, slabs, ?_, ?_, fun x hx => absurd rfl hx⟩
  · rw [SystemCall.exec, Yoix.buddyFreePage, hrun, ok_bind]
  · refine h.rebuild (F := ∅) hspace hr (.of_eq rfl) (Set.empty_subset U)
      (fun f hf => absurd hf (Set.notMem_empty f)) (fun f' hf' => ?_) (fun f' => ?_) rfl
      (h.heap.congr (F := ∅) rfl (.of_eq rfl) (Set.empty_disjoint _))
      (h.apart.mono_left Set.sdiff_subset) fun n f' hmaps => ?_
    · exact ⟨hspace.held_sub ((hframes f').mp hf').1, ((hframes f').mp hf').2⟩
    · -- the tables are the same frames as before
      rw [hframes]
      constructor
      · rintro ⟨⟨hA', hne⟩, hout⟩
        exact ⟨hA', fun hin => hout ⟨hin, hne⟩⟩
      · rintro ⟨hA', hout⟩
        refine ⟨⟨hA', ?_⟩, fun hin => hout hin.1⟩
        rintro rfl
        exact hout (Or.inl hf)
    · -- what is still mapped is another frame, as this one was mapped nowhere
      refine (h.backed n f' hmaps).imp_left fun hold => ⟨hold, ?_⟩
      rw [hdiv]
      rintro rfl
      exact hun n hmaps

/-- The tables take free frames, or only change one entry; the client's map changes at one page. -/
theorem map (v : Nat) {p flags : Nat} (hmay : MayMap g.client p flags) :
    Steps offset cr3 U k g slabs (.vmmMap v p flags) := by
  obtain ⟨A, fl, hspace⟩ := h.space
  have hn := h.vmm.notHuge (vpn v)
  -- to the page-table code the client and the heap together are one client
  have hmay' : MayMap (g.client.beside (heapFrames offset g.live slabs)) p flags :=
    ⟨hmay.1, hmay.2.1, hmay.2.2.imp_left Or.inl⟩
  obtain ⟨ok, k', hrun, -, hinv⟩ := h.vmm.map v hmay'
  obtain ⟨ok', k'', A', fl', hrun', -, -, hconfined, -, -⟩ := hspace.map hn p hmay.1
  obtain ⟨rfl, rfl⟩ := ok_unique_pair hrun hrun'
  have htakes := hspace.map_takesTables hn hmay.1 hrun
  have hwrites := writesOnly_of_confined hspace hconfined
  have hpart : HeapPart offset k' g.live slabs := h.heap.congr htakes.caches hwrites
    (Set.disjoint_compl_left_iff_subset.mpr Set.subset_union_right)
  have hcontained : Contained cr3 U k k' :=
    ⟨fun p f hf => hspace.map_table hn hmay.1 hrun hf,
      fun f hf => (hspace.map_tables hn hmay.1 hrun f hf).imp_right And.left,
      fun x hx => (hconfined x hx).2.imp_right And.left⟩
  -- all frames that the call has taken are tables now
  have howned : ∀ f, k'.buddy.pageState f = pageStateAllocated →
      f ∈ g.frames offset slabs ∨ k'.IsTable cr3 f := by
    intro f hf
    rcases htakes.owned f hf with hold | hnew
    · exact (h.owned f hold).imp_right (htakes.keep f)
    · exact Or.inr hnew
  refine ⟨ok.toNat, k', slabs, by rw [SystemCall.exec, hrun, ok_bind], ?_,
    fun x hx => Or.inr (hwrites x hx)⟩
  cases ok with
  | false => exact ⟨⟨hinv, hpart, h.apart, h.backed, howned⟩, hcontained⟩
  | true =>
    refine ⟨⟨hinv, hpart, h.apart, fun n f hmaps => ?_, howned⟩, hcontained⟩
    rcases Client.maps_mapped hmaps with ⟨-, rfl⟩ | ⟨-, hold⟩
    · refine hmay.2.2.imp_right fun hdevice => ?_
      simp only [buddyMaxPages, buddyMaxPhys, buddyPageSize]
      omega
    · exact h.backed n f hold

/-- What a client maps lies in no frame of the heap. -/
theorem maps_notMem_heap {n : Vpn} {f : Nat} (hmaps : g.client.Maps n f) :
    f ∉ heapFrames offset g.live slabs := by
  intro hheap
  obtain ⟨A, fl, hspace⟩ := h.space
  rcases h.backed n f hmaps with hheld | hdevice
  · exact Set.disjoint_left.mp h.apart hheld hheap
  · have hlt := hspace.repr.usable_lt (hspace.repr.alloc_sub (hspace.held_sub (Or.inr hheap)))
    exact Nat.not_lt.mpr hdevice.1 hlt

/-- The page goes, and with it the client's frame, unless the page was mapped to device memory. -/
theorem unmap (h0 : 0 ∉ U) {v : Nat} (hmay : notShared.mayUnmap g.client v) :
    Steps offset cr3 U k g slabs (.vmmUnmap v) := by
  obtain ⟨A, fl, hspace⟩ := h.space
  have hn := h.vmm.notHuge (vpn v)
  rcases hmay with hnone | ⟨f, hmaps, halone⟩
  · -- nothing is mapped there
    have hrun := h.vmm.client.unmap_none (v := v) hnone
    exact ⟨0, k, slabs, by rw [SystemCall.exec, hrun, ok_bind]; rfl, ⟨h, .refl cr3 U k⟩,
      fun x hx => absurd rfl hx⟩
  · have hout := h.maps_notMem_heap hmaps
    -- no other page of the client is mapped to the frame, and the heap maps nothing
    have halone' : f ∈ (g.client.beside (heapFrames offset g.live slabs)).held →
        ∀ n, g.client.Maps n f → n = vpn v := fun hheld =>
      halone (hheld.resolve_right hout)
    obtain ⟨k', hrun, hinv⟩ := h.vmm.unmap_maps hmaps halone'
    obtain ⟨-, flags, hmap⟩ := id hmaps
    -- the entry that the call finds is the one the client has made
    obtain ⟨d, e, hleaf, hentry⟩ : ∃ d e, k.leaf cr3 (vpn v) = some (d, e) ∧ frameOf e = f := by
      have hview : k.pageMap cr3 (vpn v) = some (f, flags) := by
        rw [h.vmm.map_eq]
        exact hmap
      obtain ⟨⟨d, e⟩, hleaf, heq⟩ := Option.map_eq_some_iff.mp hview
      exact ⟨d, e, hleaf, (Prod.mk.inj heq).1⟩
    obtain ⟨k'', A', fl', hrun', hfree, hrepr, hsub, -, -, htables, hconfined, -⟩ :=
      hspace.unmap_present hn hleaf
    obtain ⟨-, rfl⟩ := ok_unique_pair hrun hrun'
    have hwrites := writesOnly_of_confined hspace hconfined
    have hpart : HeapPart offset k' g.live slabs := h.heap.congr (hspace.unmap_caches hn hrun)
      hwrites (Set.disjoint_compl_left_iff_subset.mpr Set.subset_union_right)
    refine ⟨1, k', slabs, by rw [SystemCall.exec, hrun, ok_bind]; rfl, ?_,
      fun x hx => Or.inr (hwrites x hx)⟩
    rw [Client.beside_unmapped fun f' hf' flags' heq => hout (by
      rwa [(Prod.mk.inj (Option.some.inj (hmap.symm.trans heq))).1])] at hinv
    refine ⟨⟨hinv, hpart, h.apart.mono_left fun f' hf' => hf'.1, fun n f' hmaps' => ?_,
      fun f' hf' => ?_⟩, fun p t ht => (hspace.unmap_table hn hrun p).trans ht,
      fun t ht => Or.inl ((htables t).mp ht),
      fun x hx => (hconfined x hx).2.imp_right And.left⟩
    · -- the pages that stay are mapped to other frames
      obtain ⟨hne, hold⟩ := Client.maps_unmapped hmaps'
      refine (h.backed n f' hold).imp_left fun hheld => ?_
      refine (Client.mem_held_unmapped hmap f').mpr ⟨hheld, ?_⟩
      rintro rfl
      exact hne (halone hheld n hold)
    · -- a frame that is still allocated keeps its owner
      rcases h.owned f' (hspace.repr.allocated (hsub ((hrepr.state_allocated_iff f').mp hf'))) with
        hin | htable
      · by_cases heq : f' = f
        · -- a held frame has gone back to the page allocator
          subst heq
          rcases hin with hheld | hheap
          · exact absurd ((hrepr.state_allocated_iff f').mp hf')
              (freed_of_unmap hspace h0 hheld (hentry ▸ hfree) hrepr)
          · exact absurd hheap hout
        · rcases hin with hheld | hheap
          · exact Or.inl (Or.inl ((Client.mem_held_unmapped hmap f').mpr ⟨hheld, heq⟩))
          · exact Or.inl (Or.inr hheap)
      · exact Or.inr ((htables f').mpr htable)

/-- **Every call a client may make.** It ends, and the invariant holds of the owners after it. One
lemma for each call. -/
theorem step (h0 : 0 ∉ U) (hoff : offset < 2 ^ 64) (hpage : buddyPageSize ∣ offset)
    {call : SystemCall} (hallowed : call.Allowed offset g) : Steps offset cr3 U k g slabs call := by
  cases call with
  | kmalloc size => exact h.kmalloc h0 hoff hpage hallowed
  | kfree ptr => exact h.kfree h0 hoff hpage hallowed
  | store virt bytes value => exact h.store hoff hallowed
  | buddyAllocPage => exact h.allocPage
  | buddyFreePage physAddr =>
    obtain ⟨f, ⟨hf, -⟩, rfl, hun⟩ := hallowed
    exact h.freePage h0 hf hun
  | vmmMap virtAddr physAddr flags => exact h.map virtAddr hallowed.1
  | vmmUnmap virtAddr => exact h.unmap h0 hallowed.1

end

end SystemInv

/-! ## Whole runs -/

section

variable {response : Option MemmapResponse} {offset cr3 : Nat} {k₀ : Kernel}
  (hstart : SystemStart response offset cr3 k₀)

include hstart

/-- Nothing is allocated yet, and the tables of the bootloader are not managed. -/
theorem SystemStart.inv {c : Client} (hc : c.Starts cr3 k₀) (hheld : c.held = ∅) :
    SystemInv offset cr3 (usableFrames response) k₀ ⟨[], c, ∅⟩ [] := by
  obtain ⟨k, s, hinit, rfl⟩ := hstart.booted
  obtain ⟨fl, hheap⟩ := heapInit_inv offset k hstart.env.memmap hinit
  have hnone : heapFrames offset [] [] = ∅ := framesOf_nil
  have hbeside : c.beside (heapFrames offset [] []) = c := by
    rw [Client.beside, hnone, Set.union_empty]
  refine ⟨?_, ⟨hheap.buddy.aligned, hheap.buddy.disjoint, hheap.caches, hheap.slab, hheap.large⟩,
    ?_, fun n f hmaps => ?_, fun f hf => ?_⟩
  · show VmmInv offset cr3 _ _ (c.beside (heapFrames offset [] []))
    rw [hbeside]
    exact hstart.space.inv hc
  · show Disjoint c.held _
    rw [hheld]
    exact Set.empty_disjoint _
  · rw [Client.Maps, hc.written] at hmaps
    exact absurd hmaps.1 (Set.notMem_empty n)
  · have hin := (hheap.buddy.state_allocated_iff f).mp hf
    exact absurd (show f ∈ framesOf [] from hin) (by rw [framesOf_nil]; exact Set.notMem_empty f)

/-- Every state of a run satisfies the invariant. Induction on the run with `SystemInv.step`. -/
theorem SystemRun.inv {k : Kernel} {g : Owners} (run : SystemRun offset cr3 k₀ k g) :
    ∃ slabs, SystemInv offset cr3 (usableFrames response) k g slabs := by
  induction run with
  | start h hheld => exact ⟨[], hstart.inv h hheld⟩
  | call call run hallowed h ih =>
    obtain ⟨slabs, hinv⟩ := ih
    obtain ⟨r, k', slabs', hrun, ⟨hinv', -⟩, -⟩ := hinv.step hstart.env.zero_unusable
      hstart.env.offset_lt hstart.env.offset_aligned hallowed
    obtain ⟨rfl, rfl⟩ := ok_unique_pair h hrun
    exact ⟨slabs', hinv'⟩

end

end Yoix
