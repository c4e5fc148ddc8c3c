import Yoix.System.Run
import Yoix.Heap.Isolation

/-!
# Who holds a frame

Three results over the runs of the memory system. In every state each managed frame is free or has
one owner, and what a client has mapped is its own (`every_frame_has_one_owner`). A value that a
client stores is what it loads later, whatever is called in between, as long as nobody stores there
and the memory is not given back (`stored_value_is_loaded`). Memory that is neither managed nor a
table of the bootloader keeps its content (`reserved_memory_untouched`).
-/

namespace Yoix

open Dyadic Memory

/-! ## Owners of a frame

The four kinds of owners. Two owners of one frame are the same, and each allocated frame has one. -/

inductive Owner where
  | client
  /-- A live region of the heap. -/
  | region (ptr : Nat)
  /-- The slab of a size class. -/
  | slab (index : Nat)
  | table
  deriving DecidableEq, Repr

/-- The frame `f` belongs to this owner. -/
def Owner.Owns (cr3 : Nat) (k : Kernel) (g : Owners) (f : Nat) : Owner → Prop
  | client => f ∈ g.client.held
  | region ptr => ∃ o ∈ g.live, o.ptr = ptr ∧ f ∈ o.taken
  | slab index => index < heapCacheClassCount ∧
      (k.heapCaches index).partialPages = f * buddyPageSize
  | table => k.IsTable cr3 f

namespace SystemInv

variable {offset cr3 : Nat} {U : Set Nat} {k : Kernel} {g : Owners} {slabs : List Slab}

section

variable (h : SystemInv offset cr3 U k g slabs)

include h

/-- A page on the list of a size class is its slab. -/
theorem exists_slab {i f : Nat} (hf : f ≠ 0) (howns : Owner.Owns cr3 k g f (.slab i)) :
    ∃ s ∈ slabs, s.index = i ∧ s.frame = f := by
  obtain ⟨hi, hpages⟩ := howns
  have hne : (k.heapCaches i).partialPages ≠ 0 := by
    rw [hpages]
    exact Nat.mul_ne_zero hf (by decide)
  obtain ⟨s, hs, rfl⟩ := (h.heap.caches.empty_or i hi).resolve_left hne
  refine ⟨s, hs, rfl, Nat.eq_of_mul_eq_mul_right (m := buddyPageSize) (by decide) ?_⟩
  rw [← hpages]
  exact (h.heap.caches.slab s hs).2.symm

/-- The blocks of the heap are its regions and its slabs. -/
theorem mem_heapFrames_iff {f : Nat} (hf : f ≠ 0) :
    f ∈ heapFrames offset g.live slabs ↔
      (∃ ptr, Owner.Owns cr3 k g f (.region ptr)) ∨ ∃ i, Owner.Owns cr3 k g f (.slab i) := by
  constructor
  · rintro ⟨b, hb, hfb⟩
    rcases List.mem_append.mp hb with hb | hb
    · obtain ⟨o, ho, rfl⟩ := List.mem_map.mp hb
      exact Or.inl ⟨o.ptr, o, ho, rfl, by rwa [(h.heap.large o ho).taken]⟩
    · obtain ⟨s, hs, rfl⟩ := List.mem_map.mp hb
      have hfs : f ∈ block s.frame 0 := hfb
      rw [block_zero, Set.mem_singleton_iff] at hfs
      subst hfs
      exact Or.inr ⟨s.index, h.heap.caches.slab s hs⟩
  · rintro (⟨ptr, o, ho, -, hfo⟩ | ⟨i, howns⟩)
    · rw [(h.heap.large o ho).taken] at hfo
      exact mem_heapFrames (HeapInv.block_mem ho) hfo
    · obtain ⟨s, hs, -, rfl⟩ := h.exists_slab hf howns
      exact mem_heapFrames (HeapInv.slab_mem hs) (base_mem_block _ _)

/-- A frame is in at most one region, as regions have blocks of their own. -/
theorem region_unique {f p q : Nat} (hp : Owner.Owns cr3 k g f (.region p))
    (hq : Owner.Owns cr3 k g f (.region q)) : p = q := by
  obtain ⟨o, ho, rfl, hfo⟩ := hp
  obtain ⟨o', ho', rfl, hfo'⟩ := hq
  by_contra hne
  have hblocks : o.block offset ≠ o'.block offset := by
    intro heq
    apply hne
    rw [(h.heap.large o ho).ptr, (h.heap.large o' ho').ptr, heq]
  rw [(h.heap.large o ho).taken] at hfo
  rw [(h.heap.large o' ho').taken] at hfo'
  have hapart := h.heap.blocks_apart (HeapInv.block_mem ho) (HeapInv.block_mem ho') hblocks
  obtain ⟨hlo, hhi⟩ := hfo
  obtain ⟨hlo', hhi'⟩ := hfo'
  omega

theorem slab_unique {f i j : Nat} (hf : f ≠ 0) (hi : Owner.Owns cr3 k g f (.slab i))
    (hj : Owner.Owns cr3 k g f (.slab j)) : i = j := by
  obtain ⟨s, hs, rfl, rfl⟩ := h.exists_slab hf hi
  obtain ⟨s', hs', rfl, heq⟩ := h.exists_slab hf hj
  by_contra hne
  have : Std.Symm fun s s' : Slab => Disjoint s.block.frames s'.block.frames :=
    ⟨fun _ _ hd => hd.symm⟩
  have hslabs := List.pairwise_map.mp (List.pairwise_append.mp h.heap.disjoint).2.1
  refine Set.disjoint_left.mp (hslabs.forall hs hs' fun hss => hne (hss ▸ rfl))
    (base_mem_block s.frame 0) ?_
  rw [← heq]
  exact base_mem_block s'.frame 0

theorem not_region_slab {f p i : Nat} (hf : f ≠ 0) (hp : Owner.Owns cr3 k g f (.region p))
    (hi : Owner.Owns cr3 k g f (.slab i)) : False := by
  obtain ⟨s, hs, rfl, rfl⟩ := h.exists_slab hf hi
  obtain ⟨o, ho, rfl, hfo⟩ := hp
  rw [(h.heap.large o ho).taken] at hfo
  have hapart := h.heap.slab_apart ho hs
  obtain ⟨hlo, hhi⟩ := hfo
  omega

/-- No frame has two owners. The client, the heap and the tables hold disjoint sets of frames, and
inside the heap the blocks are disjoint. -/
theorem owner_unique {f : Nat} (hU : f ∈ U) (hf : f ≠ 0) {w w' : Owner}
    (hw : w.Owns cr3 k g f) (hw' : w'.Owns cr3 k g f) : w = w' := by
  obtain ⟨A, fl, hspace⟩ := h.space
  have hregion : ∀ {p}, Owner.Owns cr3 k g f (.region p) → f ∈ heapFrames offset g.live slabs :=
    fun hp => (h.mem_heapFrames_iff hf).mpr (Or.inl ⟨_, hp⟩)
  have hslab : ∀ {i}, Owner.Owns cr3 k g f (.slab i) → f ∈ heapFrames offset g.live slabs :=
    fun hi => (h.mem_heapFrames_iff hf).mpr (Or.inr ⟨_, hi⟩)
  have hclient : f ∈ g.client.held → f ∉ heapFrames offset g.live slabs :=
    fun hheld => Set.disjoint_left.mp h.apart hheld
  have htable : k.IsTable cr3 f → f ∉ g.client.held ∧ f ∉ heapFrames offset g.live slabs :=
    fun ht => not_or.mp (hspace.tables f ht hU).2
  -- the client, the heap and the tables are disjoint; inside the heap the blocks are
  cases w with
  | client =>
    cases w' with
    | client => rfl
    | region q => exact absurd (hregion hw') (hclient hw)
    | slab j => exact absurd (hslab hw') (hclient hw)
    | table => exact absurd hw (htable hw').1
  | region p =>
    cases w' with
    | client => exact absurd (hregion hw) (hclient hw')
    | region q => rw [h.region_unique hw hw']
    | slab j => exact (h.not_region_slab hf hw hw').elim
    | table => exact absurd (hregion hw) (htable hw').2
  | slab i =>
    cases w' with
    | client => exact absurd (hslab hw) (hclient hw')
    | region q => exact (h.not_region_slab hf hw' hw).elim
    | slab j => rw [h.slab_unique hf hw hw']
    | table => exact absurd (hslab hw) (htable hw').2
  | table =>
    cases w' with
    | client => exact absurd hw' (htable hw).1
    | region q => exact absurd (hregion hw') (htable hw).2
    | slab j => exact absurd (hslab hw') (htable hw).2
    | table => rfl

/-- A usable frame is allocated exactly when somebody owns it: nothing leaks, and nothing free is in
use. -/
theorem allocated_iff_owned {f : Nat} (hU : f ∈ U) (hf : f ≠ 0) :
    k.buddy.pageState f = pageStateAllocated ↔ ∃ w : Owner, w.Owns cr3 k g f := by
  obtain ⟨A, fl, hspace⟩ := h.space
  constructor
  · intro halloc
    rcases h.owned f halloc with (hheld | hheap) | htable
    · exact ⟨.client, hheld⟩
    · rcases (h.mem_heapFrames_iff hf).mp hheap with ⟨p, hp⟩ | ⟨i, hi⟩
      · exact ⟨.region p, hp⟩
      · exact ⟨.slab i, hi⟩
    · exact ⟨.table, htable⟩
  · rintro ⟨w, hw⟩
    apply hspace.repr.allocated
    cases w with
    | client => exact hspace.held_sub (Or.inl hw)
    | region p =>
      exact hspace.held_sub (Or.inr ((h.mem_heapFrames_iff hf).mpr (Or.inl ⟨p, hw⟩)))
    | slab i => exact hspace.held_sub (Or.inr ((h.mem_heapFrames_iff hf).mpr (Or.inr ⟨i, hw⟩)))
    | table => exact (hspace.tables f hw hU).1

end

end SystemInv

/-- **One owner for each frame.** In every state that calls of `kmalloc`, `kfree`, `buddy_alloc_page`,
`buddy_free_page`, `vmm_map`, `vmm_unmap` and stores of clients lead to, in any order: a managed
frame is free and nobody's, or allocated and held by one client page, heap region, slab or table.
The tables hold the map that the client has built. A frame that the client has mapped is its own if it
is managed, and memory from 1 GiB on otherwise. The next call ends. The run starts as `SystemStart`
says, and its calls are those that their callers may make (`SystemCall.Allowed`). -/
theorem every_frame_has_one_owner {response : Option MemmapResponse} {offset cr3 : Nat}
    {k₀ k : Kernel} {g : Owners} (hstart : SystemStart response offset cr3 k₀)
    (run : SystemRun offset cr3 k₀ k g) :
    (∀ f ∈ usableFrames response,
      k.buddy.FreeFrame f ∧ (∀ w : Owner, ¬ w.Owns cr3 k g f) ∨
      k.buddy.pageState f = pageStateAllocated ∧ ∃! w : Owner, w.Owns cr3 k g f) ∧
    k.pageMap cr3 = g.client.map ∧
    (∀ n ∈ g.client.written, ∀ f flags, k.pageMap cr3 n = some (f, flags) →
      (f ∈ usableFrames response → ∀ w : Owner, w.Owns cr3 k g f ↔ w = .client) ∧
      (f ∉ usableFrames response → buddyMaxPages ≤ f)) ∧
    ∀ call : SystemCall, call.Allowed offset g → ∃ r, call.exec offset cr3 k = .ok r := by
  obtain ⟨slabs, hinv⟩ := run.inv hstart
  obtain ⟨A, fl, hspace⟩ := hinv.space
  have hne : ∀ {f}, f ∈ usableFrames response → f ≠ 0 := by
    rintro f hf rfl
    exact hstart.env.zero_unusable hf
  have hmaps : ∀ {n f flags}, n ∈ g.client.written → k.pageMap cr3 n = some (f, flags) →
      g.client.Maps n f := by
    intro n f flags hn hmap
    exact ⟨hn, flags, by rw [← hmap]; exact congrFun hinv.vmm.map_eq.symm n⟩
  refine ⟨fun f hf => ?_, hinv.vmm.map_eq, fun n hn f flags hmap => ⟨fun hf w => ?_, fun hf => ?_⟩,
    fun call hallowed => ?_⟩
  · by_cases halloc : k.buddy.pageState f = pageStateAllocated
    · obtain ⟨w, hw⟩ := (hinv.allocated_iff_owned hf (hne hf)).mp halloc
      exact Or.inr ⟨halloc, w, hw, fun w' hw' => hinv.owner_unique hf (hne hf) hw' hw⟩
    · refine Or.inl ⟨?_, fun w hw => halloc ((hinv.allocated_iff_owned hf (hne hf)).mpr ⟨w, hw⟩)⟩
      exact (hspace.repr.freeFrame_iff f).mpr
        ⟨hf, fun hA => halloc (hspace.repr.allocated hA)⟩
  · have hheld : f ∈ g.client.held := by
      refine (hinv.backed n f (hmaps hn hmap)).resolve_right fun hdevice => ?_
      exact Nat.not_lt.mpr hdevice.1 (hspace.repr.usable_lt hf)
    constructor
    · intro hw
      exact hinv.owner_unique hf (hne hf) hw hheld
    · rintro rfl
      exact hheld
  · -- what the client holds is managed, so this is memory of a device
    refine ((hinv.backed n f (hmaps hn hmap)).resolve_left fun hheld => hf ?_).1
    exact hspace.repr.alloc_sub (hspace.held_sub (Or.inl hheld))
  · obtain ⟨r, k', slabs', hrun, -⟩ := hinv.step hstart.env.zero_unusable hstart.env.offset_lt
      hstart.env.offset_aligned hallowed
    exact ⟨_, hrun⟩

/-! ## Stored values

Calls that do not store to some bytes keep them, as long as somebody has the frame of these bytes
and keeps it. -/

/-- The frames that a call gives back to the page allocator, and those whose pointer it takes. -/
def SystemCall.releases (offset : Nat) (g : Owners) : SystemCall → Set Nat
  | kfree ptr => { f | ∃ o ∈ g.live, o.ptr = ptr ∧ f ∈ o.taken }
  | buddyFreePage physAddr => {physAddr / buddyPageSize}
  | vmmMap virtAddr physAddr flags => { f | Diverts offset virtAddr physAddr flags f }
  | vmmUnmap virtAddr => { f | ∃ flags, g.client.map (vpn virtAddr) = some (f, flags) }
  | _ => ∅

/-- Calls that neither store to an address of `X` nor release it. -/
inductive SystemTrace (offset cr3 : Nat) (X : Set Nat) (k : Kernel) (g : Owners) :
    Kernel → Owners → Prop where
  | refl : SystemTrace offset cr3 X k g k g
  | call {k' k'' : Kernel} {g' : Owners} {r : Nat} (call : SystemCall)
      (trace : SystemTrace offset cr3 X k g k' g') (hallowed : call.Allowed offset g')
      (hstore : Disjoint X (call.target offset))
      (hkeep : ∀ x ∈ X, x / buddyPageSize ∉ call.releases offset g')
      (h : call.exec offset cr3 k' = .ok (r, k'')) :
      SystemTrace offset cr3 X k g k'' (call.after offset g' r k' k'')

/-- A page of a client, or a frame of a live region. -/
def Owners.Has (g : Owners) (f : Nat) : Prop := f ∈ g.client.held ∨ ∃ o ∈ g.live, f ∈ o.taken

/-- A client keeps the frames that a call does not release. -/
theorem Owners.Has.after {offset : Nat} {g : Owners} {f : Nat} (h : g.Has f) {call : SystemCall} (r : Nat)
    (k k' : Kernel) (hkeep : f ∉ call.releases offset g) : (call.after offset g r k k').Has f := by
  cases call with
  | kmalloc size =>
    rw [SystemCall.after]
    split
    · exact h
    · refine h.imp_right ?_
      rintro ⟨o, ho, hf⟩
      exact ⟨o, List.mem_cons_of_mem _ ho, hf⟩
  | kfree ptr =>
    refine h.imp_right ?_
    rintro ⟨o, ho, hf⟩
    -- the region that is freed is the one that is released
    have hne : ¬ decide (o.ptr = ptr) = true := fun heq =>
      hkeep ⟨o, ho, of_decide_eq_true heq, hf⟩
    refine ⟨o, ?_, hf⟩
    exact (List.mem_eraseP_of_neg (p := fun o : LiveObject => decide (o.ptr = ptr)) hne).mpr ho
  | store virt bytes value => exact h
  | buddyAllocPage =>
    rw [SystemCall.after]
    split
    · exact h
    · exact h.imp_left fun hheld => Or.inr hheld
  | buddyFreePage physAddr => exact h.imp_left fun hheld => ⟨hheld, hkeep⟩
  | vmmMap virtAddr physAddr flags =>
    rw [SystemCall.after]
    split
    · exact h
    · exact h
  | vmmUnmap virtAddr =>
    rw [SystemCall.after]
    split
    · exact h
    · exact h.imp_left fun hheld => ⟨hheld, fun flags heq => hkeep ⟨flags, heq⟩⟩

section

variable {response : Option MemmapResponse} {offset cr3 : Nat} {k₀ k : Kernel} {g : Owners}

/-- What the client has is among the frames that the invariant speaks of. -/
theorem SystemInv.mem_frames {U : Set Nat} {slabs : List Slab}
    (h : SystemInv offset cr3 U k g slabs) {f : Nat} (hf : g.Has f) : f ∈ g.frames offset slabs := by
  refine hf.imp_right ?_
  rintro ⟨o, ho, hfo⟩
  rw [(h.heap.large o ho).taken] at hfo
  exact mem_heapFrames (HeapInv.block_mem ho) hfo

/-- Whoever may store to an address has the frame it lies in. -/
theorem SystemInv.has_target {U : Set Nat} {slabs : List Slab}
    (h : SystemInv offset cr3 U k g slabs) (hoff : offset < 2 ^ 64) {virt bytes value x : Nat}
    (hallowed : SystemCall.Allowed offset g (.store virt bytes value))
    (hx : x ∈ SystemCall.target offset (.store virt bytes value)) : g.Has (x / buddyPageSize) := by
  obtain ⟨A, fl, hspace⟩ := h.space
  obtain ⟨hlo, hhi⟩ := hx
  rcases hallowed with ⟨o, ho, hsize, hfirst, hlast⟩ | ⟨f, ⟨hf, -⟩, d, rfl, hd⟩
  · obtain ⟨phys, htrans, hphys, hend⟩ := h.heap.region_phys hoff hspace.repr
      (Set.subset_union_right.trans hspace.held_sub) ho hsize hfirst hlast
    have heq : (virt + (2 ^ 64 - offset)) % 2 ^ 64 = phys := Except.ok.inj htrans
    rw [heq] at hlo hhi
    exact Or.inr ⟨o, ho, h.heap.frame_of_region ho (by omega) (by omega)⟩
  · have hlt : f < buddyMaxPages :=
      hspace.repr.usable_lt (hspace.repr.alloc_sub (hspace.held_sub (Or.inl hf)))
    have hphys : f * buddyPageSize + d < 2 ^ 64 := by
      simp only [buddyMaxPages, buddyMaxPhys, buddyPageSize] at *
      omega
    have heq := Except.ok.inj (translate_phyToVirt hoff hphys)
    rw [heq] at hlo hhi
    have hframe : x / buddyPageSize = f := by
      simp only [buddyPageSize] at *
      omega
    exact Or.inl (hframe ▸ hf)

/-- Addresses that a client has keep their bytes and their owner. -/
theorem SystemTrace.keeps {X : Set Nat} {k' : Kernel} {g' : Owners}
    (hstart : SystemStart response offset cr3 k₀) (run : SystemRun offset cr3 k₀ k g)
    (hhas : ∀ x ∈ X, g.Has (x / buddyPageSize)) (trace : SystemTrace offset cr3 X k g k' g') :
    SystemRun offset cr3 k₀ k' g' ∧ ∀ x ∈ X, g'.Has (x / buddyPageSize) ∧ k'.mem x = k.mem x := by
  induction trace with
  | refl => exact ⟨run, fun x hx => ⟨hhas x hx, rfl⟩⟩
  | @call k' k'' g' r call _ hallowed hstore hkeep h ih =>
    obtain ⟨run', hold⟩ := ih
    obtain ⟨slabs, hinv⟩ := run'.inv hstart
    obtain ⟨r', k₁, slabs', hrun, -, hbytes⟩ := hinv.step hstart.env.zero_unusable
      hstart.env.offset_lt hstart.env.offset_aligned hallowed
    obtain ⟨rfl, rfl⟩ := ok_unique_pair h hrun
    refine ⟨.call call run' hallowed h, fun x hx => ⟨(hold x hx).1.after r k' k'' (hkeep x hx), ?_⟩⟩
    rw [← (hold x hx).2]
    by_contra hne
    rcases hbytes x hne with htarget | hout
    · exact Set.disjoint_left.mp hstore hx htarget
    · exact hout (hinv.mem_frames (hold x hx).1)

/-- **Stored values stay.** A value that a client stores into its region or page, in any state of
any run, is the value it loads after any further calls, by itself or by others, that neither store
to those bytes nor give up their frames or the pointers to them. -/
theorem stored_value_is_loaded (hstart : SystemStart response offset cr3 k₀)
    (run : SystemRun offset cr3 k₀ k g) {virt bytes value : Nat}
    (hallowed : SystemCall.Allowed offset g (.store virt bytes value)) :
    ∃ k₁, k.store (some offset) virt bytes value = .ok k₁ ∧
      ∀ k' g', SystemTrace offset cr3 (SystemCall.target offset (.store virt bytes value)) k₁ g
        k' g' → k'.load (some offset) virt bytes = .ok (value % 256 ^ bytes) := by
  obtain ⟨slabs, hinv⟩ := run.inv hstart
  refine ⟨_, rfl, fun k' g' trace => ?_⟩
  have run₁ : SystemRun offset cr3 k₀ _ g :=
    SystemRun.call (r := 0) (.store virt bytes value) run hallowed rfl
  obtain ⟨-, hold⟩ := trace.keeps hstart run₁ fun x hx =>
    hinv.has_target hstart.env.offset_lt hallowed hx
  show Except.ok (readLE k'.mem _ bytes) = _
  rw [readLE_congr fun x hlo hhi => (hold x ⟨hlo, hhi⟩).2, readLE_writeLE_self]

/-! ## Reserved memory

Whatever is called, bytes outside usable memory and the tables of the bootloader keep their values.
-/

/-- The tables of a run are those it started with, and managed frames. -/
theorem SystemRun.contained (hstart : SystemStart response offset cr3 k₀)
    (run : SystemRun offset cr3 k₀ k g) : Contained cr3 (usableFrames response) k₀ k := by
  induction run with
  | start => exact .refl _ _ k₀
  | call call run hallowed h ih =>
    obtain ⟨slabs, hinv⟩ := run.inv hstart
    obtain ⟨r, k', slabs', hrun, ⟨-, hstep⟩, -⟩ := hinv.step hstart.env.zero_unusable
      hstart.env.offset_lt hstart.env.offset_aligned hallowed
    obtain ⟨rfl, rfl⟩ := ok_unique_pair h hrun
    exact ih.trans hstep

/-- **Reserved memory is left alone.** From tables without huge pages (`SystemStart`) and with calls
that their callers may make (`SystemCall.Allowed`), in whatever order: a byte of a frame that the
memory map does not make usable, and that is no table of the bootloader, is never written. The image
of the kernel, the tables of the firmware, the frame buffer and the registers of devices lie in such
frames. -/
theorem reserved_memory_untouched (hstart : SystemStart response offset cr3 k₀)
    (run : SystemRun offset cr3 k₀ k g) (x : Nat)
    (hreserved : x / buddyPageSize ∉ usableFrames response)
    (htable : ¬ k₀.IsTable cr3 (x / buddyPageSize)) : k.mem x = k₀.mem x := by
  by_contra hne
  exact ((run.contained hstart).bytes x hne).elim htable hreserved

end

/-! ## A sample system -/

/-- The sample tables right after `heap_init`, and a client that takes the first page. -/
theorem sampleSystem : ∃ s₀ s s', SystemStart sampleMap sampleDirectMap sampleCr3
      (heapInit (sampleTables s₀)) ∧
    SystemRun sampleDirectMap sampleCr3 (heapInit (sampleTables s₀)) (heapInit (sampleTables s))
      ⟨[], (sampleClient s₀).alloc 0x1000, ∅⟩ ∧
    buddyAllocPage s = .ok (0x4000, s') := by
  obtain ⟨s₀, s, s', hinit, halloc, halloc'⟩ : ∃ s₀ s s', buddyInit sampleMap = .ok s₀ ∧
      buddyAllocPage s₀ = .ok (0x1000, s) ∧ buddyAllocPage s = .ok (0x4000, s') :=
    ⟨_, _, _, rfl, rfl, rfl⟩
  have hspace := initialSpace_sampleTables (.init hinit)
  have hclient : (sampleClient s₀).Starts sampleCr3 (heapInit (sampleTables s₀)) :=
    ⟨fun f hf => absurd hf (Set.notMem_empty f), rfl, rfl⟩
  have hexec : SystemCall.exec sampleDirectMap sampleCr3 (heapInit (sampleTables s₀)) .buddyAllocPage
      = .ok (0x1000, heapInit (sampleTables s)) := by
    rw [SystemCall.exec, show buddyAllocPage (heapInit (sampleTables s₀)).buddy = _ from halloc,
      ok_bind]
    rfl
  exact ⟨s₀, s, s', ⟨sampleEnv, ⟨hspace.memmap, hspace.run, hspace.direct, hspace.noHuge,
    hspace.unshared, hspace.unmanaged, hspace.mapped⟩, sampleTables s₀, s₀, hinit, rfl⟩,
    .call .buddyAllocPage (.start hclient rfl) trivial hexec, halloc'⟩

theorem every_frame_has_one_owner_sampleSystem :
    ∃ k₀ k g, SystemStart sampleMap sampleDirectMap sampleCr3 k₀ ∧
      SystemRun sampleDirectMap sampleCr3 k₀ k g ∧ 1 ∈ g.client.held ∧
      ∀ f ∈ usableFrames sampleMap,
        k.buddy.FreeFrame f ∧ (∀ w : Owner, ¬ w.Owns sampleCr3 k g f) ∨
        k.buddy.pageState f = pageStateAllocated ∧ ∃! w : Owner, w.Owns sampleCr3 k g f := by
  obtain ⟨s₀, s, s', hstart, run, -⟩ := sampleSystem
  exact ⟨_, _, _, hstart, run, Or.inl rfl, (every_frame_has_one_owner hstart run).1⟩

/-- The client fills its page, another page is taken, and the client reads its own. -/
theorem stored_value_is_loaded_sampleSystem :
    ∃ (k₀ k k₁ k' : Kernel) (g g' : Owners), SystemStart sampleMap sampleDirectMap sampleCr3 k₀ ∧
      SystemRun sampleDirectMap sampleCr3 k₀ k g ∧
      SystemTrace sampleDirectMap sampleCr3 (Set.Ico 0x1008 0x1010) k₁ g k' g' ∧
      4 ∈ g'.client.held ∧
      k'.load (some sampleDirectMap) 0xFFFF800000001008 8 = .ok 0x1234 := by
  obtain ⟨s₀, s, s', hstart, run, halloc⟩ := sampleSystem
  have hallowed : SystemCall.Allowed sampleDirectMap ⟨[], (sampleClient s₀).alloc 0x1000, ∅⟩
      (.store 0xFFFF800000001008 8 0x1234) :=
    Or.inr ⟨1, ⟨Or.inl rfl, Set.notMem_empty 1⟩, 8, by decide, by decide⟩
  obtain ⟨k₁, hstore, hload⟩ := stored_value_is_loaded hstart run hallowed
  have hbuddy : k₁.buddy = s := by
    rw [← Except.ok.inj hstore]
    rfl
  have hexec : SystemCall.exec sampleDirectMap sampleCr3 k₁ .buddyAllocPage
      = .ok (0x4000, { k₁ with buddy := s' }) := by
    rw [SystemCall.exec, hbuddy, halloc, ok_bind]
  have trace : SystemTrace sampleDirectMap sampleCr3
      (SystemCall.target sampleDirectMap (.store 0xFFFF800000001008 8 0x1234)) k₁
      ⟨[], (sampleClient s₀).alloc 0x1000, ∅⟩ _ _ :=
    .call .buddyAllocPage .refl trivial (Set.disjoint_empty _) (fun x _ => Set.notMem_empty _) hexec
  exact ⟨_, _, _, _, _, _, hstart, run, trace, Or.inl rfl, hload _ _ trace⟩

/-- Frame 32 of the sample system is reserved: its bytes are those of the start after a run that
allocates and stores. -/
theorem reserved_memory_untouched_sampleSystem :
    ∃ k₀ k g, SystemStart sampleMap sampleDirectMap sampleCr3 k₀ ∧
      SystemRun sampleDirectMap sampleCr3 k₀ k g ∧
      ∀ x, x / buddyPageSize = 32 → k.mem x = k₀.mem x := by
  obtain ⟨s₀, s, s', hstart, run, -⟩ := sampleSystem
  refine ⟨_, _, _, hstart, run, fun x hx => reserved_memory_untouched hstart run x ?_ ?_⟩
  · rw [hx]
    intro hU
    have hle := (mem_usableFrames_sampleMap.mp hU).2
    omega
  · rw [hx]
    intro ht
    have hrange := (chained_sampleTables s₀).range ht
    have hroot : frameOf sampleCr3 = 16 := by decide
    omega

end Yoix
