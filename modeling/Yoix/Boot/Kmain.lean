import Yoix.Acpi.FindTable
import Yoix.Apic.Base
import Yoix.Ioapic.Registers
import Yoix.System.DirectMap

/-!
# Starting the kernel (`main.c`)

`kmain` halts unless the bootloader has answered all requests. It then sets up the page allocator and
the heap, enables the local APIC, looks for the MADT and makes the windows to the IOAPICs. The
drawing, `initGdt` and `idt_init`, which come before, touch none of this state.

`kmain_boots` says that this leads into the runs of the memory system: from the first state on,
whatever is called later, the pointer of the local APIC leads to its registers. Where a pointer leads
is the processor's own walk of the tables (`hwAccess`). The bootloader's tables must have no huge pages:
`vmm_map` takes one for a table, and then the pointers lead to ordinary memory.
-/

namespace Yoix

open Memory

/-! ## `kmain`

From the responses of the bootloader to the state in which the kernel halts, waiting for interrupts.
-/

/-- The responses of the bootloader that `kmain` looks at. -/
structure BootResponses where
  baseRevisionSupported : Bool
  /-- `framebuffer_count`, if there is a response. -/
  framebufferCount : Option Nat
  memmap : Option MemmapResponse
  hhdm : Option Nat
  rsdp : Option Nat

/-- The globals after `kmain` has set everything up. -/
structure BootState where
  kernel : Kernel
  msrs : Msrs
  gVirtApic : Nat
  stores : DeviceStores
  ioapics : IoapicTables
  virtAddress : List Nat
  ioapicVer : UInt32
  ioapicId : UInt32
  bus : DeviceBus

inductive BootOutcome where
  /-- `hcf` before anything is set up -/
  | halted
  /-- there is no MADT, and `init_IOAPIC` follows the `NULL` pointer -/
  | nullMadt
  /-- the first IOAPIC cannot be accessed -/
  | pageFault
  | running (b : BootState)

/-- Physical memory as it is read through the direct map. -/
def directBytes (offset : Nat) (mem : Nat → UInt8) : Nat → UInt8 :=
  fun p => mem ((p + (2 ^ 64 - offset)) % 2 ^ 64)

section

variable (shl32 : UInt32 → UInt32) (cr3 : Nat)

/-- `IOAPICVER` and `IOAPICID`, which `init_IOAPIC` reads in the end. -/
def readVersion (k : Kernel) (virtAddress : List Nat) (bus : DeviceBus) :
    Option (UInt32 × UInt32 × DeviceBus) := do
  let (ioapicVer, bus) ← ioapicReadAt cr3 k virtAddress bus 0x01 0
  let (ioapicId, bus) ← ioapicReadAt cr3 k virtAddress bus 0x00 0
  some (ioapicVer, ioapicId, bus)

/-- `init_IOAPIC`, with the pointer that `findTable` has returned. -/
def startIoapics (offset : Nat) (apic : EnabledApic) (bus : DeviceBus) (k : Kernel)
    (madtHeader : Nat) : Except Fault BootOutcome :=
  if madtHeader = 0 then .ok .nullMadt
  else do
    let (ioapics, virtAddress, k) ←
      initIoapicWindows (some offset) cr3 k (directBytes offset k.mem) madtHeader
    match readVersion cr3 k virtAddress bus with
    | none => .ok .pageFault
    | some (ioapicVer, ioapicId, bus) =>
      .ok (.running ⟨k, apic.msrs, apic.gVirtApic, apic.stores, ioapics, virtAddress, ioapicVer,
        ioapicId, bus⟩)

/-- `kmain` from `buddy_init` on. -/
def setUp (memmap : Option MemmapResponse) (offset rsdp : Nat) (msrs : Msrs) (bus : DeviceBus)
    (k : Kernel) : Except Fault BootOutcome := do
  let buddy ← buddyInit memmap
  let k := heapInit { k with buddy }
  let apic := enableApic shl32 (some offset) msrs []
  let (_, k) ← vmmMap (some offset) cr3 k apic.mapCall.virtAddr apic.mapCall.physAddr
    apic.mapCall.flags
  let madtHeader := (findTable (directBytes offset k.mem) (some offset) apicSign rsdp).table
  startIoapics cr3 offset apic bus k madtHeader

def kmain (r : BootResponses) (msrs : Msrs) (bus : DeviceBus) (k : Kernel) :
    Except Fault BootOutcome :=
  if ¬ r.baseRevisionSupported then .ok .halted
  else if r.framebufferCount.getD 0 < 1 then .ok .halted
  else if (r.memmap.bind MemmapResponse.entries).getD [] = [] then .ok .halted
  else
    match r.hhdm, r.rsdp with
    | some offset, some rsdp => setUp shl32 cr3 r.memmap offset rsdp msrs bus k
    | _, _ => .ok .halted

end

/-- The bootloader has answered everything. -/
structure BootResponses.Complete (r : BootResponses) (offset rsdp : Nat) : Prop where
  supported : r.baseRevisionSupported = true
  framebuffer : 1 ≤ r.framebufferCount.getD 0
  entries : (r.memmap.bind MemmapResponse.entries).getD [] ≠ []
  hhdm : r.hhdm = some offset
  rsdp : r.rsdp = some rsdp

theorem BootResponses.Complete.kmain_eq {r : BootResponses} {offset rsdp : Nat}
    (h : r.Complete offset rsdp) (shl32 : UInt32 → UInt32) (cr3 : Nat) (msrs : Msrs)
    (bus : DeviceBus) (k : Kernel) :
    kmain shl32 cr3 r msrs bus k = setUp shl32 cr3 r.memmap offset rsdp msrs bus k := by
  rw [kmain, if_neg (not_not.mpr h.supported), if_neg (Nat.not_lt.mpr h.framebuffer),
    if_neg h.entries, h.hhdm, h.rsdp]

/-- The tables of the firmware lie in reserved memory: whatever the other frames hold, the root table
leads to this MADT, which lists IOAPICs at these addresses. -/
structure FirmwareTables (offset rsdp : Nat) (reserved : Set Nat) (mem : Nat → UInt8)
    (madtHeader : Nat) (phys : List UInt32) : Prop where
  found : ∀ m : Nat → UInt8, (∀ x, x / buddyPageSize ∈ reserved → m x = mem x) →
    (findTable (directBytes offset m) (some offset) apicSign rsdp).table = madtHeader
  listed : ∀ m : Nat → UInt8, (∀ x, x / buddyPageSize ∈ reserved → m x = mem x) →
    (initIoapic (directBytes offset m) madtHeader).physAddress = phys

/-! ## Boot as a run of the memory system

The calls that `kmain` makes are ones that a client may make, so all that is known of runs holds for
the state it leads to. -/

section

variable {offset cr3 : Nat} {k₀ k k' : Kernel} {g : Owners}

/-- The pointer that a failed `buddy_alloc_page` leads to lies below the direct map. -/
theorem directPage_ne_invalid (hpage : buddyPageSize ∣ offset) {f : Nat} (hf : f < 2 ^ 32) :
    directPage offset f ≠ vpn (phyToVirt (some offset) buddyInvalidAddress) := by
  intro h
  obtain ⟨m, rfl⟩ := hpage
  have hval := congrArg Fin.val h
  simp only [directPage, vpn, phyToVirt, Fin.val_ofNat, buddyPageSize, buddyInvalidAddress] at *
  omega

variable {response : Option MemmapResponse}

/-- The loop of `init_IOAPIC` takes pages and maps their pointers, with or without free frames. -/
theorem SystemRun.mapWindowsLoop (hstart : SystemStart response offset cr3 k₀)
    (run : SystemRun offset cr3 k₀ k g) {phys : List UInt32} (hdevice : ∀ p ∈ phys, 2 ^ 30 ≤ p.toNat)
    {virts : List Nat} (h : mapWindowsLoop (some offset) cr3 k phys = .ok (virts, k')) :
    ∃ g', SystemTrace offset cr3 ∅ k g k' g' := by
  induction phys generalizing k g virts with
  | nil =>
    obtain ⟨-, rfl⟩ := ok_unique_pair h rfl
    exact ⟨g, .refl⟩
  | cons p rest ih =>
    rw [Yoix.mapWindowsLoop] at h
    obtain ⟨⟨page, buddy⟩, halloc, h⟩ := bind_eq_ok.mp h
    obtain ⟨⟨ok, k₁⟩, hmap, h⟩ := bind_eq_ok.mp h
    obtain ⟨⟨virts', k₂⟩, hrest, h⟩ := bind_eq_ok.mp h
    obtain ⟨-, rfl⟩ := ok_unique_pair h rfl
    have hexec : SystemCall.exec offset cr3 k .buddyAllocPage
        = .ok (page, { k with buddy }) := by
      rw [SystemCall.exec, halloc, ok_bind]
    have t₁ := SystemTrace.single .buddyAllocPage (g := g) trivial hexec
    -- the page behind the pointer is held, if there is one
    have hheld : ∀ f, Diverts offset (phyToVirt (some offset) page) p.toNat windowFlags f →
        f ∈ (SystemCall.after offset g page k { k with buddy } .buddyAllocPage).client.held := by
      rintro f ⟨hf, hdirect, -⟩
      obtain ⟨slabs, hinv⟩ := run.inv hstart
      rcases hinv.vmm.client.alloc with hfail | ⟨f₀, s, hsome, hlt, -, -⟩
      · obtain ⟨rfl, -⟩ := ok_unique_pair halloc hfail
        exact absurd hdirect (directPage_ne_invalid hstart.env.offset_aligned hf)
      · obtain ⟨rfl, -⟩ := ok_unique_pair halloc hsome
        rw [SystemCall.after, if_neg (addr_ne_invalid hlt)]
        obtain rfl := directPage_inj hf (frame_lt hlt) hdirect
        exact Or.inl (Nat.mul_div_cancel f (by decide)).symm
    have hallowed : SystemCall.Allowed offset
        (SystemCall.after offset g page k { k with buddy } .buddyAllocPage)
        (.vmmMap (phyToVirt (some offset) page) p.toNat windowFlags) := by
      refine ⟨⟨by decide, by decide, Or.inr ⟨hdevice p List.mem_cons_self, ?_⟩⟩, hheld⟩
      exact Nat.lt_trans p.toNat_lt (by decide)
    have hexec₂ : SystemCall.exec offset cr3 { k with buddy }
        (.vmmMap (phyToVirt (some offset) page) p.toNat windowFlags) = .ok (ok.toNat, k₁) := by
      rw [SystemCall.exec, hmap, ok_bind]
    have t₂ := t₁.trans (SystemTrace.single _ hallowed hexec₂)
    obtain ⟨g', t₃⟩ := ih (t₂.run run) (fun q hq => hdevice q (List.mem_cons_of_mem _ hq)) hrest
    exact ⟨g', t₂.trans t₃⟩

/-- The page that `enable_apic` maps: that of the registers, at its own place in the direct map, for
a base from 1 GiB up to 4 GiB. -/
theorem enableApic_maps {shl32 : UInt32 → UInt32} (hshl : shl32 0 = 0) {msrs : Msrs}
    (hlow : 2 ^ 30 ≤ apicBaseField (msrs ia32ApicBaseMsr))
    (hhigh : apicBaseField (msrs ia32ApicBaseMsr) < 2 ^ 32) (offset : Nat) (stores : DeviceStores) :
    let apic := enableApic shl32 (some offset) msrs stores
    ∃ f, buddyMaxPages ≤ f ∧ f < 2 ^ 32 ∧
      apicBaseField (apic.msrs ia32ApicBaseMsr) = apicBaseField (msrs ia32ApicBaseMsr) ∧
      apicBaseField (msrs ia32ApicBaseMsr) = f * buddyPageSize ∧
      apic.gVirtApic = phyToVirt (some offset) (f * buddyPageSize) ∧
      apic.mapCall = ⟨phyToVirt (some offset) (f * buddyPageSize), f * buddyPageSize, windowFlags⟩ := by
  intro apic
  obtain ⟨hkept, hphys⟩ := (keepsApicBase_iff hshl (some offset) stores).mpr hhigh
  obtain ⟨f, hframe⟩ : ∃ f, apicBaseField (msrs ia32ApicBaseMsr) = f * buddyPageSize := ⟨_, rfl⟩
  have hbase : apic.mapCall.physAddr = f * buddyPageSize := (hphys.trans hkept).trans hframe
  have hvirt : apic.gVirtApic = phyToVirt (some offset) apic.mapCall.physAddr := rfl
  have hcall : apic.mapCall = ⟨apic.gVirtApic, apic.mapCall.physAddr, windowFlags⟩ := rfl
  rw [hbase] at hvirt hcall
  refine ⟨f, ?_, ?_, hkept, hframe, hvirt, hvirt ▸ hcall⟩
  · simp only [buddyMaxPages, buddyMaxPhys, buddyPageSize] at *
    omega
  · simp only [buddyPageSize] at hframe
    omega

/-- The two registers of the first IOAPIC that `init_IOAPIC` reads in the end. The selector is left
at the second. -/
theorem readVersion_eq {virtAddress : List Nat} {virt page : Nat}
    (hslot : virtAddress[0]? = some virt) (hvirt : virt < 2 ^ 64)
    (h : LeadsToPage cr3 k virt page) (bus : DeviceBus) :
    readVersion cr3 k virtAddress bus
      = some ((bus page).regs 0x01, (bus page).regs 0x00,
        Function.update bus page ⟨0x00, (bus page).regs⟩) := by
  have hfirst : virtAddress[(0 : UInt8).toNat]? = some virt := hslot
  have hver := ioapicReadAt_eq hfirst hvirt h bus 0x01
  have hid := ioapicReadAt_eq hfirst hvirt h (Function.update bus page ⟨0x01, (bus page).regs⟩) 0x00
  rw [Function.update_self, Function.update_idem] at hid
  rw [readVersion, hver]
  show (ioapicReadAt cr3 k virtAddress _ 0x00 0).bind _ = _
  rw [hid]
  rfl

end

/-- The stages of `setUp`, one after the other: when each of them ends as stated, the kernel runs
with what they return. -/
theorem setUp_running {shl32 : UInt32 → UInt32} {cr3 offset rsdp madtHeader : Nat}
    {memmap : Option MemmapResponse} {msrs : Msrs} {bus bus' : DeviceBus} {k k₁ k₂ : Kernel} {s : Buddy}
    {ok : Bool} {ioapics : IoapicTables} {virtAddress : List Nat} {ioapicVer ioapicId : UInt32}
    (hinit : buddyInit memmap = .ok s)
    (hmap : vmmMap (some offset) cr3 (heapInit { k with buddy := s })
      (enableApic shl32 (some offset) msrs []).mapCall.virtAddr
      (enableApic shl32 (some offset) msrs []).mapCall.physAddr
      (enableApic shl32 (some offset) msrs []).mapCall.flags = .ok (ok, k₁))
    (hfound : (findTable (directBytes offset k₁.mem) (some offset) apicSign rsdp).table = madtHeader)
    (hmadt : madtHeader ≠ 0)
    (hwindows : initIoapicWindows (some offset) cr3 k₁ (directBytes offset k₁.mem) madtHeader
      = .ok (ioapics, virtAddress, k₂))
    (hread : readVersion cr3 k₂ virtAddress bus = some (ioapicVer, ioapicId, bus')) :
    setUp shl32 cr3 memmap offset rsdp msrs bus k
      = .ok (.running ⟨k₂, (enableApic shl32 (some offset) msrs []).msrs,
        (enableApic shl32 (some offset) msrs []).gVirtApic,
        (enableApic shl32 (some offset) msrs []).stores, ioapics, virtAddress, ioapicVer, ioapicId,
        bus'⟩) := by
  rw [setUp, hinit, ok_bind]
  dsimp only
  rw [hmap, ok_bind]
  dsimp only
  rw [hfound, startIoapics, if_neg hmadt, hwindows, ok_bind]
  dsimp only
  rw [hread]

/-- **The kernel boots into the memory system.** Let the bootloader answer all requests and leave page
tables as the memory system is started with (`SystemStart`), with a canonical direct map; let the
tables of the firmware lie in reserved memory and list IOAPICs above 1 GiB, the local APIC lie between 1
and 4 GiB, and enough frames be usable. Then `kmain` ends, its state is one of a run of the memory
system, the base of the local APIC is what it was, and accesses through every window reach its IOAPIC, so
that the two registers read in the end are those of the first one. Accesses through the pointer to the
local APIC reach its registers from then on, whatever is called later. -/
theorem kmain_boots (shl32 : UInt32 → UInt32) (r : BootResponses) (msrs : Msrs) (bus : DeviceBus)
    (k : Kernel) {offset rsdp cr3 madtHeader : Nat} {s : Buddy} {phys : List UInt32}
    (hcomplete : r.Complete offset rsdp) (hinit : buddyInit r.memmap = .ok s)
    (hstart : SystemStart r.memmap offset cr3 (heapInit { k with buddy := s }))
    (hcanon : CanonicalMap offset)
    (hfirmware : FirmwareTables offset rsdp { f | f ∉ usableFrames r.memmap ∧ ¬ k.IsTable cr3 f }
      k.mem madtHeader phys)
    (hmadt : madtHeader ≠ 0) (hsome : phys ≠ []) (hdevice : ∀ p ∈ phys, 2 ^ 30 ≤ p.toNat)
    (hfree : (heapInit { k with buddy := s }).HasFree (3 + (4 * phys.length + 1)))
    (hshl : shl32 0 = 0) (hlow : 2 ^ 30 ≤ apicBaseField (msrs ia32ApicBaseMsr))
    (hhigh : apicBaseField (msrs ia32ApicBaseMsr) < 2 ^ 32) :
    ∃ b g, kmain shl32 cr3 r msrs bus k = .ok (.running b) ∧
      SystemRun offset cr3 (heapInit { k with buddy := s }) b.kernel g ∧
      apicBaseField (b.msrs ia32ApicBaseMsr) = apicBaseField (msrs ia32ApicBaseMsr) ∧
      (∀ k' g', SystemTrace offset cr3 ∅ b.kernel g k' g' → ∀ d < buddyPageSize,
        hwAccess cr3 k' (b.gVirtApic + d)
          = some (apicBaseField (b.msrs ia32ApicBaseMsr) + d)) ∧
      List.Forall₂ (fun virt (p : UInt32) =>
        LeadsToPage cr3 b.kernel virt (p.toNat / buddyPageSize)) b.virtAddress phys ∧
      ∀ p, phys.head? = some p →
        b.ioapicVer = (bus (p.toNat / buddyPageSize)).regs 0x01 ∧
        b.ioapicId = (bus (p.toNat / buddyPageSize)).regs 0x00 := by
  set k₀ := heapInit { k with buddy := s }
  have run₀ : SystemRun offset cr3 k₀ k₀ ⟨[], ⟨∅, ∅, k₀.pageMap cr3⟩, ∅⟩ :=
    .start ⟨fun f hf => absurd hf (Set.notMem_empty f), rfl, rfl⟩ rfl
  -- `enable_apic`
  obtain ⟨f, hflow, hfhigh, hkept, hbase, hvirt, hcall⟩ := enableApic_maps hshl hlow hhigh offset []
  obtain ⟨k₁, g₁, hmap, t₁, hfree₁, hdirect⟩ := run₀.mapDirect hstart hflow hfhigh
    (show windowFlags < 2 ^ 64 by decide) (by decide) (by decide) hfree (Nat.le_add_left 1 _)
  have run₁ := t₁.run run₀
  -- the tables of the firmware are what they were
  have hsame : ∀ x, x / buddyPageSize ∈ { f | f ∉ usableFrames r.memmap ∧ ¬ k.IsTable cr3 f } →
      k₁.mem x = k.mem x := by
    intro x hx
    by_contra hne
    exact ((run₁.contained hstart).bytes x hne).elim hx.2 hx.1
  have hfound := hfirmware.found k₁.mem hsame
  have hlisted := hfirmware.listed k₁.mem hsame
  -- `init_IOAPIC`
  obtain ⟨slabs, hinv₁⟩ := run₁.inv hstart
  obtain ⟨virts, k₂, c₂, hloop, hspace₂, -, hwin, -⟩ :=
    hinv₁.vmm.client.mapWindowsLoop phys hfree₁
  obtain ⟨g₂, t₂⟩ := run₁.mapWindowsLoop hstart hdevice hloop
  have hleads : List.Forall₂ (fun virt (p : UInt32) => virt < 2 ^ 64 ∧
      LeadsToPage cr3 k₂ virt (p.toNat / buddyPageSize)) virts phys :=
    hwin.imp fun virt p hw => hspace₂.window_leads hstart.env.offset_aligned hcanon hw
  obtain ⟨p, rest, rfl⟩ := List.exists_cons_of_ne_nil hsome
  obtain ⟨virt, virts', ⟨hvirt₀, hlead₀⟩, -, rfl⟩ := List.forall₂_cons_right_iff.mp hleads
  have hread := readVersion_eq (show (virt :: virts')[0]? = some virt from rfl) hvirt₀ hlead₀ bus
  have hwindows : initIoapicWindows (some offset) cr3 k₁ (directBytes offset k₁.mem) madtHeader
      = .ok (initIoapic (directBytes offset k₁.mem) madtHeader, virt :: virts', k₂) := by
    rw [initIoapicWindows, hlisted, hloop, ok_bind]
  have hrun := (hcomplete.kmain_eq shl32 cr3 msrs bus k).trans
    (setUp_running hinit (by rw [hcall]; exact hmap) hfound hmadt hwindows hread)
  refine ⟨_, g₂, hrun, t₂.run run₁, hkept, fun k' g' trace d hd => ?_,
    hleads.imp fun _ _ h => h.2, fun q hq => ?_⟩
  · have trace₁ := t₂.trans trace
    obtain ⟨flags, hmapped⟩ := run₁.map_device hstart hflow hfhigh hdirect trace₁
    obtain ⟨slabs', hinv'⟩ := (trace₁.run run₁).inv hstart
    have hfour : f < 2 ^ 20 := by
      simp only [buddyPageSize] at hbase
      omega
    show hwAccess _ _ ((enableApic shl32 (some offset) msrs []).gVirtApic + d)
      = some (apicBaseField ((enableApic shl32 (some offset) msrs []).msrs ia32ApicBaseMsr) + d)
    rw [hvirt, hkept, hbase]
    exact hinv'.vmm.client.hwAccess_direct hstart.env.offset_aligned hmapped hd hcanon hfour
  · obtain rfl : p = q := Option.some.inj hq
    exact ⟨rfl, rfl⟩

/-! ## A sample machine

Its memory below 2 MiB is mapped at the direct map by pages of 4 KiB: the tables in the frames 16 to 19
lead from entry 256 of the root to the page table, whose entry `i` leads to frame `i`. The tables of the
firmware lie in frame 32. -/

/-- Eight usable pages. -/
def machineMap : Option MemmapResponse := some ⟨some [some ⟨0x1000, 0x8000, 0⟩]⟩

/-- Memory with the page table in frame 19 and the tables of the firmware in frame 32: an RSDP of
revision 0, an RSDT at `0x20100` and a MADT at `0x20200` that lists an IOAPIC. -/
def machineMem (x : Nat) : UInt8 :=
  if x / buddyPageSize = 19 then
    UInt8.ofNat ((x % buddyPageSize / 8 * buddyPageSize + 3) / 256 ^ (x % 8))
  else if x < 0x20000 then 0
  else (List.lookup x [(0x20011, 1), (0x20012, 2), (0x20104, 40), (0x20125, 2), (0x20126, 2),
    (0x20200, 0x41), (0x20201, 0x50), (0x20202, 0x49), (0x20203, 0x43), (0x20204, 56),
    (0x2022C, 1), (0x2022D, 12), (0x20232, 0xC0), (0x20233, 0xFE)]).getD 0

/-- The entries that lead to the page table. -/
def machineVia (d : Nat) : Fin 512 := Fin.ofNat 512 (if d = 0 then 256 else 0)

def machineKernel (s : Buddy) : Kernel :=
  (((⟨s, machineMem, fun _ => ⟨0, 0⟩⟩ : Kernel).putEntry 16 (machineVia 0) 0x11003).putEntry 17
    (machineVia 1) 0x12003).putEntry 18 (machineVia 2) 0x13003

/-- The memory of the machine is as the allocator expects it. -/
theorem machineMap_ok : MemmapOk machineMap where
  disjoint := List.pairwise_singleton _ _
  bounded e he := by
    rw [show usableEntries machineMap = [⟨0x1000, 0x8000, 0⟩] from rfl, List.mem_singleton] at he
    subst he
    decide

theorem mem_usableFrames_machineMap {f : Nat} : f ∈ usableFrames machineMap ↔ 1 ≤ f ∧ f ≤ 8 := by
  constructor
  · rintro ⟨e, he, -, hlo, hhi⟩
    rw [show usableEntries machineMap = [⟨0x1000, 0x8000, 0⟩] from rfl, List.mem_singleton] at he
    subst he
    simp only [buddyPageSize] at *
    omega
  · rintro ⟨hlo, hhi⟩
    refine ⟨⟨0x1000, 0x8000, 0⟩, List.mem_cons_self, ?_⟩
    simp only [MemmapEntry.frames, Set.mem_ofPred_eq, buddyMaxPages, buddyMaxPhys, buddyPageSize]
    omega

/-- The page table maps each frame to itself. -/
theorem entries_machineMem_leaf (i : Fin 512) : entries machineMem 19 i = i * buddyPageSize + 3 := by
  have hi := i.isLt
  have hread : entries machineMem 19 i = (i * buddyPageSize + 3) % 256 ^ 8 := by
    refine readLE_eq_mod fun j hj => ?_
    have hframe : (19 * buddyPageSize + 8 * i + j) / buddyPageSize = 19 := by
      simp only [buddyPageSize]
      omega
    have hindex : (19 * buddyPageSize + 8 * i + j) % buddyPageSize / 8 = i := by
      simp only [buddyPageSize]
      omega
    have hbyte : (19 * buddyPageSize + 8 * (i : Nat) + j) % 8 = j := by
      simp only [buddyPageSize]
      omega
    rw [machineMem, if_pos hframe, hindex, hbyte]
  rw [hread]
  refine Nat.mod_eq_of_lt ?_
  simp only [buddyPageSize]
  omega

theorem entries_machineMem_of_lt {f : Nat} (hf : f < 32) (hne : f ≠ 19) (i : Fin 512) :
    entries machineMem f i = 0 := by
  have hi := i.isLt
  refine readLE_of_zero fun j hj => ?_
  rw [machineMem, if_neg, if_pos]
  · simp only [buddyPageSize]
    omega
  · simp only [buddyPageSize]
    omega

theorem entries_machineKernel (s : Buddy) : entries (machineKernel s).mem =
    Radix.set (Radix.set (Radix.set (entries machineMem) 16 (machineVia 0) 0x11003) 17 (machineVia 1)
      0x12003) 18 (machineVia 2) 0x13003 := by
  rw [machineKernel, entries_putEntry _ _ _ (by decide), entries_putEntry _ _ _ (by decide),
    entries_putEntry _ _ _ (by decide)]

/-- An upper table of the machine has one entry, which leads to the next table. -/
theorem machineKernel_entry (s : Buddy) {d : Nat} (hd : d < 3) (i : Fin 512) :
    entries (machineKernel s).mem (16 + d) i
      = if i = machineVia d then (17 + d) * buddyPageSize + 3 else 0 := by
  have hzero : ∀ f, f < 19 → entries machineMem f i = 0 :=
    fun f hf => entries_machineMem_of_lt (by omega) (by omega) i
  rw [entries_machineKernel]
  match d, hd with
  | 0, _ =>
    rw [Radix.set_of_ne (by decide), Radix.set_of_ne (by decide), Radix.set, hzero _ (by decide)]
    simp only [Nat.add_zero, true_and]
    rfl
  | 1, _ =>
    rw [Radix.set_of_ne (by decide), Radix.set, Radix.set_of_ne (by decide), hzero _ (by decide)]
    simp only [Nat.reduceAdd, true_and]
    rfl
  | 2, _ =>
    rw [Radix.set, Radix.set_of_ne (by decide), Radix.set_of_ne (by decide), hzero _ (by decide)]
    simp only [Nat.reduceAdd, true_and]
    rfl

theorem machineKernel_child (s : Buddy) {d : Nat} (hd : d < 3) :
    pageChild d (entries (machineKernel s).mem (16 + d) (machineVia d)) = some (16 + d + 1) := by
  rw [machineKernel_entry s hd, if_pos rfl]
  match d, hd with
  | 0, _ => decide
  | 1, _ => decide
  | 2, _ => decide

theorem chained_machineKernel (s : Buddy) :
    Chained machineVia (machineKernel s) (frameOf sampleCr3) := by
  intro d i f hc
  have hroot : frameOf sampleCr3 = 16 := by decide
  rw [hroot] at hc ⊢
  have hd : d < 3 := Nat.lt_succ_of_le (pageChild_eq_some hc).1
  by_cases hi : i = machineVia d
  · subst hi
    rw [machineKernel_child s hd] at hc
    exact ⟨rfl, (Option.some.inj hc).symm⟩
  · rw [machineKernel_entry s hd, if_neg hi, pageChild_zero] at hc
    exact absurd hc (by simp)

/-- The machine is one that the memory system may be started on. -/
theorem machineKernel_start {s : Buddy} (hinit : buddyInit machineMap = .ok s) :
    SystemStart machineMap sampleDirectMap sampleCr3 (heapInit (machineKernel s)) := by
  have hroot : frameOf sampleCr3 = 16 := by decide
  have hchain := chained_machineKernel s
  refine ⟨⟨machineMap_ok, fun h => ?_, by decide, by decide⟩, ⟨machineMap_ok, ⟨[], .init hinit⟩,
    sampleDirectMap_ok, fun p f i hp hlo hhi _ => ?_, hchain.unshared, fun f hf hU => ?_, fun f hf => ?_⟩,
    (machineKernel s), s, hinit, rfl⟩
  · exact absurd (mem_usableFrames_machineMap.mp h).1 (by decide)
  · -- the PDPT and the page directory have one entry each, and it is no huge page
    obtain ⟨-, hf, -⟩ := hchain.walk (d := 0) (Nat.zero_le 3) hp
    obtain rfl : f = 16 + p.length := by omega
    show entries (machineKernel s).mem (16 + p.length) i &&& pageHuge = 0
    rw [machineKernel_entry s (by omega)]
    generalize p.length = d at *
    have hcases : d = 1 ∨ d = 2 := by omega
    rcases hcases with rfl | rfl
    · split <;> decide
    · split <;> decide
  · have hrange := hchain.range hf
    have hle := (mem_usableFrames_machineMap.mp hU).2
    omega
  · have hrange := hchain.range hf
    exact sampleDirectMap_ne_zero (by omega)

/-- The pointers to the first 2 MiB reach them. -/
theorem machineKernel_direct (s : Buddy) {f d : Nat} (hf : f < 512) (hd : d < buddyPageSize) :
    hwAccess sampleCr3 (machineKernel s) (phyToVirt (some sampleDirectMap) (f * buddyPageSize) + d)
      = some (f * buddyPageSize + d) := by
  have hroot : frameOf sampleCr3 = 16 := by decide
  obtain ⟨hvpn, hmod⟩ := phyToVirt_page (show buddyPageSize ∣ sampleDirectMap by decide) f hd
  -- the page is entry 256 of the root, then the first entries, and then entry `f`
  have hval : (directPage sampleDirectMap f : Nat) = 2 ^ 35 + f := by
    simp only [directPage, vpn, phyToVirt, Fin.val_ofNat, sampleDirectMap, buddyPageSize]
    omega
  have hpath : (directPage sampleDirectMap f).tablePath = [machineVia 0, machineVia 1, machineVia 2] := by
    rw [Vpn.tablePath, hval, show (2 ^ 35 + f) / 2 ^ 27 = 256 from by omega,
      show (2 ^ 35 + f) / 2 ^ 18 = 2 ^ 17 from by omega, show (2 ^ 35 + f) / 2 ^ 9 = 2 ^ 26 from by omega]
    decide
  have hindex : ((directPage sampleDirectMap f).index : Nat) = f := by
    rw [Vpn.index, hval, Fin.val_ofNat]
    omega
  have htable : (machineKernel s).table sampleCr3 (directPage sampleDirectMap f).tablePath = some 19 := by
    rw [hpath, Kernel.table, hroot, Radix.walk_cons_some (machineKernel_child s (d := 0) (by decide)),
      Radix.walk_cons_some (machineKernel_child s (d := 1) (by decide)),
      Radix.walk_cons_some (machineKernel_child s (d := 2) (by decide))]
    rfl
  have hentry : entries (machineKernel s).mem 19 (directPage sampleDirectMap f).index
      = f * buddyPageSize + 3 := by
    rw [entries_machineKernel, Radix.set_of_ne (by decide), Radix.set_of_ne (by decide),
      Radix.set_of_ne (by decide), entries_machineMem_leaf, hindex]
  have hpresent : (f * buddyPageSize + 3) &&& pagePresent ≠ 0 := by
    rw [show pagePresent = 1 from rfl, Nat.and_one_is_mod]
    simp only [buddyPageSize]
    omega
  have hframe : (f * buddyPageSize + 3) &&& pageAddrMask = f * buddyPageSize := by
    rw [and_pageAddrMask]
    simp only [buddyPageSize]
    omega
  rw [hwAccess, if_pos (sampleDirectMap_canonical.pointer (by omega) hd), hwTranslate, hvpn,
    AddressSpace.leaf_eq htable, hentry, pageLeaf, if_neg hpresent]
  show some (((f * buddyPageSize + 3) &&& pageAddrMask) + _ % buddyPageSize) = _
  rw [hframe, hmod]

/-- All usable frames of the machine are free after `buddy_init`. -/
theorem machineKernel_hasFree {s : Buddy} (hinit : buddyInit machineMap = .ok s) :
    (heapInit (machineKernel s)).HasFree 8 := by
  obtain ⟨s', hinit', hrepr⟩ := buddyInit_represents machineMap_ok
  obtain rfl := ok_unique hinit hinit'
  refine ⟨Finset.Icc 1 8, by decide, fun f hf => (hrepr.freeFrame_iff f).mpr ⟨?_, ?_⟩⟩
  · exact mem_usableFrames_machineMap.mpr (Finset.mem_Icc.mp hf)
  · exact Set.notMem_empty f

theorem bytesAt_directBytes {offset a x : Nat} (hoff : offset < 2 ^ 64) (hend : a + x < 2 ^ 64)
    (m : Nat → UInt8) : bytesAt (directBytes offset m) (phyToVirt (some offset) a) x = m (a + x) := by
  have hx : ((phyToVirt (some offset) a + x) % 2 ^ 64 + (2 ^ 64 - offset)) % 2 ^ 64 = a + x := by
    simp only [phyToVirt]
    omega
  show m _ = _
  rw [hx]

/-- Records are read up to one byte past the end of the MADT. -/
theorem findEntriesLoop_congr {mem mem' : Nat → UInt8} {lo entriesEnd : Nat}
    (h : ∀ x, lo ≤ x → x ≤ entriesEnd → mem x = mem' x) (type : Nat) (arrayGiven : Bool)
    (maxCount n : Nat) {ptr : Nat} (hptr : lo ≤ ptr) (array : List Nat) :
    findEntriesLoop mem type arrayGiven maxCount entriesEnd n ptr array
      = findEntriesLoop mem' type arrayGiven maxCount entriesEnd n ptr array := by
  induction n generalizing ptr array with
  | zero => rfl
  | succ n ih =>
    rw [findEntriesLoop, findEntriesLoop]
    by_cases hend : ptr < entriesEnd
    · rw [if_pos hend, if_pos hend, h ptr hptr (by omega), h (ptr + 1) (by omega) (by omega)]
      dsimp only
      split
      · rfl
      · exact ih (by omega) _
    · rw [if_neg hend, if_neg hend]

section

variable {m : Nat → UInt8} (hm : SameAt m machineMem 0x20000 0x1000)

include hm

theorem machine_field {a i n : Nat} (hlo : 0x20000 ≤ a + i) (hhi : a + i + n ≤ 0x21000) :
    field (directBytes sampleDirectMap m) (phyToVirt (some sampleDirectMap) a) i n
      = field (directBytes sampleDirectMap machineMem) (phyToVirt (some sampleDirectMap) a) i n := by
  refine readLE_congr fun x hx hx' => ?_
  rw [bytesAt_directBytes (by decide) (by omega), bytesAt_directBytes (by decide) (by omega)]
  exact hm (a + x) (by omega) (by omega)

/-- On this machine `findTable` finds the MADT, and returns its place in the direct map. -/
theorem machine_findTable :
    (findTable (directBytes sampleDirectMap m) (some sampleDirectMap) apicSign
      (phyToVirt (some sampleDirectMap) 0x20000)).table = 0xFFFF800000020200 := by
  have haddress : rsdtAddress (directBytes sampleDirectMap m)
      (phyToVirt (some sampleDirectMap) 0x20000) = 0x20100 :=
    (machine_field hm (by decide) (by decide)).trans (by decide)
  have hrsdp : RsdpLists (directBytes sampleDirectMap m) (some sampleDirectMap)
      (phyToVirt (some sampleDirectMap) 0x20000) [0x20200] := by
    refine ⟨?_, by decide, ?_⟩
    · rw [rsdpRevision, machine_field hm (by decide) (by decide)]
      decide
    · rw [haddress]
      refine RootLists.of_getElem ((machine_field hm (by decide) (by decide)).trans (by decide))
        fun i hi => ?_
      obtain rfl : i = 0 := Nat.lt_one_iff.mp hi
      show _ = 0x20200
      exact (machine_field hm (by decide) (by decide)).trans (by decide)
  have hsame : ∀ a ∈ [0x20200], ∀ i < 4,
      bytesAt (directBytes sampleDirectMap m) (phyToVirt (some sampleDirectMap) a) i
        = bytesAt (directBytes sampleDirectMap machineMem) (phyToVirt (some sampleDirectMap) a) i := by
    intro a ha i hi
    obtain rfl := List.mem_singleton.mp ha
    rw [bytesAt_directBytes (by decide) (by omega), bytesAt_directBytes (by decide) (by omega)]
    exact hm _ (by omega) (by omega)
  rw [hrsdp.findTable_eq (by decide), firstTable_congr hsame]
  decide

/-- The MADT of the machine lists one IOAPIC, at `0xFEC00000`. -/
theorem machine_physAddress :
    (initIoapic (directBytes sampleDirectMap m) 0xFFFF800000020200).physAddress = [0xFEC00000] := by
  have hbyte : ∀ x, 0xFFFF800000020200 ≤ x → x < 0xFFFF800000021000 →
      directBytes sampleDirectMap m x = directBytes sampleDirectMap machineMem x := by
    intro x hlo hhi
    refine hm _ ?_ ?_
    · simp only [sampleDirectMap]
      omega
    · simp only [sampleDirectMap]
      omega
  have hlength : madtLength (directBytes sampleDirectMap m) 0xFFFF800000020200 = 56 :=
    (readLE_congr fun x hlo hhi => hbyte x (by omega) (by omega)).trans (by decide)
  have hentries : findEntries (directBytes sampleDirectMap m) 0xFFFF800000020200 1 true 16
      = [0xFFFF80000002022C] := by
    rw [findEntries, hlength, findEntriesLoop_congr (fun x hlo hhi => hbyte x hlo (by omega))
      _ _ _ _ (show 0xFFFF800000020200 ≤ 0xFFFF800000020200 + madtSize by decide)]
    decide
  have haddress : readLE (directBytes sampleDirectMap m) (0xFFFF80000002022C + 4) 4 = 0xFEC00000 :=
    (readLE_congr fun x hlo hhi => hbyte x (by omega) (by omega)).trans (by decide)
  simp only [initIoapic, hentries, List.map_cons, List.map_nil, ioapicAddress, haddress]
  decide

end

theorem machineKernel_mem (s : Buddy) {x : Nat} (hx : 19 ≤ x / buddyPageSize) :
    (machineKernel s).mem x = machineMem x := by
  have hout : ∀ (k : Kernel) (f : Nat) (i : Fin 512) (v : Nat), f < 19 →
      (k.putEntry f i v).mem x = k.mem x := by
    intro k f i v hf
    by_contra hne
    have hframe := frame_of_putEntry_ne hne
    omega
  rw [machineKernel, hout _ _ _ _ (by decide), hout _ _ _ _ (by decide), hout _ _ _ _ (by decide)]

/-- The tables of the machine's firmware are as `kmain_boots` assumes them. -/
theorem machine_firmware (s : Buddy) : FirmwareTables sampleDirectMap
    (phyToVirt (some sampleDirectMap) 0x20000)
    { f | f ∉ usableFrames machineMap ∧ ¬ (machineKernel s).IsTable sampleCr3 f }
    (machineKernel s).mem 0xFFFF800000020200 [0xFEC00000] := by
  have hroot : frameOf sampleCr3 = 16 := by decide
  have hpage : ∀ m : Nat → UInt8, (∀ x, x / buddyPageSize ∈ { f | f ∉ usableFrames machineMap ∧
      ¬ (machineKernel s).IsTable sampleCr3 f } → m x = (machineKernel s).mem x) →
      SameAt m machineMem 0x20000 0x1000 := by
    intro m hm x hlo hhi
    have hframe : x / buddyPageSize = 32 := by
      simp only [buddyPageSize]
      omega
    rw [hm x ⟨fun hU => ?_, fun htable => ?_⟩, machineKernel_mem s (by omega)]
    · rw [hframe] at hU
      exact absurd (mem_usableFrames_machineMap.mp hU).2 (by decide)
    · have hrange := (chained_machineKernel s).range htable
      omega
  exact ⟨fun m hm => machine_findTable (hpage m hm), fun m hm => machine_physAddress (hpage m hm)⟩

/-- The sample machine, whose memory below 2 MiB is mapped at the direct map, boots, and the pointer to
the local APIC leads to `0xFEE00000`. -/
theorem kmain_boots_machine :
    ∃ k b, (∀ f < 512, ∀ d < buddyPageSize,
        hwAccess sampleCr3 k (phyToVirt (some sampleDirectMap) (f * buddyPageSize) + d)
          = some (f * buddyPageSize + d)) ∧
      kmain (fun _ => 0) sampleCr3 ⟨true, some 1, machineMap, some sampleDirectMap,
        some (phyToVirt (some sampleDirectMap) 0x20000)⟩ (fun _ => ⟨0xFEE00900, 0⟩)
        (fun _ => ⟨0, fun _ => 0⟩) k = .ok (.running b) ∧
      b.ioapicVer = 0 ∧ hwAccess sampleCr3 b.kernel (b.gVirtApic + 0xB0) = some 0xFEE000B0 := by
  obtain ⟨s, hinit, -⟩ := buddyInit_represents machineMap_ok
  obtain ⟨b, g, hrun, -, hkept, hlapic, -, hver⟩ := kmain_boots (fun _ => 0)
    ⟨true, some 1, machineMap, some sampleDirectMap, some (phyToVirt (some sampleDirectMap) 0x20000)⟩
    (fun _ => ⟨0xFEE00900, 0⟩) (fun _ => ⟨0, fun _ => 0⟩) (machineKernel s)
    ⟨rfl, by decide, by decide, rfl, rfl⟩ hinit (machineKernel_start hinit) sampleDirectMap_canonical
    (machine_firmware s) (by decide) (List.cons_ne_nil _ _)
    (List.forall_mem_singleton.mpr (by decide)) (machineKernel_hasFree hinit) rfl (by decide) (by decide)
  refine ⟨_, b, fun f hf d hd => machineKernel_direct s hf hd, hrun, (hver _ rfl).1, ?_⟩
  rw [hlapic _ _ .refl 0xB0 (by decide), hkept]
  decide

end Yoix
