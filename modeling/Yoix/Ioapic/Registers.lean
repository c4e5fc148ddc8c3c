import Yoix.Ioapic.Windows

/-!
# Reading and writing the registers of the IOAPICs

`ioapic_read` and `ioapic_write` follow a pointer of `virt_Address`: they store the number of a
register at its start and access the register at `0x10`. What they reach is decided by the processor's
walk of the page tables (`hwAccess`), not by what `vmm_get_phys` would say. `runAt` is a series of such
calls on the devices of the machine, which sit at physical pages.

The abstract level has no selected register, no pointers and no pages: `runCalls` is the same series
on one file of registers for each IOAPIC. `ioapic_calls_refine_register_files` says that after
`init_IOAPIC` every series of calls gives the same values on both levels.
-/

namespace Yoix

open Dyadic Memory

/-! ## Devices at physical pages

An access of the processor reaches the device whose page it is translated to, and is a page fault
when there is no translation. -/

/-- A 32-bit load at an offset into the page of the IOAPIC. -/
def IoapicDevice.load (d : IoapicDevice) (offset : Nat) : UInt32 :=
  if offset = 0 then d.select.toUInt32
  else if offset = 0x10 then d.regs d.select
  else 0

/-- The IOAPICs of the machine, by physical page. -/
abbrev DeviceBus : Type := Nat → IoapicDevice

section

variable (cr3 : Nat) (k : Kernel)

/-- A store of the processor through a pointer. It is `none` when the access faults. -/
def DeviceBus.store (bus : DeviceBus) (virt : Nat) (value : UInt32) : Option DeviceBus := do
  let phys ← hwAccess cr3 k virt
  let page := phys / buddyPageSize
  some (Function.update bus page ((bus page).store (phys % buddyPageSize) value))

def DeviceBus.load (bus : DeviceBus) (virt : Nat) : Option UInt32 := do
  let phys ← hwAccess cr3 k virt
  some ((bus (phys / buddyPageSize)).load (phys % buddyPageSize))

variable (virtAddress : List Nat)

/-- `ioapic_read`, with a pointer of `virt_Address`. Slots that `init_IOAPIC` has not filled hold 0. -/
def ioapicReadAt (bus : DeviceBus) (regOff index : UInt8) : Option (UInt32 × DeviceBus) := do
  let virt := virtAddress.getD index.toNat 0
  let bus ← bus.store cr3 k virt regOff.toUInt32
  let value ← bus.load cr3 k ((virt + 0x10) % 2 ^ 64)
  some (value, bus)

/-- `ioapic_write`, with a pointer of `virt_Address`. -/
def ioapicWriteAt (bus : DeviceBus) (regOff : UInt8) (data : UInt32) (index : UInt8) :
    Option DeviceBus := do
  let virt := virtAddress.getD index.toNat 0
  let bus ← bus.store cr3 k virt regOff.toUInt32
  bus.store cr3 k ((virt + 0x10) % 2 ^ 64) data

end

/-! ## Calls

`ioapic_read` and `ioapic_write` through `virt_Address`: a store to the select register, then an
access to the window. -/

inductive IoapicCall where
  | read (regOff index : UInt8)
  | write (regOff : UInt8) (data : UInt32) (index : UInt8)
  deriving DecidableEq, Repr

def IoapicCall.index : IoapicCall → UInt8
  | read _ index => index
  | write _ _ index => index

/-- The values that a series of calls reads, and the devices after it. -/
def runAt (cr3 : Nat) (k : Kernel) (virtAddress : List Nat) (bus : DeviceBus) :
    List IoapicCall → Option (List UInt32 × DeviceBus)
  | [] => some ([], bus)
  | .read regOff index :: rest => do
    let (value, bus) ← ioapicReadAt cr3 k virtAddress bus regOff index
    let (values, bus) ← runAt cr3 k virtAddress bus rest
    some (value :: values, bus)
  | .write regOff data index :: rest => do
    let bus ← ioapicWriteAt cr3 k virtAddress bus regOff data index
    runAt cr3 k virtAddress bus rest

/-- The registers of each IOAPIC. -/
abbrev RegisterFiles : Type := Nat → UInt8 → UInt32

/-- The values that a series of calls should read, and the registers after it. -/
def runCalls (files : RegisterFiles) : List IoapicCall → List UInt32 × RegisterFiles
  | [] => ([], files)
  | .read regOff index :: rest =>
    let (values, files') := runCalls files rest
    (files index.toNat regOff :: values, files')
  | .write regOff data index :: rest =>
    runCalls (Function.update files index.toNat
      (Function.update (files index.toNat) regOff data)) rest

/-! ## One call -/

section

variable {cr3 : Nat} {k : Kernel} {virtAddress : List Nat} {virt page : Nat}
  {index : UInt8}

theorem page_split (page : Nat) {d : Nat} (hd : d < buddyPageSize) :
    (page * buddyPageSize + d) / buddyPageSize = page ∧
      (page * buddyPageSize + d) % buddyPageSize = d := by
  simp only [buddyPageSize] at *
  omega

/-- Accesses through the pointer reach the bytes of a physical page. -/
def LeadsToPage (cr3 : Nat) (k : Kernel) (virt page : Nat) : Prop :=
  ∀ d < buddyPageSize, hwAccess cr3 k ((virt + d) % 2 ^ 64) = some (page * buddyPageSize + d)

theorem LeadsToPage.store (h : LeadsToPage cr3 k virt page) (bus : DeviceBus) {d : Nat}
    (hd : d < buddyPageSize) (value : UInt32) :
    bus.store cr3 k ((virt + d) % 2 ^ 64) value
      = some (Function.update bus page ((bus page).store d value)) := by
  obtain ⟨hdiv, hmod⟩ := page_split page hd
  simp only [DeviceBus.store, h d hd, Option.bind_eq_bind, Option.bind_some, hdiv, hmod]

theorem LeadsToPage.load (h : LeadsToPage cr3 k virt page) (bus : DeviceBus) {d : Nat}
    (hd : d < buddyPageSize) :
    bus.load cr3 k ((virt + d) % 2 ^ 64) = some ((bus page).load d) := by
  obtain ⟨hdiv, hmod⟩ := page_split page hd
  simp only [DeviceBus.load, h d hd, Option.bind_eq_bind, Option.bind_some, hdiv, hmod]

theorem LeadsToPage.select (h : LeadsToPage cr3 k virt page) (hvirt : virt < 2 ^ 64)
    (bus : DeviceBus) (regOff : UInt8) :
    bus.store cr3 k virt regOff.toUInt32
      = some (Function.update bus page { bus page with select := regOff }) := by
  have hstore := h.store bus (d := 0) (by decide) regOff.toUInt32
  rw [Nat.add_zero, Nat.mod_eq_of_lt hvirt] at hstore
  rw [hstore, IoapicDevice.store, if_pos rfl]
  congr 3
  exact UInt8.toUInt8_toUInt32 regOff

variable (hslot : virtAddress[index.toNat]? = some virt) (hvirt : virt < 2 ^ 64)
  (h : LeadsToPage cr3 k virt page)

include hslot hvirt h

theorem ioapicReadAt_eq (bus : DeviceBus) (regOff : UInt8) :
    ioapicReadAt cr3 k virtAddress bus regOff index
      = some ((bus page).regs regOff,
        Function.update bus page { bus page with select := regOff }) := by
  have hget : virtAddress.getD index.toNat 0 = virt := by
    rw [List.getD_eq_getElem?_getD, hslot, Option.getD_some]
  simp only [ioapicReadAt, hget, h.select hvirt, h.load _ (show 0x10 < buddyPageSize by decide),
    Option.bind_eq_bind, Option.bind_some, Function.update_self]
  rfl

theorem ioapicWriteAt_eq (bus : DeviceBus) (regOff : UInt8) (data : UInt32) :
    ioapicWriteAt cr3 k virtAddress bus regOff data index
      = some (Function.update bus page
        ⟨regOff, Function.update (bus page).regs regOff data⟩) := by
  have hget : virtAddress.getD index.toNat 0 = virt := by
    rw [List.getD_eq_getElem?_getD, hslot, Option.getD_some]
  simp only [ioapicWriteAt, hget, h.select hvirt, h.store _ (show 0x10 < buddyPageSize by decide),
    Option.bind_eq_bind, Option.bind_some, Function.update_self, Function.update_idem]
  rfl

end

/-! ## A series of calls

The devices show one register file for each IOAPIC. What is selected does not show, as every call
selects anew. -/

/-- The registers of the devices at `pages` are the files. -/
def Shows (pages : List Nat) (bus : DeviceBus) (files : RegisterFiles) : Prop :=
  ∀ i page, pages[i]? = some page → (bus page).regs = files i

section

variable {cr3 : Nat} {k : Kernel} {virtAddress pages : List Nat}

theorem Shows.select {bus : DeviceBus} {files : RegisterFiles} (h : Shows pages bus files)
    (page : Nat) (regOff : UInt8) :
    Shows pages (Function.update bus page { bus page with select := regOff }) files := by
  intro i q hq
  rw [Function.update_apply]
  split
  · next heq =>
    subst heq
    exact h i q hq
  · exact h i q hq

/-- Different IOAPICs have different pages, so only one file changes. -/
theorem Shows.write {bus : DeviceBus} {files : RegisterFiles} (h : Shows pages bus files)
    (hnodup : pages.Nodup) {index page : Nat} (hpage : pages[index]? = some page) (regOff : UInt8)
    (data : UInt32) :
    Shows pages (Function.update bus page ⟨regOff, Function.update (bus page).regs regOff data⟩)
      (Function.update files index (Function.update (files index) regOff data)) := by
  intro i q hq
  by_cases hi : i = index
  · subst hi
    obtain rfl : q = page := Option.some.inj (hq.symm.trans hpage)
    rw [Function.update_self, Function.update_self, h i q hq]
  · have hne : q ≠ page := by
      rintro rfl
      have hlt := (List.getElem?_eq_some_iff.mp hq).1
      exact hi ((List.getElem?_inj hlt hnodup).mp (hq.trans hpage.symm))
    rw [Function.update_of_ne hne, Function.update_of_ne hi]
    exact h i q hq

theorem exists_slot_of_forall₂ {α β : Type} {R : α → β → Prop} {as : List α} {bs : List β}
    (h : List.Forall₂ R as bs) {i : Nat} (hi : i < bs.length) :
    ∃ a b, as[i]? = some a ∧ bs[i]? = some b ∧ R a b := by
  have hi' : i < as.length := by rwa [h.length_eq]
  exact ⟨_, _, List.getElem?_eq_getElem hi', List.getElem?_eq_getElem hi, h.get hi' hi⟩

/-- **A series of calls** goes the same way on both levels, and reaches no other device. -/
theorem runAt_eq (hwindows : List.Forall₂ (fun virt page => virt < 2 ^ 64 ∧
      LeadsToPage cr3 k virt page) virtAddress pages) (hnodup : pages.Nodup)
    (calls : List IoapicCall) (hindex : ∀ c ∈ calls, c.index.toNat < pages.length)
    {bus : DeviceBus} {files : RegisterFiles} (h : Shows pages bus files) :
    ∃ bus', runAt cr3 k virtAddress bus calls = some ((runCalls files calls).1, bus') ∧
      Shows pages bus' (runCalls files calls).2 ∧ ∀ q ∉ pages, bus' q = bus q := by
  induction calls generalizing bus files with
  | nil => exact ⟨bus, rfl, h, fun q _ => rfl⟩
  | cons call rest ih =>
    have hrest : ∀ c ∈ rest, c.index.toNat < pages.length :=
      fun c hc => hindex c (List.mem_cons_of_mem _ hc)
    cases call with
    -- a read selects its register, which is a store to the page as well
    | read regOff index =>
      obtain ⟨virt, page, hslot, hpage, hvirt, hleads⟩ :=
        exists_slot_of_forall₂ hwindows (i := index.toNat) (hindex _ List.mem_cons_self)
      obtain ⟨bus', hrun, hshows, hother⟩ := ih hrest (h.select page regOff)
      refine ⟨bus', ?_, hshows, fun q hq => ?_⟩
      · rw [runAt, ioapicReadAt_eq hslot hvirt hleads, h _ _ hpage]
        show (runAt _ _ _ _ rest).bind _ = _
        rw [hrun]
        rfl
      · have hne : q ≠ page := by
          rintro rfl
          exact hq (List.mem_of_getElem? hpage)
        rw [hother q hq, Function.update_of_ne hne]
    | write regOff data index =>
      obtain ⟨virt, page, hslot, hpage, hvirt, hleads⟩ :=
        exists_slot_of_forall₂ hwindows (i := index.toNat) (hindex _ List.mem_cons_self)
      obtain ⟨bus', hrun, hshows, hother⟩ := ih hrest (h.write hnodup hpage regOff data)
      refine ⟨bus', ?_, hshows, fun q hq => ?_⟩
      · rw [runAt, ioapicWriteAt_eq hslot hvirt hleads]
        exact hrun
      · have hne : q ≠ page := by
          rintro rfl
          exact hq (List.mem_of_getElem? hpage)
        rw [hother q hq, Function.update_of_ne hne]

end

/-- The windows of `init_IOAPIC` lead to the pages of the IOAPICs. -/
theorem ClientSpace.window_leads {offset cr3 : Nat} {U : Set Nat} {k k' : Kernel} {c c' : Client}
    (h : ClientSpace offset cr3 U k' c') (hpage : buddyPageSize ∣ offset)
    (hcanon : CanonicalMap offset) {virt : Nat} {phys : UInt32}
    (hw : Window offset k c c' virt phys) :
    virt < 2 ^ 64 ∧ LeadsToPage cr3 k' virt (phys.toNat / buddyPageSize) := by
  obtain ⟨f, rfl, hf, -, -, -, hmap⟩ := hw
  have hlt : phyToVirt (some offset) (f * buddyPageSize) < 2 ^ 64 := Nat.mod_lt _ (by decide)
  refine ⟨hlt, fun d hd => ?_⟩
  have hend : phyToVirt (some offset) (f * buddyPageSize) + d < 2 ^ 64 := by
    obtain ⟨m, rfl⟩ := hpage
    simp only [phyToVirt, buddyPageSize] at *
    omega
  rw [Nat.mod_eq_of_lt hend]
  exact h.hwAccess_direct hpage hmap hd hcanon (Nat.lt_trans hf (by decide))

/-- **`ioapic_read` and `ioapic_write` work on the registers of their IOAPIC.** With IOAPICs at
different pages, and after `init_IOAPIC` with enough free frames, any series of reads and writes, of
any registers of any of the IOAPICs, gives the values of a register file for each IOAPIC and leaves
their registers in the devices. No other device is touched. As for the windows themselves, the page
tables are those of a run that starts without huge pages (`InitialSpace`). -/
theorem ioapic_calls_refine_register_files {response : Option MemmapResponse} {offset cr3 : Nat}
    {k₀ k : Kernel} {c : Client} (h : InitialSpace response offset cr3 k₀)
    (hpage : buddyPageSize ∣ offset) (hcanon : CanonicalMap offset)
    (run : VmmRun notShared offset cr3 k₀ k c)
    (mem : Nat → UInt8) (madtHeader : Nat)
    (hfree : k.HasFree (4 * (initIoapic mem madtHeader).physAddress.length + 1))
    (haligned : ∀ p ∈ (initIoapic mem madtHeader).physAddress, buddyPageSize ∣ p.toNat)
    (hnodup : (initIoapic mem madtHeader).physAddress.Nodup) :
    ∃ virts k' pages, initIoapicWindows (some offset) cr3 k mem madtHeader
        = .ok (initIoapic mem madtHeader, virts, k') ∧
      pages.map (· * buddyPageSize) = (initIoapic mem madtHeader).physAddress.map UInt32.toNat ∧
      ∀ (bus : DeviceBus) (files : RegisterFiles) (calls : List IoapicCall),
        Shows pages bus files → (∀ c ∈ calls, c.index.toNat < pages.length) →
        ∃ bus', runAt cr3 k' virts bus calls = some ((runCalls files calls).1, bus') ∧
          Shows pages bus' (runCalls files calls).2 ∧ ∀ q ∉ pages, bus' q = bus q := by
  set phys := (initIoapic mem madtHeader).physAddress with hphys
  obtain ⟨virts, k', c', hrun, h', -, hwin, -⟩ :=
    (run.inv h).client.mapWindowsLoop phys hfree
  refine ⟨virts, k', phys.map fun p => p.toNat / buddyPageSize,
    by rw [initIoapicWindows, ← hphys, hrun, ok_bind], ?_, fun bus files calls hshows hindex => ?_⟩
  · rw [List.map_map]
    exact List.map_congr_left fun p hp => Nat.div_mul_cancel (haligned p hp)
  · refine runAt_eq (List.forall₂_map_right_iff.mpr (hwin.imp fun virt p => ?_)) ?_ calls hindex hshows
    · exact h'.window_leads hpage hcanon
    · refine List.Nodup.map_on (fun p hp q hq heq => UInt32.toNat_inj.mp ?_) hnodup
      rw [← Nat.div_mul_cancel (haligned p hp), heq, Nat.div_mul_cancel (haligned q hq)]

/-- With the windows of the sample MADT, a register is written and read back, with a read of another
register in between. -/
theorem ioapic_calls_refine_register_files_windowMadt :
    ∃ k k' virts pages, initIoapicWindows (some sampleDirectMap) sampleCr3 k windowMadt 0
        = .ok (initIoapic windowMadt 0, virts, k') ∧ pages = [0xFEC00] ∧
      ∀ bus : DeviceBus, ∃ bus', runAt sampleCr3 k' virts bus
        [.write 0x10 0x20 0, .read 0x01 0, .read 0x10 0]
          = some ([(bus 0xFEC00).regs 0x01, 0x20], bus') := by
  obtain ⟨s₀, hinit, -⟩ := buddyInit_represents sampleMap_ok
  have hfree : (sampleTables s₀).HasFree
      (4 * (initIoapic windowMadt 0).physAddress.length + 1) := by
    rw [windowMadt_physAddress]
    exact sampleTables_hasFree hinit
  obtain ⟨virts, k', pages, hrun, hpages, hcalls⟩ := ioapic_calls_refine_register_files
    (initialSpace_sampleTables (.init hinit)) (by decide) sampleDirectMap_canonical
    (.start (sampleClient_starts s₀)) windowMadt 0 hfree
    (by rw [windowMadt_physAddress]; exact List.forall_mem_singleton.mpr (by decide))
    (by rw [windowMadt_physAddress]; exact List.nodup_singleton _)
  obtain rfl : pages = [0xFEC00] := by
    rw [windowMadt_physAddress] at hpages
    exact List.map_injective_iff.mpr (fun a b => Nat.eq_of_mul_eq_mul_right (by decide)) hpages
  refine ⟨_, k', virts, _, hrun, rfl, fun bus => ?_⟩
  have hshows : Shows [0xFEC00] bus fun _ => (bus 0xFEC00).regs := by
    intro i page hpage
    rw [List.mem_singleton.mp (List.mem_of_getElem? hpage)]
  obtain ⟨bus', hcall, -⟩ := hcalls bus _
    [.write 0x10 0x20 0, .read 0x01 0, .read 0x10 0] hshows (by decide)
  exact ⟨bus', hcall⟩

end Yoix
