import Yoix.Ioapic.Model
import Yoix.Lib.LastWrite

/-!
# Redirection entries

A redirection entry for an interrupt goes to the pin of the IOAPIC that serves it: the number of
the interrupt, after the overrides, less the first number of that IOAPIC. `loadRedir` computes the
pin from the IOAPIC it is given and then stores the entry into the IOAPIC at index 0, whichever
it was given. Entries therefore reach their pin exactly when all of them are for that one.
-/

namespace Yoix

/-- A call `loadRedir(redir, ioapic_entries[ioapic], irq)`. -/
structure LoadCall where
  redir : RedirectionEntry
  ioapic : Nat
  irq : UInt8
  deriving DecidableEq, Repr

namespace LoadCall

variable (mem : Nat → UInt8) (t : IoapicTables) (c : LoadCall)

/-- The record that the call names. -/
def entry : Nat := t.ioapicEntries.getD c.ioapic 0

def run (devices : Ioapics) : Ioapics := loadRedir mem t devices c.redir (c.entry t) c.irq

/-- The global number of the interrupt. -/
def gsi : Nat := (getIsoGsi mem t c.irq).toNat

/-- The first global number that the IOAPIC serves. -/
def base : Nat := (gsiBase mem (c.entry t)).toNat

/-- The pin that the entry is for. -/
def pin : Nat := c.gsi mem t - c.base mem t

/-- The IOAPIC is one that was found, and serves the interrupt with one of the pins whose
registers have an 8-bit number. -/
structure InRange : Prop where
  found : c.ioapic < t.ioapicEntries.length
  base_le : c.base mem t ≤ c.gsi mem t
  gsi_lt : c.gsi mem t < c.base mem t + 120

/-- The entry is for the pin. -/
def For (i pin : Nat) : Bool := c.ioapic = i ∧ c.pin mem t = pin

end LoadCall

def loadAll (mem : Nat → UInt8) (t : IoapicTables) (devices : Ioapics) (calls : List LoadCall) :
    Ioapics :=
  calls.foldl (fun devices c => c.run mem t devices) devices

/-- The register that holds the lower half of the entry of a pin. -/
def lowerReg (pin : Nat) : UInt8 := UInt8.ofNat (0x10 + 2 * pin)

def upperReg (pin : Nat) : UInt8 := UInt8.ofNat (0x11 + 2 * pin)

/-- What should have become of the registers: those of a pin hold the last entry loaded for it,
or what they held before, and all other registers hold what they held before. -/
structure Delivered (mem : Nat → UInt8) (t : IoapicTables) (calls : List LoadCall)
    (devices devices' : Ioapics) : Prop where
  lower : ∀ i pin, pin < 120 → (devices' i).regs (lowerReg pin)
    = LastWrite.last (fun c => c.For mem t i pin) (fun c => c.redir.lowerDword) calls
        ((devices i).regs (lowerReg pin))
  upper : ∀ i pin, pin < 120 → (devices' i).regs (upperReg pin)
    = LastWrite.last (fun c => c.For mem t i pin) (fun c => c.redir.upperDword) calls
        ((devices i).regs (upperReg pin))
  other : ∀ i r, r < 0x10 → (devices' i).regs r = (devices i).regs r

/-! ## Register numbers -/

theorem lowerReg_toNat {pin : Nat} (h : pin < 120) : (lowerReg pin).toNat = 0x10 + 2 * pin := by
  rw [lowerReg, UInt8.toNat_ofNat']
  omega

theorem upperReg_toNat {pin : Nat} (h : pin < 120) : (upperReg pin).toNat = 0x11 + 2 * pin := by
  rw [upperReg, UInt8.toNat_ofNat']
  omega

namespace LoadCall

variable {mem : Nat → UInt8} {t : IoapicTables} {c : LoadCall}

/-- There are at most 120 pins whose registers have a number. -/
theorem InRange.pin_lt (h : c.InRange mem t) : c.pin mem t < 120 := by
  have hlo := h.base_le
  have hhi := h.gsi_lt
  unfold pin
  omega

/-- The 32-bit difference and its last eight bits are the number of the pin. -/
theorem InRange.getPin_toNat (h : c.InRange mem t) :
    (getPin mem t (c.entry t) c.irq).toNat = c.pin mem t := by
  have hle : gsiBase mem (c.entry t) ≤ getIsoGsi mem t c.irq := h.base_le
  have hpin := h.pin_lt
  rw [getPin, UInt32.toNat_toUInt8, UInt32.toNat_sub_of_le _ _ hle]
  show c.pin mem t % 2 ^ 8 = c.pin mem t
  omega

/-- `OffsetLower` is the number of the lower register of the pin. -/
theorem InRange.offsetLower_eq (h : c.InRange mem t) :
    offsetLower (getPin mem t (c.entry t) c.irq) = lowerReg (c.pin mem t) := by
  have hpin := h.pin_lt
  apply UInt8.toNat_inj.mp
  rw [lowerReg_toNat hpin, offsetLower, UInt8.toNat_add, UInt8.toNat_mul, h.getPin_toNat]
  show (0x10 + c.pin mem t * 2 % 2 ^ 8) % 2 ^ 8 = _
  omega

/-- `OffsetUpper` is the number of the upper register of the pin. -/
theorem InRange.offsetUpper_eq (h : c.InRange mem t) :
    offsetUpper (getPin mem t (c.entry t) c.irq) = upperReg (c.pin mem t) := by
  have hpin := h.pin_lt
  apply UInt8.toNat_inj.mp
  rw [upperReg_toNat hpin, offsetUpper, UInt8.toNat_add, UInt8.toNat_add, UInt8.toNat_mul,
    h.getPin_toNat]
  show ((0x10 + c.pin mem t * 2 % 2 ^ 8) % 2 ^ 8 + 1) % 2 ^ 8 = _
  omega

end LoadCall

/-! ## One call

A call of `loadRedir` writes the two registers of its pin in the first IOAPIC, whichever it was
meant for. -/

/-- Selecting a register and storing through the window writes that register of that IOAPIC. -/
theorem ioapicWrite_regs (devices : Ioapics) (regOff : UInt8) (data : UInt32) (index : UInt8)
    (i : Nat) : (ioapicWrite devices regOff data index i).regs
      = if i = index.toNat then Function.update (devices i).regs regOff data
        else (devices i).regs := by
  have hselect : regOff.toUInt32.toUInt8 = regOff := by
    apply UInt8.toNat_inj.mp
    have hlt := regOff.toNat_lt
    rw [UInt32.toNat_toUInt8, UInt8.toNat_toUInt32]
    omega
  unfold ioapicWrite Ioapics.store
  rw [Function.update_apply]
  split
  · next heq =>
    rw [Function.update_self, heq]
    show Function.update (devices index.toNat).regs regOff.toUInt32.toUInt8 data = _
    rw [hselect]
  · next hne => rw [Function.update_of_ne hne]

namespace LoadCall

variable {mem : Nat → UInt8} {t : IoapicTables} {c : LoadCall}

/-- What one call does to the registers: it writes two of those of the first IOAPIC. -/
theorem InRange.run_regs (h : c.InRange mem t) (devices : Ioapics) (i : Nat) (r : UInt8) :
    (c.run mem t devices i).regs r
      = if i = 0 then
          if r = upperReg (c.pin mem t) then c.redir.upperDword
          else if r = lowerReg (c.pin mem t) then c.redir.lowerDword else (devices i).regs r
        else (devices i).regs r := by
  have hindex : (0 : UInt8).toNat = 0 := rfl
  unfold run loadRedir
  simp only [ioapicWrite_regs, h.offsetLower_eq, h.offsetUpper_eq, hindex]
  split
  · rw [Function.update_apply, Function.update_apply]
  · rfl

/-- What a call for the first IOAPIC does to the two registers of a pin. -/
theorem InRange.run_pin (h : c.InRange mem t) (hfirst : c.ioapic = 0) (devices : Ioapics)
    (i : Nat) {pin : Nat} (hpin : pin < 120) :
    (c.run mem t devices i).regs (lowerReg pin)
        = (if c.For mem t i pin then c.redir.lowerDword else (devices i).regs (lowerReg pin)) ∧
      (c.run mem t devices i).regs (upperReg pin)
        = if c.For mem t i pin then c.redir.upperDword else (devices i).regs (upperReg pin) := by
  have hfor : (c.For mem t i pin = true) ↔ i = 0 ∧ pin = c.pin mem t := by
    rw [LoadCall.For, decide_eq_true_iff, hfirst]
    exact and_congr eq_comm eq_comm
  -- the registers of two pins differ, and so do the two registers of one pin
  have hreg : (lowerReg pin = lowerReg (c.pin mem t) ↔ pin = c.pin mem t) ∧
      (upperReg pin = upperReg (c.pin mem t) ↔ pin = c.pin mem t) ∧
      lowerReg pin ≠ upperReg (c.pin mem t) ∧ upperReg pin ≠ lowerReg (c.pin mem t) := by
    simp only [ne_eq, ← UInt8.toNat_inj, lowerReg_toNat hpin, upperReg_toNat hpin,
      lowerReg_toNat h.pin_lt, upperReg_toNat h.pin_lt]
    omega
  obtain ⟨hlower, hupper, hne, hne'⟩ := hreg
  rw [h.run_regs, h.run_regs]
  simp only [hfor, hlower, hupper, if_neg hne, if_neg hne']
  constructor
  · split
    · next hi => simp only [hi, true_and]
    · next hi => rw [if_neg fun hand => hi hand.1]
  · split
    · next hi => simp only [hi, true_and]
    · next hi => rw [if_neg fun hand => hi hand.1]

/-- A call does not touch the registers below the redirection entries. -/
theorem InRange.run_other (h : c.InRange mem t) (devices : Ioapics) (i : Nat) {r : UInt8}
    (hr : r < 0x10) : (c.run mem t devices i).regs r = (devices i).regs r := by
  have hlow : r.toNat < 16 := hr
  have hne : r ≠ lowerReg (c.pin mem t) ∧ r ≠ upperReg (c.pin mem t) := by
    simp only [ne_eq, ← UInt8.toNat_inj, lowerReg_toNat h.pin_lt, upperReg_toNat h.pin_lt]
    omega
  rw [h.run_regs, if_neg hne.1, if_neg hne.2, ite_self]

/-- Whatever IOAPIC a call is for, it does not touch any but the first. -/
theorem InRange.run_later (h : c.InRange mem t) (devices : Ioapics) {i : Nat} (hi : i ≠ 0)
    (r : UInt8) : (c.run mem t devices i).regs r = (devices i).regs r := by
  rw [h.run_regs, if_neg hi]

end LoadCall

/-! ## Any number of calls

A later call for the same pin overwrites an earlier one. The last one for a pin of the first IOAPIC
is what is found there. -/

section Runs

variable {mem : Nat → UInt8} {t : IoapicTables} {calls : List LoadCall}
  (hrange : ∀ c ∈ calls, c.InRange mem t)

include hrange

theorem loadAll_untouched {i : Nat} {r : UInt8}
    (hstep : ∀ c : LoadCall, c.InRange mem t → ∀ devices : Ioapics,
      (c.run mem t devices i).regs r = (devices i).regs r) (devices : Ioapics) :
    (loadAll mem t devices calls i).regs r = (devices i).regs r :=
  LastWrite.read_foldl_same _ (fun devices : Ioapics => (devices i).regs r)
    (fun devices c hc => hstep c (hrange c hc) devices) devices

/-- Calls that are all for the first IOAPIC deliver their entries. -/
theorem delivered_of_first (hfirst : ∀ c ∈ calls, c.ioapic = 0) (devices : Ioapics) :
    Delivered mem t calls devices (loadAll mem t devices calls) where
  lower i pin hpin :=
    LastWrite.read_foldl _ (fun devices : Ioapics => (devices i).regs (lowerReg pin))
      (fun devices c hc => ((hrange c hc).run_pin (hfirst c hc) devices i hpin).1) devices
  upper i pin hpin :=
    LastWrite.read_foldl _ (fun devices : Ioapics => (devices i).regs (upperReg pin))
      (fun devices c hc => ((hrange c hc).run_pin (hfirst c hc) devices i hpin).2) devices
  other i _ hr := loadAll_untouched hrange (fun _ hc devices => hc.run_other devices i hr) devices

/-- An entry for another IOAPIC is not delivered, unless it happens to be there already. -/
theorem not_delivered_of_later {c : LoadCall} (hc : c ∈ calls) (hlater : c.ioapic ≠ 0) :
    ∃ devices, ¬ Delivered mem t calls devices (loadAll mem t devices calls) := by
  have hfor : c.For mem t c.ioapic (c.pin mem t) = true := by
    simp only [LoadCall.For, and_self, decide_true]
  obtain ⟨b, -, -, hlast⟩ :=
    LastWrite.exists_last (fun b : LoadCall => b.For mem t c.ioapic (c.pin mem t))
      (fun b => b.redir.lowerDword) hc hfor
  -- start with some other value in every register
  refine ⟨fun _ => ⟨0, fun _ => b.redir.lowerDword + 1⟩, fun hdelivered => ?_⟩
  have hexpect := hdelivered.lower c.ioapic (c.pin mem t) (hrange c hc).pin_lt
  have hkept := loadAll_untouched hrange
    (fun _ hc devices => hc.run_later devices hlater (lowerReg (c.pin mem t)))
    (fun _ => ⟨0, fun _ => b.redir.lowerDword + 1⟩)
  rw [hlast, hkept] at hexpect
  replace hexpect : b.redir.lowerDword + 1 = b.redir.lowerDword := hexpect
  have hnat := congrArg UInt32.toNat hexpect
  rw [UInt32.toNat_add] at hnat
  have hlt := b.redir.lowerDword.toNat_lt
  replace hnat : (b.redir.lowerDword.toNat + 1) % 2 ^ 32 = b.redir.lowerDword.toNat := hnat
  omega

end Runs

/-- **Redirection entries reach their pins exactly when all of them are for the first IOAPIC.** For
every MADT and every sequence of calls in range: the registers of every IOAPIC end up as they
should, whatever they held before, if and only if no call is for a later IOAPIC. -/
theorem redirections_delivered_iff (mem : Nat → UInt8) (madtHeader : Nat) {calls : List LoadCall}
    (hrange : ∀ c ∈ calls, c.InRange mem (initIoapic mem madtHeader)) :
    (∀ devices, Delivered mem (initIoapic mem madtHeader) calls devices
        (loadAll mem (initIoapic mem madtHeader) devices calls)) ↔
      ∀ c ∈ calls, c.ioapic = 0 := by
  constructor
  · intro hall c hc
    by_contra hlater
    obtain ⟨devices, hnot⟩ := not_delivered_of_later hrange hc hlater
    exact hnot (hall devices)
  · intro hfirst devices
    exact delivered_of_first hrange hfirst devices

/-- A MADT with two IOAPICs, for the interrupts from 0 and from 24 on, and an override that gives
interrupt 0 the number 2. -/
def sampleMadt (a : Nat) : UInt8 :=
  let header : List UInt8 := [0x41, 0x50, 0x49, 0x43, 78, 0, 0, 0] ++ List.replicate 36 0
  let ioapics : List UInt8 := [1, 12, 0, 0, 0x00, 0x00, 0xC0, 0xFE, 0, 0, 0, 0,
    1, 12, 1, 0, 0x00, 0x10, 0xC0, 0xFE, 24, 0, 0, 0]
  let overrides : List UInt8 := [2, 10, 0, 0, 2, 0, 0, 0, 0, 0]
  (header ++ ioapics ++ overrides).getD a 0

theorem initIoapic_sampleMadt :
    initIoapic sampleMadt 0 = ⟨[44, 56], [68], [0xFEC00000, 0xFEC01000]⟩ := by
  decide

/-- IOAPICs whose registers are all 0. -/
def zeroIoapics : Ioapics := fun _ => ⟨0, fun _ => 0⟩

/-- Entries for interrupts 0 and 1 reach pins 2 and 1 of the first IOAPIC. -/
theorem redirections_delivered_iff_sampleMadt :
    Delivered sampleMadt (initIoapic sampleMadt 0)
      [⟨⟨0x30, 0⟩, 0, 0⟩, ⟨⟨0x31, 0⟩, 0, 1⟩] zeroIoapics
      (loadAll sampleMadt (initIoapic sampleMadt 0) zeroIoapics
        [⟨⟨0x30, 0⟩, 0, 0⟩, ⟨⟨0x31, 0⟩, 0, 1⟩]) := by
  have hrange : ∀ c ∈ [⟨⟨0x30, 0⟩, 0, 0⟩, ⟨⟨0x31, 0⟩, 0, 1⟩],
      LoadCall.InRange sampleMadt (initIoapic sampleMadt 0) c := by
    rw [initIoapic_sampleMadt]
    intro c hc
    rcases List.mem_pair.mp hc with rfl | rfl
    · exact ⟨by decide, by decide, by decide⟩
    · exact ⟨by decide, by decide, by decide⟩
  exact (redirections_delivered_iff sampleMadt 0 hrange).mpr (by decide) zeroIoapics

/-- An entry for interrupt 25 does not reach pin 1 of the second IOAPIC: it ends up at pin 1 of
the first one. -/
theorem second_ioapic_not_delivered :
    LoadCall.InRange sampleMadt (initIoapic sampleMadt 0) ⟨⟨0x35, 0⟩, 1, 25⟩ ∧
      ∃ devices, ¬ Delivered sampleMadt (initIoapic sampleMadt 0) [⟨⟨0x35, 0⟩, 1, 25⟩] devices
        (loadAll sampleMadt (initIoapic sampleMadt 0) devices [⟨⟨0x35, 0⟩, 1, 25⟩]) := by
  have hrange : LoadCall.InRange sampleMadt (initIoapic sampleMadt 0) ⟨⟨0x35, 0⟩, 1, 25⟩ := by
    rw [initIoapic_sampleMadt]
    exact ⟨by decide, by decide, by decide⟩
  refine ⟨hrange, not_delivered_of_later ?_ (List.mem_singleton.mpr rfl) (by decide)⟩
  intro c hc
  rw [List.mem_singleton.mp hc]
  exact hrange

end Yoix
