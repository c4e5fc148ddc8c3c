import Yoix.Apic.Model
import Yoix.Lib.Bits

/-!
# The base of the local APIC

`cpu_set_apic_base` stores bits 32 to 35 of a base into the upper half of the register, and
`cpu_get_apic_base` reads the same bits of the upper half. It computes on 32 bits, though, so what
it returns is below 4 GiB whatever the shift by 32 gives. The two are inverse exactly on the bases
below 4 GiB (`apicBase_roundTrip_iff`). Of the shift only that it turns 0 into 0 is used.
-/

namespace Yoix

/-- The base field of `IA32_APIC_BASE`: bits 12 to 51. -/
def apicBaseField (m : Msr) : Nat := (m.lo.toNat + 2 ^ 32 * m.hi.toNat) % 2 ^ 52 / 2 ^ 12 * 2 ^ 12

section

variable {shl32 : UInt32 → UInt32} {msrs : Msrs}

/-- The low half of the register after a base was stored: its bits 12 to 31, and the enable bit. -/
theorem cpuSetApicBase_lo (msrs : Msrs) (apic : UInt64) :
    (cpuSetApicBase msrs apic ia32ApicBaseMsr).lo.toNat
      = apic.toNat % 2 ^ 32 / 2 ^ 12 * 2 ^ 12 + 0x800 := by
  have hmask : (0xfffff000 : UInt64).toNat = 2 ^ 32 - 2 ^ 12 := by decide
  have hbit : (ia32ApicBaseMsrEnable : UInt64).toNat = 0x800 := by decide
  rw [cpuSetApicBase, cpuSetMsr, Function.update_self]
  simp only [UInt64.toNat_toUInt32, UInt64.toNat_or, UInt64.toNat_and, hmask, hbit]
  rw [Bits.and_mask (by omega), Nat.mul_comm _ (2 ^ 12),
    ← Nat.two_pow_add_eq_or_of_lt (by omega : 0x800 < 2 ^ 12)]
  omega

theorem cpuSetApicBase_hi (msrs : Msrs) (apic : UInt64) :
    (cpuSetApicBase msrs apic ia32ApicBaseMsr).hi.toNat = apic.toNat / 2 ^ 32 % 2 ^ 4 := by
  have hmask : (0x0f : UInt64).toNat = 2 ^ 4 - 1 := by decide
  rw [cpuSetApicBase, cpuSetMsr, Function.update_self]
  simp only [UInt64.toNat_toUInt32, UInt64.toNat_and, UInt64.toNat_shiftRight, hmask]
  rw [Nat.and_two_pow_sub_one_eq_mod, Nat.shiftRight_eq_div_pow]
  simp only [UInt64.reduceToNat, Nat.reduceMod]
  omega

theorem cpuGetApicBase_lt (shl32 : UInt32 → UInt32) (msrs : Msrs) :
    (cpuGetApicBase shl32 msrs).toNat < 2 ^ 32 := by
  rw [cpuGetApicBase]
  simp only [UInt32.toNat_toUInt64]
  exact UInt32.toNat_lt _

/-- With bits 32 to 35 clear, what is read are bits 12 to 31. -/
theorem cpuGetApicBase_of_hi (hshl : shl32 0 = 0)
    (hhi : (msrs ia32ApicBaseMsr).hi.toNat % 2 ^ 4 = 0) :
    (cpuGetApicBase shl32 msrs).toNat
      = (msrs ia32ApicBaseMsr).lo.toNat / 2 ^ 12 * 2 ^ 12 := by
  have hmask : (0xfffff000 : UInt32).toNat = 2 ^ 32 - 2 ^ 12 := by decide
  have hnibble : (msrs ia32ApicBaseMsr).hi &&& 0x0f = 0 := by
    apply UInt32.toNat_inj.mp
    rw [UInt32.toNat_and, show (0x0f : UInt32).toNat = 2 ^ 4 - 1 from by decide,
      Nat.and_two_pow_sub_one_eq_mod, hhi]
    rfl
  rw [cpuGetApicBase, cpuGetMsr]
  simp only [hnibble, hshl, UInt32.or_zero, UInt32.toNat_toUInt64, UInt32.toNat_and, hmask]
  exact Bits.and_mask_of_lt (by omega) (UInt32.toNat_lt _)

/-- A base below `2 ^ 36` is stored into the field. -/
theorem apicBaseField_set (msrs : Msrs) {apic : UInt64} (h : apic.toNat < 2 ^ 36) :
    apicBaseField (cpuSetApicBase msrs apic ia32ApicBaseMsr)
      = apic.toNat / 2 ^ 12 * 2 ^ 12 := by
  rw [apicBaseField, cpuSetApicBase_lo, cpuSetApicBase_hi]
  omega

/-- Of a base below 4 GiB all of the field is read back. -/
theorem cpuGetApicBase_set (hshl : shl32 0 = 0) {apic : UInt64} (h : apic.toNat < 2 ^ 32) :
    (cpuGetApicBase shl32 (cpuSetApicBase msrs apic)).toNat = apic.toNat / 2 ^ 12 * 2 ^ 12 := by
  have hhi : (cpuSetApicBase msrs apic ia32ApicBaseMsr).hi.toNat % 2 ^ 4 = 0 := by
    rw [cpuSetApicBase_hi]
    omega
  rw [cpuGetApicBase_of_hi hshl hhi, cpuSetApicBase_lo]
  omega

/-- A base that was set is read back exactly when it is below 4 GiB: the bits above are set, and
lost on the way back. -/
theorem get_set_iff (hshl : shl32 0 = 0) {base : UInt64} (halign : base.toNat % 2 ^ 12 = 0) :
    cpuGetApicBase shl32 (cpuSetApicBase msrs base) = base ↔ base.toNat < 2 ^ 32 := by
  constructor
  · intro h
    rw [← h]
    exact cpuGetApicBase_lt _ _
  · intro h
    apply UInt64.toNat_inj.mp
    rw [cpuGetApicBase_set hshl h]
    omega

/-- The field stays, and the page that is mapped is the one of the field. -/
def KeepsApicBase (shl32 : UInt32 → UInt32) (hhdm : Option Nat) (msrs : Msrs)
    (stores : DeviceStores) : Prop :=
  let enabled := enableApic shl32 hhdm msrs stores
  apicBaseField (enabled.msrs ia32ApicBaseMsr) = apicBaseField (msrs ia32ApicBaseMsr) ∧
    enabled.mapCall.physAddr = apicBaseField (enabled.msrs ia32ApicBaseMsr)

/-- `enable_apic` reads the base and writes it again, so it keeps the bases below 4 GiB and cuts the
others. -/
theorem keepsApicBase_iff (hshl : shl32 0 = 0) (hhdm : Option Nat) (stores : DeviceStores) :
    KeepsApicBase shl32 hhdm msrs stores ↔ apicBaseField (msrs ia32ApicBaseMsr) < 2 ^ 32 := by
  have hread := cpuGetApicBase_lt shl32 msrs
  have hstored : apicBaseField ((enableApic shl32 hhdm msrs stores).msrs ia32ApicBaseMsr)
      = (cpuGetApicBase shl32 msrs).toNat / 2 ^ 12 * 2 ^ 12 :=
    apicBaseField_set msrs (by omega)
  have hmapped : (enableApic shl32 hhdm msrs stores).mapCall.physAddr
      = (cpuGetApicBase shl32 msrs).toNat / 2 ^ 12 * 2 ^ 12 := cpuGetApicBase_set hshl hread
  rw [KeepsApicBase]
  constructor
  · rintro ⟨hkept, -⟩
    rw [← hkept, hstored]
    omega
  · intro h
    have hlo := UInt32.toNat_lt (msrs ia32ApicBaseMsr).lo
    have hhi : (msrs ia32ApicBaseMsr).hi.toNat % 2 ^ 4 = 0 := by
      rw [apicBaseField] at h
      omega
    refine ⟨?_, hmapped.trans hstored.symm⟩
    rw [hstored, cpuGetApicBase_of_hi hshl hhi]
    rw [apicBaseField] at h ⊢
    omega

end

/-- The base survives the round trip, and `enable_apic` keeps it, exactly when it lies below
4 GiB. -/
theorem apicBase_roundTrip_iff (shl32 : UInt32 → UInt32) (hshl : shl32 0 = 0)
    (hhdm : Option Nat) (msrs : Msrs) (stores : DeviceStores) :
    (∀ base : UInt64, base.toNat < 2 ^ 36 → base.toNat % 2 ^ 12 = 0 →
      (cpuGetApicBase shl32 (cpuSetApicBase msrs base) = base ↔ base.toNat < 2 ^ 32)) ∧
    (apicBaseField (msrs ia32ApicBaseMsr) < 2 ^ 36 →
      (KeepsApicBase shl32 hhdm msrs stores ↔
        apicBaseField (msrs ia32ApicBaseMsr) < 2 ^ 32)) :=
  ⟨fun _ _ halign => get_set_iff hshl halign, fun _ => keepsApicBase_iff hshl hhdm stores⟩

/-- The usual base, with a shift that leaves its operand as it is. -/
theorem apicBase_roundTrip_iff_usual :
    cpuGetApicBase id (cpuSetApicBase (fun _ => ⟨0, 0⟩) 0xFEE00000) = 0xFEE00000 ∧
      KeepsApicBase id none (fun _ => ⟨0xFEE00900, 0⟩) [] := by
  have hlow := (apicBase_roundTrip_iff id rfl none (fun _ => ⟨0, 0⟩) []).1 0xFEE00000
    (by decide) (by decide)
  have hkeeps := (apicBase_roundTrip_iff id rfl none (fun _ => ⟨0xFEE00900, 0⟩) []).2 (by decide)
  exact ⟨hlow.mpr (by decide), hkeeps.mpr (by decide)⟩

/-- A base of 4 GiB is lost, both with the shift of the processor, which takes the count modulo 32,
and with one that shifts all bits out. -/
theorem apicBase_lost_at_four_gib :
    cpuGetApicBase id (cpuSetApicBase (fun _ => ⟨0, 0⟩) 0x100000000) ≠ 0x100000000 ∧
      cpuGetApicBase (fun _ => 0) (cpuSetApicBase (fun _ => ⟨0, 0⟩) 0x100000000)
        ≠ 0x100000000 := by
  decide

end Yoix
