import Yoix.Vmm.Model

/-!
# The local APIC (`system/interrupt/APIC/apic.c`, `system/cpu/msr.c`)

The physical address of the registers of the local APIC is a field of the model-specific register
`IA32_APIC_BASE`. A model-specific register has 64 bits and is read and written as two 32-bit
halves. The registers of the local APIC are 32-bit words of its page, at the pointer
`g_virt_apic`.

`cpu_get_apic_base` shifts a 32-bit number left by 32 bits, which C leaves undefined. Its value
is the parameter `shl32` here.
-/

namespace Yoix

/-! ## Model-specific registers -/

structure Msr where
  lo : UInt32
  hi : UInt32
  deriving DecidableEq, Repr

/-- The model-specific registers, by number. -/
abbrev Msrs : Type := UInt32 → Msr

def cpuGetMsr (msrs : Msrs) (msr : UInt32) : UInt32 × UInt32 := ((msrs msr).lo, (msrs msr).hi)

def cpuSetMsr (msrs : Msrs) (msr lo hi : UInt32) : Msrs := Function.update msrs msr { lo, hi }

/-! ## The base of the local APIC

The source shifts a 32-bit value by 32, which C leaves undefined. What the compiled code makes of it
is a parameter. -/

abbrev ia32ApicBaseMsr : UInt32 := 0x1B
abbrev ia32ApicBaseMsrEnable : UInt64 := 0x800

def cpuSetApicBase (msrs : Msrs) (apic : UInt64) : Msrs :=
  let eax := ((apic &&& 0xfffff000) ||| ia32ApicBaseMsrEnable).toUInt32
  let edx := ((apic >>> 32) &&& 0x0f).toUInt32
  cpuSetMsr msrs ia32ApicBaseMsr eax edx

def cpuGetApicBase (shl32 : UInt32 → UInt32) (msrs : Msrs) : UInt64 :=
  let (eax, edx) := cpuGetMsr msrs ia32ApicBaseMsr
  -- both operands have 32 bits, and the result is widened to the 64-bit return type
  ((eax &&& 0xfffff000) ||| shl32 (edx &&& 0x0f)).toUInt64

/-! ## The registers of the local APIC

Reads give what the device holds; stores are recorded in their order. -/

/-- The 32-bit words of the memory of devices, by pointer. -/
abbrev DeviceWords : Type := Nat → UInt32

def readLapicRegister (words : DeviceWords) (lapicBase offset : Nat) : UInt32 :=
  words ((lapicBase + offset) % 2 ^ 64)

/-- The stores to device memory so far, in order. -/
abbrev DeviceStores : Type := List (Nat × UInt32)

def writeLapicRegister (stores : DeviceStores) (lapicBase offset : Nat) (val : UInt32) :
    DeviceStores :=
  stores ++ [((lapicBase + offset) % 2 ^ 64, val)]

def apicEoi (stores : DeviceStores) (gVirtApic : Nat) : DeviceStores :=
  writeLapicRegister stores gVirtApic 0xB0 0

/-! ## Enabling

The call of `vmm_map` is handed back with its arguments, for the model of `kmain` to carry it out.
-/

abbrev pagePcd : Nat := 1 <<< 4

/-- The arguments of a call of `vmm_map`. -/
structure MapCall where
  virtAddr : Nat
  physAddr : Nat
  flags : Nat
  deriving DecidableEq, Repr

/-- What `enable_apic` leaves behind. -/
structure EnabledApic where
  msrs : Msrs
  gVirtApic : Nat
  mapCall : MapCall
  stores : DeviceStores

def enableApic (shl32 : UInt32 → UInt32) (hhdm : Option Nat) (msrs : Msrs)
    (stores : DeviceStores) : EnabledApic :=
  let msrs := cpuSetApicBase msrs (cpuGetApicBase shl32 msrs)
  let apicPhys := (cpuGetApicBase shl32 msrs).toNat
  let gVirtApic := phyToVirt hhdm apicPhys
  { msrs
    gVirtApic
    mapCall := ⟨gVirtApic, apicPhys, pagePresent ||| pageWritable ||| pagePcd⟩
    stores := writeLapicRegister stores gVirtApic 0xF0 (0x100 ||| 255) }

end Yoix
