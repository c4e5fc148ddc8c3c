import Yoix.Apic.Model
import Yoix.Ioapic.Model
import Yoix.Lib.BitField

/-!
# The target of a redirection entry

`union RedirectionEntry` overlays ten bit fields on the two halves of an entry. `writeRedir`
assigns seven of them and leaves the others (`writeRedir_fields`). The processor that an entry is
sent to is the last field, and `Get_APICID` gives the number of the current one: the highest byte
of a register of the local APIC. It narrows the register to 8 bits before it shifts, so the number
is always 0 (`getApicId_eq_zero`), and an entry encodes the current processor exactly when that is
processor 0 (`encodesProcessor_iff`).
-/

namespace Yoix

open BitField

/-! ## The bit fields -/

/-- A bit field: its first bit and its length. -/
structure RedirField where
  lo : Nat
  len : Nat
  deriving DecidableEq, Repr

namespace RedirField

def vector : RedirField := ⟨0, 8⟩
def deliveryMode : RedirField := ⟨8, 3⟩
def destinationMode : RedirField := ⟨11, 1⟩
def deliveryStatus : RedirField := ⟨12, 1⟩
def pinPolarity : RedirField := ⟨13, 1⟩
def remoteIrr : RedirField := ⟨14, 1⟩
def triggerMode : RedirField := ⟨15, 1⟩
def mask : RedirField := ⟨16, 1⟩
def reserved : RedirField := ⟨17, 39⟩
def destination : RedirField := ⟨56, 8⟩

/-- No bit belongs to both fields. -/
def Apart (f g : RedirField) : Prop := f.lo + f.len ≤ g.lo ∨ g.lo + g.len ≤ f.lo

instance (f g : RedirField) : Decidable (f.Apart g) :=
  inferInstanceAs (Decidable (f.lo + f.len ≤ g.lo ∨ g.lo + g.len ≤ f.lo))

end RedirField

namespace RedirectionEntry

/-- The entry as a 64-bit number. -/
def value (redir : RedirectionEntry) : Nat :=
  redir.lowerDword.toNat + 2 ^ 32 * redir.upperDword.toNat

def ofValue (n : Nat) : RedirectionEntry where
  lowerDword := UInt32.ofNat n
  upperDword := UInt32.ofNat (n / 2 ^ 32)

/-- The content of a field. -/
def field (redir : RedirectionEntry) (f : RedirField) : Nat := get redir.value f.lo f.len

/-- An assignment to a field, which keeps the low bits of the value. -/
def setField (redir : RedirectionEntry) (f : RedirField) (v : UInt8) : RedirectionEntry :=
  ofValue (put redir.value f.lo f.len v.toNat)

end RedirectionEntry

/-! ## The functions of `ioapic.c`

`Get_APICID` reads the ID register and keeps eight bits of it before it shifts. -/

/-- `Get_APICID`. The register is narrowed to the 8 bits of `lapic_id`, which are widened again
for the shift. -/
def getApicId (words : DeviceWords) (gVirtApic : Nat) : UInt8 :=
  let lapicId := (readLapicRegister words gVirtApic 0x20).toUInt8
  (lapicId.toUInt32 >>> 24).toUInt8

def writeRedir (redir : RedirectionEntry)
    (vector delvMode destMode pinPolarity triggerMode mask dest : UInt8) : RedirectionEntry :=
  let redir := redir.setField .vector vector
  let redir := redir.setField .deliveryMode delvMode
  let redir := redir.setField .destinationMode destMode
  let redir := redir.setField .pinPolarity pinPolarity
  let redir := redir.setField .triggerMode triggerMode
  let redir := redir.setField .mask mask
  redir.setField .destination dest

/-! ## Assigning a field -/

namespace RedirectionEntry

variable (redir : RedirectionEntry)

theorem value_lt : redir.value < 2 ^ 64 := by
  have hlower := UInt32.toNat_lt redir.lowerDword
  have hupper := UInt32.toNat_lt redir.upperDword
  rw [value]
  omega

theorem value_ofValue {n : Nat} (h : n < 2 ^ 64) : (ofValue n).value = n := by
  simp only [value, ofValue, UInt32.toNat_ofNat']
  omega

theorem value_setField {f : RedirField} (hf : f.lo + f.len ≤ 64) (v : UInt8) :
    (redir.setField f v).value = put redir.value f.lo f.len v.toNat :=
  value_ofValue (put_lt redir.value_lt hf)

theorem field_setField_self {f : RedirField} (hf : f.lo + f.len ≤ 64) (v : UInt8) :
    (redir.setField f v).field f = v.toNat % 2 ^ f.len := by
  rw [field, value_setField redir hf, get_put_self]

theorem field_setField_of_apart {f g : RedirField} (hf : f.lo + f.len ≤ 64) (hfg : g.Apart f)
    (v : UInt8) : (redir.setField f v).field g = redir.field g := by
  rw [field, value_setField redir hf, get_put_of_disjoint hfg, field]

end RedirectionEntry

/-! ## What an entry encodes

The entry that `writeRedir` fills for a processor encodes this processor only when its ID is 0. -/

/-- The arguments of `writeRedir` but the last. -/
structure RedirArgs where
  vector : UInt8
  delvMode : UInt8
  destMode : UInt8
  pinPolarity : UInt8
  triggerMode : UInt8
  mask : UInt8
  deriving DecidableEq, Repr

/-- The entry `redir'` has the arguments in their fields, and is `redir` in the fields that are not
assigned. -/
structure HoldsArgs (args : RedirArgs) (redir redir' : RedirectionEntry) : Prop where
  vector : redir'.field .vector = args.vector.toNat
  deliveryMode : redir'.field .deliveryMode = args.delvMode.toNat % 8
  destinationMode : redir'.field .destinationMode = args.destMode.toNat % 2
  pinPolarity : redir'.field .pinPolarity = args.pinPolarity.toNat % 2
  triggerMode : redir'.field .triggerMode = args.triggerMode.toNat % 2
  mask : redir'.field .mask = args.mask.toNat % 2
  deliveryStatus : redir'.field .deliveryStatus = redir.field .deliveryStatus
  remoteIrr : redir'.field .remoteIrr = redir.field .remoteIrr
  reserved : redir'.field .reserved = redir.field .reserved

/-- A call `writeRedir(redir, args, dest)`. -/
def RedirArgs.write (args : RedirArgs) (redir : RedirectionEntry) (dest : UInt8) :
    RedirectionEntry :=
  writeRedir redir args.vector args.delvMode args.destMode args.pinPolarity args.triggerMode
    args.mask dest

/-- Whatever the target is, `writeRedir` writes its arguments and nothing else. -/
theorem writeRedir_fields (args : RedirArgs) (redir : RedirectionEntry) (dest : UInt8) :
    HoldsArgs args redir (args.write redir dest) ∧
      (args.write redir dest).field .destination = dest.toNat := by
  have hbyte : ∀ v : UInt8, v.toNat % 2 ^ 8 = v.toNat := fun v =>
    Nat.mod_eq_of_lt (UInt8.toNat_lt v)
  -- each field is looked up behind the assignments to the fields that are apart from it
  refine ⟨⟨?_, ?_, ?_, ?_, ?_, ?_, ?_, ?_, ?_⟩, ?_⟩
  all_goals
    rw [RedirArgs.write, writeRedir]
    simp (disch := decide) only [RedirectionEntry.field_setField_of_apart,
      RedirectionEntry.field_setField_self]
  · exact hbyte args.vector
  · rfl
  · rfl
  · rfl
  · rfl
  · rfl
  · exact hbyte dest

/-- The entry is aimed at the processor whose local APIC has `id` in its ID register, and holds the
arguments. -/
structure EncodesProcessor (id : UInt32) (args : RedirArgs) (redir redir' : RedirectionEntry) :
    Prop where
  destination : redir'.field .destination = get id.toNat 24 8
  args : HoldsArgs args redir redir'

/-- The narrowed register has nothing left above bit 7. -/
theorem getApicId_eq_zero (words : DeviceWords) (gVirtApic : Nat) :
    getApicId words gVirtApic = 0 := by
  have hnarrow := UInt8.toNat_lt (readLapicRegister words gVirtApic 0x20).toUInt8
  apply UInt8.toNat_inj.mp
  rw [getApicId]
  simp only [UInt32.toNat_toUInt8, UInt32.toNat_shiftRight, UInt8.toNat_toUInt32]
  rw [Nat.shiftRight_eq_div_pow]
  simp only [UInt32.reduceToNat, Nat.reduceMod]
  rw [Nat.div_eq_of_lt (by omega)]
  rfl

/-- An entry for the current processor encodes it exactly when the number of the processor, the
highest byte of the register, is 0. -/
theorem encodesProcessor_iff (words : DeviceWords) (gVirtApic : Nat) (args : RedirArgs)
    (redir : RedirectionEntry) :
    EncodesProcessor (readLapicRegister words gVirtApic 0x20) args redir
        (args.write redir (getApicId words gVirtApic)) ↔
      (readLapicRegister words gVirtApic 0x20).toNat < 2 ^ 24 := by
  set id := readLapicRegister words gVirtApic 0x20
  have hid := UInt32.toNat_lt id
  have hbyte : get id.toNat 24 8 = 0 ↔ id.toNat < 2 ^ 24 := by
    rw [BitField.get]
    omega
  obtain ⟨hargs, hdest⟩ := writeRedir_fields args redir (getApicId words gVirtApic)
  rw [getApicId_eq_zero, UInt8.toNat_zero] at hdest
  rw [← hbyte]
  constructor
  · intro h
    rw [← h.destination, getApicId_eq_zero]
    exact hdest
  · intro h
    refine ⟨?_, hargs⟩
    rw [h, getApicId_eq_zero]
    exact hdest

/-- On processor 1 the entry is aimed at processor 0. -/
theorem processor_one_not_encoded :
    ¬ EncodesProcessor 0x01000000 ⟨0x20, 0, 0, 0, 0, 0⟩ ⟨0, 0⟩
      (writeRedir ⟨0, 0⟩ 0x20 0 0 0 0 0 (getApicId (fun _ => 0x01000000) 0)) := by
  intro h
  exact absurd h.destination (by decide)

end Yoix
