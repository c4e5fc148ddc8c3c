import Yoix.Ioapic.Scan

/-!
# Well-formed tables

A MADT as a list of records: each record is a byte string whose second byte is its length, and
the records stand one after another behind the header. On such a table the scan of `FindEntries`
is a filter of the list, and the fields that are read through the stored addresses are those of
the records. `madtParsing_correct` puts the two together.
-/

namespace Yoix

open Memory Records

/-- A record of the MADT. The records of type 1 and 2 have at least the fields of
`struct IOAPIC` and `struct IOAPIC_ISO`. -/
structure MadtRecord where
  bytes : List UInt8
  two_le : 2 ≤ bytes.length
  second_byte : (bytes.getD 1 0).toNat = bytes.length
  ioapic : bytes.getD 0 0 = 1 → 12 ≤ bytes.length
  iso : bytes.getD 0 0 = 2 → 10 ≤ bytes.length

namespace MadtRecord

variable (r : MadtRecord)

/-- `Entry_type`. -/
def type : UInt8 := r.bytes.getD 0 0

/-- `Record_Length`. -/
def size : Nat := r.bytes.length

/-- `IRQ_Source` of an override. -/
def irqSource : UInt8 := r.bytes.getD 3 0

/-- `GSI` of an override. -/
def gsi : UInt32 := UInt32.ofNat (readLE (fun i => r.bytes.getD i 0) 4 4)

end MadtRecord

/-- The records stand behind the header at `madtHeader`, and `h.Length` is the size of the
whole. -/
structure LaidOut (mem : Nat → UInt8) (madtHeader : Nat) (records : List MadtRecord) : Prop where
  length : madtLength mem madtHeader = madtSize + (records.map MadtRecord.size).sum
  bytes : Holds mem (madtHeader + madtSize) (records.flatMap MadtRecord.bytes)

/-- The records with their addresses. -/
def placedRecords (madtHeader : Nat) (records : List MadtRecord) : List (Nat × MadtRecord) :=
  placed MadtRecord.size (madtHeader + madtSize) records

/-- The records of a type, in table order. -/
def recordsOfType (type : Nat) (records : List MadtRecord) : List MadtRecord :=
  records.filter fun r => r.type.toNat = type

/-- The addresses of the records of a type, in table order. -/
def addressesOfType (madtHeader type : Nat) (records : List MadtRecord) : List Nat :=
  ((placedRecords madtHeader records).filter fun x => x.2.type.toNat = type).map Prod.fst

/-- The global number of an interrupt: the first override for it, among the first 256. -/
def overriddenGsi (records : List MadtRecord) (irq : UInt8) : UInt32 :=
  match ((recordsOfType 2 records).take 256).find? fun r => r.irqSource = irq with
  | some r => r.gsi
  | none => irq.toUInt32

theorem length_addressesOfType (madtHeader type : Nat) (records : List MadtRecord) :
    (addressesOfType madtHeader type records).length = (recordsOfType type records).length := by
  have hfilter : recordsOfType type ((placedRecords madtHeader records).map Prod.snd)
      = ((placedRecords madtHeader records).filter fun x => x.2.type.toNat = type).map Prod.snd :=
    List.filter_map
  rw [placedRecords, map_snd_placed] at hfilter
  rw [hfilter, addressesOfType, List.length_map, List.length_map, placedRecords]

/-! ## Reading a record in memory -/

section Record

variable {mem : Nat → UInt8} {p : Nat} {r : MadtRecord}

theorem byte_of_holds (h : Holds mem p r.bytes) {i : Nat} (hi : i < r.bytes.length) :
    mem (p + i) = r.bytes.getD i 0 := by
  refine h i _ ?_
  rw [List.getD_eq_getElem _ _ hi, List.getElem?_eq_getElem hi]

theorem type_of_holds (h : Holds mem p r.bytes) : mem p = r.type :=
  byte_of_holds h (i := 0) (by have := r.two_le; omega)

theorem recordLength_of_holds (h : Holds mem p r.bytes) : recordLength mem p = r.size := by
  rw [recordLength, byte_of_holds h (by have := r.two_le; omega), r.second_byte]
  rfl

theorem irqSource_of_holds (h : Holds mem p r.bytes) (htype : r.type = 2) :
    irqSource mem p = r.irqSource :=
  byte_of_holds h (by have := r.iso htype; omega)

theorem isoGsi_of_holds (h : Holds mem p r.bytes) (htype : r.type = 2) :
    isoGsi mem p = r.gsi := by
  have hsize := r.iso htype
  have hbytes : SameAt (fun i => mem (p + i)) (fun i => r.bytes.getD i 0) 4 4 :=
    fun i _ hi => byte_of_holds h (by omega)
  rw [isoGsi, MadtRecord.gsi, ← readLE_congr hbytes]
  rfl

end Record

/-! ## The scan of a table

On a table that was laid out from a list of records, the scan finds these records, and the overrides
say which interrupt goes where. -/

section Table

variable {mem : Nat → UInt8} {madtHeader : Nat} {records : List MadtRecord}

theorem LaidOut.holds (h : LaidOut mem madtHeader records) {x : Nat × MadtRecord}
    (hx : x ∈ placedRecords madtHeader records) : Holds mem x.1 x.2.bytes :=
  h.bytes.of_placed hx

/-- The scan goes from record to record as they were laid out. -/
theorem LaidOut.madtRecords_eq (h : LaidOut mem madtHeader records) :
    madtRecords mem madtHeader = (placedRecords madtHeader records).map Prod.fst := by
  refine walk_eq_placed (fun r _ => ?_) (fun x hx => recordLength_of_holds (h.holds hx)) ?_ ?_
  · have := r.two_le
    rw [MadtRecord.size]
    omega
  · rw [madtEnd, h.length]
    omega
  · rw [madtEnd, h.length]
    omega

/-- The first records of a type are those of the list, at their addresses. -/
theorem LaidOut.firstOfType_eq (h : LaidOut mem madtHeader records) (type maxCount : Nat) :
    firstOfType mem type maxCount (madtRecords mem madtHeader)
      = (addressesOfType madtHeader type records).take maxCount := by
  rw [h.madtRecords_eq, firstOfType, addressesOfType, List.filter_map]
  congr 2
  refine List.filter_congr fun x hx => ?_
  simp only [Function.comp_apply, type_of_holds (h.holds hx)]

/-- `FindEntries` fills the array with the addresses of the first records of the type. -/
theorem LaidOut.scan_spec (h : LaidOut mem madtHeader records) (type maxCount : UInt32)
    (array : Nat → Nat) :
    ∃ s, findEntriesScan mem madtHeader type true array maxCount = some s ∧
      s.count = min maxCount.toNat (recordsOfType type.toNat records).length ∧
      (∀ i < s.count, (addressesOfType madtHeader type.toNat records)[i]? = some (s.array i)) ∧
      ∀ i, s.count ≤ i → s.array i = array i := by
  refine ⟨_, findEntriesScan_eq mem madtHeader type true array maxCount, ?_, ?_, ?_⟩
  all_goals
    rw [storedFrom, if_pos rfl, h.firstOfType_eq]
    set addresses := addressesOfType madtHeader type.toNat records with haddresses
  · rw [MadtScan.extend, List.length_take, haddresses, length_addressesOfType]
    exact Nat.zero_add _
  · intro i hi
    have hi : i < (addresses.take maxCount.toNat).length := by simpa [MadtScan.extend] using hi
    rw [array_of_extend hi, List.getElem_take]
    rw [List.length_take] at hi
    exact List.getElem?_eq_getElem (by omega)
  · intro i hi
    have hi : (addresses.take maxCount.toNat).length ≤ i := by simpa [MadtScan.extend] using hi
    simp only [MadtScan.extend, Nat.zero_le, if_true, Nat.sub_zero]
    exact List.getD_eq_default _ _ hi

/-- The loop of `Get_iso_gsi` over records of type 2 is a search of the list. -/
theorem isoGsiLoop_eq {irq : UInt8} {xs : List (Nat × MadtRecord)}
    (h : ∀ x ∈ xs, Holds mem x.1 x.2.bytes ∧ x.2.type = 2) :
    isoGsiLoop mem irq (xs.map Prod.fst) =
      match (xs.map Prod.snd).find? fun r => r.irqSource = irq with
      | some r => r.gsi
      | none => irq.toUInt32 := by
  induction xs with
  | nil => rfl
  | cons x xs ih =>
    obtain ⟨hholds, htype⟩ := h x List.mem_cons_self
    rw [List.map_cons, List.map_cons, isoGsiLoop, irqSource_of_holds hholds htype]
    by_cases hirq : x.2.irqSource = irq
    · rw [if_pos hirq, List.find?_cons_of_pos (by simpa using hirq),
        isoGsi_of_holds hholds htype]
    · rw [if_neg hirq, List.find?_cons_of_neg (by simpa using hirq)]
      exact ih fun y hy => h y (List.mem_cons_of_mem x hy)

/-- The lookup gives the interrupt of the first override for `irq`, and `irq` itself when there is
none. -/
theorem LaidOut.getIsoGsi_eq (h : LaidOut mem madtHeader records) (irq : UInt8) :
    getIsoGsi mem (initIoapic mem madtHeader) irq = overriddenGsi records irq := by
  have hiso : recordsOfType 2 ((placedRecords madtHeader records).map Prod.snd)
      = ((placedRecords madtHeader records).filter fun x => x.2.type.toNat = 2).map Prod.snd :=
    List.filter_map
  rw [placedRecords, map_snd_placed, ← placedRecords] at hiso
  rw [getIsoGsi, isoEntries_eq, h.firstOfType_eq, addressesOfType, ← List.map_take,
    isoGsiLoop_eq, List.map_take, ← hiso]
  · rfl
  · intro x hx
    obtain ⟨hmem, htype⟩ := List.mem_filter.mp (List.mem_of_mem_take hx)
    exact ⟨h.holds hmem, UInt8.toNat_inj.mp (by simpa using htype)⟩

end Table

/-- Parsing a well-formed table, from the scan to the lookup of an interrupt. -/
theorem madtParsing_correct {mem : Nat → UInt8} {madtHeader : Nat} {records : List MadtRecord}
    (h : LaidOut mem madtHeader records) :
    (∀ (type maxCount : UInt32) (array : Nat → Nat),
      ∃ s, findEntriesScan mem madtHeader type true array maxCount = some s ∧
        s.count = min maxCount.toNat (recordsOfType type.toNat records).length ∧
        (∀ i < s.count, (addressesOfType madtHeader type.toNat records)[i]? = some (s.array i)) ∧
        ∀ i, s.count ≤ i → s.array i = array i) ∧
      (initIoapic mem madtHeader).ioapicEntries
        = (addressesOfType madtHeader 1 records).take 16 ∧
      ∀ irq, getIsoGsi mem (initIoapic mem madtHeader) irq = overriddenGsi records irq := by
  refine ⟨h.scan_spec, ?_, h.getIsoGsi_eq⟩
  rw [ioapicEntries_eq, h.firstOfType_eq]

/-- A processor, an IOAPIC and the override of interrupt 0. -/
def sampleRecords : List MadtRecord :=
  [⟨[0, 8, 0, 0, 1, 0, 0, 0], by decide, by decide, by decide, by decide⟩,
    ⟨[1, 12, 0, 0, 0x00, 0x00, 0xC0, 0xFE, 0, 0, 0, 0], by decide, by decide, by decide,
      by decide⟩,
    ⟨[2, 10, 0, 0, 2, 0, 0, 0, 0, 0], by decide, by decide, by decide, by decide⟩]

/-- The header of their table, of 74 bytes. -/
def sampleHeader : List UInt8 := [0x41, 0x50, 0x49, 0x43, 74, 0, 0, 0] ++ List.replicate 36 0

/-- A memory with the table at address 0. -/
def sampleTable (a : Nat) : UInt8 :=
  (sampleHeader ++ sampleRecords.flatMap MadtRecord.bytes).getD a 0

/-- The IOAPIC is found behind the processor, and interrupt 0 has global number 2. -/
theorem madtParsing_correct_sampleTable :
    LaidOut sampleTable 0 sampleRecords ∧
      (initIoapic sampleTable 0).ioapicEntries = [52] ∧
      getIsoGsi sampleTable (initIoapic sampleTable 0) 0 = 2 := by
  have hlaid : LaidOut sampleTable 0 sampleRecords :=
    ⟨by decide, holds_getD sampleHeader (sampleRecords.flatMap MadtRecord.bytes) 0⟩
  obtain ⟨-, hioapics, hgsi⟩ := madtParsing_correct hlaid
  refine ⟨hlaid, hioapics.trans (by decide), (hgsi 0).trans (by decide)⟩

end Yoix
