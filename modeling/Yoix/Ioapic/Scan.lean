import Yoix.Ioapic.Model
import Yoix.Lib.Records
import Mathlib.Data.List.GetD

/-!
# Scanning the MADT

`FindEntries` walks the records of the MADT by their length bytes. Here the scan is followed step
by step: `MadtScan` has the caller's array slot by slot, the count, and the addresses read on the
way. The scan always ends, and what it stores and reads is a function of the addresses of the
records (`findEntriesScan_eq`), which are a `Records.walk` over the length bytes. The list that
`findEntries` returns is the part of the array that was filled (`findEntries_eq`).
-/

namespace Yoix

open Memory Records

/-! ## The records of a table

The addresses that the length bytes lead to, as a list. Both forms of the scan are read off this
list. -/

section Table

variable (mem : Nat → UInt8) (madtHeader : Nat)

/-- `Record_Length` of the record at an address. -/
def recordLength (record : Nat) : Nat := (mem (record + 1)).toNat

/-- The end of the table. -/
def madtEnd : Nat := madtHeader + madtLength mem madtHeader

/-- The addresses of the records of the table, each one found by the length of the one before. -/
def madtRecords : List Nat :=
  walk (recordLength mem) (madtEnd mem madtHeader)
    (madtEnd mem madtHeader - (madtHeader + madtSize)) (madtHeader + madtSize)

end Table

/-- The first `maxCount` records of a type. -/
def firstOfType (mem : Nat → UInt8) (type maxCount : Nat) (records : List Nat) : List Nat :=
  (records.filter fun p => (mem p).toNat = type).take maxCount

section FirstOfType

variable {mem : Nat → UInt8} {type maxCount p : Nat} {records : List Nat}

theorem firstOfType_nil : firstOfType mem type maxCount [] = [] := by
  rw [firstOfType, List.filter_nil, List.take_nil]

theorem firstOfType_cons_of_ne (h : (mem p).toNat ≠ type) :
    firstOfType mem type maxCount (p :: records) = firstOfType mem type maxCount records := by
  rw [firstOfType, List.filter_cons_of_neg (by simpa using h), firstOfType]

theorem firstOfType_cons_of_eq (h : (mem p).toNat = type) :
    firstOfType mem type (maxCount + 1) (p :: records)
      = p :: firstOfType mem type maxCount records := by
  rw [firstOfType, List.filter_cons_of_pos (by simpa using h), List.take_succ_cons, firstOfType]

theorem firstOfType_zero : firstOfType mem type 0 records = [] := List.take_zero

theorem mem_firstOfType (h : p ∈ firstOfType mem type maxCount records) :
    p ∈ records ∧ (mem p).toNat = type := by
  have hmem := List.mem_filter.mp (List.mem_of_mem_take h)
  exact ⟨hmem.1, by simpa using hmem.2⟩

/-- With room for all records every record of the type is among the first. -/
theorem mem_firstOfType_of_le (hp : p ∈ records) (htype : (mem p).toNat = type)
    (hroom : records.length ≤ maxCount) : p ∈ firstOfType mem type maxCount records := by
  rw [firstOfType, List.take_of_length_le (Nat.le_trans (List.length_filter_le _ _) hroom)]
  exact List.mem_filter.mpr ⟨hp, by simpa using htype⟩

end FirstOfType

/-! ## The scan, step by step

The same loop with the array as slots that are written, and with every address that is read. Each
round is one record. -/

/-- The count and the array of `FindEntries`, with the addresses read so far. `count` stays at or
below the 32-bit `max_count`. -/
structure MadtScan where
  count : Nat
  array : Nat → Nat
  reads : List Nat

/-- The loop of `FindEntries` from `ptr` on; `none` when it has not ended after `n` rounds. -/
def scanLoop (mem : Nat → UInt8) (type : Nat) (arrayGiven : Bool) (maxCount entriesEnd : Nat) :
    Nat → Nat → MadtScan → Option MadtScan
  | 0, ptr, s => if ptr < entriesEnd then none else some s
  | n + 1, ptr, s =>
    if ptr < entriesEnd then
      let entryType := mem ptr
      let entryLength := mem (ptr + 1)
      let s := { s with reads := s.reads ++ [ptr, ptr + 1] }
      let s :=
        if entryType.toNat = type ∧ arrayGiven ∧ s.count < maxCount then
          { s with array := Function.update s.array s.count ptr, count := s.count + 1 }
        else s
      if entryLength = 0 then some s
      else scanLoop mem type arrayGiven maxCount entriesEnd n (ptr + entryLength.toNat) s
    else some s

/-- `FindEntries` on an array with the given content, one round for each byte behind the
header. -/
def findEntriesScan (mem : Nat → UInt8) (madtHeader : Nat) (type : UInt32) (arrayGiven : Bool)
    (array : Nat → Nat) (maxCount : UInt32) : Option MadtScan :=
  let entriesEnd := madtHeader + madtLength mem madtHeader
  let ptr := madtHeader + madtSize
  scanLoop mem type.toNat arrayGiven maxCount.toNat entriesEnd (entriesEnd - ptr) ptr
    { count := 0, array, reads := [] }

/-- The scan after some more addresses were stored and some more were read. -/
def MadtScan.extend (s : MadtScan) (stored reads : List Nat) : MadtScan where
  count := s.count + stored.length
  array := fun i =>
    if s.count ≤ i then stored.getD (i - s.count) (s.array i) else s.array i
  reads := s.reads ++ reads

/-- The addresses that a round reads. -/
def headerReads (p : Nat) : List Nat := [p, p + 1]

theorem MadtScan.extend_nil (s : MadtScan) (reads : List Nat) :
    s.extend [] reads = { s with reads := s.reads ++ reads } := by
  simp [MadtScan.extend]

/-- Extending a scan by a record and then by the rest. -/
theorem MadtScan.extend_cons (s : MadtScan) (p : Nat) (stored reads reads' : List Nat) :
    MadtScan.extend
        { count := s.count + 1
          array := Function.update s.array s.count p
          reads := s.reads ++ reads } stored reads'
      = s.extend (p :: stored) (reads ++ reads') := by
  simp only [MadtScan.extend, List.length_cons, List.append_assoc, MadtScan.mk.injEq, and_true]
  refine ⟨by omega, ?_⟩
  funext i
  rcases Nat.lt_trichotomy i s.count with hi | hi | hi
  · rw [if_neg (by omega), if_neg (by omega), Function.update_of_ne (by omega)]
  · rw [hi, if_neg (by omega), if_pos (Nat.le_refl _), Function.update_self, Nat.sub_self]
    rfl
  · obtain ⟨k, rfl⟩ : ∃ k, i = s.count + 1 + k := ⟨i - (s.count + 1), by omega⟩
    rw [if_pos (by omega), if_pos (by omega), Function.update_of_ne (by omega),
      Nat.add_sub_cancel_left, show s.count + 1 + k - s.count = k + 1 from by omega]
    rfl

theorem MadtScan.extend_reads (s : MadtScan) (stored reads reads' : List Nat) :
    MadtScan.extend { s with reads := s.reads ++ reads } stored reads'
      = s.extend stored (reads ++ reads') := by
  simp only [MadtScan.extend, List.append_assoc]

/-- What the loop stores from `ptr` on when `count` slots are taken. -/
def storedFrom (mem : Nat → UInt8) (type : Nat) (arrayGiven : Bool) (room : Nat)
    (records : List Nat) : List Nat :=
  if arrayGiven then firstOfType mem type room records else []

theorem storedFrom_nil {mem : Nat → UInt8} {type room : Nat} {arrayGiven : Bool} :
    storedFrom mem type arrayGiven room [] = [] := by
  rw [storedFrom, firstOfType_nil, ite_self]

/-- A record of another type, or one for which there is no room, is not stored. -/
theorem storedFrom_cons_skip {mem : Nat → UInt8} {type room p : Nat} {arrayGiven : Bool}
    {records : List Nat} (h : ¬ ((mem p).toNat = type ∧ arrayGiven ∧ 0 < room)) :
    storedFrom mem type arrayGiven room (p :: records)
      = storedFrom mem type arrayGiven room records := by
  cases arrayGiven with
  | false => rfl
  | true =>
    simp only [storedFrom, if_true]
    by_cases htype : (mem p).toNat = type
    · obtain rfl : room = 0 := by
        by_contra hroom
        exact h ⟨htype, rfl, Nat.pos_of_ne_zero hroom⟩
      rw [firstOfType_zero, firstOfType_zero]
    · exact firstOfType_cons_of_ne htype

theorem storedFrom_cons_keep {mem : Nat → UInt8} {type room p : Nat} {records : List Nat}
    (htype : (mem p).toNat = type) :
    storedFrom mem type true (room + 1) (p :: records)
      = p :: storedFrom mem type true room records := by
  simp only [storedFrom, if_true]
  exact firstOfType_cons_of_eq htype

theorem mem_of_mem_storedFrom {mem : Nat → UInt8} {type room p : Nat} {arrayGiven : Bool}
    {records : List Nat} (h : p ∈ storedFrom mem type arrayGiven room records) : p ∈ records := by
  cases arrayGiven with
  | false => exact absurd h List.not_mem_nil
  | true => exact (mem_firstOfType h).1

/-- One round of the loop: what it stores, and what it reads. -/
theorem scanRound_eq {mem : Nat → UInt8} {type maxCount ptr : Nat} {arrayGiven : Bool}
    (s : MadtScan) (records reads : List Nat) :
    let s₁ : MadtScan := { s with reads := s.reads ++ [ptr, ptr + 1] }
    let s₂ : MadtScan :=
      if (mem ptr).toNat = type ∧ arrayGiven ∧ s₁.count < maxCount then
        { s₁ with array := Function.update s₁.array s₁.count ptr, count := s₁.count + 1 }
      else s₁
    s₂.extend (storedFrom mem type arrayGiven (maxCount - s₂.count) records) reads
      = s.extend (storedFrom mem type arrayGiven (maxCount - s.count) (ptr :: records))
          (headerReads ptr ++ reads) := by
  dsimp only
  split
  · next hkeep =>
    obtain ⟨htype, harray, hroom⟩ := hkeep
    subst harray
    obtain ⟨room, hmax⟩ : ∃ room, maxCount - s.count = room + 1 :=
      ⟨maxCount - s.count - 1, by omega⟩
    rw [hmax, storedFrom_cons_keep htype, show maxCount - (s.count + 1) = room from by omega]
    exact s.extend_cons ptr _ _ _
  · next hskip =>
    rw [storedFrom_cons_skip (fun h => hskip ⟨h.1, h.2.1, by omega⟩)]
    exact s.extend_reads _ _ _

/-- The loop ends within one round per byte, and stores and reads what the records say. -/
theorem scanLoop_eq {mem : Nat → UInt8} {type maxCount entriesEnd n ptr : Nat} {arrayGiven : Bool}
    (s : MadtScan) (h : entriesEnd ≤ ptr + n) :
    scanLoop mem type arrayGiven maxCount entriesEnd n ptr s
      = some (s.extend
          (storedFrom mem type arrayGiven (maxCount - s.count)
            (walk (recordLength mem) entriesEnd n ptr))
          ((walk (recordLength mem) entriesEnd n ptr).flatMap headerReads)) := by
  induction n generalizing ptr s with
  | zero =>
    rw [scanLoop, if_neg (by omega), walk_of_le (by omega), storedFrom_nil, List.flatMap_nil,
      MadtScan.extend_nil, List.append_nil]
  | succ n ih =>
    by_cases hlt : ptr < entriesEnd
    · rw [scanLoop, if_pos hlt]
      dsimp only
      split
      · next hzero =>
        have hsize : recordLength mem ptr = 0 := by simp [recordLength, hzero]
        rw [walk_of_zero hlt hsize, List.flatMap_cons, List.flatMap_nil, ← scanRound_eq,
          storedFrom_nil, MadtScan.extend_nil, List.append_nil]
      · next hpos =>
        have hsize : recordLength mem ptr ≠ 0 := fun h0 => hpos (UInt8.toNat_inj.mp h0)
        have hmove : entriesEnd ≤ ptr + recordLength mem ptr + n := by omega
        rw [walk_of_pos hlt hsize, List.flatMap_cons, ← scanRound_eq]
        exact ih _ hmove
    · rw [scanLoop, if_neg hlt, walk_of_le (by omega), storedFrom_nil, List.flatMap_nil,
        MadtScan.extend_nil, List.append_nil]

/-- `FindEntries` ends, with the first records of the type in the first slots of the array. -/
theorem findEntriesScan_eq (mem : Nat → UInt8) (madtHeader : Nat) (type : UInt32)
    (arrayGiven : Bool) (array : Nat → Nat) (maxCount : UInt32) :
    findEntriesScan mem madtHeader type arrayGiven array maxCount
      = some (MadtScan.extend { count := 0, array, reads := [] }
          (storedFrom mem type.toNat arrayGiven maxCount.toNat (madtRecords mem madtHeader))
          ((madtRecords mem madtHeader).flatMap headerReads)) := by
  have hrounds : madtEnd mem madtHeader
      ≤ madtHeader + madtSize + (madtEnd mem madtHeader - (madtHeader + madtSize)) := by omega
  exact scanLoop_eq _ hrounds

theorem array_of_extend {array : Nat → Nat} {stored reads : List Nat} {i : Nat}
    (h : i < stored.length) :
    (MadtScan.extend { count := 0, array, reads := [] } stored reads).array i = stored[i] := by
  simp only [MadtScan.extend, Nat.zero_le, if_true, Nat.sub_zero]
  exact List.getD_eq_getElem _ _ h

/-- One round of the loop of `findEntries`, in front of what the later rounds store. -/
theorem findEntriesRound_eq {mem : Nat → UInt8} {type maxCount ptr : Nat} {arrayGiven : Bool}
    (array records : List Nat) :
    let array' :=
      if (mem ptr).toNat = type ∧ arrayGiven ∧ array.length < maxCount then array ++ [ptr]
      else array
    array' ++ storedFrom mem type arrayGiven (maxCount - array'.length) records
      = array ++ storedFrom mem type arrayGiven (maxCount - array.length) (ptr :: records) := by
  dsimp only
  split
  · next hkeep =>
    obtain ⟨htype, harray, hroom⟩ := hkeep
    subst harray
    obtain ⟨room, hmax⟩ : ∃ room, maxCount - array.length = room + 1 :=
      ⟨maxCount - array.length - 1, by omega⟩
    rw [hmax, storedFrom_cons_keep htype, List.length_append, List.length_singleton,
      show maxCount - (array.length + 1) = room from by omega, List.append_assoc,
      List.singleton_append]
  · next hskip =>
    rw [storedFrom_cons_skip (fun h => hskip ⟨h.1, h.2.1, by omega⟩)]

/-- The loop appends the records of its type, as long as there is room. Induction on the rounds that
are left. -/
theorem findEntriesLoop_eq {mem : Nat → UInt8} {type maxCount entriesEnd n ptr : Nat}
    {arrayGiven : Bool} (array : List Nat) (h : entriesEnd ≤ ptr + n) :
    findEntriesLoop mem type arrayGiven maxCount entriesEnd n ptr array
      = array ++ storedFrom mem type arrayGiven (maxCount - array.length)
          (walk (recordLength mem) entriesEnd n ptr) := by
  induction n generalizing ptr array with
  | zero => rw [findEntriesLoop, walk_of_le (by omega), storedFrom_nil, List.append_nil]
  | succ n ih =>
    by_cases hlt : ptr < entriesEnd
    · rw [findEntriesLoop, if_pos hlt]
      dsimp only
      split
      · next hzero =>
        have hsize : recordLength mem ptr = 0 := by simp [recordLength, hzero]
        rw [walk_of_zero hlt hsize, ← findEntriesRound_eq, storedFrom_nil, List.append_nil]
      · next hpos =>
        have hsize : recordLength mem ptr ≠ 0 := fun h0 => hpos (UInt8.toNat_inj.mp h0)
        have hmove : entriesEnd ≤ ptr + recordLength mem ptr + n := by omega
        rw [walk_of_pos hlt hsize, ← findEntriesRound_eq]
        exact ih _ hmove
    · rw [findEntriesLoop, if_neg hlt, walk_of_le (by omega), storedFrom_nil, List.append_nil]

/-- The list of `findEntries` is what the scan stores. -/
theorem findEntries_eq (mem : Nat → UInt8) (madtHeader type : Nat) (arrayGiven : Bool)
    (maxCount : Nat) :
    findEntries mem madtHeader type arrayGiven maxCount
      = storedFrom mem type arrayGiven maxCount (madtRecords mem madtHeader) := by
  have hrounds : madtEnd mem madtHeader
      ≤ madtHeader + madtSize + (madtEnd mem madtHeader - (madtHeader + madtSize)) := by omega
  exact findEntriesLoop_eq [] hrounds

theorem ioapicEntries_eq (mem : Nat → UInt8) (madtHeader : Nat) :
    (initIoapic mem madtHeader).ioapicEntries
      = firstOfType mem 1 16 (madtRecords mem madtHeader) := findEntries_eq mem madtHeader 1 true 16

theorem isoEntries_eq (mem : Nat → UInt8) (madtHeader : Nat) :
    (initIoapic mem madtHeader).isoEntries
      = firstOfType mem 2 256 (madtRecords mem madtHeader) :=
  findEntries_eq mem madtHeader 2 true 256

end Yoix
