import Yoix.Ioapic.Scan
import Mathlib.Data.Finset.Card

/-!
# Malformed tables

A MADT is a byte string whose header and length bytes come from the firmware. The scan of
`FindEntries` stops at the end of the table and at a record of length 0, but it does not look at
how much of the table is left at a record, and neither do `init_IOAPIC` and `Get_iso_gsi` when
they read the fields of a record that was kept. `MadtReadsInside` says that none of this leaves the
table; it holds exactly on the tables whose records are complete (`madtReadsInside_iff`).

`Get_iso_gsi` looks at the source of one override after the other and stops at the first that
matches. Only of that one it reads the `GSI`, so an override whose source an earlier one already has
may end behind its source byte. Every kept override is looked at for some IRQ, since there are
256 of these and at most 255 overrides in front of it (`exists_irq_not_source`).
-/

namespace Yoix

open Memory Records

/-! ## The reads of `Get_iso_gsi`

Each read is an address with a number of bytes. The loop is the one of the model with these noted
down on the way. -/

/-- The loop of `Get_iso_gsi` with its reads. -/
def isoGsiScan (mem : Nat → UInt8) (irq : UInt8) : List Nat → UInt32 × List (Nat × Nat)
  | [] => (irq.toUInt32, [])
  | iso :: rest =>
    if irqSource mem iso = irq then (isoGsi mem iso, [(iso + 3, 1), (iso + 4, 4)])
    else ((isoGsiScan mem irq rest).1, (iso + 3, 1) :: (isoGsiScan mem irq rest).2)

theorem isoGsiScan_fst (mem : Nat → UInt8) (irq : UInt8) (isos : List Nat) :
    (isoGsiScan mem irq isos).1 = isoGsiLoop mem irq isos := by
  induction isos with
  | nil => rfl
  | cons iso rest ih =>
    rw [isoGsiScan, isoGsiLoop]
    split
    · rfl
    · exact ih

/-- The source of an override is read when no earlier one matches. -/
theorem source_mem_reads {mem : Nat → UInt8} {irq : UInt8} {as bs : List Nat} {p : Nat}
    (has : ∀ q ∈ as, irqSource mem q ≠ irq) :
    (p + 3, 1) ∈ (isoGsiScan mem irq (as ++ p :: bs)).2 := by
  induction as with
  | nil =>
    rw [List.nil_append, isoGsiScan]
    split
    · exact List.mem_cons_self
    · exact List.mem_cons_self
  | cons q as ih =>
    rw [List.cons_append, isoGsiScan, if_neg (has q List.mem_cons_self)]
    exact List.mem_cons_of_mem _ (ih fun r hr => has r (List.mem_cons_of_mem q hr))

/-- The GSI is read of the first override that matches. -/
theorem gsi_mem_reads {mem : Nat → UInt8} {as bs : List Nat} {p : Nat}
    (has : ∀ q ∈ as, irqSource mem q ≠ irqSource mem p) :
    (p + 4, 4) ∈ (isoGsiScan mem (irqSource mem p) (as ++ p :: bs)).2 := by
  induction as with
  | nil =>
    rw [List.nil_append, isoGsiScan, if_pos rfl]
    exact List.mem_cons_of_mem _ List.mem_cons_self
  | cons q as ih =>
    rw [List.cons_append, isoGsiScan, if_neg (has q List.mem_cons_self)]
    exact List.mem_cons_of_mem _ (ih fun r hr => has r (List.mem_cons_of_mem q hr))

/-- Nothing else is read: every read of the loop is the source of an override, or the `GSI` of the
first one for the IRQ. Induction on the list. -/
theorem mem_reads_cases {mem : Nat → UInt8} {irq : UInt8} {isos : List Nat} {r : Nat × Nat}
    (h : r ∈ (isoGsiScan mem irq isos).2) :
    (∃ p ∈ isos, r = (p + 3, 1)) ∨
      ∃ as p bs, isos = as ++ p :: bs ∧ (∀ q ∈ as, irqSource mem q ≠ irq) ∧
        irqSource mem p = irq ∧ r = (p + 4, 4) := by
  induction isos with
  | nil => exact absurd h List.not_mem_nil
  | cons p isos ih =>
    rw [isoGsiScan] at h
    by_cases hirq : irqSource mem p = irq
    · rw [if_pos hirq] at h
      rcases List.mem_cons.mp h with rfl | h
      · exact .inl ⟨p, List.mem_cons_self, rfl⟩
      · exact .inr ⟨[], p, isos, rfl, by simp, hirq, List.mem_singleton.mp h⟩
    · rw [if_neg hirq] at h
      rcases List.mem_cons.mp h with rfl | h
      · exact .inl ⟨p, List.mem_cons_self, rfl⟩
      · rcases ih h with ⟨q, hq, rfl⟩ | ⟨as, q, bs, rfl, has, hq, rfl⟩
        · exact .inl ⟨q, List.mem_cons_of_mem p hq, rfl⟩
        · -- `p` was passed because its source is another one, so the match stays the first
          exact .inr ⟨p :: as, q, bs, rfl, List.forall_mem_cons.mpr ⟨hirq, has⟩, hq, rfl⟩

/-- Fewer than 256 overrides leave some IRQ without one. -/
theorem exists_irq_not_source (mem : Nat → UInt8) {as : List Nat} (h : as.length < 256) :
    ∃ irq : UInt8, ∀ q ∈ as, irqSource mem q ≠ irq := by
  let taken : Finset Nat := (as.map fun q => (irqSource mem q).toNat).toFinset
  have hfew : taken.card < (Finset.range 256).card := by
    have hcard : taken.card ≤ (as.map fun q => (irqSource mem q).toNat).length :=
      List.toFinset_card_le _
    rw [List.length_map] at hcard
    rw [Finset.card_range]
    omega
  obtain ⟨n, hn, hfree⟩ := Finset.exists_mem_notMem_of_card_lt_card hfew
  refine ⟨UInt8.ofNat n, fun q hq heq => hfree ?_⟩
  have hlt : n < 2 ^ 8 := Finset.mem_range.mp hn
  refine List.mem_toFinset.mpr (List.mem_map.mpr ⟨q, hq, ?_⟩)
  rw [heq, UInt8.toNat_ofNat', Nat.mod_eq_of_lt hlt]

/-! ## Tables that are used inside their bounds

Two descriptions: no read is outside of the table, and the records are complete as far as they are
read. -/

section

variable (mem : Nat → UInt8) (madtHeader : Nat)

/-- The `n` bytes at `a` lie inside the table. -/
def InsideMadt (a n : Nat) : Prop := madtHeader ≤ a ∧ a + n ≤ madtEnd mem madtHeader

/-- Whatever it looks for, `FindEntries` ends, reads inside the table and stores only records that
lie inside it, and so do the fields that are read later. -/
structure MadtReadsInside : Prop where
  scan : ∀ (type : UInt32) (arrayGiven : Bool) (array : Nat → Nat) (maxCount : UInt32),
    ∃ s, findEntriesScan mem madtHeader type arrayGiven array maxCount = some s ∧
      (∀ a ∈ s.reads, InsideMadt mem madtHeader a 1) ∧
      ∀ i < s.count, InsideMadt mem madtHeader (s.array i) (recordLength mem (s.array i))
  /-- `IOAPIC_Address` of the records that `init_IOAPIC` keeps -/
  ioapicAddress : ∀ p ∈ (initIoapic mem madtHeader).ioapicEntries,
    InsideMadt mem madtHeader (p + 4) 4
  /-- `IRQ_Source` and `GSI` as `Get_iso_gsi` reads them -/
  isoFields : ∀ irq, ∀ r ∈ (isoGsiScan mem irq (initIoapic mem madtHeader).isoEntries).2,
    InsideMadt mem madtHeader r.1 r.2

/-- No record of the table is cut off: the two bytes of its header are there, its length does not
lead past the end, and a record that is kept has what is read of it. Of an override these are eight
bytes when it is the first for its source, and four otherwise. -/
structure MadtComplete : Prop where
  header : ∀ p ∈ madtRecords mem madtHeader, p + 2 ≤ madtEnd mem madtHeader
  length : ∀ p ∈ madtRecords mem madtHeader, p + recordLength mem p ≤ madtEnd mem madtHeader
  ioapic : ∀ p ∈ firstOfType mem 1 16 (madtRecords mem madtHeader),
    p + 8 ≤ madtEnd mem madtHeader
  isoSource : ∀ p ∈ firstOfType mem 2 256 (madtRecords mem madtHeader),
    p + 4 ≤ madtEnd mem madtHeader
  isoGsi : ∀ as p bs, firstOfType mem 2 256 (madtRecords mem madtHeader) = as ++ p :: bs →
    (∀ q ∈ as, irqSource mem q ≠ irqSource mem p) → p + 8 ≤ madtEnd mem madtHeader

end

variable {mem : Nat → UInt8} {madtHeader : Nat}

/-! ## What is stored and read -/

theorem le_of_mem_madtRecords {p : Nat} (h : p ∈ madtRecords mem madtHeader) :
    madtHeader ≤ p := by
  have := (mem_walk h).1
  omega

/-- Of a record of the table, whatever lies below the end of the table lies inside it. -/
theorem insideMadt_of_record {p k n : Nat} (hp : p ∈ madtRecords mem madtHeader)
    (hend : p + (k + n) ≤ madtEnd mem madtHeader) :
    InsideMadt mem madtHeader (p + k) n := by
  have hlow := le_of_mem_madtRecords hp
  exact ⟨by omega, by omega⟩

theorem length_madtRecords_lt (mem : Nat → UInt8) (madtHeader : Nat) :
    (madtRecords mem madtHeader).length < 2 ^ 32 := by
  have hrounds : (madtRecords mem madtHeader).length
      ≤ madtEnd mem madtHeader - (madtHeader + madtSize) := length_walk_le _ _
  have hlength : madtLength mem madtHeader < 256 ^ 4 := readLE_lt mem (madtHeader + 4) 4
  simp only [madtEnd] at hrounds
  omega

/-- A scan for the type of a record, with room for all records, stores that record. -/
theorem exists_slot {p : Nat} (hp : p ∈ madtRecords mem madtHeader) (array : Nat → Nat)
    {s : MadtScan}
    (hs : findEntriesScan mem madtHeader (mem p).toUInt32 true array (UInt32.ofNat (2 ^ 32 - 1))
      = some s) : ∃ i < s.count, s.array i = p := by
  rw [findEntriesScan_eq] at hs
  obtain rfl := Option.some.inj hs
  have hroom := length_madtRecords_lt mem madtHeader
  have hmem : p ∈ storedFrom mem (mem p).toUInt32.toNat true (UInt32.ofNat (2 ^ 32 - 1)).toNat
      (madtRecords mem madtHeader) := by
    refine mem_firstOfType_of_le hp (by simp) ?_
    rw [UInt32.toNat_ofNat']
    omega
  obtain ⟨i, hi, hslot⟩ := List.getElem_of_mem hmem
  refine ⟨i, ?_, (array_of_extend hi).trans hslot⟩
  simpa [MadtScan.extend] using hi

/-! ## Both directions

A complete table is read inside its bounds. In a table that is not complete, the first record that
is cut off shows which read leaves it. -/

/-- A complete table is scanned and used inside its bounds. -/
theorem MadtComplete.readsInside (h : MadtComplete mem madtHeader) :
    MadtReadsInside mem madtHeader where
  scan type arrayGiven array maxCount := by
    refine ⟨_, findEntriesScan_eq mem madtHeader type arrayGiven array maxCount, ?_, ?_⟩
    · intro a ha
      obtain ⟨p, hp, hap⟩ := List.mem_flatMap.mp (by simpa [MadtScan.extend] using ha)
      have hend := h.header p hp
      have hcases : a = p ∨ a = p + 1 := by simpa [headerReads] using hap
      rcases hcases with rfl | rfl
      · exact insideMadt_of_record (k := 0) hp (by omega)
      · exact insideMadt_of_record hp (by omega)
    · intro i hi
      have hi : i < (storedFrom mem type.toNat arrayGiven maxCount.toNat
          (madtRecords mem madtHeader)).length := by simpa [MadtScan.extend] using hi
      rw [array_of_extend hi]
      have hmem : (storedFrom mem type.toNat arrayGiven maxCount.toNat
          (madtRecords mem madtHeader))[i] ∈ madtRecords mem madtHeader :=
        mem_of_mem_storedFrom (List.getElem_mem hi)
      exact insideMadt_of_record hmem (by
        rw [Nat.zero_add]
        exact h.length _ hmem)
  ioapicAddress p hp := by
    rw [ioapicEntries_eq] at hp
    exact insideMadt_of_record (mem_firstOfType hp).1 (h.ioapic p hp)
  isoFields irq r hr := by
    rw [isoEntries_eq] at hr
    rcases mem_reads_cases hr with ⟨p, hp, rfl⟩ | ⟨as, p, bs, hsplit, has, hirq, rfl⟩
    · exact insideMadt_of_record (mem_firstOfType hp).1 (h.isoSource p hp)
    · have hp : p ∈ firstOfType mem 2 256 (madtRecords mem madtHeader) := by
        rw [hsplit]
        exact List.mem_append_right as List.mem_cons_self
      have hend := h.isoGsi as p bs hsplit (by simpa only [hirq] using has)
      exact insideMadt_of_record (mem_firstOfType hp).1 hend

/-- A table that is scanned and used inside its bounds is complete: each of its records is read
by every scan, and stored by the scan for its own type. An override is looked at when
`Get_iso_gsi` is asked for an IRQ that none of those in front of it has. -/
theorem MadtReadsInside.complete (h : MadtReadsInside mem madtHeader) :
    MadtComplete mem madtHeader where
  header p hp := by
    -- every scan reads both bytes of the header
    obtain ⟨s, hs, hreads, -⟩ := h.scan 0 false (fun _ => 0) 0
    rw [findEntriesScan_eq] at hs
    obtain rfl := Option.some.inj hs
    have hread : p + 1 ∈ (madtRecords mem madtHeader).flatMap headerReads :=
      List.mem_flatMap.mpr ⟨p, hp, by simp [headerReads]⟩
    exact (hreads (p + 1) (by simpa [MadtScan.extend] using hread)).2
  length p hp := by
    -- the scan for the record's own type stores it
    obtain ⟨s, hs, -, hstored⟩ := h.scan (mem p).toUInt32 true (fun _ => 0)
      (UInt32.ofNat (2 ^ 32 - 1))
    obtain ⟨i, hi, hslot⟩ := exists_slot hp _ hs
    have hinside := hstored i hi
    rw [hslot] at hinside
    exact hinside.2
  ioapic p hp := (h.ioapicAddress p (by rwa [ioapicEntries_eq])).2
  isoSource p hp := by
    obtain ⟨as, bs, hsplit⟩ := List.append_of_mem hp
    have hkept : (firstOfType mem 2 256 (madtRecords mem madtHeader)).length ≤ 256 :=
      List.length_take_le _ _
    -- at most 255 overrides lie in front, so that some IRQ gets past them
    have hfew : as.length < 256 := by
      rw [hsplit, List.length_append, List.length_cons] at hkept
      omega
    obtain ⟨irq, hirq⟩ := exists_irq_not_source mem hfew
    have hread := h.isoFields irq (p + 3, 1) (by
      rw [isoEntries_eq, hsplit]
      exact source_mem_reads hirq)
    exact hread.2
  isoGsi as p bs hsplit has := by
    have hread := h.isoFields (irqSource mem p) (p + 4, 4) (by
      rw [isoEntries_eq, hsplit]
      exact gsi_mem_reads has)
    exact hread.2

/-- Parsing a table stays inside it exactly when the table is complete. -/
theorem madtReadsInside_iff (mem : Nat → UInt8) (madtHeader : Nat) :
    MadtReadsInside mem madtHeader ↔ MadtComplete mem madtHeader :=
  ⟨MadtReadsInside.complete, MadtComplete.readsInside⟩

/-- A table of 48 bytes at `0x1000` whose last four bytes are the first bytes of an IOAPIC record
of length 12. -/
def truncatedMadt (a : Nat) : UInt8 :=
  if a = 0x1004 then 48 else if a = 0x102C then 1 else if a = 0x102D then 12 else 0

/-- On that table `init_IOAPIC` keeps the record and reads an address behind the table. -/
theorem truncatedMadt_not_readsInside : ¬ MadtReadsInside truncatedMadt 0x1000 := by
  intro h
  have hkept : 0x102C ∈ (initIoapic truncatedMadt 0x1000).ioapicEntries := by decide
  have hend : madtEnd truncatedMadt 0x1000 = 0x1030 := by decide
  have hinside := (h.ioapicAddress 0x102C hkept).2
  rw [hend] at hinside
  omega

end Yoix
