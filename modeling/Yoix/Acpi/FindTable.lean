import Yoix.Acpi.Model
import Mathlib.Data.List.Find

/-!
# Searching the root table

The two loops of `findTable` are one loop over entries of 4 or 8 bytes. Their number comes from the
length in the header of the root table, by a subtraction that wraps for a length below that of the
header. The search stays inside the root table exactly when it does not wrap
(`findTable_inside_iff`).

On root tables whose length is that of the header and the entries, an RSDT and an XSDT with the same
entries give the same table, the first one with the requested signature
(`findTable_paths_agree`).
-/

namespace Yoix

open Memory

variable {mem : Nat → UInt8} {hhdm : Option Nat} {tableSign : Nat → UInt8}

/-! ## The root table in use

Both paths of `findTable` are one search with another width of the entries. -/

section

variable (mem : Nat → UInt8) (hhdm : Option Nat) (phyAddress : Nat)

/-- The root table that the RSDP leads to. -/
def rootTable : Nat :=
  if getXsdt mem hhdm phyAddress = 0 then getRsdt mem hhdm phyAddress
  else getXsdt mem hhdm phyAddress

/-- The size of its entries. -/
def entryWidth : Nat := if getXsdt mem hhdm phyAddress = 0 then 4 else 8

theorem entryWidth_cases :
    entryWidth mem hhdm phyAddress = 4 ∨ entryWidth mem hhdm phyAddress = 8 := by
  unfold entryWidth
  split
  · exact Or.inl rfl
  · exact Or.inr rfl

/-- `findTable` is a search of the root table that is in use. -/
theorem findTable_eq (tableSign : Nat → UInt8) :
    findTable mem hhdm tableSign phyAddress
      = searchLoop mem hhdm tableSign (rootTable mem hhdm phyAddress)
          (entryWidth mem hhdm phyAddress)
          (entriesCount mem (rootTable mem hhdm phyAddress) (entryWidth mem hhdm phyAddress)) 0 := by
  unfold findTable rootTable entryWidth
  dsimp only
  split
  · rfl
  · rfl

end

/-! ## The number of entries

The division of what is behind the header. When the length is below that of the header, the
subtraction wraps around, and the count is far too large. -/

theorem sdtLength_lt (mem : Nat → UInt8) (p : Nat) : sdtLength mem p < 2 ^ 32 :=
  readLE_lt (bytesAt mem p) 4 4

/-- With a whole header the count is the number of entries that fit behind it. -/
theorem entriesCount_of_le {root width : Nat} (h : sdtHeaderSize ≤ sdtLength mem root) :
    entriesCount mem root width = (sdtLength mem root - sdtHeaderSize) / width := by
  have hlength := sdtLength_lt mem root
  have hsub : (sdtLength mem root + (2 ^ 64 - sdtHeaderSize)) % 2 ^ 64
      = sdtLength mem root - sdtHeaderSize := by omega
  rw [entriesCount, hsub]

/-- A length below that of the header wraps around to a count that is not 0. -/
theorem entriesCount_pos_of_lt {root width : Nat} (hwidth : width = 4 ∨ width = 8)
    (h : sdtLength mem root < sdtHeaderSize) : 0 < entriesCount mem root width := by
  have hheader : sdtHeaderSize = 36 := rfl
  have hwrap : (sdtLength mem root + (2 ^ 64 - sdtHeaderSize)) % 2 ^ 64
      = sdtLength mem root + (2 ^ 64 - sdtHeaderSize) := Nat.mod_eq_of_lt (by omega)
  rw [entriesCount, hwrap]
  rcases hwidth with rfl | rfl
  · omega
  · omega

/-! ## The slots that are read

One entry after the other from the header on, up to the table that is found. -/

/-- The entries that are read are at multiples of the width behind the header, up to the count. -/
theorem mem_slots {root width n i o : Nat}
    (h : o ∈ (searchLoop mem hhdm tableSign root width n i).slots) :
    ∃ j, j < i + n ∧ o = sdtHeaderSize + width * j := by
  induction n generalizing i with
  | zero => exact absurd h List.not_mem_nil
  | succ n ih =>
    rw [searchLoop] at h
    dsimp only at h
    split at h
    · exact ⟨i, by omega, List.mem_singleton.mp h⟩
    · rcases List.mem_cons.mp h with rfl | h
      · exact ⟨i, by omega, rfl⟩
      · obtain ⟨j, hj, rfl⟩ := ih h
        exact ⟨j, by omega, rfl⟩

/-- The first entry is read as soon as the count is not 0. -/
theorem first_slot_mem {root width n : Nat} (h : 0 < n) :
    sdtHeaderSize ∈ (searchLoop mem hhdm tableSign root width n 0).slots := by
  obtain ⟨m, rfl⟩ : ∃ m, n = m + 1 := ⟨n - 1, by omega⟩
  rw [searchLoop]
  dsimp only
  split
  · exact List.mem_singleton.mpr rfl
  · exact List.mem_cons_self

section

variable (mem : Nat → UInt8) (hhdm : Option Nat) (tableSign : Nat → UInt8) (phyAddress : Nat)

/-- The search reads only entries that lie between the header and the end of the root table, and
finds nothing when there is no whole entry. -/
structure SearchInside : Prop where
  slots : ∀ o ∈ (findTable mem hhdm tableSign phyAddress).slots,
    sdtHeaderSize ≤ o ∧
      o + entryWidth mem hhdm phyAddress ≤ sdtLength mem (rootTable mem hhdm phyAddress)
  none : sdtLength mem (rootTable mem hhdm phyAddress)
      < sdtHeaderSize + entryWidth mem hhdm phyAddress →
    (findTable mem hhdm tableSign phyAddress).table = 0

/-- For either root table the search stays inside it exactly when its length is not below that of
the header. -/
theorem findTable_inside_iff :
    SearchInside mem hhdm tableSign phyAddress ↔
      sdtHeaderSize ≤ sdtLength mem (rootTable mem hhdm phyAddress) := by
  have hwidth := entryWidth_cases mem hhdm phyAddress
  constructor
  · intro h
    -- the first slot is read when the count wraps, and does not fit
    by_contra hshort
    have hcount := entriesCount_pos_of_lt hwidth (Nat.lt_of_not_le hshort)
    have hslots := h.slots
    rw [findTable_eq] at hslots
    have := (hslots sdtHeaderSize (first_slot_mem hcount)).2
    omega
  · intro hlength
    have hcount : entriesCount mem (rootTable mem hhdm phyAddress) (entryWidth mem hhdm phyAddress)
        = _ := entriesCount_of_le hlength
    refine ⟨fun o ho => ?_, fun hnone => ?_⟩
    · rw [findTable_eq] at ho
      obtain ⟨j, hj, rfl⟩ := mem_slots ho
      rw [Nat.zero_add, hcount] at hj
      rcases hwidth with hw | hw
      · rw [hw] at hj ⊢
        omega
      · rw [hw] at hj ⊢
        omega
    · have hzero : entriesCount mem (rootTable mem hhdm phyAddress)
          (entryWidth mem hhdm phyAddress) = 0 := by
        rw [hcount]
        exact Nat.div_eq_of_lt (by omega)
      rw [findTable_eq, hzero]
      rfl

end

/-- An RSDP of revision 0 at `0x100`, with an RSDT at `0x200` whose length is 35. -/
def shortRsdt (a : Nat) : UInt8 :=
  if a = 0x111 then 2 else if a = 0x204 then 35 else 0

theorem shortRsdt_not_inside :
    ¬ SearchInside shortRsdt (some 0) (fun _ => 0x41) 0x100 := by
  intro h
  have hlength : sdtLength shortRsdt (rootTable shortRsdt (some 0) 0x100) = 35 := by decide
  have hslots := h.slots
  rw [findTable_eq] at hslots
  have hread := (hslots sdtHeaderSize (first_slot_mem (by decide))).2
  rw [hlength] at hread
  exact absurd hread (by decide)

/-! ## Signatures

Four characters, none of which is 0, are compared as far as they go. -/

/-- The four signature bytes of the table at a pointer are the requested ones. -/
def HasSignature (mem : Nat → UInt8) (tableSign : Nat → UInt8) (h : Nat) : Prop :=
  ∀ i < 4, bytesAt mem h i = tableSign i

instance (mem : Nat → UInt8) (tableSign : Nat → UInt8) (h : Nat) :
    Decidable (HasSignature mem tableSign h) :=
  inferInstanceAs (Decidable (∀ i < 4, bytesAt mem h i = tableSign i))

/-- Against characters that are not 0 the comparison finds no terminator: it is 0 exactly when all
characters are equal. -/
theorem strncmpLoop_eq_zero_iff {s1 s2 : Nat → UInt8} {n i : Nat}
    (h : ∀ j < n, s2 (i + j) ≠ 0) :
    strncmpLoop s1 s2 n i = 0 ↔ ∀ j < n, s1 (i + j) = s2 (i + j) := by
  induction n generalizing i with
  | zero => simp [strncmpLoop]
  | succ n ih =>
    have hshift : ∀ j, i + (j + 1) = i + 1 + j := by omega
    have hfirst : s2 i ≠ 0 := h 0 (by omega)
    have hrest : ∀ j < n, s2 (i + 1 + j) ≠ 0 := fun j hj => by
      rw [← hshift]
      exact h (j + 1) (by omega)
    by_cases heq : s1 i = s2 i
    · -- equal and not null, so the loop goes on
      rw [strncmpLoop, if_pos ⟨heq ▸ hfirst, heq⟩, ih hrest]
      constructor
      · intro hall j hj
        cases j with
        | zero => exact heq
        | succ j =>
          rw [hshift]
          exact hall j (by omega)
      · intro hall j hj
        rw [← hshift]
        exact hall (j + 1) (by omega)
    · rw [strncmpLoop, if_neg (fun hboth => heq hboth.2)]
      constructor
      · intro hdiff
        exact absurd (UInt8.toNat_inj.mp (by omega)) heq
      · intro hall
        exact absurd (hall 0 (by omega)) heq

/-- `strncmp` gives 0 exactly for a table with the signature. -/
theorem strncmp_eq_zero_iff {h : Nat} (hsign : ∀ i < 4, tableSign i ≠ 0) :
    strncmp (bytesAt mem h) tableSign 4 = 0 ↔ HasSignature mem tableSign h := by
  have hchars : ∀ j < 4, tableSign (0 + j) ≠ 0 := fun j hj => by
    rw [Nat.zero_add]
    exact hsign j hj
  rw [strncmp, strncmpLoop_eq_zero_iff hchars]
  simp only [Nat.zero_add, HasSignature]

/-! ## Both paths -/

/-- The root table has the length of the header and the entries, and lists the addresses. -/
structure RootLists (mem : Nat → UInt8) (root width : Nat) (addresses : List Nat) : Prop where
  length : sdtLength mem root = sdtHeaderSize + width * addresses.length
  entries : ∀ i a, addresses[i]? = some a → field mem root (sdtHeaderSize + width * i) width = a

/-- The entries of a root table, one by one. -/
theorem RootLists.of_getElem {mem : Nat → UInt8} {root width : Nat} {addresses : List Nat}
    (hlength : sdtLength mem root = sdtHeaderSize + width * addresses.length)
    (hentry : ∀ i (hi : i < addresses.length),
      field mem root (sdtHeaderSize + width * i) width = addresses[i]) :
    RootLists mem root width addresses where
  length := hlength
  entries i a ha := by
    obtain ⟨hi, rfl⟩ := List.getElem?_eq_some_iff.mp ha
    exact hentry i hi

/-- An RSDP of revision 2 with an XSDT that lists the addresses. -/
structure XsdpLists (mem : Nat → UInt8) (hhdm : Option Nat) (xsdp : Nat)
    (addresses : List Nat) : Prop where
  revision : rsdpRevision mem xsdp = 2
  address : xsdtAddress mem xsdp ≠ 0
  /-- `phy_to_virt` gives access to the XSDT -/
  mapped : phyToVirt hhdm (xsdtAddress mem xsdp) ≠ 0
  lists : RootLists mem (phyToVirt hhdm (xsdtAddress mem xsdp)) 8 addresses

/-- An RSDP of another revision with an RSDT that lists the addresses, which are below `2 ^ 32`. -/
structure RsdpLists (mem : Nat → UInt8) (hhdm : Option Nat) (rsdp : Nat)
    (addresses : List Nat) : Prop where
  revision : rsdpRevision mem rsdp ≠ 2
  below : ∀ a ∈ addresses, a < 2 ^ 32
  lists : RootLists mem (phyToVirt hhdm (rsdtAddress mem rsdp)) 4 addresses

/-- The first listed table with the signature, and `NULL` when there is none. -/
def firstTable (mem : Nat → UInt8) (hhdm : Option Nat) (tableSign : Nat → UInt8)
    (addresses : List Nat) : Nat :=
  match addresses.find? fun a => HasSignature mem tableSign (phyToVirt hhdm a) with
  | some a => phyToVirt hhdm a
  | none => 0

/-- The search goes through the addresses in order and stops at the first table with the signature.
-/
theorem searchLoop_eq_firstTable (hsign : ∀ i < 4, tableSign i ≠ 0) {root width i : Nat}
    {addresses : List Nat}
    (h : ∀ j a, addresses[j]? = some a →
      field mem root (sdtHeaderSize + width * (i + j)) width = a) :
    (searchLoop mem hhdm tableSign root width addresses.length i).table
      = firstTable mem hhdm tableSign addresses := by
  induction addresses generalizing i with
  | nil => rfl
  | cons a rest ih =>
    have hfirst : field mem root (sdtHeaderSize + width * i) width = a := h 0 a rfl
    have hrest : ∀ j b, rest[j]? = some b →
        field mem root (sdtHeaderSize + width * (i + 1 + j)) width = b := fun j b hb => by
      rw [show i + 1 + j = i + (j + 1) from by omega]
      exact h (j + 1) b hb
    rw [List.length_cons, searchLoop, hfirst]
    dsimp only
    by_cases hmatch : HasSignature mem tableSign (phyToVirt hhdm a)
    · rw [if_pos ((strncmp_eq_zero_iff hsign).mpr hmatch), firstTable,
        List.find?_cons_of_pos (by simpa using hmatch)]
    · rw [if_neg (fun hcmp => hmatch ((strncmp_eq_zero_iff hsign).mp hcmp)), firstTable,
        List.find?_cons_of_neg (by simpa using hmatch)]
      exact ih hrest

/-- The search of a root table with the right length goes through the listed addresses. -/
theorem RootLists.search {root width : Nat} {addresses : List Nat}
    (h : RootLists mem root width addresses) (hwidth : 0 < width)
    (hsign : ∀ i < 4, tableSign i ≠ 0) :
    (searchLoop mem hhdm tableSign root width (entriesCount mem root width) 0).table
      = firstTable mem hhdm tableSign addresses := by
  have hcount : entriesCount mem root width = addresses.length := by
    rw [entriesCount_of_le (by rw [h.length]; omega), h.length, Nat.add_sub_cancel_left,
      Nat.mul_div_cancel_left _ hwidth]
  rw [hcount]
  refine searchLoop_eq_firstTable hsign fun j a ha => ?_
  rw [Nat.zero_add]
  exact h.entries j a ha

/-- The search by way of the XSDT. -/
theorem XsdpLists.findTable_eq {xsdp : Nat} {addresses : List Nat}
    (h : XsdpLists mem hhdm xsdp addresses) (hsign : ∀ i < 4, tableSign i ≠ 0) :
    (findTable mem hhdm tableSign xsdp).table = firstTable mem hhdm tableSign addresses := by
  have hxsdt : getXsdt mem hhdm xsdp = phyToVirt hhdm (xsdtAddress mem xsdp) :=
    if_neg (not_or.mpr ⟨not_not.mpr h.revision, h.address⟩)
  unfold findTable
  dsimp only
  rw [hxsdt, if_neg h.mapped]
  exact h.lists.search (by omega) hsign

/-- The search by way of the RSDT, which is taken when the revision is not 2. -/
theorem RsdpLists.findTable_eq {rsdp : Nat} {addresses : List Nat}
    (h : RsdpLists mem hhdm rsdp addresses) (hsign : ∀ i < 4, tableSign i ≠ 0) :
    (findTable mem hhdm tableSign rsdp).table = firstTable mem hhdm tableSign addresses := by
  have hxsdt : getXsdt mem hhdm rsdp = 0 := if_pos (Or.inl h.revision)
  unfold findTable
  dsimp only
  rw [hxsdt, if_pos rfl]
  exact h.lists.search (by omega) hsign

/-- Tables with the same signature bytes give the same first table. -/
theorem firstTable_congr {mem' : Nat → UInt8} {addresses : List Nat}
    (hsame : ∀ a ∈ addresses, ∀ i < 4,
      bytesAt mem (phyToVirt hhdm a) i = bytesAt mem' (phyToVirt hhdm a) i) :
    firstTable mem hhdm tableSign addresses = firstTable mem' hhdm tableSign addresses := by
  have hfind : addresses.find? (fun a => HasSignature mem tableSign (phyToVirt hhdm a))
      = addresses.find? (fun a => HasSignature mem' tableSign (phyToVirt hhdm a)) := by
    refine List.find?_congr fun a ha => ?_
    have hiff : HasSignature mem tableSign (phyToVirt hhdm a)
        ↔ HasSignature mem' tableSign (phyToVirt hhdm a) := by
      refine forall₂_congr fun i hi => ?_
      rw [hsame a ha i hi]
    simp only [hiff]
  rw [firstTable, hfind, firstTable]

/-- An XSDT and an RSDT that list the same tables lead to the same table: the first one with the
signature. The two RSDPs may stand in two memories that agree on the tables. -/
theorem findTable_paths_agree {mem mem' : Nat → UInt8} {hhdm : Option Nat}
    {tableSign : Nat → UInt8} {xsdp rsdp : Nat} {addresses : List Nat}
    (hsign : ∀ i < 4, tableSign i ≠ 0) (hxsdp : XsdpLists mem hhdm xsdp addresses)
    (hrsdp : RsdpLists mem' hhdm rsdp addresses)
    (hsame : ∀ a ∈ addresses, ∀ i < 4,
      bytesAt mem (phyToVirt hhdm a) i = bytesAt mem' (phyToVirt hhdm a) i) :
    (findTable mem hhdm tableSign xsdp).table = (findTable mem' hhdm tableSign rsdp).table ∧
      (findTable mem hhdm tableSign xsdp).table = firstTable mem hhdm tableSign addresses := by
  have hx := hxsdp.findTable_eq hsign
  have hr := hrsdp.findTable_eq hsign
  refine ⟨?_, hx⟩
  rw [hx, hr]
  exact firstTable_congr hsame

/-- The bytes of a small firmware, read through a direct map at `0x1000`: an RSDP of revision 2 at
`0x100` with an XSDT at `0x200`, one of revision 0 at `0x140` with an RSDT at `0x280`, and the two
tables that both list, a `FACP` at `0x320` and then an `APIC` at `0x300`. -/
def sampleFirmware (a : Nat) : UInt8 :=
  (List.lookup a [(0x10F, 2), (0x119, 2),
    (0x1204, 52), (0x1224, 0x20), (0x1225, 3), (0x122D, 3),
    (0x150, 0x80), (0x151, 2),
    (0x1284, 44), (0x12A4, 0x20), (0x12A5, 3), (0x12A9, 3),
    (0x1300, 0x41), (0x1301, 0x50), (0x1302, 0x49), (0x1303, 0x43),
    (0x1320, 0x46), (0x1321, 0x41), (0x1322, 0x43), (0x1323, 0x50)]).getD 0

/-- The characters of `"APIC"`. -/
def apicSign (i : Nat) : UInt8 := [0x41, 0x50, 0x49, 0x43].getD i 0

/-- Both RSDPs lead past the table in front to the one at `0x300`. -/
theorem findTable_paths_agree_sampleFirmware :
    (findTable sampleFirmware (some 0x1000) apicSign 0x100).table = 0x1300 ∧
      (findTable sampleFirmware (some 0x1000) apicSign 0x140).table = 0x1300 := by
  have hxsdp : XsdpLists sampleFirmware (some 0x1000) 0x100 [0x320, 0x300] :=
    ⟨by decide, by decide, by decide, RootLists.of_getElem (by decide) (by decide)⟩
  have hrsdp : RsdpLists sampleFirmware (some 0x1000) 0x140 [0x320, 0x300] :=
    ⟨by decide, by decide, RootLists.of_getElem (by decide) (by decide)⟩
  have hsign : ∀ i < 4, apicSign i ≠ 0 := by decide
  obtain ⟨hagree, hfirst⟩ := findTable_paths_agree hsign hxsdp hrsdp (fun _ _ _ _ => rfl)
  have htable : firstTable sampleFirmware (some 0x1000) apicSign [0x320, 0x300] = 0x1300 := by
    decide
  exact ⟨hfirst.trans htable, hagree.symm.trans (hfirst.trans htable)⟩

end Yoix
