import Yoix.Vmm.Model
import Yoix.Lib.Bits
import Yoix.Lib.Radix

/-!
# Address spaces as radix trees

A table is named by the frame that holds it. `entries` reads its 512 entries out of memory, so
that the tables below `cr3` form a radix tree over the four indices of a virtual page number.
`pageChild` and `pageLeaf` say how the processor reads an entry: an absent entry translates
nothing, an entry of a PDPT or a page directory with bit 7 set translates a huge page, any other
entry of the first three levels leads to the next table, and an entry of a page table translates
a page. `hwTranslate` is the translation that results.
-/

namespace Yoix

open Memory

/-! ## Reading entries

An entry as the processor reads it: the frame it leads to, its flags, and whether it leads to a
table or maps a page. On the two middle levels a page is huge, and the tree ends there. -/

/-- Bit 7 of an entry of a PDPT or a page directory. -/
abbrev pageHuge : Nat := 1 <<< 7

/-- The frame an entry, or `cr3`, refers to. -/
def frameOf (entry : Nat) : Nat := (entry &&& pageAddrMask) / buddyPageSize

/-- The bits of an entry that are not part of the address. -/
def flagsOf (entry : Nat) : Nat := entry &&& 0xFFF0000000000FFF

/-- The table that an entry at depth `d` leads to. -/
def pageChild (d entry : Nat) : Option Nat :=
  if entry &&& pagePresent = 0 ∨ 3 ≤ d ∨ 1 ≤ d ∧ entry &&& pageHuge ≠ 0 then none
  else some (frameOf entry)

/-- The translation of a present entry, with its depth. -/
def pageLeaf (d entry : Nat) : Option (Nat × Nat) :=
  if entry &&& pagePresent = 0 then none else some (d, entry)

def entries (mem : Nat → UInt8) (frame : Nat) (i : Fin 512) : Nat :=
  readLE mem (frame * buddyPageSize + 8 * i) 8

instance neZeroEntryCount : NeZero (512 : Nat) := ⟨by decide⟩

/-! ## Virtual pages

The four indices of an address are the digits of its page number, so a page is a path of length four
through the tree. -/

/-- A virtual page number: bits 12 to 47 of an address. -/
abbrev Vpn : Type := Fin (2 ^ 36)

def vpn (v : Nat) : Vpn := Fin.ofNat (2 ^ 36) (v / 2 ^ 12)

/-- The indices of the first three levels. -/
def Vpn.tablePath (n : Vpn) : List (Fin 512) :=
  [Fin.ofNat 512 (n / 2 ^ 27), Fin.ofNat 512 (n / 2 ^ 18), Fin.ofNat 512 (n / 2 ^ 9)]

/-- The index into the page table. -/
def Vpn.index (n : Vpn) : Fin 512 := Fin.ofNat 512 n

def Vpn.path (n : Vpn) : List (Fin 512) := n.tablePath ++ [n.index]

namespace Kernel

/-- The table at the end of a path from `cr3`. -/
def table (cr3 : Nat) (k : Kernel) (p : List (Fin 512)) : Option Nat :=
  Radix.walk pageChild (entries k.mem) 0 (frameOf cr3) p

/-- The frame holds a table of the address space. -/
def IsTable (cr3 : Nat) (k : Kernel) (frame : Nat) : Prop :=
  Radix.Reachable pageChild (entries k.mem) (frameOf cr3) frame

/-- The present entry that translates the page, with its depth. -/
def leaf (cr3 : Nat) (k : Kernel) (n : Vpn) : Option (Nat × Nat) :=
  Radix.find pageChild pageLeaf (entries k.mem) 0 (frameOf cr3) n.path

end Kernel

/-- The physical address that an entry at depth `d` gives to `v`: a page of 1 GiB, 2 MiB or
4 KiB. -/
def hwAddress (d entry v : Nat) : Nat :=
  match d with
  | 1 => (entry &&& 0x000FFFFFC0000000) + v % 2 ^ 30
  | 2 => (entry &&& 0x000FFFFFFFE00000) + v % 2 ^ 21
  | _ => (entry &&& pageAddrMask) + v % 2 ^ 12

/-- The translation of `v` by the processor's table walk. -/
def hwTranslate (cr3 : Nat) (k : Kernel) (v : Nat) : Option Nat :=
  (k.leaf cr3 (vpn v)).map fun (d, entry) => hwAddress d entry v

/-- Bits 48 to 63 are copies of bit 47. -/
def IsCanonical (v : Nat) : Prop := v < 2 ^ 47 ∨ 2 ^ 64 - 2 ^ 47 ≤ v ∧ v < 2 ^ 64

instance (v : Nat) : Decidable (IsCanonical v) :=
  inferInstanceAs (Decidable (v < 2 ^ 47 ∨ 2 ^ 64 - 2 ^ 47 ≤ v ∧ v < 2 ^ 64))

/-- The physical address that an access through the pointer `v` reaches. It is `none` for a page fault,
and for the general protection fault of an address that is not canonical. -/
def hwAccess (cr3 : Nat) (k : Kernel) (v : Nat) : Option Nat :=
  if IsCanonical v then hwTranslate cr3 k v else none

/-! ## Bits of entries

An entry is put together from an aligned address and flags that have no address bits. Both can be
read back from it. -/

theorem and_pageAddrMask (x : Nat) : x &&& pageAddrMask = x % 2 ^ 52 / 2 ^ 12 * 2 ^ 12 :=
  Bits.and_mask (x := x) (k := 12) (w := 52) (by decide)

theorem frameOf_eq (x : Nat) : frameOf x = x % 2 ^ 52 / 2 ^ 12 := by
  rw [frameOf, and_pageAddrMask]
  exact Nat.mul_div_cancel _ (by decide)

theorem frameOf_mul (x : Nat) : frameOf x * buddyPageSize = x &&& pageAddrMask := by
  rw [frameOf_eq, and_pageAddrMask]
  rfl

theorem frameOf_lt (x : Nat) : frameOf x < 2 ^ 40 := by
  rw [frameOf_eq]
  omega

theorem and_pageAddrMask_entry {p flags : Nat} (hflags : flags &&& pageAddrMask = 0) :
    (p &&& pageAddrMask ||| flags) &&& pageAddrMask = p &&& pageAddrMask := by
  rw [Nat.and_or_distrib_right, hflags, Nat.or_zero, Nat.and_assoc, Nat.and_self]

theorem frameOf_entry {p flags : Nat} (hflags : flags &&& pageAddrMask = 0) :
    frameOf (p &&& pageAddrMask ||| flags) = frameOf p := by
  rw [frameOf, and_pageAddrMask_entry hflags, frameOf]

theorem present_entry (p flags : Nat) :
    (p &&& pageAddrMask ||| flags) &&& pagePresent = flags &&& pagePresent := by
  have hmask : pageAddrMask &&& pagePresent = 0 := by decide
  rw [Nat.and_or_distrib_right, Nat.and_assoc, hmask, Nat.and_zero, Nat.zero_or]

/-- The flags of an entry are what was put in, when they have no address bits. -/
theorem flagsOf_entry {p flags : Nat} (hlt : flags < 2 ^ 64)
    (hflags : flags &&& pageAddrMask = 0) : flagsOf (p &&& pageAddrMask ||| flags) = flags := by
  have hmask : pageAddrMask &&& 0xFFF0000000000FFF = 0 := by decide
  have hall : pageAddrMask ||| 0xFFF0000000000FFF = 2 ^ 64 - 1 := by decide
  have hsplit : flags &&& 0xFFF0000000000FFF = flags := by
    calc flags &&& 0xFFF0000000000FFF
        = (flags &&& pageAddrMask) ||| (flags &&& 0xFFF0000000000FFF) := by
          rw [hflags, Nat.zero_or]
      _ = flags &&& (2 ^ 64 - 1) := by rw [← Nat.and_or_distrib_left, hall]
      _ = flags := by rw [Nat.and_two_pow_sub_one_eq_mod, Nat.mod_eq_of_lt hlt]
  rw [flagsOf, Nat.and_or_distrib_right, Nat.and_assoc, hmask, Nat.and_zero, Nat.zero_or, hsplit]

theorem entry_lt {p flags : Nat} (hlt : flags < 2 ^ 64) :
    (p &&& pageAddrMask ||| flags) < 2 ^ 64 :=
  Nat.or_lt_two_pow (Nat.lt_of_le_of_lt Nat.and_le_right (by decide)) hlt

/-- The entry that links a new table in frame `g`. -/
def linkEntry (g : Nat) : Nat := g * buddyPageSize ||| pagePresent ||| pageWritable

/-- The entry for a new table is its address with the present and the writable bit. -/
theorem linkEntry_eq (g : Nat) : linkEntry g = g * buddyPageSize + 3 := by
  have hor : pagePresent ||| pageWritable = 3 := by decide
  rw [linkEntry, Nat.or_assoc, hor, Nat.mul_comm]
  exact (Nat.two_pow_add_eq_or_of_lt (i := 12) (by decide) g).symm

/-- On the three upper levels such an entry leads to the table. -/
theorem pageChild_linkEntry {g d : Nat} (hg : g < 2 ^ 40) (hd : d ≤ 2) :
    pageChild d (linkEntry g) = some g := by
  have hpresent : (g * buddyPageSize + 3) &&& pagePresent ≠ 0 := by
    have hmod : (g * buddyPageSize + 3) &&& pagePresent = (g * buddyPageSize + 3) % 2 :=
      Nat.and_two_pow_sub_one_eq_mod _ 1
    rw [hmod]
    simp only [buddyPageSize]
    omega
  have hhuge : (g * buddyPageSize + 3) &&& pageHuge = 0 := by
    have hdiv : (g * buddyPageSize + 3) &&& (2 ^ 8 - 2 ^ 7) = 0 := by
      rw [Bits.and_mask (by decide)]
      simp only [buddyPageSize]
      omega
    exact hdiv
  have hframe : frameOf (g * buddyPageSize + 3) = g := by
    rw [frameOf_eq]
    simp only [buddyPageSize]
    omega
  rw [linkEntry_eq, pageChild, if_neg, hframe]
  rintro (h | h | h)
  · exact hpresent h
  · omega
  · exact h.2 hhuge

theorem pageChild_zero (d : Nat) : pageChild d 0 = none := if_pos (Or.inl (Nat.zero_and _))

theorem pageLeaf_zero (d : Nat) : pageLeaf d 0 = none := if_pos (Nat.zero_and _)

theorem pageChild_three (e : Nat) : pageChild 3 e = none :=
  if_pos (Or.inr (Or.inl (Nat.le_refl 3)))

/-- What it takes for an entry to lead to a table: one of the upper levels and the present bit. -/
theorem pageChild_eq_some {d e f : Nat} (h : pageChild d e = some f) :
    d ≤ 2 ∧ e &&& pagePresent ≠ 0 ∧ f = frameOf e := by
  unfold pageChild at h
  split at h
  · exact absurd h (by simp)
  · next hcond =>
    push Not at hcond
    exact ⟨Nat.le_of_lt_succ hcond.2.1, hcond.1, (Option.some.inj h).symm⟩

/-- What it takes for an entry to be the end of a walk: the present bit. -/
theorem pageLeaf_eq_some {d e : Nat} {r : Nat × Nat} (h : pageLeaf d e = some r) :
    e &&& pagePresent ≠ 0 ∧ r = (d, e) := by
  unfold pageLeaf at h
  split at h
  · exact absurd h (by simp)
  · next hpresent => exact ⟨hpresent, (Option.some.inj h).symm⟩

/-! ## Entries in memory -/

/-- The pointer to the table in a frame. -/
def tablePtr (offset frame : Nat) : Nat := phyToVirt (some offset) (frame * buddyPageSize)

/-- The pointer that the code computes from an entry, or from `cr3`. -/
theorem phyToVirt_and_mask (offset e : Nat) :
    phyToVirt (some offset) (e &&& pageAddrMask) = tablePtr offset (frameOf e) := by
  rw [tablePtr, frameOf_mul]

/-- A store into entry `i` of the table in a frame. -/
def Kernel.putEntry (k : Kernel) (frame : Nat) (i : Fin 512) (value : Nat) : Kernel :=
  { k with mem := writeLE k.mem (frame * buddyPageSize + 8 * i) 8 value }

/-- Reading an entry through the direct map gives the entry in physical memory. -/
theorem Kernel.getEntry_tablePtr {offset frame : Nat} (k : Kernel) (hoff : offset < 2 ^ 64)
    (hframe : frame < 2 ^ 40) (i : Fin 512) :
    k.getEntry (some offset) (tablePtr offset frame) i = .ok (entries k.mem frame i) := by
  apply k.load_phyToVirt hoff
  simp only [buddyPageSize]
  omega

/-- Writing an entry through the direct map writes the entry in physical memory. -/
theorem Kernel.setEntry_tablePtr {offset frame : Nat} (k : Kernel) (hoff : offset < 2 ^ 64)
    (hframe : frame < 2 ^ 40) (i : Fin 512) (value : Nat) :
    k.setEntry (some offset) (tablePtr offset frame) i value
      = .ok (k.putEntry frame i value) := by
  apply k.store_phyToVirt hoff
  simp only [buddyPageSize]
  omega

/-- A store into a table is a store into the tree. -/
theorem entries_putEntry (k : Kernel) (frame : Nat) (i : Fin 512) {value : Nat}
    (hvalue : value < 2 ^ 64) :
    entries (k.putEntry frame i value).mem = Radix.set (entries k.mem) frame i value := by
  funext f j
  by_cases heq : f = frame ∧ j = i
  · obtain ⟨rfl, rfl⟩ := heq
    rw [Radix.set_self]
    exact readLE_writeLE_of_lt hvalue
  · rw [Radix.set, if_neg heq]
    apply readLE_writeLE_of_disjoint
    have hne : f ≠ frame ∨ (j : Nat) ≠ i := by
      rw [Ne, Ne, ← not_and_or, Fin.val_inj]
      exact heq
    simp only [buddyPageSize]
    omega

/-- A change inside one page leaves the other tables alone. -/
theorem entries_eq_of_sameOutside {mem mem' : Nat → UInt8} {g : Nat}
    (h : SameOutside mem' mem (g * buddyPageSize) buddyPageSize) {f : Nat} (hf : f ≠ g)
    (i : Fin 512) : entries mem' f i = entries mem f i := by
  apply readLE_congr
  apply h.sameAt
  simp only [buddyPageSize]
  omega

/-- A written byte lies in the frame of the written table. -/
theorem frame_of_putEntry_ne {k : Kernel} {frame x value : Nat} {i : Fin 512}
    (h : (k.putEntry frame i value).mem x ≠ k.mem x) : x / buddyPageSize = frame := by
  by_contra hne
  apply h
  apply writeLE_of_notMem
  simp only [buddyPageSize] at *
  omega

/-- A byte that differs after a write into one frame lies in this frame. -/
theorem frame_of_sameOutside_ne {mem mem' : Nat → UInt8} {g x : Nat}
    (h : SameOutside mem' mem (g * buddyPageSize) buddyPageSize) (hx : mem' x ≠ mem x) :
    x / buddyPageSize = g := by
  by_contra hne
  apply hx
  apply h
  simp only [buddyPageSize] at *
  omega

/-! ## Indices -/

theorem and_index (x : Nat) : x &&& 0x1FF = x % 512 := Nat.and_two_pow_sub_one_eq_mod x 9

/-- The index of the first level is the highest digit of the page number. -/
theorem pml4Index_eq (v : Nat) : pml4Index v = (Fin.ofNat 512 ((vpn v : Nat) / 2 ^ 27)).val := by
  rw [pml4Index, and_index, Nat.shiftRight_eq_div_pow]
  show v / 2 ^ 39 % 512 = v / 2 ^ 12 % 2 ^ 36 / 2 ^ 27 % 512
  omega

theorem pdptIndex_eq (v : Nat) : pdptIndex v = (Fin.ofNat 512 ((vpn v : Nat) / 2 ^ 18)).val := by
  rw [pdptIndex, and_index, Nat.shiftRight_eq_div_pow]
  show v / 2 ^ 30 % 512 = v / 2 ^ 12 % 2 ^ 36 / 2 ^ 18 % 512
  omega

theorem pdIndex_eq (v : Nat) : pdIndex v = (Fin.ofNat 512 ((vpn v : Nat) / 2 ^ 9)).val := by
  rw [pdIndex, and_index, Nat.shiftRight_eq_div_pow]
  show v / 2 ^ 21 % 512 = v / 2 ^ 12 % 2 ^ 36 / 2 ^ 9 % 512
  omega

theorem ptIndex_eq (v : Nat) : ptIndex v = (vpn v).index.val := by
  rw [ptIndex, and_index, Nat.shiftRight_eq_div_pow]
  show v / 2 ^ 12 % 512 = v / 2 ^ 12 % 2 ^ 36 % 512
  omega

/-- The path determines the page. -/
theorem Vpn.path_injective {n m : Vpn} (h : n.path = m.path) : n = m := by
  simp only [Vpn.path, Vpn.tablePath, Vpn.index, List.cons_append, List.nil_append,
    List.cons.injEq, and_true, Fin.ext_iff, Fin.ofNat] at h
  have hn := n.isLt
  have hm := m.isLt
  apply Fin.ext
  omega

theorem Vpn.not_prefix_path {n m : Vpn} (h : m ≠ n) : ¬ n.tablePath ++ [n.index] <+: m.path :=
  fun hpre => h (Vpn.path_injective (hpre.eq_of_length rfl)).symm

end Yoix
