import Yoix.Lib.Copy
import Yoix.System.DirectMap

/-!
# Copying bytes (`main.c`)

`memcpy`, `memset` and `memmove`, which the compiler may call at any place, and `memcmp`. They access
memory byte by byte through pointers into the direct map. `bytes` is what a pointer reads. The pointers of
`memcpy` are `restrict`, so C leaves it undefined for ranges that overlap; here it is taken as the loop it
is written as, byte after byte.

* `memmove_moves`: `memmove` copies, however the two ranges overlap, and `memcpy` does the same exactly
  when the destination does not begin inside of the source, or the source repeats itself.
* `memcmp_compares`: `memcmp` compares two ranges as words over the bytes.
-/

namespace Yoix

open Copy Memory

section

variable (hhdm : Option Nat)

/-- The loop of `memcpy` and the first one of `memmove`, from byte `i` on with `n` bytes to go. -/
def copyUpLoop (dest src : Nat) : Nat → Kernel → Nat → Except Fault Kernel
  | 0, k, _ => .ok k
  | n + 1, k, i => do
    let byte ← k.load hhdm (src + i) 1
    let k ← k.store hhdm (dest + i) 1 byte
    copyUpLoop dest src n k (i + 1)

/-- The second loop of `memmove`, with `n` bytes to go. -/
def copyDownLoop (dest src : Nat) : Nat → Kernel → Except Fault Kernel
  | 0, k => .ok k
  | n + 1, k => do
    let byte ← k.load hhdm (src + n) 1
    let k ← k.store hhdm (dest + n) 1 byte
    copyDownLoop dest src n k

def memcpy (k : Kernel) (dest src n : Nat) : Except Fault (Nat × Kernel) := do
  let k ← copyUpLoop hhdm dest src n k 0
  .ok (dest, k)

def memmove (k : Kernel) (dest src n : Nat) : Except Fault (Nat × Kernel) := do
  let k ←
    if dest < src then copyUpLoop hhdm dest src n k 0
    else if src < dest then copyDownLoop hhdm dest src n k
    else .ok k
  .ok (dest, k)

/-- The loop of `memset`, from byte `i` on with `n` bytes to go. -/
def memsetLoop (s c : Nat) : Nat → Kernel → Nat → Except Fault Kernel
  | 0, k, _ => .ok k
  | n + 1, k, i => do
    let k ← k.store hhdm (s + i) 1 c
    memsetLoop s c n k (i + 1)

def memset (k : Kernel) (s c n : Nat) : Except Fault (Nat × Kernel) := do
  let k ← memsetLoop hhdm s c n k 0
  .ok (s, k)

/-- The loop of `memcmp`, from byte `i` on with `n` bytes to go. -/
def memcmpLoop (k : Kernel) (s1 s2 : Nat) : Nat → Nat → Except Fault Int
  | 0, _ => .ok 0
  | n + 1, i => do
    let b1 ← k.load hhdm (s1 + i) 1
    let b2 ← k.load hhdm (s2 + i) 1
    if b1 ≠ b2 then .ok (if b1 < b2 then -1 else 1) else memcmpLoop k s1 s2 n (i + 1)

def memcmp (k : Kernel) (s1 s2 n : Nat) : Except Fault Int := memcmpLoop hhdm k s1 s2 n 0

end

/-! ## What a pointer reads

The bytes that the direct map shows at a pointer. A store changes the byte it names. -/

/-- The byte behind a pointer. -/
def Kernel.bytes (offset : Nat) (k : Kernel) (v : Nat) : UInt8 :=
  k.mem ((v + (2 ^ 64 - offset)) % 2 ^ 64)

section

variable (offset : Nat) (k : Kernel)

theorem load_byte (v : Nat) : k.load (some offset) v 1 = .ok (k.bytes offset v).toNat := rfl

theorem store_byte {v : Nat} (hv : v < 2 ^ 64) (b : Nat) :
    ∃ k', k.store (some offset) v 1 b = .ok k' ∧
      ∀ w < 2 ^ 64, k'.bytes offset w = Function.update (k.bytes offset) v (UInt8.ofNat b) w := by
  refine ⟨_, rfl, fun w hw => ?_⟩
  show writeLE k.mem ((v + (2 ^ 64 - offset)) % 2 ^ 64) 1 b _ = _
  by_cases heq : w = v
  · subst heq
    rw [Function.update_self, writeLE, if_pos (by omega), Nat.sub_self, Nat.pow_zero, Nat.div_one]
  · rw [Function.update_of_ne heq, writeLE_of_notMem (by omega)]
    rfl

end

/-! ## The loops

Each loop of the source is a copy of the library on this view, which ends and keeps what every
single store keeps. -/

/-- Stores to the `n` bytes from `dest` on keep `P`. -/
def KeptBelow (offset dest n : Nat) (P : Kernel → Prop) : Prop :=
  ∀ k k' j b, P k → j < n → k.store (some offset) (dest + j) 1 b = .ok k' → P k'

section

variable {offset dest src : Nat} {P : Kernel → Prop}

/-- The loop from the low end, after `i` bytes: it ends, `P` holds as after each of its stores, and
memory looks like a copy upwards. -/
theorem copyUpLoop_spec {n i : Nat} {k : Kernel} {m : Nat → UInt8} (hk : P k)
    (hkept : KeptBelow offset dest (i + n) P) (hview : ∀ v < 2 ^ 64, k.bytes offset v = m v)
    (hdest : dest + (i + n) ≤ 2 ^ 64) (hsrc : src + (i + n) ≤ 2 ^ 64) :
    ∃ k', copyUpLoop (some offset) dest src n k i = .ok k' ∧ P k' ∧
      ∀ v < 2 ^ 64, k'.bytes offset v = copyUp dest src n m i v := by
  induction n generalizing i k m with
  | zero => exact ⟨k, rfl, hk, hview⟩
  | succ n ih =>
    obtain ⟨k₁, hstore, hbytes⟩ := store_byte offset k (show dest + i < 2 ^ 64 by omega)
      (k.bytes offset (src + i)).toNat
    have hview₁ : ∀ v < 2 ^ 64, k₁.bytes offset v
        = Function.update m (dest + i) (m (src + i)) v := by
      intro v hv
      rw [hbytes v hv, UInt8.ofNat_toNat, hview (src + i) (by omega)]
      simp only [Function.update_apply, hview v hv]
    rw [show i + (n + 1) = i + 1 + n by omega] at hkept hdest hsrc
    obtain ⟨k', hrun, hk', hfinal⟩ :=
      ih (hkept k k₁ i _ hk (by omega) hstore) hkept hview₁ hdest hsrc
    refine ⟨k', ?_, hk', hfinal⟩
    rw [copyUpLoop, load_byte, ok_bind, hstore, ok_bind, hrun]

/-- The loop from the high end gives the pure copy from that end. Induction on the bytes that are
left; `P` is what every store keeps. -/
theorem copyDownLoop_spec {n : Nat} {k : Kernel} {m : Nat → UInt8} (hk : P k)
    (hkept : KeptBelow offset dest n P) (hview : ∀ v < 2 ^ 64, k.bytes offset v = m v)
    (hdest : dest + n ≤ 2 ^ 64) (hsrc : src + n ≤ 2 ^ 64) :
    ∃ k', copyDownLoop (some offset) dest src n k = .ok k' ∧ P k' ∧
      ∀ v < 2 ^ 64, k'.bytes offset v = copyDown dest src n m v := by
  induction n generalizing k m with
  | zero => exact ⟨k, rfl, hk, hview⟩
  | succ n ih =>
    obtain ⟨k₁, hstore, hbytes⟩ := store_byte offset k (show dest + n < 2 ^ 64 by omega)
      (k.bytes offset (src + n)).toNat
    have hview₁ : ∀ v < 2 ^ 64, k₁.bytes offset v
        = Function.update m (dest + n) (m (src + n)) v := by
      intro v hv
      rw [hbytes v hv, UInt8.ofNat_toNat, hview (src + n) (by omega)]
      simp only [Function.update_apply, hview v hv]
    have hkept₁ : KeptBelow offset dest n P := fun k k' j b hp hj =>
      hkept k k' j b hp (Nat.lt_succ_of_lt hj)
    obtain ⟨k', hrun, hk', hfinal⟩ :=
      ih (hkept k k₁ n _ hk (Nat.lt_succ_self n) hstore) hkept₁ hview₁ (by omega) (by omega)
    refine ⟨k', ?_, hk', hfinal⟩
    rw [copyDownLoop, load_byte, ok_bind, hstore, ok_bind, hrun]

theorem copyUpLoop_zero {n : Nat} {k : Kernel} (hk : P k) (hkept : KeptBelow offset dest n P)
    (hdest : dest + n ≤ 2 ^ 64) (hsrc : src + n ≤ 2 ^ 64) :
    ∃ k', copyUpLoop (some offset) dest src n k 0 = .ok k' ∧ P k' ∧
      ∀ v < 2 ^ 64, k'.bytes offset v = copyUp dest src n (k.bytes offset) 0 v := by
  rw [← Nat.zero_add n] at hkept hdest hsrc
  exact copyUpLoop_spec hk hkept (fun _ _ => rfl) hdest hsrc

/-- `memmove` copies from the end at which nothing is overwritten before it is read. -/
theorem memmove_spec {n : Nat} {k : Kernel} (hk : P k) (hkept : KeptBelow offset dest n P)
    (hdest : dest + n ≤ 2 ^ 64) (hsrc : src + n ≤ 2 ^ 64) :
    ∃ k', memmove (some offset) k dest src n = .ok (dest, k') ∧ P k' ∧
      ∀ v < 2 ^ 64, k'.bytes offset v = moved dest src n (k.bytes offset) v := by
  unfold memmove
  by_cases hup : dest < src
  · rw [if_pos hup]
    obtain ⟨k', hrun, hk', hbytes⟩ := copyUpLoop_zero hk hkept hdest hsrc
    refine ⟨k', by rw [hrun, ok_bind], hk', fun v hv => ?_⟩
    rw [hbytes v hv, copyUp_of_apart (Or.inl hup.le)]
  · rw [if_neg hup]
    by_cases hdown : src < dest
    · rw [if_pos hdown]
      obtain ⟨k', hrun, hk', hbytes⟩ := copyDownLoop_spec hk hkept (fun _ _ => rfl) hdest hsrc
      refine ⟨k', by rw [hrun, ok_bind], hk', fun v hv => ?_⟩
      rw [hbytes v hv, copyDown_of_apart (Or.inl hdown.le)]
    · -- the two ranges are the same
      rw [if_neg hdown]
      obtain rfl : dest = src := by omega
      refine ⟨k, rfl, hk, fun v _ => ?_⟩
      rw [moved]
      split
      · rw [Nat.add_sub_cancel' (by omega)]
      · rfl

theorem memcpy_spec {n : Nat} {k : Kernel} (hk : P k) (hkept : KeptBelow offset dest n P)
    (hdest : dest + n ≤ 2 ^ 64) (hsrc : src + n ≤ 2 ^ 64) :
    ∃ k', memcpy (some offset) k dest src n = .ok (dest, k') ∧ P k' ∧
      ∀ v < 2 ^ 64, k'.bytes offset v = copyUp dest src n (k.bytes offset) 0 v := by
  obtain ⟨k', hrun, hk', hbytes⟩ := copyUpLoop_zero hk hkept hdest hsrc
  exact ⟨k', by rw [memcpy, hrun, ok_bind], hk', hbytes⟩

end

/-! ## Copies -/

/-- The bytes from `dest` on may be stored to by a client. -/
def Owners.MayStore (offset : Nat) (g : Owners) (dest n : Nat) : Prop :=
  ∀ j < n, ∀ b, SystemCall.Allowed offset g (.store (dest + j) 1 b)

/-- Each store of the copy is one that the caller may make, so the run goes on. -/
theorem Owners.MayStore.kept {offset cr3 dest n : Nat} {k₀ : Kernel} {g : Owners}
    (h : g.MayStore offset dest n) :
    KeptBelow offset dest n fun k => SystemRun offset cr3 k₀ k g := by
  intro k k' j b run hj hstore
  refine SystemRun.call (r := 0) (.store (dest + j) 1 b) run (h j hj b) ?_
  rw [SystemCall.exec, hstore, ok_bind]

/-- **`memmove` copies, whatever the overlap.** In every state of a run, to bytes that the caller may
store to: each byte of the destination is what the byte of the source was, every other byte is as it was,
and the run goes on with nothing changed hands. `memcpy` gives the same bytes exactly when the destination
does not lie above the source, or the source repeats its first `dest - src` bytes. -/
theorem memmove_moves {offset cr3 dest src n : Nat} {k₀ k : Kernel} {g : Owners}
    (run : SystemRun offset cr3 k₀ k g) (howned : g.MayStore offset dest n)
    (hdest : dest + n ≤ 2 ^ 64) (hsrc : src + n ≤ 2 ^ 64) :
    ∃ k₁ k₂, memmove (some offset) k dest src n = .ok (dest, k₁) ∧
      memcpy (some offset) k dest src n = .ok (dest, k₂) ∧
      SystemRun offset cr3 k₀ k₁ g ∧ SystemRun offset cr3 k₀ k₂ g ∧
      (∀ v < 2 ^ 64, k₁.bytes offset v
        = if dest ≤ v ∧ v < dest + n then k.bytes offset (src + (v - dest)) else k.bytes offset v) ∧
      ((∀ v < 2 ^ 64, k₂.bytes offset v = k₁.bytes offset v) ↔
        (src < dest → ∀ j < n, k.bytes offset (src + j) = k.bytes offset (src + j % (dest - src)))) := by
  obtain ⟨k₁, hmove, run₁, hmoved⟩ := memmove_spec run howned.kept hdest hsrc
  obtain ⟨k₂, hcopy, run₂, hcopied⟩ := memcpy_spec run howned.kept hdest hsrc
  refine ⟨k₁, k₂, hmove, hcopy, run₁, run₂, hmoved, ?_⟩
  have hsame : (∀ v < 2 ^ 64, k₂.bytes offset v = k₁.bytes offset v) ↔
      ∀ v < 2 ^ 64, copyUp dest src n (k.bytes offset) 0 v = moved dest src n (k.bytes offset) v := by
    refine forall₂_congr fun v hv => ?_
    rw [hmoved v hv, hcopied v hv]
  rw [hsame]
  by_cases hlt : src < dest
  · rw [← copyUp_eq_moved_iff hlt]
    constructor
    · intro h _ a _ hhi
      exact h a (by omega)
    · intro h v hv
      by_cases hin : dest ≤ v ∧ v < dest + n
      · exact h hlt v hin.1 hin.2
      · rw [copyUp_of_lt hlt, moved, if_neg hin, if_neg hin]
  · rw [copyUp_of_apart (Or.inl (by omega))]
    exact ⟨fun _ h => absurd h hlt, fun _ _ _ => rfl⟩

/-- The client moves 16 bytes of its page up by 8. -/
theorem memmove_moves_sampleSystem :
    ∃ (k₀ k k₁ : Kernel) (g : Owners), SystemRun sampleDirectMap sampleCr3 k₀ k g ∧
      memmove (some sampleDirectMap) k 0xFFFF800000001008 0xFFFF800000001000 16
        = .ok (0xFFFF800000001008, k₁) ∧
      SystemRun sampleDirectMap sampleCr3 k₀ k₁ g ∧
      k₁.bytes sampleDirectMap 0xFFFF800000001010 = k.bytes sampleDirectMap 0xFFFF800000001008 := by
  obtain ⟨s₀, s, -, -, run, -⟩ := sampleSystem
  have howned : Owners.MayStore sampleDirectMap ⟨[], (sampleClient s₀).alloc 0x1000, ∅⟩
      0xFFFF800000001008 16 := by
    intro j hj b
    have hptr : phyToVirt (some sampleDirectMap) (1 * buddyPageSize) = 0xFFFF800000001000 := by decide
    refine Or.inr ⟨1, ⟨Or.inl rfl, Set.notMem_empty 1⟩, 8 + j, ?_, ?_⟩
    · rw [hptr, ← Nat.add_assoc]
    · simp only [buddyPageSize]
      omega
  obtain ⟨k₁, k₂, hmove, -, run₁, -, hbytes, -⟩ := memmove_moves run howned
    (show 0xFFFF800000001008 + 16 ≤ 2 ^ 64 by decide)
    (show 0xFFFF800000001000 + 16 ≤ 2 ^ 64 by decide)
  refine ⟨_, _, k₁, _, run, hmove, run₁, ?_⟩
  rw [hbytes 0xFFFF800000001010 (by decide), if_pos (by decide)]

/-! ## Filling and comparing

`memset` writes one byte all over. `memcmp` orders as the numbers do whose digits are the bytes, the
first one being the highest. -/

/-- The loop of `memset`, after `i` bytes. Induction on the bytes that are left; `P` is what every
store keeps. -/
theorem memsetLoop_spec {offset s c n i : Nat} {k : Kernel} {P : Kernel → Prop} (hk : P k)
    (hkept : KeptBelow offset s (i + n) P) (hs : s + (i + n) ≤ 2 ^ 64) :
    ∃ k', memsetLoop (some offset) s c n k i = .ok k' ∧ P k' ∧ ∀ v < 2 ^ 64, k'.bytes offset v
      = if s + i ≤ v ∧ v < s + (i + n) then UInt8.ofNat c else k.bytes offset v := by
  induction n generalizing i k with
  | zero =>
    refine ⟨k, rfl, hk, fun v _ => ?_⟩
    rw [if_neg (by omega)]
  | succ n ih =>
    obtain ⟨k₁, hstore, hbytes⟩ := store_byte offset k (show s + i < 2 ^ 64 by omega) c
    rw [show i + (n + 1) = i + 1 + n by omega] at hkept hs
    obtain ⟨k', hrun, hk', hfinal⟩ := ih (hkept k k₁ i c hk (by omega) hstore) hkept hs
    refine ⟨k', ?_, hk', fun v hv => ?_⟩
    · rw [memsetLoop, hstore, ok_bind, hrun]
    · rw [hfinal v hv, hbytes v hv]
      by_cases hnow : v = s + i
      · rw [if_neg (by omega), if_pos (by omega), hnow, Function.update_self]
      · rw [Function.update_of_ne hnow]
        by_cases hlater : s + (i + 1) ≤ v ∧ v < s + (i + 1 + n)
        · rw [if_pos hlater, if_pos (by omega)]
        · rw [if_neg hlater, if_neg (by omega)]

/-- `memset` in a run: the bytes are all `c`, and all others stay. -/
theorem memset_fills {offset cr3 s n : Nat} {k₀ k : Kernel} {g : Owners}
    (run : SystemRun offset cr3 k₀ k g) (howned : g.MayStore offset s n) (c : Nat)
    (hs : s + n ≤ 2 ^ 64) :
    ∃ k', memset (some offset) k s c n = .ok (s, k') ∧ SystemRun offset cr3 k₀ k' g ∧
      ∀ v < 2 ^ 64, k'.bytes offset v
        = if s ≤ v ∧ v < s + n then UInt8.ofNat c else k.bytes offset v := by
  have hkept : KeptBelow offset s (0 + n) fun k => SystemRun offset cr3 k₀ k g := by
    rw [Nat.zero_add]
    exact howned.kept
  obtain ⟨k', hrun, run', hbytes⟩ := memsetLoop_spec (c := c) run hkept (by omega)
  refine ⟨k', by rw [memset, hrun, ok_bind], run', fun v hv => ?_⟩
  rw [hbytes v hv, Nat.add_zero, Nat.zero_add]

/-- The `n` bytes that a pointer reads from its `i`-th byte on. -/
def Kernel.byteWord (offset : Nat) (k : Kernel) (s n i : Nat) : List UInt8 :=
  (List.range' i n).map fun j => k.bytes offset (s + j)

theorem Kernel.byteWord_succ (offset : Nat) (k : Kernel) (s n i : Nat) :
    k.byteWord offset s (n + 1) i = k.bytes offset (s + i) :: k.byteWord offset s n (i + 1) := by
  rw [Kernel.byteWord, List.range'_succ, List.map_cons]
  rfl

/-- The first byte that differs decides, as it does for the numbers. -/
theorem memcmpLoop_eq (offset : Nat) (k : Kernel) (s1 s2 n i : Nat) :
    memcmpLoop (some offset) k s1 s2 n i
      = .ok (if k.byteWord offset s1 n i = k.byteWord offset s2 n i then 0
        else if k.byteWord offset s1 n i < k.byteWord offset s2 n i then -1 else 1) := by
  induction n generalizing i with
  | zero => rfl
  | succ n ih =>
    rw [memcmpLoop, load_byte, ok_bind, load_byte, ok_bind, Kernel.byteWord_succ, Kernel.byteWord_succ]
    simp only [List.cons_lt_cons_iff, List.cons.injEq]
    by_cases heq : k.bytes offset (s1 + i) = k.bytes offset (s2 + i)
    · rw [if_neg (by rw [heq]; exact not_not_intro rfl), ih (i + 1), heq]
      simp only [true_and, UInt8.lt_irrefl, false_or]
    · have hne : (k.bytes offset (s1 + i)).toNat ≠ (k.bytes offset (s2 + i)).toNat := fun h =>
        heq (UInt8.toNat_inj.mp h)
      rw [if_pos hne]
      simp only [heq, false_and, or_false, if_false, UInt8.lt_iff_toNat_lt]

/-- `memcmp` compares the two ranges as words, the first byte counting most. -/
theorem memcmp_compares (offset : Nat) (k : Kernel) (s1 s2 n : Nat) :
    memcmp (some offset) k s1 s2 n
      = .ok (if k.byteWord offset s1 n 0 = k.byteWord offset s2 n 0 then 0
        else if k.byteWord offset s1 n 0 < k.byteWord offset s2 n 0 then -1 else 1) :=
  memcmpLoop_eq offset k s1 s2 n 0

end Yoix
