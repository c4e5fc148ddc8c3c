import Yoix.Vmm.Run

/-!
# The translation cache

`vmm_map` and `vmm_unmap` one step at a time, beside the processor's cache of translations. The
processor may fill the cache from the tables or drop entries between any two steps; `invlpg` drops
the entry of one page. Only the last level is cached here: the code never changes a present entry of
the upper levels, and absent entries are not cached. The accessed and dirty bits that the processor
sets are left out.

The walk of `vmm.c` takes bits 12 to 47 of an address and ignores the bits above. `invlpg` does not:
for an address that is not canonical it does nothing. A call with such an address would change the
entry of a page and leave its cached translation, so the calls of a run are for canonical addresses.

`VmmPc.run_callMap` and `VmmPc.run_callUnmap` say that the steps are those of `vmmMap` and
`vmmUnmap`. `TlbInv` is the invariant of all runs: a cached translation is the one the tables hold,
unless the `invlpg` of its page is still to come, and by then its frame has not been freed.
-/

namespace Yoix

open Dyadic Memory

/-! ## Steps

The two functions, cut where the processor may use the tables in between: after each store and
around `invlpg`. -/

/-- For each cached page its frame and flags. -/
abbrev Tlb : Type := Vpn → Option (Nat × Nat)

/-- `invlpg_tlb`. The instruction does nothing for an address that is not canonical. -/
def invlpgTlb (tlb : Tlb) (addr : Nat) : Tlb :=
  if IsCanonical addr then Function.update tlb (vpn addr) none else tlb

theorem invlpgTlb_self {tlb : Tlb} {addr : Nat} (h : IsCanonical addr) :
    invlpgTlb tlb addr (vpn addr) = none := by
  rw [invlpgTlb, if_pos h, Function.update_self]

/-- The other pages stay cached, whatever the address is. -/
theorem invlpgTlb_of_ne (tlb : Tlb) {addr : Nat} {n : Vpn} (h : n ≠ vpn addr) :
    invlpgTlb tlb addr n = tlb n := by
  rw [invlpgTlb]
  split
  · exact Function.update_of_ne h _ _
  · rfl

/-- The index into the table at depth `d`. -/
def levelIndex (d addr : Nat) : Nat :=
  match d with
  | 0 => pml4Index addr
  | 1 => pdptIndex addr
  | 2 => pdIndex addr
  | _ => ptIndex addr

/-- Where the code is in `vmm_map` or `vmm_unmap`. -/
inductive VmmPc where
  /-- Outside of both, after a call that returned `ok`. -/
  | returned (ok : Bool)
  /-- At the table of depth `d` on the way down. -/
  | mapLevel (d table virtAddr physAddr flags : Nat)
  /-- Before the `invlpg` of `vmm_map`. -/
  | mapInvlpg (virtAddr : Nat)
  | unmapLevel (d table virtAddr : Nat)
  /-- Before the `invlpg` of `vmm_unmap`. -/
  | unmapInvlpg (virtAddr oldEntry : Nat)
  /-- Before its `buddy_free_page`. -/
  | unmapFree (oldEntry : Nat)
  deriving DecidableEq, Repr

namespace VmmPc

section

variable (hhdm : Option Nat)

def callMap (cr3 virtAddr physAddr flags : Nat) : VmmPc :=
  let pml4 := phyToVirt hhdm (cr3 &&& pageAddrMask)
  if pml4 = 0 then .returned false else .mapLevel 0 pml4 virtAddr physAddr flags

def callUnmap (cr3 virtAddr : Nat) : VmmPc :=
  let pml4 := phyToVirt hhdm (cr3 &&& pageAddrMask)
  if pml4 = 0 then .returned false else .unmapLevel 0 pml4 virtAddr

/-- One call of a helper, one store, one `invlpg`. -/
def step (k : Kernel) (tlb : Tlb) : VmmPc → Except Fault (Kernel × Tlb × VmmPc)
  | returned ok => .ok (k, tlb, .returned ok)
  | mapLevel d table virtAddr physAddr flags =>
    if d < 3 then do
      let (next, k) ← vmmGetNextLevel hhdm k table (levelIndex d virtAddr)
      if next = 0 then .ok (k, tlb, .returned false)
      else .ok (k, tlb, .mapLevel (d + 1) next virtAddr physAddr flags)
    else do
      let k ← k.setEntry hhdm table (ptIndex virtAddr) (physAddr &&& pageAddrMask ||| flags)
      .ok (k, tlb, .mapInvlpg virtAddr)
  | mapInvlpg virtAddr => .ok (k, invlpgTlb tlb virtAddr, .returned true)
  | unmapLevel d table virtAddr =>
    if d < 3 then do
      let next ← vmmGetExistingLevel hhdm k table (levelIndex d virtAddr)
      if next = 0 then .ok (k, tlb, .returned false)
      else .ok (k, tlb, .unmapLevel (d + 1) next virtAddr)
    else do
      let oldEntry ← k.getEntry hhdm table (ptIndex virtAddr)
      if oldEntry &&& pagePresent = 0 then .ok (k, tlb, .returned false)
      else do
        let k ← k.setEntry hhdm table (ptIndex virtAddr) 0
        .ok (k, tlb, .unmapInvlpg virtAddr oldEntry)
  | unmapInvlpg virtAddr oldEntry => .ok (k, invlpgTlb tlb virtAddr, .unmapFree oldEntry)
  | unmapFree oldEntry => do
    let buddy ← buddyFreePage k.buddy (oldEntry &&& pageAddrMask)
    .ok ({ k with buddy }, tlb, .returned true)

/-- `n` steps. -/
def run : Nat → Kernel → Tlb → VmmPc → Except Fault (Kernel × Tlb × VmmPc)
  | 0, k, tlb, pc => .ok (k, tlb, pc)
  | n + 1, k, tlb, pc => do
    let (k, tlb, pc) ← step hhdm k tlb pc
    run n k tlb pc

end

/-! ## The steps of a call

Run to its end, a call in steps does what the function does as a whole. The lemmas below follow the
four levels down. -/

section

variable {hhdm : Option Nat}

theorem run_returned (n : Nat) (k : Kernel) (tlb : Tlb) (ok : Bool) :
    run hhdm n k tlb (.returned ok) = .ok (k, tlb, .returned ok) := by
  induction n with
  | zero => rfl
  | succ n ih => exact ih

/-- A call of `vmm_get_next_level`, with `n` more steps after it. -/
theorem run_mapLevel {d : Nat} (hd : d < 3) (n : Nat) (k : Kernel) (tlb : Tlb)
    (table v p flags : Nat) :
    run hhdm (n + 1) k tlb (.mapLevel d table v p flags) = (do
      let r ← vmmGetNextLevel hhdm k table (levelIndex d v)
      if r.1 = 0 then .ok (r.2, tlb, .returned false)
      else run hhdm n r.2 tlb (.mapLevel (d + 1) r.1 v p flags)) := by
  rw [run, step, if_pos hd]
  cases vmmGetNextLevel hhdm k table (levelIndex d v) with
  | error e => rfl
  | ok r =>
    rw [ok_bind, ok_bind]
    dsimp only
    split
    · rw [ok_bind]
      exact run_returned n _ tlb false
    · rfl

/-- One level of an unmap, down to the next table. -/
theorem run_unmapLevel {d : Nat} (hd : d < 3) (n : Nat) (k : Kernel) (tlb : Tlb)
    (table v : Nat) :
    run hhdm (n + 1) k tlb (.unmapLevel d table v) = (do
      let next ← vmmGetExistingLevel hhdm k table (levelIndex d v)
      if next = 0 then .ok (k, tlb, .returned false)
      else run hhdm n k tlb (.unmapLevel (d + 1) next v)) := by
  rw [run, step, if_pos hd]
  cases vmmGetExistingLevel hhdm k table (levelIndex d v) with
  | error e => rfl
  | ok next =>
    rw [ok_bind, ok_bind]
    dsimp only
    split
    · rw [ok_bind]
      exact run_returned n _ tlb false
    · rfl

/-- What a call leaves: its `invlpg` has run if it succeeded. -/
def result (tlb : Tlb) (v : Nat) (r : Bool × Kernel) : Kernel × Tlb × VmmPc :=
  (r.2, if r.1 then invlpgTlb tlb v else tlb, .returned r.1)

/-- A level of `vmm_map`, seen through the value it returns. -/
theorem nextLevel_map {α : Type} (x : Except Fault (Nat × Kernel)) (F : Bool × Kernel → α)
    {rest : Nat × Kernel → Except Fault α} {rest' : Nat × Kernel → Except Fault (Bool × Kernel)}
    (h : ∀ r, rest r = (rest' r).map F) :
    (do
      let r ← x
      if r.1 = 0 then .ok (F (false, r.2)) else rest r)
      = Except.map F (do
        let r ← x
        if r.1 = 0 then .ok (false, r.2) else rest' r) := by
  cases x with
  | error e => rfl
  | ok r =>
    rw [ok_bind, ok_bind]
    split
    · rfl
    · exact h r

/-- Moving a map of the result past the check for an absent entry. -/
theorem existingLevel_map {α : Type} (x : Except Fault Nat) (k : Kernel) (F : Bool × Kernel → α)
    {rest : Nat → Except Fault α} {rest' : Nat → Except Fault (Bool × Kernel)}
    (h : ∀ t, rest t = (rest' t).map F) :
    (do
      let t ← x
      if t = 0 then .ok (F (false, k)) else rest t)
      = Except.map F (do
        let t ← x
        if t = 0 then .ok (false, k) else rest' t) := by
  cases x with
  | error e => rfl
  | ok t =>
    rw [ok_bind, ok_bind]
    split
    · rfl
    · exact h t

/-- **The steps of `vmm_map`.** Run to the end they are the function of the model: four levels and
the `invlpg`. -/
theorem run_callMap (cr3 : Nat) (k : Kernel) (tlb : Tlb) (v p flags : Nat) :
    run hhdm 5 k tlb (callMap hhdm cr3 v p flags)
      = (vmmMap hhdm cr3 k v p flags).map (result tlb v) := by
  rw [callMap, vmmMap]
  dsimp only
  split
  · exact run_returned 5 k tlb false
  · rw [run_mapLevel (by decide)]
    refine nextLevel_map _ (result tlb v) fun r => ?_
    rw [run_mapLevel (by decide)]
    refine nextLevel_map _ (result tlb v) fun r => ?_
    rw [run_mapLevel (by decide)]
    refine nextLevel_map _ (result tlb v) fun r => ?_
    rw [run, step, if_neg (by decide)]
    cases r.2.setEntry hhdm r.1 (ptIndex v) (p &&& pageAddrMask ||| flags) with
    | error e => rfl
    | ok k => rfl

/-- **The steps of `vmm_unmap`.** Run to the end they are the function of the model: four levels,
the `invlpg` and the free. -/
theorem run_callUnmap (cr3 : Nat) (k : Kernel) (tlb : Tlb) (v : Nat) :
    run hhdm 6 k tlb (callUnmap hhdm cr3 v)
      = (vmmUnmap hhdm cr3 k v).map (result tlb v) := by
  rw [callUnmap, vmmUnmap]
  split
  · exact run_returned 6 k tlb false
  · rw [run_unmapLevel (by decide)]
    refine existingLevel_map _ k (result tlb v) fun pdpt => ?_
    rw [run_unmapLevel (by decide)]
    refine existingLevel_map _ k (result tlb v) fun pd => ?_
    rw [run_unmapLevel (by decide)]
    refine existingLevel_map _ k (result tlb v) fun pt => ?_
    rw [run, step, if_neg (by decide)]
    cases k.getEntry hhdm pt (ptIndex v) with
    | error e => rfl
    | ok oldEntry =>
      rw [ok_bind, ok_bind]
      split
      · rfl
      · cases k.setEntry hhdm pt (ptIndex v) 0 with
        | error e => rfl
        | ok k =>
          rw [ok_bind, ok_bind, ok_bind]
          show (buddyFreePage k.buddy (oldEntry &&& pageAddrMask) >>= _) >>= _ = _
          cases buddyFreePage k.buddy (oldEntry &&& pageAddrMask) with
          | error e => rfl
          | ok s => rfl

end

/-- The page whose entry is written but whose `invlpg` is still to come. -/
def pending : VmmPc → Option Vpn
  | mapInvlpg virtAddr => some (vpn virtAddr)
  | unmapInvlpg virtAddr _ => some (vpn virtAddr)
  | _ => none

/-- What the client knows after a step from one place to the other. -/
def after (c : Client) : VmmPc → VmmPc → Client
  | mapLevel _ _ virtAddr physAddr flags, mapInvlpg _ => c.mapped virtAddr physAddr flags
  | unmapLevel _ _ virtAddr, unmapInvlpg _ _ =>
    { c with
      written := c.written \ {vpn virtAddr}
      map := Function.update c.map (vpn virtAddr) none }
  | unmapFree oldEntry, returned _ => { c with held := c.held \ {frameOf oldEntry} }
  | _, _ => c

end VmmPc

/-- The runs of a client and of the processor beside it, from `k₀` on. -/
inductive TlbRun (offset cr3 : Nat) (k₀ : Kernel) : Kernel → Tlb → VmmPc → Client → Prop where
  | start {c : Client} {tlb : Tlb} {ok : Bool} (h : c.Starts cr3 k₀)
      (htlb : ∀ n r, tlb n = some r → k₀.pageMap cr3 n = some r) :
      TlbRun offset cr3 k₀ k₀ tlb (.returned ok) c
  /-- The processor caches a translation of the tables. -/
  | fill {k : Kernel} {tlb : Tlb} {pc : VmmPc} {c : Client} {n : Vpn} {r : Nat × Nat}
      (run : TlbRun offset cr3 k₀ k tlb pc c) (h : k.pageMap cr3 n = some r) :
      TlbRun offset cr3 k₀ k (Function.update tlb n (some r)) pc c
  /-- The processor drops one. -/
  | evict {k : Kernel} {tlb : Tlb} {pc : VmmPc} {c : Client} (n : Vpn)
      (run : TlbRun offset cr3 k₀ k tlb pc c) :
      TlbRun offset cr3 k₀ k (Function.update tlb n none) pc c
  | alloc {k : Kernel} {tlb : Tlb} {ok : Bool} {c : Client} {a : Nat} {s : Buddy}
      (run : TlbRun offset cr3 k₀ k tlb (.returned ok) c)
      (h : buddyAllocPage k.buddy = .ok (a, s)) (ha : a ≠ buddyInvalidAddress) :
      TlbRun offset cr3 k₀ { k with buddy := s } tlb (.returned ok) (c.alloc a)
  | allocFail {k : Kernel} {tlb : Tlb} {ok : Bool} {c : Client} {s : Buddy}
      (run : TlbRun offset cr3 k₀ k tlb (.returned ok) c)
      (h : buddyAllocPage k.buddy = .ok (buddyInvalidAddress, s)) :
      TlbRun offset cr3 k₀ { k with buddy := s } tlb (.returned ok) c
  | callMap {k : Kernel} {tlb : Tlb} {ok : Bool} {c : Client} {v p flags : Nat}
      (run : TlbRun offset cr3 k₀ k tlb (.returned ok) c) (hcanon : IsCanonical v)
      (hmay : MayMap c p flags) :
      TlbRun offset cr3 k₀ k tlb (VmmPc.callMap (some offset) cr3 v p flags) c
  | callUnmap {k : Kernel} {tlb : Tlb} {ok : Bool} {c : Client} {v : Nat}
      (run : TlbRun offset cr3 k₀ k tlb (.returned ok) c) (hcanon : IsCanonical v)
      (hmay : notShared.mayUnmap c v) :
      TlbRun offset cr3 k₀ k tlb (VmmPc.callUnmap (some offset) cr3 v) c
  | step {k k' : Kernel} {tlb tlb' : Tlb} {pc pc' : VmmPc} {c : Client}
      (run : TlbRun offset cr3 k₀ k tlb pc c)
      (h : pc.step (some offset) k tlb = .ok (k', tlb', pc')) :
      TlbRun offset cr3 k₀ k' tlb' pc' (pc.after c pc')

/-! ## The invariant

Beside the invariant of the page-table code: what is cached is what the tables hold, for all pages
but the one whose `invlpg` is due. -/

/-- The table of depth `d` on the way to a page. -/
def AtLevel (offset cr3 : Nat) (k : Kernel) (d table v : Nat) : Prop :=
  d ≤ 3 ∧ ∃ f, table = tablePtr offset f ∧ k.table cr3 ((vpn v).path.take d) = some f

/-- The frame of an entry that has been cleared is the client's or device memory, and no page of the
client is mapped to it any more. -/
def Released (c : Client) (oldEntry : Nat) : Prop :=
  c.Mappable (frameOf oldEntry) ∧
    (frameOf oldEntry ∈ c.held → ∀ n, ¬ c.Maps n (frameOf oldEntry))

/-- What holds in the middle of a call. -/
def PcOk (offset cr3 : Nat) (k : Kernel) (tlb : Tlb) (c : Client) : VmmPc → Prop
  | .returned _ => True
  | .mapLevel d table v p flags =>
      IsCanonical v ∧ AtLevel offset cr3 k d table v ∧ MayMap c p flags
  | .mapInvlpg v => IsCanonical v
  | .unmapLevel d table v =>
      IsCanonical v ∧ AtLevel offset cr3 k d table v ∧ notShared.mayUnmap c v
  | .unmapInvlpg v oldEntry => IsCanonical v ∧ Released c oldEntry ∧ c.map (vpn v) = none ∧
      ∀ r, tlb (vpn v) = some r → r.1 = frameOf oldEntry
  | .unmapFree oldEntry => Released c oldEntry

structure TlbInv (offset cr3 : Nat) (U : Set Nat) (k : Kernel) (tlb : Tlb) (pc : VmmPc)
    (c : Client) : Prop where
  vmm : VmmInv offset cr3 U k c
  place : PcOk offset cr3 k tlb c pc
  coherent : ∀ n r, tlb n = some r → pc.pending ≠ some n → c.map n = some r

/-! ### Steps of the code

One lemma for each place in a call. The stores above the last level add tables, which changes no
translation; the store on the last level makes one page stale, and the next step drops it. -/

section

variable {offset cr3 : Nat} {U : Set Nat} {k : Kernel} {c : Client}

theorem levelIndex_eq {d : Nat} (hd : d < 3) (v : Nat) :
    ∃ i : Fin 512, levelIndex d v = i ∧ (vpn v).path.take d ++ [i] = (vpn v).path.take (d + 1) := by
  match d, hd with
  | 0, _ => exact ⟨_, pml4Index_eq v, rfl⟩
  | 1, _ => exact ⟨_, pdptIndex_eq v, rfl⟩
  | 2, _ => exact ⟨_, pdIndex_eq v, rfl⟩

/-- A store into the page table of a page gives the page what its entry says. -/
theorem ClientSpace.putLeaf (h : ClientSpace offset cr3 U k c) {v f value : Nat}
    (hwalk : k.table cr3 (vpn v).tablePath = some f) (hvalue : value < 2 ^ 64)
    (written : Set Vpn) :
    ClientSpace offset cr3 U (k.putEntry f (vpn v).index value)
      { c with
        written
        map := Function.update c.map (vpn v)
          ((pageLeaf 3 value).map fun (_, e) => (frameOf e, flagsOf e)) } := by
  obtain ⟨A, fl, hspace⟩ := h.space
  obtain ⟨hspace', -, hleaf⟩ := hspace.putLeaf hwalk hvalue
  refine ⟨⟨A, fl, hspace'⟩, fun n d e he => ?_, ?_⟩
  · rw [hleaf] at he
    split at he
    · exact (Prod.mk.inj (pageLeaf_eq_some he).2).1
    · exact h.notHuge n d e he
  · funext m
    show (Kernel.leaf cr3 _ m).map _ = Function.update c.map (vpn v) _ m
    rw [hleaf m, Function.update_apply, ← h.map_eq]
    split
    · rfl
    · rfl

/-- A call of `vmm_get_next_level` on the way to a page. -/
theorem VmmInv.nextLevel (h : VmmInv offset cr3 U k c) {d table v : Nat}
    (hat : AtLevel offset cr3 k d table v) (hd : d < 3) :
    ∃ r k', vmmGetNextLevel (some offset) k table (levelIndex d v) = .ok (r, k') ∧
      VmmInv offset cr3 U k' c ∧ (r ≠ 0 → AtLevel offset cr3 k' (d + 1) r v) := by
  obtain ⟨-, f, rfl, hwalk⟩ := hat
  obtain ⟨i, hi, hnext⟩ := levelIndex_eq hd v
  obtain ⟨A, fl, hspace⟩ := h.space
  have hlen : ((vpn v).path.take d).length ≤ 2 := by
    rw [List.length_take]
    omega
  have hpre : (vpn v).path.take d ++ [i] <+: (vpn v).path := hnext ▸ List.take_prefix _ _
  obtain ⟨r, k', A', fl', hrun, hspace', hgrows, -, -, hr⟩ :=
    hspace.getNextLevel (h.notHuge (vpn v)) hwalk hlen hpre
  refine ⟨r, k', hi ▸ hrun, ⟨⟨A', fl', hspace'⟩, fun n => hgrows.notHuge (h.notHuge n), ?_, h.backed⟩,
    fun hne => ?_⟩
  · rw [← h.map_eq]
    funext n
    rw [Kernel.pageMap, hgrows.leaf_eq]
    rfl
  · rcases hr with hnull | ⟨f', rfl, hwalk'⟩
    · exact absurd hnull.1 hne
    · exact ⟨by omega, f', rfl, hnext ▸ hwalk'⟩

/-- A call of `vmm_get_existing_level` on the way to a page, and what follows it. -/
theorem VmmInv.existingLevel (h : VmmInv offset cr3 U k c) {d table v : Nat}
    (hat : AtLevel offset cr3 k d table v) (hd : d < 3) :
    ∃ r, vmmGetExistingLevel (some offset) k table (levelIndex d v) = .ok r ∧
      (r ≠ 0 → AtLevel offset cr3 k (d + 1) r v) := by
  obtain ⟨-, f, rfl, hwalk⟩ := hat
  obtain ⟨i, hi, hnext⟩ := levelIndex_eq hd v
  obtain ⟨A, fl, hspace⟩ := h.space
  have hflt := (AddressSpace.isTable_of_table hwalk).lt
  have hoff := hspace.direct.offset_lt
  have hlen : ((vpn v).path.take d).length ≤ 2 := by
    rw [List.length_take]
    omega
  rw [hi]
  by_cases habsent : entries k.mem f i &&& pagePresent = 0
  · exact ⟨0, vmmGetExistingLevel_of_absent hoff hflt habsent, fun hne => absurd rfl hne⟩
  · refine ⟨tablePtr offset (frameOf (entries k.mem f i)), ?_, fun _ => ⟨by omega, _, rfl, ?_⟩⟩
    · rw [vmmGetExistingLevel, k.getEntry_tablePtr hoff hflt, ok_bind, if_neg habsent,
        phyToVirt_and_mask]
    · rw [← hnext]
      exact (Radix.walk_concat hwalk i).trans
        ((h.notHuge (vpn v)).child (hnext ▸ List.take_prefix _ _) hlen hwalk habsent)

end

namespace TlbInv

variable {offset cr3 : Nat} {U : Set Nat} {k : Kernel} {tlb : Tlb} {c : Client}

/-- What every step does: it ends and keeps the invariant. -/
def Steps (offset cr3 : Nat) (U : Set Nat) (k : Kernel) (tlb : Tlb) (pc : VmmPc) (c : Client) :
    Prop :=
  ∃ k' tlb' pc', pc.step (some offset) k tlb = .ok (k', tlb', pc') ∧
    TlbInv offset cr3 U k' tlb' pc' (pc.after c pc')

/-- A level of `vmm_map`. On the first three the tree may grow; on the last one the page gets its
new entry, and its `invlpg` is due. -/
theorem mapLevel {d table v p flags : Nat}
    (h : TlbInv offset cr3 U k tlb (.mapLevel d table v p flags) c) :
    Steps offset cr3 U k tlb (.mapLevel d table v p flags) c := by
  obtain ⟨hcanon, hat, hmay⟩ := h.place
  by_cases hd : d < 3
  · obtain ⟨r, k', hrun, hinv, hnext⟩ := h.vmm.nextLevel hat hd
    by_cases hr : r = 0
    · refine ⟨k', tlb, .returned false, ?_, hinv, trivial, fun n q hq _ => ?_⟩
      · rw [VmmPc.step, if_pos hd, hrun, ok_bind]
        exact if_pos hr
      · exact h.coherent n q hq (by simp [VmmPc.pending])
    · refine ⟨k', tlb, .mapLevel (d + 1) r v p flags, ?_, hinv, ⟨hcanon, hnext hr, hmay⟩,
        fun n q hq _ => ?_⟩
      · rw [VmmPc.step, if_pos hd, hrun, ok_bind]
        exact if_neg hr
      · exact h.coherent n q hq (by simp [VmmPc.pending])
  · -- the last level: the entry is written, and the old translation is pending until the `invlpg`
    obtain ⟨hle, f, rfl, hwalk⟩ := hat
    obtain rfl : d = 3 := by omega
    obtain ⟨A, fl, hspace⟩ := h.vmm.space
    obtain ⟨hown, hlt⟩ := h.vmm.mappable_of_mayMap hmay
    refine ⟨k.putEntry f (vpn v).index (p &&& pageAddrMask ||| flags), tlb, .mapInvlpg v, ?_, ?_,
      hcanon, fun n q hq hpending => ?_⟩
    · rw [VmmPc.step, if_neg hd, ptIndex_eq, k.setEntry_tablePtr hspace.direct.offset_lt
        (AddressSpace.isTable_of_table hwalk).lt, ok_bind]
    · have hclient := h.vmm.client.putLeaf hwalk (entry_lt (p := p) hmay.1)
        (insert (vpn v) c.written)
      rw [pageMap_entry hlt hmay.1 hmay.2.1] at hclient
      refine .of_client hclient fun n f hmaps => ?_
      rcases Client.maps_mapped hmaps with ⟨-, rfl⟩ | ⟨-, hold⟩
      · exact hown
      · exact h.vmm.backed n f hold
    · -- the entries of all other pages are the ones the cache was filled from
      have hne : n ≠ vpn v := fun heq => hpending (heq ▸ rfl)
      show Function.update c.map (vpn v) _ n = some q
      rw [Function.update_of_ne hne]
      exact h.coherent n q hq (by simp [VmmPc.pending])

/-- The `invlpg` of `vmm_map` drops the one translation that may be stale. -/
theorem mapInvlpg {v : Nat} (h : TlbInv offset cr3 U k tlb (.mapInvlpg v) c) :
    Steps offset cr3 U k tlb (.mapInvlpg v) c := by
  have hcanon : IsCanonical v := h.place
  refine ⟨k, invlpgTlb tlb v, .returned true, rfl, h.vmm, trivial, fun n q hq _ => ?_⟩
  by_cases hn : n = vpn v
  · rw [hn, invlpgTlb_self hcanon] at hq
    exact absurd hq (by simp)
  · rw [invlpgTlb_of_ne _ hn] at hq
    exact h.coherent n q hq fun heq => hn (Option.some.inj heq).symm

/-- A level of `vmm_unmap`. On the last one the entry is cleared, and its `invlpg` is due. The frame
is still held until the last step. -/
theorem unmapLevel {d table v : Nat} (h : TlbInv offset cr3 U k tlb (.unmapLevel d table v) c) :
    Steps offset cr3 U k tlb (.unmapLevel d table v) c := by
  obtain ⟨hcanon, hat, hmay⟩ := h.place
  have hcached : ∀ n q, tlb n = some q → c.map n = some q :=
    fun n q hq => h.coherent n q hq (by simp [VmmPc.pending])
  by_cases hd : d < 3
  · obtain ⟨r, hrun, hnext⟩ := h.vmm.existingLevel hat hd
    by_cases hr : r = 0
    · refine ⟨k, tlb, .returned false, ?_, h.vmm, trivial, fun n q hq _ => hcached n q hq⟩
      rw [VmmPc.step, if_pos hd, hrun, ok_bind]
      exact if_pos hr
    · refine ⟨k, tlb, .unmapLevel (d + 1) r v, ?_, h.vmm, ⟨hcanon, hnext hr, hmay⟩,
        fun n q hq _ => hcached n q hq⟩
      rw [VmmPc.step, if_pos hd, hrun, ok_bind]
      exact if_neg hr
  · obtain ⟨hle, f, rfl, hwalk⟩ := hat
    obtain rfl : d = 3 := by omega
    obtain ⟨A, fl, hspace⟩ := h.vmm.space
    have hflt := (AddressSpace.isTable_of_table hwalk).lt
    set e := entries k.mem f (vpn v).index with he
    have hmap : c.map (vpn v) = (pageLeaf 3 e).map fun (_, e) => (frameOf e, flagsOf e) := by
      rw [← h.vmm.map_eq, Kernel.pageMap, AddressSpace.leaf_eq hwalk]
    have hget := k.getEntry_tablePtr hspace.direct.offset_lt hflt (vpn v).index
    by_cases hpresent : e &&& pagePresent = 0
    · refine ⟨k, tlb, .returned false, ?_, h.vmm, trivial, fun n q hq _ => hcached n q hq⟩
      rw [VmmPc.step, if_neg hd, ptIndex_eq, hget, ok_bind, if_pos hpresent]
    · rw [pageLeaf, if_neg hpresent] at hmap
      -- the call was allowed for the page that this entry translates
      obtain ⟨hmaps, halone⟩ : c.Maps (vpn v) (frameOf e) ∧
          (frameOf e ∈ c.held → ∀ n, c.Maps n (frameOf e) → n = vpn v) := by
        rcases hmay with hnone | ⟨f', hmaps, halone⟩
        · exact absurd (hmap.symm.trans hnone) (by simp)
        · obtain ⟨-, fl', hmap'⟩ := id hmaps
          have heq : frameOf e = f' :=
            (Prod.mk.inj (Option.some.inj (hmap.symm.trans hmap'))).1
          rw [heq]
          exact ⟨hmaps, halone⟩
      refine ⟨k.putEntry f (vpn v).index 0, tlb, .unmapInvlpg v e, ?_, ?_,
        ⟨hcanon, ⟨?_, ?_⟩, ?_, ?_⟩, ?_⟩
      · rw [VmmPc.step, if_neg hd, ptIndex_eq, hget, ok_bind, if_neg hpresent,
          k.setEntry_tablePtr hspace.direct.offset_lt hflt, ok_bind]
      · -- the page is the client's no more, but the frame still is
        refine .of_client (h.vmm.client.putLeaf hwalk (by decide) (c.written \ {vpn v}))
          fun n g hg => ?_
        exact h.vmm.backed n g (Client.maps_unmapped (v := v) hg).2
      · exact h.vmm.backed _ _ hmaps
      · intro hheld n hn
        obtain ⟨hne, hold⟩ := Client.maps_unmapped (v := v) hn
        exact hne (halone hheld n hold)
      · exact Function.update_self _ _ _
      · intro r hr
        rw [hcached _ _ hr] at hmap
        rw [Option.some.inj hmap]
      · intro n q hq hpending
        have hne : n ≠ vpn v := fun heq => hpending (heq ▸ rfl)
        show Function.update c.map (vpn v) none n = some q
        rw [Function.update_of_ne hne]
        exact hcached n q hq

/-- The `invlpg` of `vmm_unmap` comes before its free, so no cached translation leads to the frame
when it is given up. -/
theorem unmapInvlpg {v e : Nat} (h : TlbInv offset cr3 U k tlb (.unmapInvlpg v e) c) :
    Steps offset cr3 U k tlb (.unmapInvlpg v e) c := by
  obtain ⟨hcanon, hreleased, -⟩ := h.place
  refine ⟨k, invlpgTlb tlb v, .unmapFree e, rfl, h.vmm, hreleased, fun n q hq _ => ?_⟩
  by_cases hn : n = vpn v
  · rw [hn, invlpgTlb_self hcanon] at hq
    exact absurd hq (by simp)
  · rw [invlpgTlb_of_ne _ hn] at hq
    exact h.coherent n q hq fun heq => hn (Option.some.inj heq).symm

/-- The frame of the unmapped page goes back to the allocator, or is device memory and stays. -/
theorem unmapFree {e : Nat} (h : TlbInv offset cr3 U k tlb (.unmapFree e) c) :
    Steps offset cr3 U k tlb (.unmapFree e) c := by
  obtain ⟨hown, hunmapped⟩ := h.place
  obtain ⟨A, fl, hspace⟩ := h.vmm.space
  obtain ⟨s, A', fl', hfree, hrepr, hsub, hkeep⟩ := hspace.repr.freePage (frameOf e * buddyPageSize)
  rw [Nat.mul_div_cancel _ (by decide)] at hkeep
  -- the number of the frame fits into 32 bits, so at most this frame is freed
  have hlt : frameOf e < 2 ^ 32 := by
    rcases hown with hheld | hdevice
    · exact Nat.lt_trans (h.vmm.client.held_lt hheld) (by decide)
    · exact hdevice.2
  rw [Nat.mod_eq_of_lt hlt] at hkeep
  refine ⟨{ k with buddy := s }, tlb, .returned true, ?_, ?_, trivial, fun n q hq _ => ?_⟩
  · rw [VmmPc.step, ← frameOf_mul, hfree, ok_bind]
  · refine ⟨⟨A', fl', hspace.direct, hrepr, fun f hf => ?_, hspace.unshared, fun t ht hU => ?_,
      hspace.mapped⟩, h.vmm.notHuge, h.vmm.map_eq, fun n f hmaps => ?_⟩
    · exact hkeep ⟨hspace.held_sub hf.1, hf.2⟩
    · obtain ⟨hA, hout⟩ := hspace.tables t ht hU
      refine ⟨hkeep ⟨hA, ?_⟩, fun hf => hout hf.1⟩
      rintro rfl
      rcases hown with hheld | hdevice
      · exact hout hheld
      · exact Nat.not_lt.mpr hdevice.1 (hspace.repr.usable_lt hU)
    · refine (h.vmm.backed n f hmaps).imp_left fun hheld => ⟨hheld, ?_⟩
      rintro rfl
      exact hunmapped hheld n hmaps
  · exact h.coherent n q hq (by simp [VmmPc.pending])

/-- **Every step.** It ends and keeps the invariant. One case for each place of the two functions. -/
theorem step {pc : VmmPc} (h : TlbInv offset cr3 U k tlb pc c) :
    Steps offset cr3 U k tlb pc c := by
  cases pc with
  | returned ok => exact ⟨k, tlb, .returned ok, rfl, h⟩
  | mapLevel d table v p flags => exact h.mapLevel
  | mapInvlpg v => exact h.mapInvlpg
  | unmapLevel d table v => exact h.unmapLevel
  | unmapInvlpg v e => exact h.unmapInvlpg
  | unmapFree e => exact h.unmapFree

/-- What the processor caches by itself is what the tables hold. -/
theorem fill {pc : VmmPc} (h : TlbInv offset cr3 U k tlb pc c) {n : Vpn} {r : Nat × Nat}
    (hr : k.pageMap cr3 n = some r) :
    TlbInv offset cr3 U k (Function.update tlb n (some r)) pc c := by
  rw [h.vmm.map_eq] at hr
  refine ⟨h.vmm, ?_, fun m q hq hpending => ?_⟩
  · have hplace := h.place
    cases pc with
    | unmapInvlpg v e =>
      -- the page of the cleared entry is not translated, so this is another one
      obtain ⟨hcanon, hreleased, hnone, hcached⟩ := hplace
      refine ⟨hcanon, hreleased, hnone, fun q hq => hcached q ?_⟩
      rwa [Function.update_of_ne] at hq
      rintro rfl
      exact absurd (hnone.symm.trans hr) (by simp)
    | _ => exact hplace
  · by_cases hm : m = n
    · subst hm
      rw [Function.update_self] at hq
      rw [hr, hq]
    · rw [Function.update_of_ne hm] at hq
      exact h.coherent m q hq hpending

/-- Dropping a translation makes nothing stale, since the invariant speaks of cached translations
only. -/
theorem evict {pc : VmmPc} (h : TlbInv offset cr3 U k tlb pc c) (n : Vpn) :
    TlbInv offset cr3 U k (Function.update tlb n none) pc c := by
  have hold : ∀ m q, Function.update tlb n none m = some q → tlb m = some q := by
    intro m q hq
    rw [Function.update_apply] at hq
    split at hq
    · exact absurd hq (by simp)
    · exact hq
  refine ⟨h.vmm, ?_, fun m q hq => h.coherent m q (hold m q hq)⟩
  have hplace := h.place
  cases pc with
  | unmapInvlpg v e => 
    obtain ⟨hcanon, hreleased, hnone, hcached⟩ := hplace
    exact ⟨hcanon, hreleased, hnone, fun q hq => hcached q (hold _ q hq)⟩
  | _ => exact hplace

end TlbInv

/-- Every state of a run satisfies the invariant, by one case for each thing that the code, the
client or the processor may do. -/
theorem TlbRun.inv {response : Option MemmapResponse} {offset cr3 : Nat} {k₀ k : Kernel}
    {tlb : Tlb} {pc : VmmPc} {c : Client} (h : InitialSpace response offset cr3 k₀)
    (run : TlbRun offset cr3 k₀ k tlb pc c) :
    TlbInv offset cr3 (usableFrames response) k tlb pc c := by
  induction run with
  | start hc htlb =>
    refine ⟨h.inv hc, trivial, fun n r hr _ => ?_⟩
    rw [hc.map]
    exact htlb n r hr
  | fill _ hr ih => exact ih.fill hr
  | evict n _ ih => exact ih.evict n
  | alloc _ hrun ha ih =>
    rcases ih.vmm.alloc with hfail | ⟨g, s, hrun', -, -, hinv⟩
    · exact absurd (ok_unique_pair hrun hfail).1 ha
    · obtain ⟨rfl, rfl⟩ := ok_unique_pair hrun hrun'
      exact ⟨hinv, trivial, ih.coherent⟩
  | @allocFail k tlb ok c s _ hrun ih =>
    -- a failed allocation changes nothing
    rcases ih.vmm.alloc with hfail | ⟨g, s', hrun', hlt, -, -⟩
    · obtain ⟨-, rfl⟩ := ok_unique_pair hrun hfail
      exact ih
    · exact absurd (ok_unique_pair hrun hrun').1.symm (addr_ne_invalid hlt)
  | callMap _ hcanon hmay ih =>
    refine ⟨ih.vmm, ?_, fun n r hr _ => ih.coherent n r hr (by simp [VmmPc.pending])⟩
    rw [VmmPc.callMap, phyToVirt_and_mask]
    split
    · trivial
    · exact ⟨hcanon, ⟨Nat.zero_le 3, _, rfl, rfl⟩, hmay⟩
  | callUnmap _ hcanon hmay ih =>
    refine ⟨ih.vmm, ?_, fun n r hr _ => ih.coherent n r hr (by simp [VmmPc.pending])⟩
    rw [VmmPc.callUnmap, phyToVirt_and_mask]
    split
    · trivial
    · exact ⟨hcanon, ⟨Nat.zero_le 3, _, rfl, rfl⟩, hmay⟩
  | step _ hrun ih =>
    obtain ⟨k', tlb', pc', hrun', hinv⟩ := ih.step
    obtain ⟨rfl, hrest⟩ := Prod.mk.inj (ok_unique hrun hrun')
    obtain ⟨rfl, rfl⟩ := Prod.mk.inj hrest
    exact hinv

/-- **The translation cache is never stale.** Between any two steps of `vmm_map` and `vmm_unmap` for
canonical addresses, with the processor filling and dropping entries as it likes: a cached
translation is the one the tables hold, except for the page whose `invlpg` is the next step. No
cached translation of a page that the client has mapped leads to a free frame, and neither does that
of a page in the middle of `vmm_unmap`. Every step ends. -/
theorem cached_translations_current {response : Option MemmapResponse} {offset cr3 : Nat}
    {k₀ k : Kernel} {tlb : Tlb} {pc : VmmPc} {c : Client} (h : InitialSpace response offset cr3 k₀)
    (run : TlbRun offset cr3 k₀ k tlb pc c) :
    (∀ n r, tlb n = some r → pc.pending ≠ some n → k.pageMap cr3 n = some r) ∧
    (∀ n f flags, tlb n = some (f, flags) →
      (n ∈ c.written ∧ pc.pending ≠ some n ∨ ∃ v e, pc = .unmapInvlpg v e ∧ n = vpn v) →
      ¬ k.buddy.FreeFrame f) ∧
    ∃ r, pc.step (some offset) k tlb = .ok r := by
  have hinv := run.inv h
  obtain ⟨A, fl, hspace⟩ := hinv.vmm.space
  have hnotFree : ∀ f, c.Mappable f → ¬ k.buddy.FreeFrame f := by
    intro f hf hfree
    obtain ⟨hU, hA⟩ := (hspace.repr.freeFrame_iff f).mp hfree
    rcases hf with hheld | hdevice
    · exact hA (hspace.held_sub hheld)
    · exact Nat.not_lt.mpr hdevice.1 (hspace.repr.usable_lt hU)
  refine ⟨fun n r hr hpending => ?_, fun n f flags hr hpage => hnotFree f ?_, ?_⟩
  · rw [hinv.vmm.map_eq]
    exact hinv.coherent n r hr hpending
  · rcases hpage with ⟨hn, hpending⟩ | ⟨v, e, rfl, rfl⟩
    · exact hinv.vmm.backed n f ⟨hn, flags, hinv.coherent n _ hr hpending⟩
    · obtain ⟨-, hreleased, -, hcached⟩ := hinv.place
      rw [show f = frameOf e from hcached _ hr]
      exact hreleased.1
  · obtain ⟨k', tlb', pc', hrun, -⟩ := hinv.step
    exact ⟨_, hrun⟩

/-- A run goes on with any number of steps. -/
theorem TlbRun.steps {offset cr3 : Nat} {k₀ k k' : Kernel} {tlb tlb' : Tlb} {pc pc' : VmmPc}
    {c : Client} (run : TlbRun offset cr3 k₀ k tlb pc c) {n : Nat}
    (h : VmmPc.run (some offset) n k tlb pc = .ok (k', tlb', pc')) :
    ∃ c', TlbRun offset cr3 k₀ k' tlb' pc' c' := by
  induction n generalizing k tlb pc c with
  | zero =>
    obtain ⟨rfl, hrest⟩ := Prod.mk.inj (Except.ok.inj h)
    obtain ⟨rfl, rfl⟩ := Prod.mk.inj hrest
    exact ⟨c, run⟩
  | succ n ih =>
    rw [VmmPc.run, bind_eq_ok] at h
    obtain ⟨⟨k₁, tlb₁, pc₁⟩, hstep, hrest⟩ := h
    exact ih (run.step hstep) hrest

/-- The client of the samples maps its page, and the processor caches the translation. -/
theorem cached_translations_current_sampleTables :
    ∃ (k₀ k : Kernel) (tlb : Tlb) (c : Client),
      InitialSpace sampleMap sampleDirectMap sampleCr3 k₀ ∧
      TlbRun sampleDirectMap sampleCr3 k₀ k tlb (.returned true) c ∧
      tlb (vpn 0x5000) = some (1, 3) ∧ ∀ n r, tlb n = some r → k.pageMap sampleCr3 n = some r := by
  obtain ⟨s₀, s, hspace, hstart, halloc, -⟩ := sampleBoot
  have hleads := (hasSampleTables_sampleTables s).leadsTo (show 0x5000 < 2 ^ 21 by decide)
  have hmay : MayMap ((sampleClient s₀).alloc 0x1000) 0x1000 3 :=
    ⟨by decide, by decide, Or.inl (Or.inl rfl)⟩
  have hfirst : TlbRun sampleDirectMap sampleCr3 (sampleTables s₀) (sampleTables s₀)
      (fun _ => none) (.returned true) (sampleClient s₀) :=
    .start hstart fun n r hr => absurd hr (by simp)
  have run : TlbRun sampleDirectMap sampleCr3 (sampleTables s₀) (sampleTables s) (fun _ => none)
      (VmmPc.callMap (some sampleDirectMap) sampleCr3 0x5000 0x1000 3) _ :=
    .callMap (.alloc hfirst halloc (by decide)) (by decide) hmay
  have hsteps : VmmPc.run (some sampleDirectMap) 5 (sampleTables s) (fun _ => none)
      (VmmPc.callMap (some sampleDirectMap) sampleCr3 0x5000 0x1000 3)
      = .ok ((sampleTables s).putEntry 19 (vpn 0x5000).index 0x1003,
          invlpgTlb (fun _ => none) 0x5000, .returned true) := by
    rw [VmmPc.run_callMap, hleads.vmmMap_eq sampleDirectMap_ok.offset_lt]
    rfl
  obtain ⟨c, run'⟩ := run.steps hsteps
  have htables := (hasSampleTables_sampleTables s).putEntry (vpn 0x5000).index
    (show 0x1003 < 2 ^ 64 by decide)
  have hpage : ((sampleTables s).putEntry 19 (vpn 0x5000).index 0x1003).pageMap sampleCr3
      (vpn 0x5000) = some (1, 3) := by
    apply htables.pageMap (e := 0x1003) (by decide) _ (by decide)
    rw [entries_putEntry _ _ _ (by decide), Radix.set_self]
  have hcurrent := (cached_translations_current hspace (run'.fill hpage)).1
  exact ⟨_, _, _, c, hspace, run'.fill hpage, Function.update_self _ _ _,
    fun n r hr => hcurrent n r hr (by simp [VmmPc.pending])⟩

end Yoix
