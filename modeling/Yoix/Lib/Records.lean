import Mathlib.Algebra.GroupWithZero.Nat
import Mathlib.Data.List.Basic

/-!
# Streams of records that carry their own size

A stream starts at an address, each record says how long it is, and the stream ends at or behind
the address `stop`. A record of size 0 leads nowhere and is the last one. `walk` lists the
addresses of the records. `placed` gives records that are laid out one after another their
addresses, and a stream laid out that way is walked exactly (`walk_eq_placed`).
-/

namespace Records

/-! ## Walking a stream

Records follow each other in memory, each with its length in itself. A walk goes from one to the
next until it reaches the end or a record of length 0. -/

section Walk

variable (size : Nat → Nat) (stop : Nat)

/-- The addresses of the records from `p` on, at most `n` of them. -/
def walk : Nat → Nat → List Nat
  | 0, _ => []
  | n + 1, p =>
    if p < stop then p :: (if size p = 0 then [] else walk n (p + size p)) else []

variable {size stop}

/-- A walk that starts at the end or behind it visits nothing. -/
theorem walk_of_le {n p : Nat} (h : stop ≤ p) : walk size stop n p = [] := by
  cases n with
  | zero => rfl
  | succ n => rw [walk, if_neg (by omega)]

theorem walk_of_zero {n p : Nat} (h : p < stop) (hsize : size p = 0) :
    walk size stop (n + 1) p = [p] := by
  rw [walk, if_pos h, if_pos hsize]

theorem walk_of_pos {n p : Nat} (h : p < stop) (hsize : size p ≠ 0) :
    walk size stop (n + 1) p = p :: walk size stop n (p + size p) := by
  rw [walk, if_pos h, if_neg hsize]

/-- Every record of the walk starts between its first address and the end. -/
theorem mem_walk {n p q : Nat} (h : q ∈ walk size stop n p) : p ≤ q ∧ q < stop := by
  induction n generalizing p with
  | zero => exact absurd h List.not_mem_nil
  | succ n ih =>
    by_cases hlt : p < stop
    · by_cases hsize : size p = 0
      · rw [walk_of_zero hlt hsize, List.mem_singleton] at h
        omega
      · rw [walk_of_pos hlt hsize] at h
        rcases List.mem_cons.mp h with rfl | h
        · exact ⟨Nat.le_refl q, hlt⟩
        · have := ih h
          omega
    · rw [walk_of_le (by omega)] at h
      exact absurd h List.not_mem_nil

/-- The budget of a walk bounds the number of records that it visits. -/
theorem length_walk_le (n p : Nat) : (walk size stop n p).length ≤ n := by
  induction n generalizing p with
  | zero => exact Nat.le_refl 0
  | succ n ih =>
    rw [walk]
    split
    · split
      · simp
      · simpa using ih (p + size p)
    · simp

end Walk

/-! ## Laying out records

The other direction: a list of records is laid out from an address on, and a walk finds exactly
these records at these places. -/

section Placed

variable {α : Type} (len : α → Nat)

/-- Records with their addresses, the first one at `p`. -/
def placed (p : Nat) : List α → List (Nat × α)
  | [] => []
  | r :: rest => (p, r) :: placed (p + len r) rest

variable {len}

theorem map_snd_placed (records : List α) (p : Nat) :
    (placed len p records).map Prod.snd = records := by
  induction records generalizing p with
  | nil => rfl
  | cons r rest ih => rw [placed, List.map_cons, ih]

/-- Records of positive sizes that fill the stream are found where they were laid out. -/
theorem walk_eq_placed {size : Nat → Nat} {stop n p : Nat} {records : List α}
    (hpos : ∀ r ∈ records, 0 < len r) (hsize : ∀ x ∈ placed len p records, size x.1 = len x.2)
    (hstop : stop = p + (records.map len).sum) (hn : (records.map len).sum ≤ n) :
    walk size stop n p = (placed len p records).map Prod.fst := by
  induction records generalizing n p with
  | nil => exact walk_of_le (by simp [hstop])
  | cons r rest ih =>
    have hr : 0 < len r := hpos r List.mem_cons_self
    have hfirst : size p = len r := hsize (p, r) List.mem_cons_self
    rw [List.map_cons, List.sum_cons] at hstop hn
    cases n with
    | zero => omega
    | succ n =>
      rw [walk_of_pos (by omega) (by omega), hfirst, placed, List.map_cons]
      congr 1
      exact ih (fun r' h => hpos r' (List.mem_cons_of_mem r h))
        (fun x h => hsize x (List.mem_cons_of_mem _ h)) (by omega) (by omega)

end Placed

/-! ## Bytes of the records

What a memory has to hold so that a given list of records is laid out in it. -/

/-- The memory holds the values from `p` on. -/
def Holds {β : Type} (mem : Nat → β) (p : Nat) (values : List β) : Prop :=
  ∀ i v, values[i]? = some v → mem (p + i) = v

/-- A memory that holds a list holds each first part of it, from the same address on. -/
theorem Holds.left {β : Type} {mem : Nat → β} {p : Nat} {xs ys : List β}
    (h : Holds mem p (xs ++ ys)) : Holds mem p xs := by
  intro i v hv
  have hi : i < xs.length := (List.getElem?_eq_some_iff.mp hv).1
  exact h i v (by rw [List.getElem?_append_left hi, hv])

/-- A memory that holds a list holds the rest of it, behind its first part. -/
theorem Holds.right {β : Type} {mem : Nat → β} {p : Nat} {xs ys : List β}
    (h : Holds mem p (xs ++ ys)) : Holds mem (p + xs.length) ys := by
  intro i v hv
  rw [Nat.add_assoc]
  exact h (xs.length + i) v (by rw [List.getElem?_append_right (by omega),
    Nat.add_sub_cancel_left, hv])

/-- The values behind a part of a list, in the memory that holds the whole list. -/
theorem holds_getD {β : Type} (xs ys : List β) (d : β) :
    Holds (fun a => (xs ++ ys).getD a d) xs.length ys := by
  intro i v hv
  show (xs ++ ys).getD (xs.length + i) d = v
  rw [List.getD_eq_getElem?_getD, List.getElem?_append_right (by omega), Nat.add_sub_cancel_left,
    hv, Option.getD_some]

/-- A memory that holds all records one after another holds each one at its address. -/
theorem Holds.of_placed {α β : Type} {mem : Nat → β} {bytes : α → List β} {records : List α}
    {p : Nat} (h : Holds mem p (records.flatMap bytes)) {x : Nat × α}
    (hx : x ∈ placed (fun r => (bytes r).length) p records) : Holds mem x.1 (bytes x.2) := by
  induction records generalizing p with
  | nil => exact absurd hx List.not_mem_nil
  | cons r rest ih =>
    rw [List.flatMap_cons] at h
    rcases List.mem_cons.mp hx with rfl | hx
    · exact h.left
    · exact ih h.right hx

end Records
