import Mathlib.Data.List.Basic

/-!
# Radix trees stored in tables

A tree of tables is given by the entries `E t i` of every table `t`. What an entry means depends
on the depth `d` of its table only: `child d v` is the table it leads to, and an entry that
leads to no table ends the descent with the result `leaf d v`. `walk` follows a path of indices
from table to table; `find` follows it until an entry ends the descent.

A tree is `Unshared` if no table is reached along two paths. In such a tree a store into one
entry is seen by the paths through that entry alone, and linking an empty table at an entry that
leads nowhere changes no result at all.
-/

namespace Radix

variable {T I V R : Type} (child : Nat → V → Option T) (leaf : Nat → V → Option R)

/-- The table that the path leads to. -/
def walk (E : T → I → V) : Nat → T → List I → Option T
  | _, t, [] => some t
  | d, t, i :: p =>
    match child d (E t i) with
    | some s => walk E (d + 1) s p
    | none => none

/-- The result of the entry that ends the descent along the path. -/
def find (E : T → I → V) : Nat → T → List I → Option R
  | _, _, [] => none
  | d, t, i :: p =>
    match child d (E t i) with
    | some s => find E (d + 1) s p
    | none => leaf d (E t i)

/-- The entries that the descent along the path reads. -/
def trail (E : T → I → V) : Nat → T → List I → List V
  | _, _, [] => []
  | d, t, i :: p =>
    E t i :: match child d (E t i) with
      | some s => trail E (d + 1) s p
      | none => []

/-- Some path leads from the root to the table. -/
def Reachable (E : T → I → V) (root t : T) : Prop := ∃ p, walk child E 0 root p = some t

/-- No table is reached along two paths. -/
def Unshared (E : T → I → V) (root : T) : Prop :=
  ∀ p q t, walk child E 0 root p = some t → walk child E 0 root q = some t → p = q

/-- Store `v` in entry `i` of table `t`. -/
def set [DecidableEq T] [DecidableEq I] (E : T → I → V) (t : T) (i : I) (v : V) : T → I → V :=
  fun s j => if s = t ∧ j = i then v else E s j

section Paths

variable {child leaf} {E E' : T → I → V} {d : Nat} {t s : T} {i : I}

theorem walk_cons_some (h : child d (E t i) = some s) (p : List I) :
    walk child E d t (i :: p) = walk child E (d + 1) s p := by
  rw [walk, h]

theorem walk_cons_none (h : child d (E t i) = none) (p : List I) :
    walk child E d t (i :: p) = none := by
  rw [walk, h]

theorem find_cons_some (h : child d (E t i) = some s) (p : List I) :
    find child leaf E d t (i :: p) = find child leaf E (d + 1) s p := by
  rw [find, h]

theorem find_cons_none (h : child d (E t i) = none) (p : List I) :
    find child leaf E d t (i :: p) = leaf d (E t i) := by
  rw [find, h]

/-- A walk along a path that is put together is the walk along its first part followed by the one
along the rest, which starts that much deeper. -/
theorem walk_append (p q : List I) (d : Nat) (t : T) :
    walk child E d t (p ++ q)
      = (walk child E d t p).bind fun s => walk child E (d + p.length) s q := by
  induction p generalizing d t with
  | nil => rfl
  | cons i p ih =>
    rw [List.cons_append, List.length_cons, ← Nat.add_assoc, Nat.add_right_comm]
    cases hc : child d (E t i) with
    | none =>
      rw [walk_cons_none hc, walk_cons_none hc]
      rfl
    | some s => rw [walk_cons_some hc, walk_cons_some hc, ih]

/-- When the first part of a path leads to a table, looking up the whole path is looking up the rest
from that table on. -/
theorem find_append {p : List I} (h : walk child E d t p = some s) (q : List I) :
    find child leaf E d t (p ++ q) = find child leaf E (d + p.length) s q := by
  induction p generalizing d t with
  | nil =>
    obtain rfl := Option.some.inj h
    rfl
  | cons i p ih =>
    rw [List.cons_append, List.length_cons, ← Nat.add_assoc, Nat.add_right_comm]
    cases hc : child d (E t i) with
    | none =>
      rw [walk_cons_none hc] at h
      exact absurd h (by simp)
    | some u =>
      rw [walk_cons_some hc] at h
      rw [find_cons_some hc, ih h]

/-- The entries that a lookup passes are those of the first part of the path followed by those of
the rest. -/
theorem trail_append {p : List I} (h : walk child E d t p = some s) (q : List I) :
    trail child E d t (p ++ q) = trail child E d t p ++ trail child E (d + p.length) s q := by
  induction p generalizing d t with
  | nil =>
    obtain rfl := Option.some.inj h
    rfl
  | cons i p ih =>
    cases hc : child d (E t i) with
    | none =>
      rw [walk_cons_none hc] at h
      exact absurd h (by simp)
    | some u =>
      rw [walk_cons_some hc] at h
      rw [List.cons_append, List.length_cons, ← Nat.add_assoc, Nat.add_right_comm]
      simp only [trail, hc, ih h, List.cons_append]

theorem trail_singleton : trail child E d t [i] = [E t i] := by
  unfold trail
  cases child d (E t i) with
  | none => rfl
  | some s => rfl

/-- Where an entry of a trail stands: behind a walk along a prefix of the path. -/
theorem exists_of_mem_trail {q : List I} {v : V} (h : v ∈ trail child E d t q) :
    ∃ p i s, p ++ [i] <+: q ∧ walk child E d t p = some s ∧ v = E s i := by
  induction q generalizing d t with
  | nil => exact absurd h List.not_mem_nil
  | cons i q ih =>
    rw [trail] at h
    rcases List.mem_cons.mp h with hhead | htail
    · exact ⟨[], i, t, ⟨q, rfl⟩, rfl, hhead⟩
    · cases hc : child d (E t i) with
      | none =>
        rw [hc] at htail
        exact absurd htail List.not_mem_nil
      | some s =>
        rw [hc] at htail
        obtain ⟨p, j, u, hpre, hwalk, hv⟩ := ih htail
        exact ⟨i :: p, j, u, (List.prefix_cons_inj i).mpr hpre,
          (walk_cons_some hc p).trans hwalk, hv⟩

/-- A path extended by one step leads where its last entry leads. -/
theorem walk_concat {p : List I} {root : T} (ht : walk child E 0 root p = some t) (i : I) :
    walk child E 0 root (p ++ [i]) = child p.length (E t i) := by
  rw [walk_append, ht]
  show walk child E (0 + p.length) t [i] = child p.length (E t i)
  rw [Nat.zero_add]
  cases hc : child p.length (E t i) with
  | none => exact walk_cons_none hc []
  | some s => exact walk_cons_some hc []

/-- What the root and every entry's table satisfy, all tables of the tree satisfy. -/
theorem walk_mem {P : T → Prop} (hchild : ∀ d v s, child d v = some s → P s) {p : List I}
    (ht : P t) (h : walk child E d t p = some s) : P s := by
  induction p generalizing d t with
  | nil => exact Option.some.inj h ▸ ht
  | cons i p ih =>
    cases hc : child d (E t i) with
    | none =>
      rw [walk_cons_none hc] at h
      exact absurd h (by simp)
    | some u =>
      rw [walk_cons_some hc] at h
      exact ih (hchild d _ u hc) h

/-- The entry where a descent stops decides its result. -/
theorem find_of_stop {p r : List I} {root : T} (ht : walk child E 0 root p = some t)
    (hs : child p.length (E t i) = none) :
    find child leaf E 0 root (p ++ i :: r) = leaf p.length (E t i) := by
  rw [find_append ht, Nat.zero_add, find_cons_none hs]

/-- Where a result comes from: from the leaf in the last entry of a walk along a prefix of the path.
-/
theorem exists_of_find {q : List I} {x : R} (h : find child leaf E d t q = some x) :
    ∃ p i s, p ++ [i] <+: q ∧ walk child E d t p = some s ∧
      child (d + p.length) (E s i) = none ∧ leaf (d + p.length) (E s i) = some x := by
  induction q generalizing d t with
  | nil => exact absurd h (by simp [find])
  | cons i q ih =>
    cases hc : child d (E t i) with
    | none =>
      rw [find_cons_none hc] at h
      exact ⟨[], i, t, ⟨q, rfl⟩, rfl, hc, h⟩
    | some s =>
      rw [find_cons_some hc] at h
      obtain ⟨p, j, u, hpre, hwalk, hstop, hleaf⟩ := ih h
      rw [Nat.add_assoc, Nat.add_comm 1] at hstop hleaf
      exact ⟨i :: p, j, u, (List.prefix_cons_inj i).mpr hpre, (walk_cons_some hc p).trans hwalk,
        hstop, hleaf⟩

theorem eq_append_cons {p q : List I} (h : p ++ [i] <+: q) : ∃ r, q = p ++ i :: r := by
  obtain ⟨r, rfl⟩ := h
  exact ⟨r, by rw [List.append_assoc]; rfl⟩

/-- `E'` has the entries of `E` along the path `q`. -/
def AgreeOn (child : Nat → V → Option T) (E E' : T → I → V) (d : Nat) (t : T) (q : List I) :
    Prop :=
  ∀ p i s, p ++ [i] <+: q → walk child E d t p = some s → E' s i = E s i

theorem AgreeOn.head {q : List I} (h : AgreeOn child E E' d t (i :: q)) : E' t i = E t i :=
  h [] i t ⟨q, rfl⟩ rfl

/-- Agreement along a path carries over to the rest of the path behind its first table. -/
theorem AgreeOn.tail {q : List I} (h : AgreeOn child E E' d t (i :: q))
    (hc : child d (E t i) = some s) : AgreeOn child E E' (d + 1) s q := by
  intro p j u hpre hwalk
  apply h (i :: p) j u ((List.prefix_cons_inj i).mpr hpre)
  rw [walk_cons_some hc]
  exact hwalk

/-- Descents read the entries along their path only. -/
theorem AgreeOn.walk_eq {q : List I} (h : AgreeOn child E E' d t q) :
    walk child E' d t q = walk child E d t q := by
  induction q generalizing d t with
  | nil => rfl
  | cons i q ih =>
    rw [walk, walk, h.head]
    cases hc : child d (E t i) with
    | none => rfl
    | some s => exact ih (h.tail hc)

/-- A lookup depends only on the entries along its path, so it gives the same in two memories that
agree there. -/
theorem AgreeOn.find_eq {q : List I} (h : AgreeOn child E E' d t q) :
    find child leaf E' d t q = find child leaf E d t q := by
  induction q generalizing d t with
  | nil => rfl
  | cons i q ih =>
    rw [find, find, h.head]
    cases hc : child d (E t i) with
    | none => rfl
    | some s => exact ih (h.tail hc)

end Paths

/-! ## Changes no descent sees

A store to a table that no path reaches leaves every descent as it was. This is what makes the
stores of a heap or of a client harmless for the tree. -/

section Agree

variable {child leaf} {E E' : T → I → V} {root : T}

/-- `E'` differs from `E` at most in tables that are not reached. -/
def AgreeReachable (child : Nat → V → Option T) (E E' : T → I → V) (root : T) : Prop :=
  ∀ t i, Reachable child E root t → E' t i = E t i

theorem AgreeReachable.agreeOn (h : AgreeReachable child E E' root) (q : List I) :
    AgreeOn child E E' 0 root q :=
  fun p i s _ hwalk => h s i ⟨p, hwalk⟩

theorem AgreeReachable.walk_eq (h : AgreeReachable child E E' root) (q : List I) :
    walk child E' 0 root q = walk child E 0 root q :=
  (h.agreeOn q).walk_eq

theorem AgreeReachable.find_eq (h : AgreeReachable child E E' root) (q : List I) :
    find child leaf E' 0 root q = find child leaf E 0 root q :=
  (h.agreeOn q).find_eq

theorem AgreeReachable.reachable_iff (h : AgreeReachable child E E' root) (t : T) :
    Reachable child E' root t ↔ Reachable child E root t := by
  simp only [Reachable, h.walk_eq]

/-- Two memories that agree on all reachable tables have the same tree, so that the tables of both
hang in one place each. -/
theorem AgreeReachable.unshared (h : AgreeReachable child E E' root)
    (hun : Unshared child E root) : Unshared child E' root := by
  intro p q t hp hq
  rw [h.walk_eq] at hp hq
  exact hun p q t hp hq

end Agree

/-! ## Stores

In a tree where no table hangs in two places, a store to one entry changes the descents that pass
through this entry and no others. -/

section Set

variable [DecidableEq T] [DecidableEq I] {child leaf} {E : T → I → V} {root t : T} {p : List I}
  {i : I} {v : V}

theorem set_self : set E t i v t i = v := if_pos ⟨rfl, rfl⟩

theorem set_of_ne {s : T} {j : I} (h : s ≠ t) : set E t i v s j = E s j :=
  if_neg fun hand => h hand.1

/-- A path that does not go through the stored entry does not see the store. -/
theorem agreeOn_set (hun : Unshared child E root) (ht : walk child E 0 root p = some t)
    (v : V) {q : List I} (hq : ¬ p ++ [i] <+: q) :
    AgreeOn child E (set E t i v) 0 root q := by
  intro p' j s hpre hs
  apply if_neg
  intro heq
  rw [heq.1] at hs
  rw [hun p' p t hs ht, heq.2] at hpre
  exact hq hpre

/-- A store to an entry of a table does not change the way to this table: a path that came through
the entry would reach the table a second time. -/
theorem walk_set_parent (hun : Unshared child E root) (ht : walk child E 0 root p = some t) :
    walk child (set E t i v) 0 root p = some t := by
  have hlonger : ¬ p ++ [i] <+: p := by
    intro hpre
    have := hpre.length_le
    rw [List.length_append, List.length_singleton] at this
    omega
  rw [(agreeOn_set hun ht v hlonger).walk_eq]
  exact ht

theorem find_set_self (hun : Unshared child E root) (ht : walk child E 0 root p = some t)
    (hv : child p.length v = none) (r : List I) :
    find child leaf (set E t i v) 0 root (p ++ i :: r) = leaf p.length v := by
  rw [find_of_stop (walk_set_parent hun ht) (by rw [set_self]; exact hv), set_self]

/-- Replacing an entry that leads to no table by another such entry moves no table. -/
theorem walk_set_of_stop (hun : Unshared child E root) (ht : walk child E 0 root p = some t)
    (hold : child p.length (E t i) = none) (hv : child p.length v = none) (q : List I) :
    walk child (set E t i v) 0 root q = walk child E 0 root q := by
  by_cases hq : p ++ [i] <+: q
  · obtain ⟨r, rfl⟩ := eq_append_cons hq
    rw [walk_append, walk_append, ht, walk_set_parent hun ht]
    show walk child (set E t i v) (0 + p.length) t (i :: r) = walk child E (0 + p.length) t (i :: r)
    rw [walk, walk, set_self, Nat.zero_add, hold, hv]
  · exact (agreeOn_set hun ht v hq).walk_eq

/-- Replacing an entry that leads nowhere by another one that leads nowhere adds no path. -/
theorem unshared_set_of_stop (hun : Unshared child E root) (ht : walk child E 0 root p = some t)
    (hold : child p.length (E t i) = none) (hv : child p.length v = none) :
    Unshared child (set E t i v) root := by
  intro p' q s hp hq
  rw [walk_set_of_stop hun ht hold hv] at hp hq
  exact hun p' q s hp hq

end Set

/-! ## Linking an empty table

An entry that led nowhere gets a fresh table without entries. The new table is reached by exactly
one path, and all old descents end as before. -/

section Link

variable [DecidableEq T] [DecidableEq I] {child leaf} {E : T → I → V} {root t n : T} {p : List I}
  {i : I} {v : V}

/-- Entry `i` of the table `t` at the end of `p` leads nowhere and holds nothing; `v` makes it
lead to `n`, an empty table that was not reached before. -/
structure Linkable (child : Nat → V → Option T) (leaf : Nat → V → Option R) (E : T → I → V)
    (root t n : T) (p : List I) (i : I) (v : V) : Prop where
  unshared : Unshared child E root
  table : walk child E 0 root p = some t
  stop : child p.length (E t i) = none
  absent : leaf p.length (E t i) = none
  fresh : ¬ Reachable child E root n
  empty : ∀ d j, child d (E n j) = none ∧ leaf d (E n j) = none
  entry : child p.length v = some n

variable (h : Linkable child leaf E root t n p i v)

include h

theorem Linkable.walk_eq {q : List I} (hq : ¬ p ++ [i] <+: q) :
    walk child (set E t i v) 0 root q = walk child E 0 root q :=
  (agreeOn_set h.unshared h.table v hq).walk_eq

theorem Linkable.walk_new : walk child (set E t i v) 0 root (p ++ [i]) = some n := by
  rw [walk_concat (walk_set_parent h.unshared h.table), set_self]
  exact h.entry

/-- The new table is a leaf of the tree of tables. -/
theorem Linkable.entry_new (j : I) : set E t i v n j = E n j := by
  apply set_of_ne
  intro heq
  exact h.fresh ⟨p, heq ▸ h.table⟩

/-- Behind the new link there is nothing but the new table, as its entries lead nowhere. -/
theorem Linkable.walk_through {r : List I} {s : T}
    (hwalk : walk child (set E t i v) 0 root (p ++ [i] ++ r) = some s) : r = [] ∧ s = n := by
  rw [walk_append, h.walk_new] at hwalk
  cases r with
  | nil => exact ⟨rfl, (Option.some.inj hwalk).symm⟩
  | cons j r =>
    replace hwalk : walk child (set E t i v) (0 + (p ++ [i]).length) n (j :: r) = some s := hwalk
    rw [walk, h.entry_new, (h.empty _ j).1] at hwalk
    exact absurd hwalk (by simp)

theorem Linkable.walk_cases {q : List I} {s : T}
    (hwalk : walk child (set E t i v) 0 root q = some s) :
    (q = p ++ [i] ∧ s = n) ∨ walk child E 0 root q = some s := by
  by_cases hq : p ++ [i] <+: q
  · obtain ⟨r, rfl⟩ := hq
    obtain ⟨rfl, hs⟩ := h.walk_through hwalk
    exact Or.inl ⟨List.append_nil _, hs⟩
  · rw [h.walk_eq hq] at hwalk
    exact Or.inr hwalk

/-- The tables of the old tree are still where they were. -/
theorem Linkable.walk_keep {q : List I} {s : T} (hwalk : walk child E 0 root q = some s) :
    walk child (set E t i v) 0 root q = some s := by
  by_cases hq : p ++ [i] <+: q
  · obtain ⟨r, rfl⟩ := eq_append_cons hq
    rw [walk_append, h.table] at hwalk
    replace hwalk : walk child E (0 + p.length) t (i :: r) = some s := hwalk
    rw [walk, Nat.zero_add, h.stop] at hwalk
    exact absurd hwalk (by simp)
  · rw [h.walk_eq hq]
    exact hwalk

/-- The new table hangs in one place, the entry that was linked, and all others hang where they did.
-/
theorem Linkable.unshared_link : Unshared child (set E t i v) root := by
  intro q q' s hq hq'
  cases h.walk_cases hq with
  | inl hnew =>
    cases h.walk_cases hq' with
    | inl hnew' => rw [hnew.1, hnew'.1]
    | inr hold' => exact absurd ⟨q', hnew.2 ▸ hold'⟩ h.fresh
  | inr hold =>
    cases h.walk_cases hq' with
    | inl hnew' => exact absurd ⟨q, hnew'.2 ▸ hold⟩ h.fresh
    | inr hold' => exact h.unshared q q' s hold hold'

/-- **Linking an empty table changes no result.** A path through the new link found nothing before,
and finds nothing in the empty table. -/
theorem Linkable.find_eq (q : List I) :
    find child leaf (set E t i v) 0 root q = find child leaf E 0 root q := by
  by_cases hq : p ++ [i] <+: q
  · obtain ⟨r, rfl⟩ := hq
    rw [find_append h.walk_new, List.append_assoc]
    show _ = find child leaf E 0 root (p ++ i :: r)
    rw [find_of_stop h.table h.stop, h.absent]
    cases r with
    | nil => rfl
    | cons j r => rw [find, h.entry_new, (h.empty _ j).1, (h.empty _ j).2]
  · exact (agreeOn_set h.unshared h.table v hq).find_eq

end Link

end Radix
