import Mathlib.Logic.Function.Basic
import Mathlib.Data.List.Basic
import Mathlib.Data.List.Nodup

/-!
# Doubly linked lists kept in two link tables

The nodes are values of any type; `next` and `prev` give the links of every node and `nil`
marks both ends. `IsDll next prev nil head xs` says that following `next` from `head` visits
exactly `xs`, without a repetition, and ends at `nil`, and that `prev` leads back along it.

A list is changed by writing single entries of the two tables. `IsDll.push` and
`IsDll.unlink` are the two ways a list changes, and `IsDll.frame` says that writes at other
nodes do not matter.
-/

namespace Linked

variable {α : Type}

/-- The nodes `xs` lie between the node `p` and the link `t`: `h` leads to the first of them,
`q` is the last one (`p` if there is none), and `prev` leads back to `p`. -/
def Seg (next prev : α → α) : α → α → List α → α → α → Prop
  | p, h, [], q, t => q = p ∧ t = h
  | p, h, x :: xs, q, t => h = x ∧ prev x = p ∧ Seg next prev x (next x) xs q t

/-- The doubly linked list `xs` starting at `head`. -/
structure IsDll (next prev : α → α) (nil head : α) (xs : List α) : Prop where
  seg : ∃ last, Seg next prev nil head xs last nil
  nodup : xs.Nodup
  nil_notMem : nil ∉ xs

variable {next prev next' prev' : α → α} {nil head : α} {xs : List α}

/-! ## Segments

A segment of a doubly linked list runs from a head `h`, whose predecessor is `p`, to what comes
behind its last element. Lists are put together from segments. -/

/-- A segment of a list that is put together is two segments that meet, the first ending where the
second begins. -/
theorem Seg.append {ys : List α} {p h q t : α} :
    Seg next prev p h (xs ++ ys) q t ↔
      ∃ m l, Seg next prev p h xs m l ∧ Seg next prev m l ys q t := by
  induction xs generalizing p h with
  | nil =>
    constructor
    · intro hs
      exact ⟨p, h, ⟨rfl, rfl⟩, hs⟩
    · rintro ⟨m, l, ⟨rfl, rfl⟩, hs⟩
      exact hs
  | cons x xs ih =>
    simp only [List.cons_append, Seg, ih]
    constructor
    · rintro ⟨h1, h2, m, l, h3, h4⟩
      exact ⟨m, l, ⟨h1, h2, h3⟩, h4⟩
    · rintro ⟨m, l, ⟨h1, h2, h3⟩, h4⟩
      exact ⟨h1, h2, m, l, h3, h4⟩

/-- A segment only reads the links of its own nodes. -/
theorem Seg.frame {p h q t : α} (hn : ∀ x ∈ xs, next' x = next x)
    (hp : ∀ x ∈ xs, prev' x = prev x) (hs : Seg next prev p h xs q t) :
    Seg next' prev' p h xs q t := by
  induction xs generalizing p h with
  | nil => exact hs
  | cons x xs ih =>
    obtain ⟨h1, h2, h3⟩ := hs
    refine ⟨h1, (hp x List.mem_cons_self).trans h2, ?_⟩
    rw [hn x List.mem_cons_self]
    exact ih (fun y hy => hn y (List.mem_cons_of_mem x hy))
      (fun y hy => hp y (List.mem_cons_of_mem x hy)) h3

/-- The last node of a segment is one of its nodes, unless there is none. -/
theorem Seg.last_mem {p h q t : α} (hs : Seg next prev p h xs q t) : q = p ∨ q ∈ xs := by
  induction xs generalizing p h with
  | nil => exact Or.inl hs.1
  | cons x xs ih =>
    rcases ih hs.2.2 with rfl | hmem
    · exact Or.inr List.mem_cons_self
    · exact Or.inr (List.mem_cons_of_mem x hmem)

/-- The first node of a segment is one of its nodes, unless there is none. -/
theorem Seg.first_mem {p h q t : α} (hs : Seg next prev p h xs q t) : h = t ∨ h ∈ xs := by
  cases xs with
  | nil => exact Or.inl hs.2.symm
  | cons x xs =>
    rw [hs.1]
    exact Or.inr List.mem_cons_self

/-- A segment put behind the node `p'`: only the back link of its first node is written. -/
theorem Seg.relink_first {p p' h q t : α} (hs : Seg next prev p h xs q t) (hnodup : xs.Nodup)
    (hn : ∀ x ∈ xs, next' x = next x) (hp : ∀ x ∈ xs, x ≠ h → prev' x = prev x)
    (hfirst : h ∈ xs → prev' h = p') : ∃ q', Seg next' prev' p' h xs q' t := by
  cases xs with
  | nil => exact ⟨p', rfl, hs.2⟩
  | cons x xs =>
    obtain ⟨rfl, -, hs⟩ := hs
    obtain ⟨hx, -⟩ := List.nodup_cons.mp hnodup
    refine ⟨q, rfl, hfirst List.mem_cons_self, ?_⟩
    rw [hn h List.mem_cons_self]
    refine hs.frame (fun y hy => hn y (List.mem_cons_of_mem h hy)) fun y hy => ?_
    exact hp y (List.mem_cons_of_mem h hy) fun heq => hx (heq ▸ hy)

/-- A segment put in front of the link `t'`: only the forward link of its last node `a` is
written. -/
theorem Seg.relink_last {p h q t t' a : α} (hs : Seg next prev p h (xs ++ [a]) q t)
    (ha : a ∉ xs) (hp : ∀ x ∈ xs ++ [a], prev' x = prev x)
    (hn : ∀ x ∈ xs, x ≠ a → next' x = next x) (hlast : next' a = t') :
    Seg next' prev' p h (xs ++ [a]) a t' := by
  obtain ⟨m, l, hxs, hl, hpa, -, -⟩ := Seg.append.mp hs
  refine Seg.append.mpr ⟨m, l, ?_, hl, (hp a (by simp)).trans hpa, rfl, hlast.symm⟩
  refine hxs.frame (fun x hx => ?_) fun x hx => hp x (List.mem_append_left _ hx)
  exact hn x hx fun heq => ha (heq ▸ hx)

/-! ## Whole lists

A list from its head to `nil`. Only the links of its own elements matter, so that lists with
different elements live in the same two arrays. -/

theorem IsDll.empty (next prev : α → α) (nil : α) : IsDll next prev nil nil [] :=
  ⟨⟨nil, rfl, rfl⟩, List.nodup_nil, List.not_mem_nil⟩

theorem IsDll.frame (h : IsDll next prev nil head xs) (hn : ∀ x ∈ xs, next' x = next x)
    (hp : ∀ x ∈ xs, prev' x = prev x) : IsDll next' prev' nil head xs := by
  obtain ⟨last, hs⟩ := h.seg
  exact ⟨⟨last, hs.frame hn hp⟩, h.nodup, h.nil_notMem⟩

theorem IsDll.head_eq_nil_iff (h : IsDll next prev nil head xs) : head = nil ↔ xs = [] := by
  obtain ⟨last, hs⟩ := h.seg
  cases xs with
  | nil => simp only [hs.2, iff_self]
  | cons x xs =>
    have hx : nil ≠ x := fun heq => h.nil_notMem (heq ▸ List.mem_cons_self)
    simp only [hs.1, reduceCtorEq, iff_false]
    exact hx.symm

theorem IsDll.head_cons {x : α} (h : IsDll next prev nil head (x :: xs)) : head = x := by
  obtain ⟨last, hs⟩ := h.seg
  exact hs.1

theorem IsDll.prev_head {x : α} (h : IsDll next prev nil head (x :: xs)) : prev x = nil := by
  obtain ⟨last, hs⟩ := h.seg
  exact hs.2.1

/-- What the links of a node `x` of the list lead to: the nodes before and after it. -/
theorem IsDll.links_of_mem (h : IsDll next prev nil head xs) {x : α} (hx : x ∈ xs) :
    (prev x = nil → head = x) ∧ (prev x ≠ nil → prev x ∈ xs ∧ next (prev x) = x) ∧
      (next x ≠ nil → next x ∈ xs ∧ prev (next x) = x) := by
  obtain ⟨as, bs, rfl⟩ := List.append_of_mem hx
  obtain ⟨last, hs⟩ := h.seg
  obtain ⟨m, l, has, hl, hprev, hbs⟩ := Seg.append.mp hs
  have hafter : next x ≠ nil → next x ∈ as ++ x :: bs ∧ prev (next x) = x := by
    cases bs with
    | nil => exact fun hne => absurd hbs.2.symm hne
    | cons b bs =>
      obtain ⟨hb, hpb, -⟩ := hbs
      intro _
      rw [hb]
      exact ⟨by simp, hpb⟩
  subst l
  rcases List.eq_nil_or_concat' as with rfl | ⟨as', a, rfl⟩
  · exact ⟨fun _ => has.2.symm, fun hne => absurd (hprev.trans has.1) hne, hafter⟩
  · -- `x` follows `a`, so its back link is `a` and not `nil`
    obtain ⟨m', l', has', ha, -, hm, hx'⟩ := Seg.append.mp has
    have hpa : prev x = a := hprev.trans hm
    refine ⟨fun hnil => ?_, fun _ => ?_, hafter⟩
    · exact absurd (hpa ▸ hnil) (fun heq => h.nil_notMem (by simp [← heq]))
    · rw [hpa]
      exact ⟨by simp, hx'.symm⟩

/-- The nodes of a segment and its two ends fix its first node and all of its links. -/
theorem Seg.determined : ∀ {xs : List α} {p h h' q q' t : α}, Seg next prev p h xs q t →
    Seg next' prev' p h' xs q' t →
    h = h' ∧ ∀ x ∈ xs, next x = next' x ∧ prev x = prev' x := by
  intro xs
  induction xs with
  | nil =>
    intro p h h' q q' t hs hs'
    exact ⟨hs.2.symm.trans hs'.2, fun x hx => absurd hx List.not_mem_nil⟩
  | cons x xs ih =>
    intro p h h' q q' t hs hs'
    obtain ⟨rfl, hprev, hs⟩ := hs
    obtain ⟨rfl, hprev', hs'⟩ := hs'
    -- the forward link of `x` is the first node of the rest
    obtain ⟨hnext, hrest⟩ := ih hs hs'
    refine ⟨rfl, fun y hy => ?_⟩
    rcases List.mem_cons.mp hy with rfl | hy
    · exact ⟨hnext, hprev.trans hprev'.symm⟩
    · exact hrest y hy

/-- Two tables that hold the same list agree on its first node and on the links of its nodes. -/
theorem IsDll.determined {head' : α} (h : IsDll next prev nil head xs)
    (h' : IsDll next' prev' nil head' xs) :
    head = head' ∧ ∀ x ∈ xs, next x = next' x ∧ prev x = prev' x := by
  obtain ⟨last, hs⟩ := h.seg
  obtain ⟨last', hs'⟩ := h'.seg
  exact hs.determined hs'

/-- Following the links from the head leads to a node `x` also in tables that have changed, as long as
the forward links in front of `x` have not. -/
theorem Seg.mem_of_agree {as bs ys : List α} {p p' h q q' x : α}
    (hs : Seg next prev p h (as ++ x :: bs) q nil) (hs' : Seg next' prev' p' h ys q' nil)
    (hnil : nil ∉ as ++ x :: bs) (hsame : ∀ a ∈ as, next' a = next a) : x ∈ ys := by
  induction as generalizing p p' h ys with
  | nil =>
    obtain ⟨rfl, -, -⟩ := hs
    cases ys with
    | nil => exact absurd (hs'.2 ▸ List.mem_cons_self) hnil
    | cons y ys =>
      rw [hs'.1]
      exact List.mem_cons_self
  | cons a as ih =>
    obtain ⟨rfl, -, hs⟩ := hs
    cases ys with
    | nil => exact absurd (hs'.2 ▸ List.mem_cons_self) hnil
    | cons y ys =>
      obtain ⟨rfl, -, hs'⟩ := hs'
      rw [hsame h List.mem_cons_self] at hs'
      exact List.mem_cons_of_mem h (ih hs hs' (fun hin => hnil (List.mem_cons_of_mem h hin))
        fun b hb => hsame b (List.mem_cons_of_mem h hb))

/-- An element of one list is an element of another one with the same head, when the links in front
of it are the same. -/
theorem IsDll.mem_of_agree {as bs ys : List α} {x : α}
    (h : IsDll next prev nil head (as ++ x :: bs)) (h' : IsDll next' prev' nil head ys)
    (hsame : ∀ a ∈ as, next' a = next a) : x ∈ ys := by
  obtain ⟨last, hs⟩ := h.seg
  obtain ⟨last', hs'⟩ := h'.seg
  exact hs.mem_of_agree hs' h.nil_notMem hsame

section Update

variable [DecidableEq α]

/-- The back links after `x` has been put in front of the node `head`. -/
def pushPrev (prev : α → α) (nil head x : α) : α → α :=
  Function.update (if head ≠ nil then Function.update prev head x else prev) x nil

/-- Putting a new node in front: the head, the links of the node and the link back from the old head
change. -/
theorem IsDll.push (h : IsDll next prev nil head xs) {x : α} (hx : x ∉ xs) (hnil : x ≠ nil) :
    IsDll (Function.update next x head) (pushPrev prev nil head x) nil x (x :: xs) := by
  refine ⟨?_, List.nodup_cons.mpr ⟨hx, h.nodup⟩, ?_⟩
  · obtain ⟨last, hs⟩ := h.seg
    have hback : ∃ last, Seg (Function.update next x head) (pushPrev prev nil head x)
        x head xs last nil := by
      refine hs.relink_first h.nodup (fun y hy => ?_) (fun y hy hyh => ?_) fun hmem => ?_
      · exact Function.update_of_ne (fun heq : y = x => hx (heq ▸ hy)) _ _
      · have hyx : y ≠ x := fun heq => hx (heq ▸ hy)
        rw [pushPrev, Function.update_of_ne hyx]
        split
        · rw [Function.update_of_ne hyh]
        · rfl
      · have hhx : head ≠ x := fun heq => hx (heq ▸ hmem)
        have hne : head ≠ nil := fun heq => h.nil_notMem (heq ▸ hmem)
        rw [pushPrev, Function.update_of_ne hhx, if_pos hne, Function.update_self]
    obtain ⟨last', hback⟩ := hback
    refine ⟨last', rfl, Function.update_self _ _ _, ?_⟩
    rw [Function.update_self]
    exact hback
  · intro hmem
    rcases List.mem_cons.mp hmem with heq | hmem
    · exact hnil heq.symm
    · exact h.nil_notMem hmem

/-- The forward links after `x` has been taken out. -/
def unlinkNext (next prev : α → α) (nil x : α) : α → α :=
  Function.update (if prev x = nil then next else Function.update next (prev x) (next x)) x nil

/-- The back links after `x` has been taken out. -/
def unlinkPrev (next prev : α → α) (nil x : α) : α → α :=
  Function.update (if next x ≠ nil then Function.update prev (next x) (prev x) else prev) x nil

/-- The first node after `x` has been taken out. -/
def unlinkHead (next prev : α → α) (nil head x : α) : α :=
  if prev x = nil then next x else head

/-- Unlinking an element changes the `next` links of this element and of its predecessor only. -/
theorem unlinkNext_of_ne {x y : α} (hx : y ≠ x) (hp : prev x ≠ nil → y ≠ prev x) :
    unlinkNext next prev nil x y = next y := by
  rw [unlinkNext, Function.update_of_ne hx]
  split
  · rfl
  · next hnil => rw [Function.update_of_ne (hp hnil)]

theorem unlinkNext_prev {x : α} (hx : prev x ≠ x) (hnil : prev x ≠ nil) :
    unlinkNext next prev nil x (prev x) = next x := by
  rw [unlinkNext, Function.update_of_ne hx, if_neg hnil, Function.update_self]

/-- Unlinking an element changes the `prev` links of this element and of its successor only. -/
theorem unlinkPrev_of_ne {x y : α} (hx : y ≠ x) (hn : next x ≠ nil → y ≠ next x) :
    unlinkPrev next prev nil x y = prev y := by
  rw [unlinkPrev, Function.update_of_ne hx]
  split
  · next hnil => rw [Function.update_of_ne (hn hnil)]
  · rfl

theorem unlinkPrev_next {x : α} (hx : next x ≠ x) (hnil : next x ≠ nil) :
    unlinkPrev next prev nil x (next x) = prev x := by
  rw [unlinkPrev, Function.update_of_ne hx, if_pos hnil, Function.update_self]

/-- The two parts around the node `x` meet once it has been taken out. -/
theorem Seg.unlink {as bs : List α} {x last : α}
    (hs : Seg next prev nil head (as ++ x :: bs) last nil)
    (hnodup : (as ++ x :: bs).Nodup) (hnil : nil ∉ as ++ x :: bs) :
    ∃ last, Seg (unlinkNext next prev nil x) (unlinkPrev next prev nil x) nil
      (unlinkHead next prev nil head x) (as ++ bs) last nil := by
  obtain ⟨m, l, has, hl, hprev, hbs⟩ := Seg.append.mp hs
  subst l
  obtain ⟨hnas, hnbs, hdis⟩ := List.nodup_append.mp hnodup
  obtain ⟨hxbs, hnbs⟩ := List.nodup_cons.mp hnbs
  have hxas : x ∉ as := fun hmem => hdis x hmem x List.mem_cons_self rfl
  have hab : ∀ a ∈ as, a ∉ bs := fun a ha hmem => hdis a ha a (List.mem_cons_of_mem x hmem) rfl
  -- the node before `x` lies in `as` and the node after it in `bs`, where there is one
  have hbefore : prev x ≠ nil → prev x ∈ as := by
    intro hne
    rw [hprev] at hne ⊢
    exact has.last_mem.resolve_left hne
  have hafter : next x ≠ nil → next x ∈ bs := hbs.first_mem.resolve_left
  have hback : ∃ last, Seg (unlinkNext next prev nil x) (unlinkPrev next prev nil x)
      m (next x) bs last nil := by
    refine hbs.relink_first hnbs (fun c hc => ?_) (fun c hc hne => ?_) fun hmem => ?_
    · exact unlinkNext_of_ne (fun heq => hxbs (heq ▸ hc))
        fun hne heq => hab c (heq ▸ hbefore hne) hc
    · exact unlinkPrev_of_ne (fun heq => hxbs (heq ▸ hc)) fun _ => hne
    · have hne : next x ≠ nil := fun heq => hnil (by simp [← heq, hmem])
      have hnx : next x ≠ x := fun heq => hxbs (by rwa [heq] at hmem)
      exact (unlinkPrev_next hnx hne).trans hprev
  obtain ⟨last', hback⟩ := hback
  rcases List.eq_nil_or_concat' as with rfl | ⟨as', a, rfl⟩
  · -- `x` was the first node
    obtain ⟨rfl, rfl⟩ := has
    rw [unlinkHead, if_pos hprev]
    exact ⟨last', hback⟩
  · -- `x` stood behind `a`, whose forward link is redirected
    obtain ⟨-, -, -, -, -, rfl, -⟩ := Seg.append.mp has
    have hne : prev x ≠ nil := fun heq => hnil (by simp [← heq, hprev])
    have hmx : prev x ≠ x := fun heq => hxas (heq ▸ hbefore hne)
    rw [unlinkHead, if_neg hne]
    refine ⟨last', Seg.append.mpr ⟨m, next x, has.relink_last ?_ ?_ ?_ ?_, hback⟩⟩
    · exact fun hmem => (List.nodup_append.mp hnas).2.2 m hmem m (by simp) rfl
    · exact fun c hc => unlinkPrev_of_ne (fun heq => hxas (heq ▸ hc))
        fun hne heq => hab c hc (heq ▸ hafter hne)
    · intro c hc hcm
      refine unlinkNext_of_ne (fun heq => hxas (by simp [← heq, hc])) fun _ heq => ?_
      exact hcm (heq.trans hprev)
    · rw [← hprev]
      exact unlinkNext_prev hmx hne

/-- Taking a node out, wherever it stands: its neighbours are linked to each other, or the head
moves on. -/
theorem IsDll.unlink (h : IsDll next prev nil head xs) {x : α} (hx : x ∈ xs) :
    IsDll (unlinkNext next prev nil x) (unlinkPrev next prev nil x) nil
      (unlinkHead next prev nil head x) (xs.erase x) := by
  refine ⟨?_, h.nodup.erase x, fun hmem => h.nil_notMem (List.mem_of_mem_erase hmem)⟩
  obtain ⟨last, hs⟩ := h.seg
  obtain ⟨as, bs, hxas, rfl, herase⟩ := List.exists_erase_eq hx
  rw [herase]
  exact hs.unlink h.nodup h.nil_notMem

end Update

/-! ## Singly linked lists

The same with the `next` links alone, as the heap uses them for its slabs and free objects. -/

/-- Following `next` from `head` visits exactly `xs` and ends at `nil`. -/
def Sll (next : α → α) (nil : α) : α → List α → Prop
  | head, [] => head = nil
  | head, x :: xs => head = x ∧ x ≠ nil ∧ Sll next nil (next x) xs

/-- A list only reads the links of its own nodes. -/
theorem Sll.frame (hsame : ∀ x ∈ xs, next' x = next x) (h : Sll next nil head xs) :
    Sll next' nil head xs := by
  induction xs generalizing head with
  | nil => exact h
  | cons x xs ih =>
    obtain ⟨h1, h2, h3⟩ := h
    refine ⟨h1, h2, ?_⟩
    rw [hsame x List.mem_cons_self]
    exact ih (fun y hy => hsame y (List.mem_cons_of_mem x hy)) h3

/-- The head of a list is `nil` or one of its nodes. -/
theorem Sll.head_eq {xs : List α} {head : α} (h : Sll next nil head xs) :
    head = nil ∨ head ∈ xs := by
  cases xs with
  | nil => exact Or.inl h
  | cons x xs => exact Or.inr (h.1 ▸ List.mem_cons_self)

/-- Nodes laid out by index, each linked to the next and the last one to `nil`, form a list. -/
theorem Sll.of_indexed {node : Nat → α} {total : Nat}
    (hnext : ∀ j < total, next (node j) = if j + 1 < total then node (j + 1) else nil)
    (hne : ∀ j < total, node j ≠ nil) : ∀ {n i : Nat}, i + n = total →
      Sll next nil (if i < total then node i else nil) ((List.range' i n).map node) := by
  intro n
  induction n with
  | zero =>
    intro i hi
    rw [if_neg (by omega)]
    rfl
  | succ n ih =>
    intro i hi
    have hlt : i < total := by omega
    rw [if_pos hlt, List.range'_succ, List.map_cons]
    refine ⟨rfl, hne i hlt, ?_⟩
    rw [hnext i hlt]
    exact ih (by omega)

end Linked
