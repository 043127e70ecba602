import Mathlib.Data.Multiset.AddSub
import Mathlib.Data.Multiset.Basic
import Mathlib.Data.List.Sort

/-!
# Priority queues

`PriorityQueue α key` is any min-queue of `α`s ordered by `key`, given by its operations and what they
do to the multiset of its elements. Which of several minimal elements `top?` shows is left open, so a
result about every `PriorityQueue` holds for every order in which an implementation breaks ties.
`sortedList` is one implementation. `Pops` is a sequence of pops; it takes elements off in the order of
their keys (`Pops.sorted`).
-/

/-- A min-queue: `top?` shows a least element and `pop` removes the element `top?` shows. -/
structure PriorityQueue (α : Type) (key : α → Int) where
  Rep : Type
  elems : Rep → Multiset α
  empty : Rep
  push : α → Rep → Rep
  top? : Rep → Option α
  pop : Rep → Rep
  elems_empty : elems empty = 0
  elems_push : ∀ a q, elems (push a q) = a ::ₘ elems q
  top?_eq_none : ∀ q, top? q = none ↔ elems q = 0
  top?_le : ∀ q a, top? q = some a → ∀ b ∈ elems q, key a ≤ key b
  elems_pop : ∀ q a, top? q = some a → elems q = a ::ₘ elems (pop q)

namespace PriorityQueue
variable {α : Type}

def KeyLe (key : α → Int) (a b : α) : Prop := key a ≤ key b

instance (key : α → Int) : DecidableRel (KeyLe key) := fun a b => inferInstanceAs (Decidable (key a ≤ key b))

instance (key : α → Int) : Std.Total (KeyLe key) := ⟨fun a b => Int.le_total (key a) (key b)⟩

instance (key : α → Int) : IsTrans α (KeyLe key) := ⟨fun _ _ _ => Int.le_trans⟩

def sortedList (α : Type) (key : α → Int) : PriorityQueue α key where
  Rep := { l : List α // l.Pairwise (KeyLe key) }
  elems q := (q.1 : Multiset α)
  empty := ⟨[], .nil⟩
  push a q := ⟨q.1.orderedInsert (KeyLe key) a, q.2.orderedInsert a q.1⟩
  top? q := q.1.head?
  pop q := ⟨q.1.tail, q.2.tail⟩
  elems_empty := rfl
  elems_push a q := Multiset.coe_eq_coe.mpr (List.perm_orderedInsert _ a q.1)
  top?_eq_none q := by simp
  top?_le := by
    rintro ⟨l, hl⟩ a ha b hb
    obtain ⟨l', rfl⟩ := List.head?_eq_some_iff.mp ha
    rcases List.mem_cons.mp (Multiset.mem_coe.mp hb) with rfl | hb
    · exact le_rfl
    · exact (List.pairwise_cons.mp hl).1 b hb
  elems_pop := by
    rintro ⟨l, hl⟩ a ha
    obtain ⟨l', rfl⟩ := List.head?_eq_some_iff.mp ha
    rfl

/-! ### Sequences of pops -/

/-- Popping takes `l` off the queue `q`, one element after the other, and leaves `q'`. -/
inductive Pops {key : α → Int} (Q : PriorityQueue α key) : Q.Rep → List α → Q.Rep → Prop
  | nil {q : Q.Rep} : Pops Q q [] q
  | cons {q q' : Q.Rep} {a : α} {l : List α} : Q.top? q = some a → Pops Q (Q.pop q) l q' → Pops Q q (a :: l) q'

namespace Pops
variable {key : α → Int} {Q : PriorityQueue α key} {q q' : Q.Rep} {l : List α}

theorem elems (h : Q.Pops q l q') : Q.elems q = (l : Multiset α) + Q.elems q' := by
  induction h with
  | nil => exact (Multiset.zero_add _).symm
  | cons htop _ ih => rw [Q.elems_pop _ _ htop, ih, ← Multiset.cons_add]; rfl

theorem mem_elems (h : Q.Pops q l q') {a : α} (ha : a ∈ l) : a ∈ Q.elems q := by
  rw [h.elems]
  exact Multiset.mem_add.mpr (.inl (Multiset.mem_coe.mpr ha))

theorem sorted (h : Q.Pops q l q') : l.Pairwise (KeyLe key) := by
  induction h with
  | nil => exact .nil
  | cons htop hpops ih =>
    refine List.pairwise_cons.mpr ⟨fun b hb => Q.top?_le _ _ htop b ?_, ih⟩
    rw [Q.elems_pop _ _ htop]
    exact Multiset.mem_cons_of_mem (hpops.mem_elems hb)

end Pops

end PriorityQueue
