import Mathlib.Algebra.GroupWithZero.Nat
import Mathlib.Tactic.Common

/-!
# Lists with one slot replaced

A pool of workers is a list in which a step replaces one slot. `sum_map_set_add` says how a sum over all
slots changes with it and `countP_set_add` how a count does; both are stated as a balance, without
subtraction, for `omega` to use.
-/

namespace Slots
variable {α : Type} {l : List α} {i : Nat} {a : α}

theorem set_of_getElem? (h : l[i]? = some a) : l.set i a = l := by
  obtain ⟨hi, rfl⟩ := List.getElem?_eq_some_iff.mp h
  exact List.set_getElem_self hi

theorem forall_mem_set {q : α → Prop} (h : ∀ x ∈ l, q x) (hnew : q a) : ∀ x ∈ l.set i a, q x := by
  intro x hx
  rcases List.mem_or_eq_of_mem_set hx with hx | rfl
  · exact h x hx
  · exact hnew

theorem exists_mem_set {q : α → Prop} {b : α} (h : ∃ x ∈ l, q x) (hi : l[i]? = some a) (ha : ¬ q a) :
    ∃ x ∈ l.set i b, q x := by
  obtain ⟨x, hx, hq⟩ := h
  obtain ⟨j, hj⟩ := List.getElem?_of_mem hx
  have hne : i ≠ j := by
    rintro rfl
    cases hi.symm.trans hj
    exact ha hq
  refine ⟨x, List.mem_of_getElem? (i := j) ?_, hq⟩
  rw [List.getElem?_set_ne hne, hj]

theorem sum_map_set_add (f : α → Nat) (b : α) (h : l[i]? = some a) :
    ((l.set i b).map f).sum + f a = (l.map f).sum + f b := by
  induction l generalizing i with
  | nil => cases h
  | cons x l ih =>
    cases i with
    | zero =>
      cases h
      rw [List.set_cons_zero, List.map_cons, List.map_cons, List.sum_cons, List.sum_cons]; omega
    | succ i =>
      have := ih h
      rw [List.set_cons_succ, List.map_cons, List.map_cons, List.sum_cons, List.sum_cons]; omega

theorem countP_cons_toNat (p : α → Bool) (a : α) (l : List α) :
    (a :: l).countP p = l.countP p + (p a).toNat := by
  rw [List.countP_cons]; cases p a <;> rfl

theorem countP_concat_toNat (p : α → Bool) (l : List α) (a : α) :
    (l ++ [a]).countP p = l.countP p + (p a).toNat := by
  rw [List.countP_append, countP_cons_toNat, List.countP_nil, Nat.zero_add]

theorem countP_eq_sum (p : α → Bool) (l : List α) : l.countP p = (l.map fun a => (p a).toNat).sum := by
  induction l with
  | nil => rfl
  | cons a l ih => rw [countP_cons_toNat, ih, List.map_cons, List.sum_cons, Nat.add_comm]

theorem countP_set_add (p : α → Bool) (b : α) (h : l[i]? = some a) :
    (l.set i b).countP p + (p a).toNat = l.countP p + (p b).toNat := by
  rw [countP_eq_sum, countP_eq_sum]
  exact sum_map_set_add (fun a => (p a).toNat) b h

theorem eq_of_countP_le_one {p : α → Bool} {b : α} (h : l.countP p ≤ 1) (ha : a ∈ l) (hpa : p a = true)
    (hb : b ∈ l) (hpb : p b = true) : a = b := by
  rw [List.countP_eq_length_filter] at h
  have ha' : a ∈ l.filter p := List.mem_filter.mpr ⟨ha, hpa⟩
  have hb' : b ∈ l.filter p := List.mem_filter.mpr ⟨hb, hpb⟩
  rcases hl : l.filter p with _ | ⟨x, _ | ⟨y, rest⟩⟩
  · rw [hl] at ha'; cases ha'
  · rw [hl, List.mem_singleton] at ha' hb'; rw [ha', hb']
  · rw [hl] at h; simp at h

theorem index_eq_of_countP_le_one {p : α → Bool} {b : α} {j : Nat} (h : l.countP p ≤ 1) (hi : l[i]? = some a)
    (hpa : p a = true) (hj : l[j]? = some b) (hpb : p b = true) : i = j := by
  induction l generalizing i j with
  | nil => cases hi
  | cons x l ih =>
    -- the first slot counts, so none of the others does
    have hfirst : p x = true → ∀ {n : Nat} {c : α}, l[n]? = some c → p c = true → False := by
      intro hx n c hn hc
      have hpos : 0 < l.countP p := List.countP_pos_iff.mpr ⟨c, List.mem_of_getElem? hn, hc⟩
      rw [List.countP_cons_of_pos hx] at h
      omega
    cases i with
    | zero =>
      cases hi
      cases j with
      | zero => rfl
      | succ j => exact (hfirst hpa hj hpb).elim
    | succ i =>
      cases j with
      | zero =>
        cases hj
        exact (hfirst hpb hi hpa).elim
      | succ j =>
        have hle : l.countP p ≤ 1 := by
          rw [countP_cons_toNat] at h
          omega
        exact congrArg (· + 1) (ih hle hi hj)

end Slots
