import Mathlib.Data.List.Infix
import Mathlib.Tactic.Common

/-!
# Byte strings and substring search

`find pat l` is the position of the first occurrence of `pat` in `l`, as a string search library
returns it. The lemmas say how a search result survives appending more text: an occurrence that was
found stays the first one (`find_append`), and an occurrence that only shows up after appending ends
behind the old text (`length_lt_of_find_append`).
-/

namespace ByteString

abbrev Bytes := List UInt8

def ascii (s : String) : Bytes := s.toList.map fun c => c.toNat.toUInt8

/-- A string literal is `String.ofList` of its characters; evaluating it builds its UTF-8 encoding, this does not. -/
theorem ascii_ofList (cs : List Char) : ascii (String.ofList cs) = cs.map fun c => c.toNat.toUInt8 := by
  rw [ascii, String.toList_ofList]

def cr : UInt8 := 13
def lf : UInt8 := 10

def crlf : Bytes := [cr, lf]

section
variable {α : Type} [DecidableEq α]

def find (pat : List α) : List α → Option Nat
  | [] => if pat = [] then some 0 else none
  | a :: rest => if pat <+: a :: rest then some 0 else (find pat rest).map (· + 1)

variable {pat l t : List α} {n : Nat}

theorem find_of_match (h : pat <+: l) : find pat l = some 0 := by
  cases l with
  | nil => simp [find, List.prefix_nil.mp h]
  | cons a rest => simp [find, h]

theorem find_cons_of_not_match {a : α} (h : ¬ pat <+: a :: l) :
    find pat (a :: l) = (find pat l).map (· + 1) := by
  rw [find]; simp [h]

theorem find_le_of_prefix_drop : ∀ {l : List α} {n : Nat}, n ≤ l.length → pat <+: l.drop n →
    ∃ m, find pat l = some m ∧ m ≤ n
  | l, 0, _, h => ⟨0, find_of_match (by simpa using h), le_rfl⟩
  | a :: l, n + 1, hn, h => by
    by_cases hp : pat <+: a :: l
    · exact ⟨0, find_of_match hp, Nat.zero_le _⟩
    · obtain ⟨m, hm, hle⟩ := find_le_of_prefix_drop (l := l) (by simpa using hn) (by simpa using h)
      exact ⟨m + 1, by rw [find_cons_of_not_match hp, hm]; rfl, by omega⟩

theorem prefix_drop_of_find : ∀ {l : List α} {n : Nat}, find pat l = some n →
    n ≤ l.length ∧ pat <+: l.drop n
  | [], n, h => by
    rw [find] at h
    split_ifs at h with hp
    cases h; simp [hp]
  | a :: l, n, h => by
    by_cases hp : pat <+: a :: l
    · rw [find_of_match hp] at h; cases h; simpa using hp
    · rw [find_cons_of_not_match hp, Option.map_eq_some_iff] at h
      obtain ⟨m, hm, rfl⟩ := h
      obtain ⟨hle, hpre⟩ := prefix_drop_of_find hm
      exact ⟨by simpa using hle, by simpa using hpre⟩

theorem split_of_find (h : find pat l = some n) :
    ∃ v, l = l.take n ++ (pat ++ v) ∧ (l.take n).length = n := by
  obtain ⟨hle, v, hv⟩ := prefix_drop_of_find h
  exact ⟨v, by rw [hv, List.take_append_drop], by rw [List.length_take]; omega⟩

theorem length_le_of_find (h : find pat l = some n) : n + pat.length ≤ l.length := by
  obtain ⟨v, hl, hn⟩ := split_of_find h
  have := congrArg List.length hl
  simp only [List.length_append, hn] at this; omega

/-- Text behind the first occurrence does not matter. -/
theorem find_append : ∀ {l : List α} {n : Nat}, find pat l = some n → find pat (l ++ t) = some n
  | [], n, h => by
    rw [find] at h
    split_ifs at h with hp
    cases h; exact find_of_match (by simp [hp])
  | a :: l, n, h => by
    by_cases hp : pat <+: a :: l
    · rw [find_of_match hp] at h; cases h
      exact find_of_match (hp.trans (List.prefix_append _ _))
    · rw [find_cons_of_not_match hp, Option.map_eq_some_iff] at h
      obtain ⟨m, hm, rfl⟩ := h
      have hlen := length_le_of_find hm
      -- a prefix match at the head of the longer text already fits in the shorter one
      have hp' : ¬ pat <+: a :: (l ++ t) := fun h' => hp <| by
        have := (List.prefix_append (a :: l) t)
        exact List.prefix_of_prefix_length_le h' this (by simp; omega)
      rw [List.cons_append, find_cons_of_not_match hp', find_append hm]; rfl

/-- An occurrence that was not there before appending `t` ends inside `t`. -/
theorem length_lt_of_find_append (h : find pat l = none) (h' : find pat (l ++ t) = some n) :
    l.length < n + pat.length := by
  by_contra hlt
  obtain ⟨hn, hpre⟩ := prefix_drop_of_find h'
  rw [List.drop_append_of_le_length (by omega)] at hpre
  have hp : pat <+: l.drop n :=
    List.prefix_of_prefix_length_le hpre (List.prefix_append _ _) (by simp; omega)
  obtain ⟨m, hm, -⟩ := find_le_of_prefix_drop (by omega) hp
  rw [h] at hm; cases hm

theorem find_eq_none_of_prefix {p : List α} (h : find pat l = some n) (hend : n + pat.length = l.length)
    (hp : p <+: l) (hne : p ≠ l) : find pat p = none := by
  obtain ⟨t, rfl⟩ := hp
  cases hfind : find pat p with
  | none => rfl
  | some m =>
    rw [find_append hfind] at h
    cases h
    have hle := length_le_of_find hfind
    exact absurd ((List.prefix_append p t).eq_of_length_le (by omega)) hne

theorem find_append_cons {a : α} {p u v : List α} (hu : a ∉ u) :
    find (a :: p) (u ++ (a :: p ++ v)) = some u.length := by
  induction u with
  | nil => exact find_of_match (List.prefix_append _ _)
  | cons b u ih =>
    have hb : ¬ a :: p <+: b :: (u ++ (a :: p ++ v)) := by
      intro h
      rw [List.cons_prefix_cons] at h
      exact hu (by simp [h.1])
    rw [List.cons_append, find_cons_of_not_match hb, ih (fun h => hu (by simp [h]))]; rfl

omit [DecidableEq α] in
/-- Two texts that agree and are both cut at the first `a` have the same part before it. -/
theorem split_unique {a : α} {u u' v v' : List α} (hu : a ∉ u) (hu' : a ∉ u')
    (h : u ++ a :: v <+: u' ++ a :: v') : u = u' ∧ v <+: v' := by
  induction u generalizing u' with
  | nil =>
    cases u' with
    | nil => exact ⟨rfl, (List.cons_prefix_cons.mp h).2⟩
    | cons b u' => exact absurd (by rw [(List.cons_prefix_cons.mp h).1]; simp) hu'
  | cons b u ih =>
    cases u' with
    | nil => exact absurd (by rw [(List.cons_prefix_cons.mp h).1]; simp) hu
    | cons b' u' =>
      obtain ⟨rfl, htail⟩ := List.cons_prefix_cons.mp h
      obtain ⟨rfl, hv⟩ := ih (fun hm => hu (by simp [hm])) (fun hm => hu' (by simp [hm])) htail
      exact ⟨rfl, hv⟩

end
end ByteString
