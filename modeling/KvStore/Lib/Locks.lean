import Mathlib.Data.Finset.Basic

/-!
# Sections under a lock

`RwLock` is a `shared_mutex`: it is held by any number of threads that share it or by one alone. What a thread
does while it holds the lock is a program of small steps on what the lock protects: `micro p s` is the next one
from the place `p` of the program, `none` if it is an access to something that is not there. `Completes p s s' out`:
from `p` and `s` the program runs to its end, without such an access, and leaves `s'` and the result `out`. If
nobody else changes `s` on the way, it does not matter how far the program has got: what it has still to do is
described by the same `s'` and `out` (`Completes.step`).
-/

/-- A reader-writer lock; it is free if nobody shares it. -/
inductive RwLock where
  | shared (holders : Finset Nat)
  | exclusive (holder : Nat)
deriving DecidableEq

namespace RwLock

def free : RwLock := .shared ∅

def acquire (exclusive : Bool) (id : Nat) : RwLock → Option RwLock
  | .shared holders =>
    if exclusive then if holders = ∅ then some (.exclusive id) else none else some (.shared (insert id holders))
  | .exclusive _ => none

def release (id : Nat) : RwLock → RwLock
  | .shared holders => .shared (holders.erase id)
  | .exclusive _ => .shared ∅

def Holds (exclusive : Bool) (id : Nat) : RwLock → Prop
  | .shared holders => exclusive = false ∧ id ∈ holders
  | .exclusive holder => exclusive = true ∧ id = holder

variable {l l' : RwLock} {exclusive e : Bool} {id i : Nat}

theorem not_holds_free : ¬ free.Holds e i := fun h => absurd h.2 (Finset.notMem_empty i)

theorem holds_acquire (h : l.acquire exclusive id = some l') :
    l'.Holds e i ↔ l.Holds e i ∨ (e = exclusive ∧ i = id) := by
  cases l with
  | exclusive holder => cases h
  | shared holders =>
    unfold acquire at h
    dsimp only at h
    split_ifs at h with hex hempty
    · cases h
      subst hempty
      simp [Holds, hex]
    · cases h
      simp only [Bool.not_eq_true] at hex
      simp only [Holds, hex, Finset.mem_insert]
      tauto

theorem not_holds_of_acquire (h : l.acquire exclusive id = some l') : ¬ l.Holds true i := by
  cases l with
  | exclusive holder => cases h
  | shared holders => exact fun hholds => Bool.noConfusion hholds.1

theorem holds_release (h : l.Holds exclusive id) : (l.release id).Holds e i ↔ l.Holds e i ∧ i ≠ id := by
  cases l with
  | shared holders =>
    simp only [release, Holds, Finset.mem_erase]
    tauto
  | exclusive holder =>
    obtain ⟨-, rfl⟩ := h
    simp only [release, Holds, Finset.notMem_empty, and_false, false_iff]
    rintro ⟨⟨-, heq⟩, hne⟩
    exact hne heq

theorem Holds.unique (h : l.Holds true id) (h' : l.Holds e i) : e = true ∧ i = id := by
  cases l with
  | shared holders => cases h.1
  | exclusive holder => exact ⟨h'.1, h'.2.trans h.2.symm⟩

theorem acquire_isSome (h : ∀ e i, ¬ l.Holds e i) (exclusive : Bool) (id : Nat) :
    ∃ l', l.acquire exclusive id = some l' := by
  cases l with
  | exclusive holder => exact absurd ⟨rfl, rfl⟩ (h true holder)
  | shared holders =>
    have hempty : holders = ∅ := Finset.eq_empty_of_forall_notMem fun i hi => h false i ⟨rfl, hi⟩
    cases exclusive with
    | false => exact ⟨_, rfl⟩
    | true => exact ⟨_, if_pos hempty⟩

end RwLock

namespace Sections
variable {σ π ρ : Type}

inductive Completes (micro : π → σ → Option (σ × (π ⊕ ρ))) : π → σ → σ → ρ → Prop
  | last {p : π} {s s' : σ} {out : ρ} : micro p s = some (s', .inr out) → Completes micro p s s' out
  | next {p p₁ : π} {s s₁ s' : σ} {out : ρ} : micro p s = some (s₁, .inl p₁) → Completes micro p₁ s₁ s' out →
    Completes micro p s s' out

/-- The same from a place in the program or from its end. -/
def Finishes (micro : π → σ → Option (σ × (π ⊕ ρ))) : π ⊕ ρ → σ → σ → ρ → Prop
  | .inl p, s, s', out => Completes micro p s s' out
  | .inr result, s, s', out => s' = s ∧ out = result

variable {micro : π → σ → Option (σ × (π ⊕ ρ))} {p : π} {s s' : σ} {out : ρ}

theorem Completes.step (h : Completes micro p s s' out) :
    ∃ s₁ next, micro p s = some (s₁, next) ∧ Finishes micro next s₁ s' out := by
  cases h with
  | last h => exact ⟨s', .inr out, h, rfl, rfl⟩
  | next h hrest => exact ⟨_, _, h, hrest⟩

theorem Completes.unique {s'' : σ} {out' : ρ} (h : Completes micro p s s' out) (h' : Completes micro p s s'' out') :
    s' = s'' ∧ out = out' := by
  induction h generalizing s'' out' with
  | last h =>
    cases h' with
    | last h' => cases h.symm.trans h'; exact ⟨rfl, rfl⟩
    | next h' _ => cases h.symm.trans h'
  | next h _ ih =>
    cases h' with
    | last h' => cases h.symm.trans h'
    | next h' hrest => cases h.symm.trans h'; exact ih hrest

end Sections
