import Mathlib.Data.Set.Insert
import Mathlib.Data.List.Basic

/-!
# Lifetimes

A log of what happens to objects: one starts to exist, is used, or ceases to exist. The same name may come to
life again later, as the number of a file descriptor does. `Proper` says that nothing is used or ended that
does not exist and that nothing starts twice; `Proper.alive` reads such a log backwards from a use to the start
it belongs to.
-/

namespace Lifetimes

inductive Life (α : Type) where
  | starts (a : α)
  | uses (a : α)
  | ends (a : α)
deriving DecidableEq, Repr

variable {α : Type}

namespace Life

def next (live : Set α) : Life α → Set α
  | .starts a => insert a live
  | .uses _ => live
  | .ends a => live \ {a}

def Legal (live : Set α) : Life α → Prop
  | .starts a => a ∉ live
  | .uses a => a ∈ live
  | .ends a => a ∈ live

end Life

def liveAfter (live : Set α) : List (Life α) → Set α
  | [] => live
  | e :: log => liveAfter (e.next live) log

def Proper (live : Set α) : List (Life α) → Prop
  | [] => True
  | e :: log => e.Legal live ∧ Proper (e.next live) log

variable {live : Set α} {a : α} {log log' : List (Life α)}

@[simp] theorem liveAfter_nil : liveAfter live [] = live := rfl

@[simp] theorem liveAfter_cons {e : Life α} : liveAfter live (e :: log) = liveAfter (e.next live) log := rfl

@[simp] theorem proper_nil : Proper live [] := trivial

@[simp] theorem proper_cons {e : Life α} : Proper live (e :: log) ↔ e.Legal live ∧ Proper (e.next live) log := .rfl

theorem liveAfter_append : liveAfter live (log ++ log') = liveAfter (liveAfter live log) log' := by
  induction log generalizing live with
  | nil => rfl
  | cons e log ih => exact ih

theorem proper_append : Proper live (log ++ log') ↔ Proper live log ∧ Proper (liveAfter live log) log' := by
  induction log generalizing live with
  | nil => simp
  | cons e log ih =>
    rw [List.cons_append, proper_cons, proper_cons, ih, and_assoc]
    rfl

theorem liveAfter_uses (objects : List α) : liveAfter live (objects.map .uses) = live := by
  induction objects with
  | nil => rfl
  | cons a objects ih => exact ih

theorem proper_uses {objects : List α} : Proper live (objects.map .uses) ↔ ∀ a ∈ objects, a ∈ live := by
  induction objects with
  | nil => simp
  | cons a objects ih =>
    rw [List.map_cons, proper_cons, List.forall_mem_cons]
    exact and_congr_right fun _ => ih

theorem mem_liveAfter (h : a ∈ liveAfter live log) :
    (a ∈ live ∧ .ends a ∉ log) ∨ ∃ before after, log = before ++ .starts a :: after ∧ .ends a ∉ after := by
  induction log generalizing live with
  | nil => exact .inl ⟨h, List.not_mem_nil⟩
  | cons e log ih =>
    rcases ih h with ⟨hlive, hends⟩ | ⟨before, after, rfl, hends⟩
    · cases e with
      | starts b =>
        rcases hlive with rfl | hlive
        · exact .inr ⟨[], log, rfl, hends⟩
        · exact .inl ⟨hlive, by simpa using hends⟩
      | uses b => exact .inl ⟨hlive, by simpa using hends⟩
      | ends b =>
        obtain ⟨hlive, hne⟩ := hlive
        refine .inl ⟨hlive, fun hmem => ?_⟩
        rcases List.mem_cons.mp hmem with heq | hmem
        · exact hne (Life.ends.inj heq)
        · exact hends hmem
    · exact .inr ⟨e :: before, after, rfl, hends⟩

/-- Whatever is used or ended has started before, and has not ended in between. -/
theorem Proper.alive (h : Proper ∅ log) {before after : List (Life α)} {e : Life α}
    (hlog : log = before ++ e :: after) (he : e = .uses a ∨ e = .ends a) :
    ∃ earlier between, before = earlier ++ .starts a :: between ∧ .ends a ∉ between := by
  rw [hlog, proper_append] at h
  have hmem : a ∈ liveAfter ∅ before := by
    rcases he with rfl | rfl
    · exact h.2.1
    · exact h.2.1
  rcases mem_liveAfter hmem with ⟨hnone, -⟩ | hstart
  · exact absurd hnone (Set.notMem_empty a)
  · exact hstart

end Lifetimes
