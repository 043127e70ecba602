import KvStore.Lib.Lifetimes
import KvStore.Lib.Transition
import Mathlib.Logic.Function.Basic

/-!
# Resources with one holder

Resources come into being in somebody's hands, pass from hand to hand, are used by whoever holds them and end
there. `Custody` says who holds what: being a function it leaves no room for two holders, and what nobody holds
does not exist. The log of any sequence of such changes is a `Proper` one, and the resources that are alive after
it are those somebody holds (`proper_of_exec`).
-/

namespace Ownership
open Lifetimes Transition

section
variable {η ρ : Type}

/-- Who holds each resource. -/
abbrev Custody (η ρ : Type) := ρ → Option η

def Custody.held (who : Custody η ρ) : Set ρ := {r | who r ≠ none}

theorem mem_held {who : Custody η ρ} {r : ρ} {h : η} (hr : who r = some h) : r ∈ who.held := fun hnone => by
  rw [hr] at hnone
  cases hnone

end

section
variable {η ρ : Type} [DecidableEq ρ]

inductive Change : Custody η ρ → List (Life ρ) → Custody η ρ → Prop
  | acquire {who : Custody η ρ} {r : ρ} (h : η) : who r = none →
    Change who [.starts r] (Function.update who r (some h))
  | pass {who : Custody η ρ} {r : ρ} {h : η} (h' : η) : who r = some h →
    Change who [] (Function.update who r (some h'))
  | use {who : Custody η ρ} {r : ρ} {h : η} : who r = some h → Change who [.uses r] who
  | drop {who : Custody η ρ} {r : ρ} {h : η} : who r = some h →
    Change who [.ends r] (Function.update who r none)

variable {who who' : Custody η ρ} {evs log : List (Life ρ)}

theorem held_update_some (who : Custody η ρ) (r : ρ) (h : η) :
    Custody.held (Function.update who r (some h)) = insert r who.held := by
  ext x
  by_cases hx : x = r
  · simp [Custody.held, hx]
  · simp [Custody.held, hx]

theorem held_update_none (who : Custody η ρ) (r : ρ) :
    Custody.held (Function.update who r none) = who.held \ {r} := by
  ext x
  by_cases hx : x = r
  · simp [Custody.held, hx]
  · simp [Custody.held, hx]

theorem Change.proper (hchange : Change who evs who') : Proper who.held evs ∧ liveAfter who.held evs = who'.held := by
  cases hchange with
  | acquire h hr =>
    refine ⟨⟨fun hmem => hmem hr, trivial⟩, ?_⟩
    rw [held_update_some]; rfl
  | pass h' hr =>
    refine ⟨trivial, ?_⟩
    rw [held_update_some, Set.insert_eq_of_mem (mem_held hr)]; rfl
  | use hr => exact ⟨⟨mem_held hr, trivial⟩, rfl⟩
  | drop hr =>
    refine ⟨⟨mem_held hr, trivial⟩, ?_⟩
    rw [held_update_none]; rfl

/-- Whatever changes hands, nothing is used or ended that does not exist, and what exists is held. -/
theorem proper_of_exec (hexec : Exec Change (fun _ : ρ => (none : Option η)) log who) :
    Proper ∅ log ∧ liveAfter ∅ log = who.held := by
  have hinit : Proper ∅ ([] : List (Life ρ)) ∧
      liveAfter ∅ ([] : List (Life ρ)) = Custody.held (fun _ : ρ => (none : Option η)) := by
    refine ⟨trivial, ?_⟩
    simp [Custody.held]
  have hstep : ∀ log evs (who who' : Custody η ρ), Proper ∅ log ∧ liveAfter ∅ log = who.held →
      Change who evs who' → Proper ∅ (log ++ evs) ∧ liveAfter ∅ (log ++ evs) = who'.held := by
    intro log evs who who' ⟨hproper, hlive⟩ hchange
    obtain ⟨hproper', hlive'⟩ := hchange.proper
    rw [proper_append, liveAfter_append, hlive]
    exact ⟨⟨hproper, hproper'⟩, hlive'⟩
  exact Exec.invariant hinit hstep hexec

end

end Ownership
