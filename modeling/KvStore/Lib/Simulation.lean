import Mathlib.Order.Basic

/-!
# Machines that answer their inputs

A deterministic machine is a function `step : σ → ι → σ × ο` from a state and an input to the next state
and an output. `outputs_eq` is the simulation rule for machines whose inputs carry a clock value: the
relation may depend on the time, must only get weaker as time goes on, and is re-established by every
pair of steps, which also answer the same.
-/

namespace Simulation
variable {σ α ι ο τ : Type}

def outputs (step : σ → ι → σ × ο) : σ → List ι → List ο
  | _, [] => []
  | s, i :: is => (step s i).2 :: outputs step (step s i).1 is

theorem outputs_eq [Preorder τ] {step : σ → ι → σ × ο} {astep : α → ι → α × ο} (time : ι → τ)
    (R : τ → σ → α → Prop) (hmono : ∀ t t' s a, t ≤ t' → R t s a → R t' s a)
    (hstep : ∀ s a i, R (time i) s a →
      (step s i).2 = (astep a i).2 ∧ R (time i) (step s i).1 (astep a i).1)
    (is : List ι) (hclock : (is.map time).Pairwise (· ≤ ·)) (s : σ) (a : α)
    (h : ∀ i ∈ is, R (time i) s a) : outputs step s is = outputs astep a is := by
  induction is generalizing s a with
  | nil => rfl
  | cons i is ih =>
    obtain ⟨hle, hrest⟩ := List.pairwise_cons.mp hclock
    obtain ⟨hout, hnext⟩ := hstep s a i (h i List.mem_cons_self)
    have htail := ih hrest _ _ fun j hj => hmono _ _ _ _ (hle _ (List.mem_map_of_mem hj)) hnext
    rw [outputs, outputs, hout, htail]

end Simulation
