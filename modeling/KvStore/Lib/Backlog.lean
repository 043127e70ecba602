import Mathlib.Algebra.Order.Group.Nat
import Mathlib.Data.List.Basic

/-!
# Serving in batches

Work arrives, and now and then up to `m` pieces of what has arrived are served. `demand` lists, for each time
of service, how much has arrived in all by then; `served` is what has been served in all at the end.
`le_served_iff` is the usual formula: the service so far is the least of the demands at earlier times and the
full batches since.
-/

namespace Backlog

/-- What has been served after the times of service in `demand`, starting from `done`. -/
def served (m done : Nat) : List Nat → Nat
  | [] => done
  | d :: demand => served m (min d (done + m)) demand

variable {m done x : Nat} {demand : List Nat}

theorem le_served_iff : x ≤ served m done demand ↔
    x ≤ done + demand.length * m ∧
      ∀ earlier d later, demand = earlier ++ d :: later → x ≤ d + later.length * m := by
  induction demand generalizing done with
  | nil => simp [served]
  | cons d demand ih =>
    rw [served, ih, List.length_cons, Nat.succ_mul]
    constructor
    · rintro ⟨hfirst, hlater⟩
      refine ⟨by omega, fun earlier d' later heq => ?_⟩
      cases earlier with
      | nil => cases heq; omega
      | cons e earlier => cases heq; exact hlater earlier d' later rfl
    · rintro ⟨hfull, hsplit⟩
      have hhere := hsplit [] d demand rfl
      exact ⟨by omega, fun earlier d' later heq => hsplit (d :: earlier) d' later (by rw [heq]; rfl)⟩

end Backlog
