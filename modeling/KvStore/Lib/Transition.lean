import Mathlib.Data.List.Basic

/-!
# Labelled transition systems

`R s evs s'` is one step from `s` to `s'` that emits the events `evs`; `Exec R s log s'` is a run of any
number of steps whose events make up `log`. `Exec.invariant` is the induction every safety result uses:
an invariant may speak about the log so far. `Exec.exists_final` is the one for termination, `Exec.map`
turns the runs of one system into runs of another one step at a time, and `run` replays a list of inputs of
a step function.
-/

namespace Transition
variable {σ τ ι ε : Type}

/-- Where an event of a log that has just grown by one stands: it is the new one, or it stood there before. -/
theorem concat_eq_append_cons {log before after : List ε} {e x : ε} (h : log ++ [e] = before ++ x :: after) :
    (before = log ∧ x = e ∧ after = []) ∨ ∃ rest, after = rest ++ [e] ∧ log = before ++ x :: rest := by
  rcases List.eq_nil_or_concat after with rfl | ⟨rest, z, rfl⟩
  · obtain ⟨rfl, hx⟩ := List.append_inj' h rfl
    cases hx
    exact .inl ⟨rfl, rfl, rfl⟩
  · rw [List.concat_eq_append] at h ⊢
    obtain ⟨hlog, hz⟩ := List.append_inj' (h.trans (List.append_assoc before (x :: rest) [z]).symm) rfl
    cases hz
    exact .inr ⟨rest, rfl, hlog⟩

theorem split_of_append {log evs before after : List ε} {x : ε} (h : log ++ evs = before ++ x :: after)
    (hx : x ∉ evs) : ∃ rest, log = before ++ x :: rest := by
  rcases List.append_eq_append_iff.mp h with ⟨a, rfl, hevs⟩ | ⟨a, rfl, hafter⟩
  · exact absurd (hevs ▸ List.mem_append_right a List.mem_cons_self) hx
  · cases a with
    | nil =>
      rw [List.nil_append] at hafter
      exact absurd (hafter ▸ List.mem_cons_self) hx
    | cons y a =>
      cases hafter
      exact ⟨a, rfl⟩

inductive Exec (R : σ → List ε → σ → Prop) (s : σ) : List ε → σ → Prop
  | refl : Exec R s [] s
  | tail {log evs : List ε} {s' s'' : σ} : Exec R s log s' → R s' evs s'' → Exec R s (log ++ evs) s''

namespace Exec
variable {R : σ → List ε → σ → Prop} {s s' s'' : σ} {log log' evs : List ε}

theorem single (h : R s evs s') : Exec R s evs s' := by
  have := Exec.tail .refl h
  rwa [List.nil_append] at this

theorem trans (h : Exec R s log s') (h' : Exec R s' log' s'') : Exec R s (log ++ log') s'' := by
  induction h' with
  | refl => rwa [List.append_nil]
  | tail _ hstep ih => rw [← List.append_assoc]; exact .tail ih hstep

theorem invariant {Inv : List ε → σ → Prop} (hinit : Inv [] s)
    (hstep : ∀ log evs s' s'', Inv log s' → R s' evs s'' → Inv (log ++ evs) s'')
    (h : Exec R s log s') : Inv log s' := by
  induction h with
  | refl => exact hinit
  | tail _ hs ih => exact hstep _ _ _ _ ih hs

/-- A system whose every step is a run of another system under `f` only has runs of that system. -/
theorem map {R' : τ → List ε → τ → Prop} (f : σ → τ)
    (hstep : ∀ s evs s', R s evs s' → Exec R' (f s) evs (f s')) (h : Exec R s log s') :
    Exec R' (f s) log (f s') := by
  induction h with
  | refl => exact .refl
  | tail _ hs ih => exact ih.trans (hstep _ _ _ hs)

/-- The same with a relation in place of a function: what is related at the start can be kept related. -/
theorem simulate {R' : τ → List ε → τ → Prop} {Rel : σ → τ → Prop}
    (hstep : ∀ s t evs s', Rel s t → R s evs s' → ∃ t', Exec R' t evs t' ∧ Rel s' t') {t : τ} (hrel : Rel s t)
    (h : Exec R s log s') : ∃ t', Exec R' t log t' ∧ Rel s' t' := by
  induction h with
  | refl => exact ⟨t, .refl, hrel⟩
  | tail _ hs ih =>
    obtain ⟨t₁, hexec, hrel₁⟩ := ih
    obtain ⟨t₂, hexec', hrel₂⟩ := hstep _ t₁ _ _ hrel₁ hs
    exact ⟨t₂, hexec.trans hexec', hrel₂⟩

/-- A run whose steps emit at most one event each can be cut at every event of its log. -/
theorem cut (hone : ∀ s evs s', R s evs s' → evs.length ≤ 1) (h : Exec R s log s') {before after : List ε}
    {x : ε} (hlog : log = before ++ x :: after) :
    ∃ a b, Exec R s before a ∧ R a [x] b ∧ Exec R b after s' := by
  induction h generalizing after with
  | refl => simp at hlog
  | @tail log evs s' s'' hexec hstep ih =>
    match evs, hone _ _ _ hstep with
    | [], _ =>
      rw [List.append_nil] at hlog
      obtain ⟨a, b, ha, hx, hb⟩ := ih hlog
      exact ⟨a, b, ha, hx, by simpa using hb.tail hstep⟩
    | [y], _ =>
      rcases concat_eq_append_cons hlog with ⟨rfl, rfl, rfl⟩ | ⟨rest, rfl, hinit⟩
      · exact ⟨s', s'', hexec, hstep, .refl⟩
      · obtain ⟨a, b, ha, hx, hb⟩ := ih hinit
        exact ⟨a, b, ha, hx, hb.tail hstep⟩

theorem exists_final (μ : σ → Nat) (hdec : ∀ s evs s', R s evs s' → μ s' < μ s) (s : σ) :
    ∃ log s', Exec R s log s' ∧ ∀ evs s'', ¬ R s' evs s'' := by
  induction hn : μ s using Nat.strongRecOn generalizing s with
  | ind n ih =>
    subst hn
    by_cases hmore : ∃ evs s', R s evs s'
    · obtain ⟨evs, s', hstep⟩ := hmore
      obtain ⟨log, s'', hexec, hfinal⟩ := ih _ (hdec s evs s' hstep) s' rfl
      exact ⟨evs ++ log, s'', (single hstep).trans hexec, hfinal⟩
    · exact ⟨[], s, .refl, fun evs s' hstep => hmore ⟨evs, s', hstep⟩⟩

end Exec

def Step (step : σ → ι → Option (σ × List ε)) (s : σ) (evs : List ε) (s' : σ) : Prop :=
  ∃ i, step s i = some (s', evs)

def run (step : σ → ι → Option (σ × List ε)) : σ → List ι → Option (σ × List ε)
  | s, [] => some (s, [])
  | s, i :: is =>
    match step s i with
    | none => none
    | some (s', evs) => (run step s' is).map fun r => (r.1, evs ++ r.2)

theorem exec_of_run {step : σ → ι → Option (σ × List ε)} {is : List ι} {s s' : σ} {log : List ε}
    (h : run step s is = some (s', log)) : Exec (Step step) s log s' := by
  induction is generalizing s log with
  | nil => cases h; exact .refl
  | cons i is ih =>
    rw [run] at h
    cases hs : step s i with
    | none => rw [hs] at h; cases h
    | some r =>
      rw [hs] at h
      obtain ⟨⟨s'', log'⟩, hrun, heq⟩ := Option.map_eq_some_iff.mp h
      cases heq
      exact (Exec.single ⟨i, hs⟩).trans (ih hrun)

theorem run_append {step : σ → ι → Option (σ × List ε)} {is js : List ι} {s s' s'' : σ} {log log' : List ε}
    (h : run step s is = some (s', log)) (h' : run step s' js = some (s'', log')) :
    run step s (is ++ js) = some (s'', log ++ log') := by
  induction is generalizing s log with
  | nil => cases h; exact h'
  | cons i is ih =>
    rw [run] at h
    rw [List.cons_append, run]
    cases hs : step s i with
    | none => rw [hs] at h; cases h
    | some r =>
      rw [hs] at h
      obtain ⟨⟨s₁, log₁⟩, hrun, heq⟩ := Option.map_eq_some_iff.mp h
      cases heq
      dsimp only
      rw [ih hrun]
      exact congrArg (fun l => some (s'', l)) (List.append_assoc r.2 log₁ log').symm

theorem exec_of_isSome {step : σ → ι → Option (σ × List ε)} {is : List ι} {s : σ}
    (h : (run step s is).isSome = true) :
    Exec (Step step) s ((run step s is).get h).2 ((run step s is).get h).1 :=
  exec_of_run (Option.some_get h).symm

end Transition
