import KvStore.Lib.Simulation
import Mathlib.Data.List.Nodup

/-!
# Linearizability

A history is the list of the calls and answers of concurrent operations; an operation precedes another one
when it was answered before the other was called. `IsLinearization` is a total order of the answered
operations that respects precedence and in which every answer is the one of a sequential machine.

`Points` is the invariant that builds one along a run: the operations that have passed their linearization
point, in the order in which they did. An operation passes it between its call and its answer
(`Points.call`, `Points.pass`, `Points.answer`). In the end those without an answer are dropped, which is
sound as long as they do not change the state (`Points.isLinearization`).
-/

namespace Simulation
variable {σ ι ο : Type} {step : σ → ι → σ × ο}

def stateAfter (step : σ → ι → σ × ο) (s : σ) (is : List ι) : σ := is.foldl (fun s i => (step s i).1) s

theorem stateAfter_concat (s : σ) (is : List ι) (i : ι) :
    stateAfter step s (is ++ [i]) = (step (stateAfter step s is) i).1 := by
  simp [stateAfter]

theorem outputs_concat (s : σ) (is : List ι) (i : ι) :
    outputs step s (is ++ [i]) = outputs step s is ++ [(step (stateAfter step s is) i).2] := by
  induction is generalizing s with
  | nil => rfl
  | cons j is ih => simpa [outputs, stateAfter] using ih _

/-- Leaving out calls that do not change the state does not change the other answers. -/
theorem outputs_filter {α : Type} {call : α → ι} {reply : α → ο} {keep : α → Bool} (l : List α) (s : σ)
    (hidle : ∀ a ∈ l, keep a = false → ∀ s, (step s (call a)).1 = s)
    (h : l.map reply = outputs step s (l.map call)) :
    (l.filter keep).map reply = outputs step s ((l.filter keep).map call) := by
  induction l generalizing s with
  | nil => rfl
  | cons a l ih =>
    obtain ⟨hhead, htail⟩ := List.cons_eq_cons.mp h
    have ih := ih _ (fun b hb => hidle b (List.mem_cons_of_mem _ hb)) htail
    cases hk : keep a with
    | true =>
      rw [List.filter_cons_of_pos hk, List.map_cons, List.map_cons, outputs, ← hhead, ih]
    | false =>
      rw [hidle a List.mem_cons_self hk] at ih
      rwa [List.filter_cons_of_neg (by rw [hk]; exact Bool.false_ne_true)]

end Simulation

namespace Linearizable
open Simulation
variable {σ ι ο : Type}

inductive Event (ι ο : Type) where
  | inv (id : Nat) (call : ι)
  | res (id : Nat) (reply : ο)

/-- An operation and the answer it got or will get. -/
structure Op (ι ο : Type) where
  id : Nat
  call : ι
  reply : ο

/-- Operation `i` was answered before operation `j` was called. -/
def Precedes (h : List (Event ι ο)) (i j : Nat) : Prop :=
  ∃ before after, h = before ++ after ∧ (∃ r, .res i r ∈ before) ∧ ∃ c, .inv j c ∈ after

theorem Precedes.answered {h : List (Event ι ο)} {i j : Nat} (hp : Precedes h i j) : ∃ r, .res i r ∈ h := by
  obtain ⟨before, after, rfl, ⟨r, hr⟩, -⟩ := hp
  exact ⟨r, List.mem_append_left _ hr⟩

/-- A new event changes precedence only if it is a call, and then only for the operation called. -/
theorem Precedes.of_concat {h : List (Event ι ο)} {ev : Event ι ο} {i j : Nat}
    (hp : Precedes (h ++ [ev]) i j) : Precedes h i j ∨ ∃ c, ev = .inv j c := by
  obtain ⟨before, after, heq, ⟨r, hr⟩, c, hc⟩ := hp
  rcases List.eq_nil_or_concat after with rfl | ⟨rest, last, rfl⟩
  · cases hc
  · rw [List.concat_eq_append] at heq hc
    rw [← List.append_assoc] at heq
    obtain ⟨rfl, hlast⟩ := List.append_inj' heq rfl
    cases hlast
    rcases List.mem_append.mp hc with hc | hc
    · exact .inl ⟨before, rest, rfl, ⟨r, hr⟩, c, hc⟩
    · exact .inr ⟨c, (List.mem_singleton.mp hc).symm⟩

structure IsLinearization (step : σ → ι → σ × ο) (s : σ) (h : List (Event ι ο)) (order : List (Op ι ο)) :
    Prop where
  nodup : (order.map Op.id).Nodup
  called : ∀ op ∈ order, .inv op.id op.call ∈ h
  /-- The order holds the answered operations and no others. -/
  answered : ∀ id r, .res id r ∈ h ↔ ∃ op ∈ order, op.id = id ∧ op.reply = r
  respects : order.Pairwise fun a b => ¬ Precedes h b.id a.id
  answers : order.map Op.reply = outputs step s (order.map Op.call)

/-- The operations of `pts` have passed their linearization points, in this order. -/
structure Points (step : σ → ι → σ × ο) (s : σ) (h : List (Event ι ο)) (pts : List (Op ι ο)) : Prop where
  nodup : (pts.map Op.id).Nodup
  called : ∀ op ∈ pts, .inv op.id op.call ∈ h
  answered : ∀ id r, .res id r ∈ h → ∃ op ∈ pts, op.id = id ∧ op.reply = r
  respects : pts.Pairwise fun a b => ¬ Precedes h b.id a.id
  answers : pts.map Op.reply = outputs step s (pts.map Op.call)

namespace Points
variable {step : σ → ι → σ × ο} {s : σ} {h : List (Event ι ο)} {pts : List (Op ι ο)}

theorem nil : Points step s [] [] := ⟨.nil, by simp, by simp, .nil, rfl⟩

theorem call (hp : Points step s h pts) {id : Nat} (c : ι) (hid : ∀ op ∈ pts, op.id ≠ id) :
    Points step s (h ++ [.inv id c]) pts where
  nodup := hp.nodup
  called op hop := List.mem_append_left _ (hp.called op hop)
  answered id' r hr := by
    rcases List.mem_append.mp hr with hr | hr
    · exact hp.answered id' r hr
    · cases List.mem_singleton.mp hr
  respects := hp.respects.imp_of_mem fun {a b} ha _ hab hprec => by
    rcases hprec.of_concat with hprec | ⟨c', heq⟩
    · exact hab hprec
    · cases heq
      exact hid a ha rfl
  answers := hp.answers

/-- An operation in progress takes effect: the machine answers its call in the state reached. -/
theorem pass (hp : Points step s h pts) {id : Nat} {c : ι} (hcall : .inv id c ∈ h)
    (hid : ∀ op ∈ pts, op.id ≠ id) (hnot : ∀ r, .res id r ∉ h) :
    Points step s h (pts ++ [⟨id, c, (step (stateAfter step s (pts.map Op.call)) c).2⟩]) where
  nodup := by
    rw [List.map_append, List.nodup_append]
    refine ⟨hp.nodup, by simp, fun i hi j hj => ?_⟩
    obtain ⟨op, hop, rfl⟩ := List.mem_map.mp hi
    rw [List.map_singleton, List.mem_singleton] at hj
    exact hj ▸ hid op hop
  called op hop := by
    rcases List.mem_append.mp hop with hop | hop
    · exact hp.called op hop
    · rw [List.mem_singleton.mp hop]; exact hcall
  answered id' r hr := by
    obtain ⟨op, hop, hop'⟩ := hp.answered id' r hr
    exact ⟨op, List.mem_append_left _ hop, hop'⟩
  respects := by
    -- the newcomer has no answer yet, so it precedes nothing
    refine List.pairwise_append.mpr ⟨hp.respects, List.pairwise_singleton _ _, fun a _ b hb hprec => ?_⟩
    rw [List.mem_singleton.mp hb] at hprec
    obtain ⟨r, hr⟩ := hprec.answered
    exact hnot r hr
  answers := by
    rw [List.map_append, List.map_append, hp.answers]
    exact (outputs_concat s _ c).symm

theorem answer (hp : Points step s h pts) {op : Op ι ο} (hop : op ∈ pts) :
    Points step s (h ++ [.res op.id op.reply]) pts where
  nodup := hp.nodup
  called op' hop' := List.mem_append_left _ (hp.called op' hop')
  answered id r hr := by
    rcases List.mem_append.mp hr with hr | hr
    · exact hp.answered id r hr
    · cases List.mem_singleton.mp hr
      exact ⟨op, hop, rfl, rfl⟩
  respects := hp.respects.imp fun hab hprec => by
    rcases hprec.of_concat with hprec | ⟨c, heq⟩
    · exact hab hprec
    · cases heq
  answers := hp.answers

theorem eq_of_id (hp : Points step s h pts) {a b : Op ι ο} (ha : a ∈ pts) (hb : b ∈ pts) (hab : a.id = b.id) :
    a = b :=
  List.inj_on_of_nodup_map hp.nodup ha hb hab

theorem isLinearization (hp : Points step s h pts) {keep : Op ι ο → Bool}
    (hkeep : ∀ op ∈ pts, keep op = true ↔ ∃ r, .res op.id r ∈ h)
    (hidle : ∀ op ∈ pts, keep op = false → ∀ s, (step s op.call).1 = s) :
    IsLinearization step s h (pts.filter keep) where
  nodup := hp.nodup.sublist (List.filter_sublist.map _)
  called op hop := hp.called op (List.mem_filter.mp hop).1
  answered id r := by
    constructor
    · intro hr
      obtain ⟨op, hop, rfl, rfl⟩ := hp.answered id r hr
      exact ⟨op, List.mem_filter.mpr ⟨hop, (hkeep op hop).mpr ⟨_, hr⟩⟩, rfl, rfl⟩
    · rintro ⟨op, hop, rfl, rfl⟩
      obtain ⟨hop, hk⟩ := List.mem_filter.mp hop
      obtain ⟨r, hr⟩ := (hkeep op hop).mp hk
      obtain ⟨op', hop', hid, rfl⟩ := hp.answered _ r hr
      rwa [hp.eq_of_id hop' hop hid] at hr
  respects := hp.respects.filter _
  answers := outputs_filter pts s hidle hp.answers

end Points
end Linearizable
