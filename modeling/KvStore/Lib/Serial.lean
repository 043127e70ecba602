import Mathlib.Data.List.Basic
import Mathlib.Tactic.Common

/-!
# Executions that keep conflicting operations in order

Operations on a state `κ → ν` touch some keys and write some of them; two operations conflict if one writes
what the other touches. `Executed` describes the state while a list of operations is executed in some other
order, and `Executed.reply` says that an operation all of whose earlier conflicting operations are done
answers as it would in its turn. The rules `Executed.step` and `Executed.append` keep the description.
-/

namespace Serial
variable {κ ν ρ ο : Type}

structure Ops (κ ν ρ ο : Type) where
  touches : ο → κ → Prop
  writes : ο → κ → Prop
  apply : ο → (κ → ν) → κ → ν
  reply : ο → (κ → ν) → ρ
  touches_of_writes : ∀ {a k}, writes a k → touches a k
  apply_frame : ∀ {a k} (st : κ → ν), ¬ writes a k → apply a st k = st k
  apply_local : ∀ {a k} {st st' : κ → ν}, (∀ k, touches a k → st k = st' k) → writes a k →
    apply a st k = apply a st' k
  reply_local : ∀ {a} {st st' : κ → ν}, (∀ k, touches a k → st k = st' k) → reply a st = reply a st'

namespace Ops
variable (O : Ops κ ν ρ ο) {init : κ → ν} {ops : List ο} {k : κ}

def Conflict (a b : ο) : Prop := ∃ k, O.touches a k ∧ O.touches b k ∧ (O.writes a k ∨ O.writes b k)

def serial (init : κ → ν) (ops : List ο) : κ → ν := ops.foldl (fun st a => O.apply a st) init

def replies (init : κ → ν) : List ο → List ρ
  | [] => []
  | a :: ops => O.reply a init :: replies (O.apply a init) ops

theorem serial_append (init : κ → ν) (ops ops' : List ο) :
    O.serial init (ops ++ ops') = O.serial (O.serial init ops) ops' := List.foldl_append

theorem replies_append (init : κ → ν) (ops ops' : List ο) :
    O.replies init (ops ++ ops') = O.replies init ops ++ O.replies (O.serial init ops) ops' := by
  induction ops generalizing init with
  | nil => rfl
  | cons a ops ih => exact congrArg (_ :: ·) (ih _)

@[simp] theorem length_replies (init : κ → ν) (ops : List ο) : (O.replies init ops).length = ops.length := by
  induction ops generalizing init with
  | nil => rfl
  | cons a ops ih => exact congrArg (· + 1) (ih _)

theorem getElem?_replies {q : Nat} {a : ο} (h : ops[q]? = some a) :
    (O.replies init ops)[q]? = some (O.reply a (O.serial init (ops.take q))) := by
  obtain ⟨hq, rfl⟩ := List.getElem?_eq_some_iff.mp h
  have hsplit : ops = ops.take q ++ ops[q] :: ops.drop (q + 1) := by
    rw [List.getElem_cons_drop, List.take_append_drop]
  have hlen : (O.replies init (ops.take q)).length = q := by
    rw [length_replies, List.length_take]; omega
  conv_lhs => rw [hsplit]
  rw [replies_append, List.getElem?_append_right (Nat.le_of_eq hlen), hlen, Nat.sub_self]
  rfl

theorem serial_frame (h : ∀ a ∈ ops, ¬ O.writes a k) : O.serial init ops k = init k := by
  induction ops generalizing init with
  | nil => rfl
  | cons a ops ih =>
    show O.serial (O.apply a init) ops k = init k
    rw [ih fun b hb => h b (List.mem_cons_of_mem _ hb), O.apply_frame init (h a List.mem_cons_self)]

/-- Two points with the same writes of `k` before them show the same `k`. -/
theorem serial_take_eq {m n : Nat} (h : ∀ q a, ops[q]? = some a → O.writes a k → (q < m ↔ q < n)) :
    O.serial init (ops.take m) k = O.serial init (ops.take n) k := by
  have hle : ∀ {m n : Nat}, m ≤ n → (∀ q a, ops[q]? = some a → O.writes a k → (q < m ↔ q < n)) →
      O.serial init (ops.take n) k = O.serial init (ops.take m) k := by
    intro m n hmn h
    obtain ⟨d, rfl⟩ := Nat.exists_eq_add_of_le hmn
    rw [List.take_add, serial_append]
    refine O.serial_frame fun a ha hw => ?_
    obtain ⟨j, hj, hget⟩ := List.getElem_of_mem ha
    rw [List.getElem_take, List.getElem_drop] at hget
    rw [List.length_take] at hj
    have := h (m + j) a (List.getElem?_eq_some_iff.mpr ⟨_, hget⟩) hw
    omega
  rcases Nat.le_total m n with hmn | hmn
  · exact (hle hmn h).symm
  · exact hle hmn fun q a hq hw => (h q a hq hw).symm

end Ops

/-- `done` tells which of the operations have been executed, in an order that keeps conflicting ones in
place; `st` is the state they left. Every key is as in the serial execution at any point with the same
writes of that key before it. -/
structure Executed (O : Ops κ ν ρ ο) (init : κ → ν) (ops : List ο) (done : Nat → Prop) (st : κ → ν) : Prop where
  ordered : ∀ q q' a a', q < q' → ops[q]? = some a → ops[q']? = some a' → O.Conflict a a' → done q' → done q
  view : ∀ k n, (∀ q a, ops[q]? = some a → O.writes a k → (q < n ↔ done q)) →
    st k = O.serial init (ops.take n) k

namespace Executed
variable {O : Ops κ ν ρ ο} {init st st' : κ → ν} {ops : List ο} {done done' : Nat → Prop} {q : Nat} {a : ο} {k : κ}

theorem start : Executed O init [] done init :=
  ⟨fun q q' a a' _ h => by simp at h, fun k n _ => by rw [List.take_nil]; rfl⟩

/-- When its turn has come, the writes that are done and conflict with an operation are those before it. -/
theorem done_iff (h : Executed O init ops done st) (hq : ops[q]? = some a) (hnot : ¬ done q)
    (hearlier : ∀ p b, p < q → ops[p]? = some b → O.Conflict b a → done p) (hk : O.touches a k) :
    ∀ p b, ops[p]? = some b → O.writes b k → (p < q ↔ done p) := by
  intro p b hp hw
  have htouch := O.touches_of_writes hw
  rcases Nat.lt_trichotomy p q with hlt | rfl | hgt
  · exact iff_of_true hlt (hearlier p b hlt hp ⟨k, htouch, hk, .inl hw⟩)
  · exact iff_of_false (Nat.lt_irrefl _) hnot
  · refine iff_of_false (Nat.not_lt_of_gt hgt) fun hdone => hnot ?_
    exact h.ordered q p a b hgt hq hp ⟨k, hk, htouch, .inr hw⟩ hdone

/-- The operation then finds what it would find in its turn. -/
theorem eq_serial (h : Executed O init ops done st) (hq : ops[q]? = some a) (hnot : ¬ done q)
    (hearlier : ∀ p b, p < q → ops[p]? = some b → O.Conflict b a → done p) :
    ∀ k, O.touches a k → st k = O.serial init (ops.take q) k :=
  fun k hk => h.view k q (h.done_iff hq hnot hearlier hk)

theorem reply (h : Executed O init ops done st) (hq : ops[q]? = some a) (hnot : ¬ done q)
    (hearlier : ∀ p b, p < q → ops[p]? = some b → O.Conflict b a → done p) :
    (O.replies init ops)[q]? = some (O.reply a st) := by
  rw [O.getElem?_replies hq, O.reply_local (h.eq_serial hq hnot hearlier)]

theorem step (h : Executed O init ops done st) (hq : ops[q]? = some a) (hnot : ¬ done q)
    (hearlier : ∀ p b, p < q → ops[p]? = some b → O.Conflict b a → done p)
    (hdone : ∀ p, done' p ↔ done p ∨ p = q) (hst : st' = O.apply a st) : Executed O init ops done' st' := by
  subst hst
  refine ⟨fun p p' b b' hlt hp hp' hc hd => ?_, fun k n hn => ?_⟩
  · rw [hdone] at hd ⊢
    rcases hd with hd | rfl
    · exact .inl (h.ordered p p' b b' hlt hp hp' hc hd)
    · rw [hq] at hp'
      cases hp'
      exact .inl (hearlier p b hlt hp hc)
  · by_cases hw : O.writes a k
    · -- the key is now as after the operation's own turn
      have hiff := h.done_iff hq hnot hearlier (O.touches_of_writes hw)
      have hsame : O.serial init (ops.take n) k = O.serial init (ops.take (q + 1)) k := by
        refine O.serial_take_eq fun p b hp hwb => ?_
        have h1 := hn p b hp hwb
        have h2 := hiff p b hp hwb
        rw [h1, hdone, ← h2]; omega
      have hnext : O.serial init (ops.take (q + 1)) = O.apply a (O.serial init (ops.take q)) := by
        obtain ⟨hlt, rfl⟩ := List.getElem?_eq_some_iff.mp hq
        rw [List.take_add_one, List.getElem?_eq_getElem hlt, Option.toList_some, O.serial_append]; rfl
      rw [hsame, hnext]
      exact O.apply_local (h.eq_serial hq hnot hearlier) hw
    · rw [O.apply_frame st hw]
      refine h.view k n fun p b hp hwb => ?_
      rw [hn p b hp hwb, hdone]
      refine or_iff_left fun hpq => hw ?_
      rw [hpq, hq] at hp
      cases hp; exact hwb

theorem concat (h : Executed O init ops done st) (hlt : ∀ p, done p → p < ops.length) (b : ο) :
    Executed O init (ops ++ [b]) done st := by
  have hold : ∀ {p : Nat} {a : ο}, p < ops.length → (ops ++ [b])[p]? = some a → ops[p]? = some a :=
    fun hp h => by rwa [List.getElem?_append_left hp] at h
  refine ⟨fun p p' a a' hpp hp hp' hc hd => ?_, fun k n hn => ?_⟩
  · have hp'lt := hlt p' hd
    exact h.ordered p p' a a' hpp (hold (Nat.lt_trans hpp hp'lt) hp) (hold hp'lt hp') hc hd
  · rw [h.view k n fun p a hp hw => hn p a (by
      rw [List.getElem?_append_left (List.getElem?_eq_some_iff.mp hp).1]; exact hp) hw]
    by_cases hle : n ≤ ops.length
    · rw [List.take_append_of_le_length hle]
    · -- the new operation cannot write the key: it is before `n` and not done
      have hw : ¬ O.writes b k := fun hw =>
        Nat.lt_irrefl _ (hlt _ ((hn ops.length b (by simp) hw).mp (Nat.lt_of_not_le hle)))
      rw [List.take_of_length_le (by omega), List.take_of_length_le (by rw [List.length_append]; simp; omega),
        O.serial_append]
      exact (O.apply_frame _ hw).symm

theorem append (h : Executed O init ops done st) (hlt : ∀ p, done p → p < ops.length) (ops' : List ο) :
    Executed O init (ops ++ ops') done st := by
  induction ops' generalizing ops with
  | nil => rwa [List.append_nil]
  | cons b ops' ih =>
    rw [List.append_cons]
    refine ih (h.concat hlt b) fun p hp => ?_
    rw [List.length_append]
    exact Nat.lt_add_right _ (hlt p hp)

end Executed
end Serial
