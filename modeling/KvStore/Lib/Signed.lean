import Mathlib.Tactic.Ring

/-!
# Signed arithmetic that does not wrap

In C++ a signed operation is undefined if its exact result has no representation in the type. The operations here
are those of `BitVec` in two's complement, with a `Fault` where C++ gives no meaning. For each of them one lemma
says that it is defined if the exact result is in range, and that the result is then the exact one.
-/

namespace Signed

inductive Fault where
  | overflow
  | divisionByZero
deriving DecidableEq, Repr

section
variable {w : Nat}

/-- The integers a signed type of `w` bits has. -/
def InRange (w : Nat) (n : Int) : Prop := -2 ^ (w - 1) ≤ n ∧ n < 2 ^ (w - 1)

/-- A result that is defined unless the operation overflows. -/
def checked (overflows : Bool) (result : BitVec w) : Except Fault (BitVec w) :=
  if overflows then .error .overflow else .ok result

def add (a b : BitVec w) : Except Fault (BitVec w) := checked (a.saddOverflow b) (a + b)

def sub (a b : BitVec w) : Except Fault (BitVec w) := checked (a.ssubOverflow b) (a - b)

def mul (a b : BitVec w) : Except Fault (BitVec w) := checked (a.smulOverflow b) (a * b)

/-- The quotient is rounded towards zero; only the smallest value over `-1` overflows. -/
def div (a b : BitVec w) : Except Fault (BitVec w) :=
  if b = 0 then .error .divisionByZero
  else checked (decide (a = BitVec.intMin w ∧ b = -1)) (a.sdiv b)

/-- The computation is defined and its result is the integer `n`. -/
def Gives (x : Except Fault (BitVec w)) (n : Int) : Prop := ∃ c, x = .ok c ∧ c.toInt = n

theorem gives_checked {overflows : Bool} {result : BitVec w} {n : Int} (hok : ¬ overflows = true)
    (hresult : ¬ overflows = true → result.toInt = n) : Gives (checked overflows result) n :=
  ⟨result, if_neg hok, hresult hok⟩

variable {a b : BitVec w} {n : Int}

theorem add_gives (h : a.toInt + b.toInt = n) (hn : InRange w n) : Gives (add a b) n := by
  subst h
  refine gives_checked ?_ BitVec.toInt_add_of_not_saddOverflow
  simpa [BitVec.saddOverflow] using hn.symm

theorem sub_gives (h : a.toInt - b.toInt = n) (hn : InRange w n) : Gives (sub a b) n := by
  subst h
  refine gives_checked ?_ BitVec.toInt_sub_of_not_ssubOverflow
  simpa [BitVec.ssubOverflow] using hn.symm

theorem mul_gives (h : a.toInt * b.toInt = n) (hn : InRange w n) : Gives (mul a b) n := by
  subst h
  refine gives_checked ?_ BitVec.toInt_mul_of_not_smulOverflow
  simpa [BitVec.smulOverflow] using hn.symm

theorem div_gives (h : a.toInt.tdiv b.toInt = n) (hzero : b ≠ 0) (hone : b ≠ -1) : Gives (div a b) n := by
  unfold div
  rw [if_neg hzero]
  refine gives_checked ?_ fun _ => (BitVec.toInt_sdiv_of_ne_or_ne a b (.inr hone)).trans h
  rw [decide_eq_true_iff]
  exact fun hmin => hone hmin.2

end

end Signed
