import KvStore.Lib.ByteString

/-!
# Accesses that may fail

Reading a byte or a range of a byte string outside its bounds is a `Fault`, and so is an arithmetic result
beyond the largest value of its type. A function written with these primitives that always returns `.ok` makes
no such access and no such sum; the `_eq_ok` lemmas say when a primitive is good.
-/

namespace Checked
open ByteString

inductive Fault where
  | index (i size : Nat)
  | range (pos count size : Nat)
  | overflow (n bound : Nat)
deriving DecidableEq, Repr

def byteAt (s : Bytes) (i : Nat) : Except Fault UInt8 :=
  match s[i]? with
  | some b => .ok b
  | none => .error (.index i s.length)

def substr (s : Bytes) (pos count : Nat) : Except Fault Bytes :=
  if pos + count ≤ s.length then .ok ((s.drop pos).take count) else .error (.range pos count s.length)

def substrFrom (s : Bytes) (pos : Nat) : Except Fault Bytes :=
  if pos ≤ s.length then .ok (s.drop pos) else .error (.range pos 0 s.length)

/-- A result of a type whose largest value is `bound`. -/
def fits (bound n : Nat) : Except Fault Nat := if n ≤ bound then .ok n else .error (.overflow n bound)

section
variable {s : Bytes} {i pos count bound n : Nat} {b : UInt8}

theorem byteAt_eq_ok (h : s[i]? = some b) : byteAt s i = .ok b := by
  unfold byteAt
  rw [h]

theorem substr_eq_ok (h : pos + count ≤ s.length) : substr s pos count = .ok ((s.drop pos).take count) :=
  if_pos h

theorem substrFrom_eq_ok (h : pos ≤ s.length) : substrFrom s pos = .ok (s.drop pos) := if_pos h

theorem fits_eq_ok (h : n ≤ bound) : fits bound n = .ok n := if_pos h

end

theorem bind_eq_of_ok {ε α β : Type} {x : Except ε α} {a : α} (h : x = .ok a) (f : α → Except ε β) :
    (x >>= f) = f a := by
  rw [h]; rfl

end Checked
