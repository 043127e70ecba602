import KvStore.Lib.ByteString
import Mathlib.Tactic.Ring

/-!
# Decimal numerals as byte strings

`value` reads a string of ASCII digits (leading zeros allowed), `ofNat` prints the canonical numeral.
`value_ofNat` is the round trip; `value_concat` and `value_le_append` are what a digit loop needs.
-/

open ByteString

namespace Decimal

def IsDigit (b : UInt8) : Prop := 48 ≤ b ∧ b ≤ 57

instance (b : UInt8) : Decidable (IsDigit b) := inferInstanceAs (Decidable (_ ∧ _))

def digitVal (b : UInt8) : Nat := b.toNat - 48

/-- The number a digit string denotes. -/
def value (ds : Bytes) : Nat := ds.foldl (fun v b => v * 10 + digitVal b) 0

def ofNat (n : Nat) : Bytes := (Nat.toDigits 10 n).map fun c => c.toNat.toUInt8

theorem IsDigit.toNat {b : UInt8} (h : IsDigit b) : 48 ≤ b.toNat ∧ b.toNat ≤ 57 :=
  ⟨UInt8.le_iff_toNat_le.mp h.1, UInt8.le_iff_toNat_le.mp h.2⟩

theorem IsDigit.digitVal_le {b : UInt8} (h : IsDigit b) : digitVal b ≤ 9 := by
  have := h.toNat; unfold digitVal; omega

theorem not_isDigit_cr : ¬ IsDigit cr := by decide

theorem cr_notMem {ds : Bytes} (h : ∀ b ∈ ds, IsDigit b) : cr ∉ ds :=
  fun hm => not_isDigit_cr (h cr hm)

@[simp] theorem value_nil : value [] = 0 := rfl

theorem value_concat (ds : Bytes) (b : UInt8) : value (ds ++ [b]) = value ds * 10 + digitVal b := by
  simp [value]

theorem foldl_eq (v : Nat) (ds : Bytes) :
    ds.foldl (fun v b => v * 10 + digitVal b) v = v * 10 ^ ds.length + value ds := by
  induction ds using List.reverseRecOn with
  | nil => simp
  | append_singleton ds b ih =>
    rw [List.foldl_append, ih, value_concat]
    simp only [List.foldl_cons, List.foldl_nil, List.length_append, List.length_singleton, pow_succ]
    ring

theorem value_append (ds es : Bytes) : value (ds ++ es) = value ds * 10 ^ es.length + value es := by
  unfold value; rw [List.foldl_append, foldl_eq]; rfl

theorem value_le_append (ds es : Bytes) : value ds ≤ value (ds ++ es) := by
  rw [value_append]
  exact Nat.le_trans (Nat.le_mul_of_pos_right _ (Nat.pow_pos (by decide))) (Nat.le_add_right _ _)

theorem value_zeros_append (k : Nat) (ds : Bytes) : value (List.replicate k 48 ++ ds) = value ds := by
  induction k with
  | zero => rfl
  | succ k ih => exact ih

theorem ofNat_ne_nil (n : Nat) : ofNat n ≠ [] := by
  simp [ofNat, Nat.toDigits_ne_nil]

theorem toNat_toUInt8_digit {c : Char} (h : c.isDigit) : c.toNat.toUInt8.toNat = c.toNat := by
  have := (Char.isDigit_iff_toNat.mp h).2
  have h9 : '9'.toNat = 57 := rfl
  rw [Nat.toUInt8, UInt8.toNat_ofNat']; omega

theorem isDigit_of_mem_ofNat {n : Nat} {b : UInt8} (h : b ∈ ofNat n) : IsDigit b := by
  simp only [ofNat, List.mem_map] at h
  obtain ⟨c, hc, rfl⟩ := h
  have hd := Nat.isDigit_of_mem_toDigits (by decide) (by decide) hc
  have hv := toNat_toUInt8_digit hd
  obtain ⟨h1, h2⟩ := Char.isDigit_iff_toNat.mp hd
  have h0 : '0'.toNat = 48 := rfl
  have h9 : '9'.toNat = 57 := rfl
  constructor <;> rw [UInt8.le_iff_toNat_le, hv]
  · show 48 ≤ _; omega
  · show _ ≤ 57; omega

theorem value_map_digits (cs : List Char) (h : ∀ c ∈ cs, c.isDigit) (v : Nat) :
    (cs.map fun c => c.toNat.toUInt8).foldl (fun v b => v * 10 + digitVal b) v =
      Nat.ofDigitChars 10 cs v := by
  induction cs generalizing v with
  | nil => simp [Nat.ofDigitChars_nil]
  | cons c cs ih =>
    rw [Nat.ofDigitChars_cons, ← ih (fun c hc => h c (by simp [hc]))]
    simp only [List.map_cons, List.foldl_cons, digitVal, toNat_toUInt8_digit (h c (by simp))]
    have h0 : '0'.toNat = 48 := rfl
    rw [h0, Nat.mul_comm]

theorem value_ofNat (n : Nat) : value (ofNat n) = n := by
  unfold value ofNat
  rw [value_map_digits _ (fun c hc => Nat.isDigit_of_mem_toDigits (by decide) (by decide) hc)]
  exact Nat.ofDigitChars_ten_toDigits

theorem length_ofNat_le {n k : Nat} (hk : 0 < k) (h : n < 10 ^ k) : (ofNat n).length ≤ k := by
  rw [ofNat, List.length_map]
  exact (Nat.length_toDigits_le_iff (by decide) hk).mpr h

end Decimal
