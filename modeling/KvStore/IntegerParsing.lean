import KvStore.Lib.Checked
import KvStore.Lib.Signed
import KvStore.ParserSpec
import KvStore.Serializer

/-!
# Integers as the parser reads them

`parseNonnegativeInteger` computes with natural numbers. `parseNonnegativeIntegerInt64` is the same loop in the
types of the source, a `char`, an `int` and a `std::int64_t`, where an overflow is a fault. It has none: the guard in
front of the multiplication lets a digit through exactly if the next value fits, so the two loops agree
(`parseNonnegativeIntegerInt64_eq`).
-/

namespace KvStore
open ByteString Decimal Checked

/-! ### The digit loop in machine integers -/

/-- A `char` promoted to `int`; whether `char` is signed is up to the platform. -/
def promoteChar (charSigned : Bool) (c : UInt8) : BitVec 32 :=
  if charSigned then c.toBitVec.signExtend 32 else c.toBitVec.setWidth 32

/-- The digit loop of `parse_nonnegative_integer`, from the accumulated `value`. -/
def parseDigitsInt64 (charSigned : Bool) : Bytes → BitVec 64 → Except Signed.Fault (Option (BitVec 64))
  | [], value => .ok (some value)
  | c :: text, value =>
    if (promoteChar charSigned c).slt 48 ∨ (57 : BitVec 32).slt (promoteChar charSigned c) then .ok none
    else do
      let digit ← Signed.sub (promoteChar charSigned c) 48
      -- `digit` is converted to `std::int64_t` here and below
      let headroom ← Signed.sub (BitVec.intMax 64) (digit.signExtend 64)
      let limit ← Signed.div headroom 10
      if limit.slt value then return none
      let scaled ← Signed.mul value 10
      let value ← Signed.add scaled (digit.signExtend 64)
      parseDigitsInt64 charSigned text value

def parseNonnegativeIntegerInt64 (charSigned : Bool) (text : Bytes) :
    Except Signed.Fault (Option (BitVec 64)) :=
  if text = [] then .ok none else parseDigitsInt64 charSigned text 0

/-! ### No overflow -/

theorem toInt_promoteChar (charSigned : Bool) (c : UInt8) :
    (promoteChar charSigned c).toInt = if charSigned ∧ 128 ≤ c.toNat then (c.toNat : Int) - 256 else c.toNat := by
  have hlt : c.toNat < 256 := c.toNat_lt
  cases charSigned with
  | true =>
    have hchar : (promoteChar true c).toInt = c.toBitVec.toInt := BitVec.toInt_signExtend_of_le (by decide)
    rw [hchar, BitVec.toInt_eq_toNat_cond, UInt8.toNat_toBitVec]
    simp only [true_and]
    split_ifs <;> omega
  | false =>
    have hchar : (promoteChar false c).toNat = c.toNat := by
      show (c.toBitVec.setWidth 32).toNat = _
      rw [BitVec.toNat_setWidth, UInt8.toNat_toBitVec]
      omega
    rw [BitVec.toInt_eq_toNat_of_lt (by omega), hchar]
    simp

theorem outside_promoteChar_iff (charSigned : Bool) (c : UInt8) :
    ((promoteChar charSigned c).slt 48 ∨ (57 : BitVec 32).slt (promoteChar charSigned c)) ↔ c < 48 ∨ 57 < c := by
  have h48 : (48 : BitVec 32).toInt = 48 := rfl
  have h57 : (57 : BitVec 32).toInt = 57 := rfl
  rw [BitVec.slt_iff_toInt_lt, BitVec.slt_iff_toInt_lt, h48, h57, toInt_promoteChar, UInt8.lt_iff_toNat_lt,
    UInt8.lt_iff_toNat_lt]
  have hlt : c.toNat < 256 := c.toNat_lt
  simp only [UInt8.reduceToNat]
  split_ifs <;> omega

/-- The subtraction of `'0'`. -/
theorem digit_gives (charSigned : Bool) {c : UInt8} (hc : IsDigit c) :
    Signed.Gives (Signed.sub (promoteChar charSigned c) 48) (digitVal c) := by
  obtain ⟨hlow, hhigh⟩ := hc.toNat
  have hle := hc.digitVal_le
  refine Signed.sub_gives ?_ (by unfold Signed.InRange; omega)
  rw [toInt_promoteChar, if_neg (by omega), show (48 : BitVec 32).toInt = 48 from rfl]
  unfold digitVal
  omega

section
variable {value digit : BitVec 64} {v d : Nat}

theorem inRange_of_le_int64Max {n : Nat} (h : n ≤ int64Max) : Signed.InRange 64 n := by
  unfold int64Max at h
  unfold Signed.InRange
  omega

/-- The bound in the guard: the largest value that leaves room for the digit. -/
theorem limit_gives (hdigit : digit.toInt = d) (hd : d ≤ 9) :
    ∃ headroom, Signed.sub (BitVec.intMax 64) digit = .ok headroom ∧
      Signed.Gives (Signed.div headroom 10) (((int64Max - d) / 10 : Nat) : Int) := by
  have hmax : (BitVec.intMax 64).toInt - digit.toInt = ((int64Max - d : Nat) : Int) := by
    rw [show (BitVec.intMax 64).toInt = int64Max from rfl, hdigit, int64Max]
    omega
  obtain ⟨headroom, hsub, hvalue⟩ := Signed.sub_gives hmax (inRange_of_le_int64Max (Nat.sub_le _ _))
  refine ⟨headroom, hsub, Signed.div_gives ?_ (by decide) (by decide)⟩
  rw [hvalue]
  rfl

/-- The next value is in range once the guard has let the digit pass. -/
theorem next_gives (hvalue : value.toInt = v) (hdigit : digit.toInt = d) (hd : d ≤ 9)
    (hguard : v ≤ (int64Max - d) / 10) : ∃ scaled, Signed.mul value 10 = .ok scaled ∧
      Signed.Gives (Signed.add scaled digit) ((v * 10 + d : Nat) : Int) := by
  have hfits : v * 10 + d ≤ int64Max := by
    unfold int64Max at hguard ⊢
    omega
  have hprod : value.toInt * (10 : BitVec 64).toInt = ((v * 10 : Nat) : Int) := by
    rw [hvalue]
    rfl
  obtain ⟨scaled, hmul, hscaled⟩ := Signed.mul_gives hprod (inRange_of_le_int64Max (by omega))
  refine ⟨scaled, hmul, Signed.add_gives ?_ (inRange_of_le_int64Max hfits)⟩
  rw [hscaled, hdigit]
  rfl

end

theorem parseDigitsInt64_eq (charSigned : Bool) (text : Bytes) {value : BitVec 64} {v : Nat}
    (hvalue : value.toInt = v) : (parseDigitsInt64 charSigned text value).map (Option.map BitVec.toInt) =
      .ok ((parseDigits text v).map Int.ofNat) := by
  induction text generalizing value v with
  | nil =>
    show Except.ok (some value.toInt) = Except.ok (some (v : Int))
    rw [hvalue]
  | cons c text ih =>
    rw [parseDigitsInt64, parseDigits]
    by_cases hc : c < 48 ∨ 57 < c
    · rw [if_pos ((outside_promoteChar_iff charSigned c).mpr hc), if_pos hc]
      rfl
    have hdigit : IsDigit c := (isDigit_iff_not_outside c).mpr hc
    rw [if_neg (mt (outside_promoteChar_iff charSigned c).mp hc), if_neg hc]
    obtain ⟨digit, hsub, hd⟩ := digit_gives charSigned hdigit
    have hwide : (digit.signExtend 64).toInt = digitVal c := by
      rw [BitVec.toInt_signExtend_of_le (by decide), hd]
    obtain ⟨headroom, hheadroom, limit, hdiv, hlimit⟩ := limit_gives hwide hdigit.digitVal_le
    rw [bind_eq_of_ok hsub, bind_eq_of_ok hheadroom, bind_eq_of_ok hdiv]
    have hguard : limit.slt value ↔ (int64Max - digitVal c) / 10 < v := by
      rw [BitVec.slt_iff_toInt_lt, hlimit, hvalue]
      exact Int.ofNat_lt
    dsimp only
    rw [show c.toNat - 48 = digitVal c from rfl]
    by_cases hover : (int64Max - digitVal c) / 10 < v
    · rw [if_pos (hguard.mpr hover), if_pos hover]
      rfl
    · obtain ⟨scaled, hmul, next, hadd, hnext⟩ := next_gives hvalue hwide hdigit.digitVal_le (not_lt.mp hover)
      rw [if_neg (mt hguard.mp hover), if_neg hover, bind_eq_of_ok hmul, bind_eq_of_ok hadd]
      exact ih hnext

theorem parseNonnegativeIntegerInt64_eq (charSigned : Bool) (text : Bytes) :
    (parseNonnegativeIntegerInt64 charSigned text).map (Option.map BitVec.toInt) =
      .ok ((parseNonnegativeInteger text).map Int.ofNat) := by
  unfold parseNonnegativeIntegerInt64 parseNonnegativeInteger
  split_ifs
  · rfl
  · exact parseDigitsInt64_eq charSigned text rfl

/-! ### Exactness -/

theorem parseNonnegativeInteger_eq_none_iff {text : Bytes} : parseNonnegativeInteger text = none ↔
    text = [] ∨ (∃ b ∈ text, ¬ IsDigit b) ∨ int64Max < value text := by
  constructor
  · intro hnone
    by_contra hnot
    simp only [not_or, not_exists, not_and, not_not, not_lt] at hnot
    obtain ⟨hne, hdigits, hle⟩ := hnot
    rw [parseNonnegativeInteger_eq_some_iff.mpr ⟨⟨hne, hdigits, rfl⟩, hle⟩] at hnone
    cases hnone
  · intro h
    cases hparse : parseNonnegativeInteger text with
    | none => rfl
    | some v =>
      obtain ⟨hnumeral, hle⟩ := parseNonnegativeInteger_eq_some_iff.mp hparse
      rcases h with hnil | ⟨b, hb, hdigit⟩ | hlarge
      · exact absurd hnil hnumeral.ne_nil
      · exact absurd (hnumeral.digits b hb) hdigit
      · rw [hnumeral.value_eq] at hlarge
        exact absurd hle (not_le.mpr hlarge)

/-- A text is read as the integer `v` exactly if it is a decimal numeral of `v`, leading zeros allowed, and `v` is at
most `INT64_MAX`; everything else is refused. On the way no signed operation overflows, whether `char` is signed or
not, and what `std::to_string` prints is read back. -/
theorem integer_parsing_exact (text : Bytes) (charSigned : Bool) :
    (∀ v, parseNonnegativeInteger text = some v ↔
      text ≠ [] ∧ (∀ b ∈ text, IsDigit b) ∧ value text = v ∧ v ≤ 2 ^ 63 - 1) ∧
    (parseNonnegativeInteger text = none ↔
      text = [] ∨ (∃ b ∈ text, ¬ IsDigit b) ∨ 2 ^ 63 - 1 < value text) ∧
    (parseNonnegativeIntegerInt64 charSigned text).map (Option.map BitVec.toInt) =
      .ok ((parseNonnegativeInteger text).map Int.ofNat) ∧
    ∀ v : Nat, v ≤ 2 ^ 63 - 1 → parseNonnegativeInteger (decimalText v) = some v := by
  refine ⟨fun v => ?_, parseNonnegativeInteger_eq_none_iff, parseNonnegativeIntegerInt64_eq charSigned text,
    fun v hv => parseNonnegativeInteger_eq_some_iff.mpr ⟨isNumeral_ofNat v, hv⟩⟩
  rw [parseNonnegativeInteger_eq_some_iff]
  constructor
  · rintro ⟨hnumeral, hle⟩
    exact ⟨hnumeral.ne_nil, hnumeral.digits, hnumeral.value_eq, hle⟩
  · rintro ⟨hne, hdigits, hvalue, hle⟩
    exact ⟨⟨hne, hdigits, hvalue⟩, hle⟩

/-- The largest integer, also behind zeros, and the next one. -/
theorem integer_parsing_exact_max :
    parseNonnegativeInteger (decimalText 9223372036854775807) = some 9223372036854775807 ∧
    parseNonnegativeInteger (List.replicate 100 48 ++ decimalText 9223372036854775807) = some 9223372036854775807 ∧
    parseNonnegativeInteger (decimalText 9223372036854775808) = none := by
  obtain ⟨hne, hdigits, hvalue⟩ := (isNumeral_ofNat 9223372036854775807).zeros_append 100
  obtain ⟨hread, -, -, hprinted⟩ := integer_parsing_exact (List.replicate 100 48 ++ ofNat 9223372036854775807) true
  obtain ⟨-, hrefused, -, -⟩ := integer_parsing_exact (ofNat 9223372036854775808) true
  refine ⟨hprinted _ (by decide), (hread _).mpr ⟨hne, hdigits, hvalue, by decide⟩, hrefused.mpr (.inr (.inr ?_))⟩
  rw [value_ofNat]
  decide

end KvStore
