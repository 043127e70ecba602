import KvStore.Lib.Decimal

/-!
# A client's view of RESP2 replies

`decodeOne` reads one reply off the front of a byte stream, as a client does: a type byte, a line, and for a
bulk string its counted body. Lines end in CRLF and hold no other CR or LF. A stream that consists of whole
replies is decoded in one way (`Decodes.unique`), and replies can be decoded one by one (`decodes_flatten`).
Array replies are left out.
-/

namespace Resp2
open ByteString Decimal

inductive Reply where
  | simpleString (text : Bytes)
  | error (text : Bytes)
  | integer (n : Int)
  | bulkString (value : Bytes)
  | nullBulkString
deriving DecidableEq, Repr

def OneLine (text : Bytes) : Prop := cr ∉ text ∧ lf ∉ text

instance (text : Bytes) : Decidable (OneLine text) := inferInstanceAs (Decidable (_ ∧ _))

@[simp] theorem oneLine_append {s t : Bytes} : OneLine (s ++ t) ↔ OneLine s ∧ OneLine t := by
  unfold OneLine
  simp only [List.mem_append, not_or]
  exact and_and_and_comm

theorem oneLine_ascii {cs : List Char} (h : OneLine (cs.map fun c => c.toNat.toUInt8)) :
    OneLine (ascii (String.ofList cs)) := by
  rw [ascii_ofList]
  exact h

def takeLine : Bytes → Option (Bytes × Bytes)
  | [] => none
  | b :: s =>
    if b = cr then if s.head? = some lf then some ([], s.tail) else none
    else if b = lf then none
    else (takeLine s).map fun r => (b :: r.1, r.2)

theorem takeLine_append {text : Bytes} (h : OneLine text) (rest : Bytes) :
    takeLine (text ++ (crlf ++ rest)) = some (text, rest) := by
  induction text with
  | nil => rfl
  | cons b text ih =>
    obtain ⟨hcr, hlf⟩ := h
    rw [List.mem_cons, not_or] at hcr hlf
    rw [List.cons_append, takeLine, if_neg (Ne.symm hcr.1), if_neg (Ne.symm hlf.1), ih ⟨hcr.2, hlf.2⟩]
    rfl

theorem split_of_takeLine {s text rest : Bytes} (h : takeLine s = some (text, rest)) :
    OneLine text ∧ s = text ++ (crlf ++ rest) := by
  induction s generalizing text with
  | nil => cases h
  | cons b s ih =>
    rw [takeLine] at h
    split_ifs at h with hcr hend hlf
    · cases h
      have hs : s = lf :: s.tail := List.eq_cons_of_mem_head? hend
      refine ⟨⟨List.not_mem_nil, List.not_mem_nil⟩, ?_⟩
      rw [hs, hcr]; rfl
    · obtain ⟨⟨text', rest'⟩, hline, heq⟩ := Option.map_eq_some_iff.mp h
      cases heq
      obtain ⟨hone, rfl⟩ := ih hline
      refine ⟨⟨?_, ?_⟩, rfl⟩
      · rw [List.mem_cons, not_or]; exact ⟨Ne.symm hcr, hone.1⟩
      · rw [List.mem_cons, not_or]; exact ⟨Ne.symm hlf, hone.2⟩

def readNat (text : Bytes) : Option Nat :=
  if text ≠ [] ∧ text.all (fun b => decide (IsDigit b)) = true then some (value text) else none

def readInt (text : Bytes) : Option Int :=
  if text.head? = some 45 then (readNat text.tail).map fun n : Nat => -(n : Int)
  else (readNat text).map fun n : Nat => (n : Int)

theorem readNat_ofNat (n : Nat) : readNat (ofNat n) = some n := by
  have hdigits : (ofNat n).all (fun b => decide (IsDigit b)) = true :=
    List.all_eq_true.mpr fun _ hb => decide_eq_true (isDigit_of_mem_ofNat hb)
  unfold readNat
  rw [if_pos ⟨ofNat_ne_nil n, hdigits⟩, value_ofNat]

theorem oneLine_ofNat (n : Nat) : OneLine (ofNat n) := by
  refine ⟨fun h => ?_, fun h => ?_⟩
  · exact absurd (isDigit_of_mem_ofNat h) (by decide)
  · exact absurd (isDigit_of_mem_ofNat h) (by decide)

def decodeOne : Bytes → Option (Reply × Bytes)
  | [] => none
  | kind :: s =>
    match takeLine s with
    | none => none
    | some (line, rest) =>
      if kind = 43 then some (.simpleString line, rest)
      else if kind = 45 then some (.error line, rest)
      else if kind = 58 then (readInt line).map fun n => (.integer n, rest)
      else if kind = 36 then
        if line = ascii "-1" then some (.nullBulkString, rest)
        else
          match readNat line with
          | none => none
          | some n =>
            if crlf <+: rest.drop n then some (.bulkString (rest.take n), rest.drop (n + 2)) else none
      else none

/-- The whole stream is these replies. -/
inductive Decodes : Bytes → List Reply → Prop
  | nil : Decodes [] []
  | cons {s rest : Bytes} {r : Reply} {rs : List Reply} : decodeOne s = some (r, rest) → Decodes rest rs →
    Decodes s (r :: rs)

def decodeMany : Nat → Bytes → Option (List Reply × Bytes)
  | 0, s => some ([], s)
  | n + 1, s =>
    match decodeOne s with
    | none => none
    | some (r, rest) => (decodeMany n rest).map fun p => (r :: p.1, p.2)

section
variable {s t rest : Bytes} {r : Reply} {rs rs' : List Reply}

theorem decodeOne_append (h : decodeOne s = some (r, rest)) (t : Bytes) :
    decodeOne (s ++ t) = some (r, rest ++ t) := by
  cases s with
  | nil => cases h
  | cons kind s =>
    rw [decodeOne] at h
    cases hline : takeLine s with
    | none => rw [hline] at h; cases h
    | some p =>
      obtain ⟨line, rest₀⟩ := p
      obtain ⟨hone, rfl⟩ := split_of_takeLine hline
      rw [hline] at h; dsimp only at h
      rw [List.cons_append, decodeOne, List.append_assoc, List.append_assoc, takeLine_append hone]
      dsimp only
      split_ifs at h ⊢ with h43 h45 h58 h36 hnull
      · cases h; rfl
      · cases h; rfl
      · obtain ⟨n, hn, heq⟩ := Option.map_eq_some_iff.mp h
        cases heq; rw [hn]; rfl
      · cases h; rfl
      · cases hn : readNat line with
        | none => rw [hn] at h; cases h
        | some n =>
          rw [hn] at h; dsimp only at h ⊢
          split_ifs at h with hend
          cases h
          -- the body and its terminator are there already
          have hlen : n + 2 ≤ rest₀.length := by
            have := hend.length_le
            rw [List.length_drop] at this
            have : crlf.length = 2 := rfl
            omega
          rw [List.drop_append_of_le_length (by omega), List.drop_append_of_le_length hlen,
            List.take_append_of_le_length (by omega), if_pos (hend.trans (List.prefix_append _ _))]

theorem Decodes.append (h : Decodes s rs) (h' : Decodes t rs') : Decodes (s ++ t) (rs ++ rs') := by
  induction h with
  | nil => exact h'
  | cons hone _ ih => exact .cons (decodeOne_append hone t) ih

theorem Decodes.unique (h : Decodes s rs) (h' : Decodes s rs') : rs' = rs := by
  induction h generalizing rs' with
  | nil =>
    cases h' with
    | nil => rfl
    | cons hone _ => cases hone
  | cons hone _ ih =>
    cases h' with
    | nil => cases hone
    | cons hone' hrest' =>
      rw [hone] at hone'
      cases hone'
      rw [ih hrest']

/-- A stream of whole replies is read off the front of whatever follows it. -/
theorem decodeMany_append (h : Decodes s rs) (rest : Bytes) :
    decodeMany rs.length (s ++ rest) = some (rs, rest) := by
  induction h with
  | nil => rfl
  | cons hone _ ih =>
    rw [List.length_cons, decodeMany, decodeOne_append hone]
    dsimp only
    rw [ih]
    rfl

theorem decodes_flatten {messages : List Bytes} (h : List.Forall₂ (fun m r => Decodes m [r]) messages rs) :
    Decodes messages.flatten rs := by
  induction h with
  | nil => exact .nil
  | cons hone _ ih => exact hone.append ih

theorem decodes_single (h : decodeOne s = some (r, [])) : Decodes s [r] := .cons h .nil

end

/-! ### The kinds of replies -/

theorem decodes_simpleString {text : Bytes} (h : OneLine text) :
    Decodes (43 :: (text ++ crlf)) [.simpleString text] := by
  have := takeLine_append h []
  rw [List.append_nil] at this
  exact decodes_single (by rw [decodeOne, this]; rfl)

theorem decodes_error_iff {text : Bytes} : (∃ r, Decodes (45 :: (text ++ crlf)) [r]) ↔ OneLine text := by
  constructor
  · rintro ⟨r, h⟩
    cases h with
    | cons hone hrest =>
      cases hrest
      rw [decodeOne] at hone
      cases hline : takeLine (text ++ crlf) with
      | none => rw [hline] at hone; cases hone
      | some p =>
        obtain ⟨line, rest⟩ := p
        rw [hline] at hone
        cases hone
        obtain ⟨hl, heq⟩ := split_of_takeLine hline
        rw [List.append_nil] at heq
        rw [List.append_cancel_right heq]; exact hl
  · intro h
    have := takeLine_append h []
    rw [List.append_nil] at this
    exact ⟨.error text, decodes_single (by rw [decodeOne, this]; rfl)⟩

theorem decodes_integer {text : Bytes} {n : Int} (h : OneLine text) (hn : readInt text = some n) :
    Decodes (58 :: (text ++ crlf)) [.integer n] := by
  have := takeLine_append h []
  rw [List.append_nil] at this
  refine decodes_single ?_
  rw [decodeOne, this]; dsimp only
  rw [if_neg (by decide), if_neg (by decide), if_pos rfl, hn]; rfl

theorem decodes_bulkString (value : Bytes) :
    Decodes (36 :: (ofNat value.length ++ (crlf ++ (value ++ crlf)))) [.bulkString value] := by
  have hnull : ofNat value.length ≠ ascii "-1" := fun h => by
    have : IsDigit 45 := isDigit_of_mem_ofNat (h ▸ (by decide : (45 : UInt8) ∈ ascii "-1"))
    exact absurd this (by decide)
  refine decodes_single ?_
  rw [decodeOne, takeLine_append (oneLine_ofNat _)]; dsimp only
  rw [if_neg (by decide), if_neg (by decide), if_neg (by decide), if_pos rfl, if_neg hnull, readNat_ofNat]
  dsimp only
  rw [List.drop_left, if_pos (List.prefix_refl _), List.take_left, List.drop_length_add_append]
  rfl

end Resp2
