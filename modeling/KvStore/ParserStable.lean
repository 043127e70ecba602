import KvStore.ParserSpec

/-!
# Verdicts under more input

The parser is run again from the front of the buffer after every read, so a verdict on `s` should
not change when more bytes `t` arrive. It does in one place: `read_line` reports a line without its
CRLF as too long as soon as more than `kMaxHeaderLineLength` bytes are there, counting the CR of a
full-length line whose LF is still missing. `HeaderCut s` says that `s` stops exactly there, and
`parseCommand_stable_iff` that nothing else can go wrong.

Each level has one lemma: the result on the longer input is the same up to the text of a
`kMalformedFrame` error (`Stable`), or the input was cut in a header.
-/

namespace KvStore
open ByteString Decimal

/-- A verdict without the text of its error message. -/
def ParseResult.eraseMessage : ParseResult → ParseResult
  | .protocolError e => .protocolError { e with message := [] }
  | r => r

/-- Same command and consumed bytes, or same error category, recoverability and consumed bytes. -/
def SameVerdict (r r' : ParseResult) : Prop := r.eraseMessage = r'.eraseMessage

instance (r r' : ParseResult) : Decidable (SameVerdict r r') :=
  inferInstanceAs (Decidable (_ = _))

/-- `s` ends between the CR and the LF of a length line with a full 20-digit, acceptable length. -/
inductive HeaderCut : Bytes → Prop
  | array {D : Bytes} {n : Nat} : IsHeader D n → D.length = 20 → n ≤ 3 → HeaderCut (42 :: (D ++ [cr]))
  | bulk {D blocks L : Bytes} {n v : Nat} {args : List Bytes} : IsHeader D n → n ≤ 3 →
    IsBlocks args blocks → args.length < n → IsHeader L v → L.length = 20 → v ≤ 2 ^ 63 - 1 →
    HeaderCut (42 :: (D ++ (crlf ++ (blocks ++ 36 :: (L ++ [cr])))))

/-! ### Lines -/

/-- A line verdict changes only where the line is full, ends in CR and the next byte is LF. -/
theorem readLine_append {input t : Bytes} {m : Nat} (h : readLine input m ≠ .kNeedMoreData) :
    readLine (input ++ t) m = readLine input m ∨
      readLine input m = .kTooLong ∧
        ∃ L, input = L ++ [cr] ∧ L.length = m ∧ readLine (input ++ t) m = .kFound L (m + 2) := by
  unfold readLine at h ⊢
  cases hf : find crlf input with
  | some pos =>
    have hle := length_le_of_find hf
    rw [find_append hf]
    dsimp only
    rw [List.take_append_of_le_length (by omega)]
    exact .inl rfl
  | none =>
    rw [hf] at h; dsimp only at h ⊢
    have hlong : m < input.length := by by_contra hc; simp [hc] at h
    rw [if_pos hlong]
    cases hf' : find crlf (input ++ t) with
    | none => left; simp; omega
    | some pos =>
      dsimp only
      -- the CRLF that appeared starts at the last byte of `input` or later
      have hpos := length_lt_of_find_append hf hf'
      simp only [crlf, List.length_cons, List.length_nil] at hpos
      by_cases hm : m < pos
      · left; rw [if_pos hm]
      · right
        have hpm : pos = m := by omega
        have hlen : input.length = m + 1 := by omega
        obtain ⟨v, hv, -⟩ := split_of_find hf'
        rw [hpm, List.take_append_of_le_length (by omega)] at hv
        have hin : input = input.take m ++ [cr] := by
          have := congrArg (List.take (m + 1)) hv
          rw [List.take_append_of_le_length (by omega), ← hlen, List.take_length, hlen,
            List.take_append, List.length_take, Nat.min_eq_left (by omega : m ≤ input.length),
            List.take_of_length_le (by simp)] at this
          simpa [crlf] using this
        refine ⟨rfl, input.take m, hin, by simp; omega, ?_⟩
        rw [if_neg hm, hpm, List.take_append_of_le_length (by omega)]

theorem readLine_cut {L : Bytes} (hcr : cr ∉ L) (hL : L.length = 20) (t : Bytes) :
    readLine (L ++ [cr]) kMaxHeaderLineLength = .kTooLong ∧
      readLine (L ++ [cr] ++ (lf :: t)) kMaxHeaderLineLength = .kFound L 22 := by
  constructor
  · have hf : find crlf (L ++ [cr]) = none := by
      cases hf : find crlf (L ++ [cr]) with
      | none => rfl
      | some n =>
        have := find_append (t := [lf]) hf
        rw [List.append_assoc] at this
        have hn : find crlf (L ++ (crlf ++ [])) = some L.length := find_append_cons hcr
        have hn' : n = L.length := Option.some.inj (this.symm.trans hn)
        have hle := length_le_of_find hf
        simp [crlf] at hle; omega
    unfold readLine
    rw [hf]
    simp [hL, kMaxHeaderLineLength]
  · have := readLine_complete hcr (show L.length ≤ kMaxHeaderLineLength by rw [hL]; decide) t
    rw [hL] at this
    simpa [crlf] using this

/-! ### Elements and frames -/

/-- Equal up to the text of a `kMalformedFrame` error. -/
def BulkResult.Stable (r r' : BulkResult) : Prop :=
  r' = r ∨ ∃ m m', r = .protocolError (malformed m) ∧ r' = .protocolError (malformed m')

def FrameResult.Stable (r r' : FrameResult) : Prop :=
  r' = r ∨ ∃ m m', r = .protocolError (malformed m) ∧ r' = .protocolError (malformed m')

theorem readBulk_append {pre tail t : Bytes}
    (h : readBulk (pre ++ tail) pre.length ≠ .needMoreData) :
    (readBulk (pre ++ tail) pre.length).Stable (readBulk (pre ++ (tail ++ t)) pre.length) ∨
      ∃ L v, tail = 36 :: (L ++ [cr]) ∧ L.length = 20 ∧ IsHeader L v ∧ v ≤ 2 ^ 63 - 1 := by
  cases tail with
  | nil => simp [readBulk] at h
  | cons b tail =>
    have hlt : ∀ u : Bytes, ¬ (pre ++ b :: u).length ≤ pre.length := by simp
    have hget : ∀ u : Bytes, (pre ++ b :: u)[pre.length]? = some b := by simp
    have hdrop : ∀ u : Bytes, (pre ++ b :: u).drop (pre.length + 1) = u := by simp [List.drop_append]
    by_cases hb : b = 36
    swap
    · left; left
      simp only [readBulk, List.cons_append, hlt, hget, hdrop, if_false, ne_eq, Option.some.injEq, hb,
        not_false_eq_true, if_true]
    subst hb
    simp only [readBulk, List.cons_append, hlt, hget, hdrop, if_false, ne_eq, not_true] at h ⊢
    have hline : readLine tail kMaxHeaderLineLength ≠ .kNeedMoreData := fun hl => by
      rw [hl] at h; exact h rfl
    rcases readLine_append (t := t) hline with hsame | ⟨hlong, L, rfl, hL, hfound⟩
    · rw [hsame]
      cases hl : readLine tail kMaxHeaderLineLength with
      | kNeedMoreData => exact absurd hl hline
      | kTooLong => exact .inl (.inl rfl)
      | kFound L n =>
        rw [hl] at h; dsimp only at h ⊢
        cases hv : parseNonnegativeInteger L with
        | none => exact .inl (.inl rfl)
        | some len =>
          rw [hv] at h; dsimp only at h ⊢
          by_cases hmax : kMaxBulkStringLength < len
          · rw [if_pos hmax, if_pos hmax]; exact .inl (.inl rfl)
          rw [if_neg hmax] at h ⊢
          rw [if_neg hmax]
          by_cases hshort : (pre ++ 36 :: tail).length < pre.length + (1 + n) + len + 2
          · exact absurd (if_pos hshort) h
          have hshort' : ¬ (pre ++ 36 :: (tail ++ t)).length < pre.length + (1 + n) + len + 2 := by
            simp only [List.length_append, List.length_cons] at hshort ⊢; omega
          -- the body and its terminator lie inside the shorter input
          have hin : pre ++ 36 :: (tail ++ t) = (pre ++ 36 :: tail) ++ t := by simp
          rw [if_neg hshort, if_neg hshort', hin]
          generalize pre ++ 36 :: tail = input at hshort ⊢
          rw [List.getElem?_append_left (by omega),
            List.getElem?_append_left (by omega), List.drop_append_of_le_length (by omega),
            List.take_append_of_le_length (by rw [List.length_drop]; omega)]
          exact .inl (.inl rfl)
    · rw [hlong, hfound]
      dsimp only
      cases hv : parseNonnegativeInteger L with
      | none => exact .inl (.inr ⟨_, _, rfl, rfl⟩)
      | some v =>
        obtain ⟨hn, hle⟩ := parseNonnegativeInteger_eq_some_iff.mp hv
        exact .inr ⟨L, v, rfl, hL, ⟨hn, hL.le⟩, hle⟩

theorem readBulks_append {pre tail t : Bytes} {args : List Bytes} {count : Nat}
    (h : readBulks (pre ++ tail) count pre.length args ≠ .needMoreData) :
    (readBulks (pre ++ tail) count pre.length args).Stable
        (readBulks (pre ++ (tail ++ t)) count pre.length args) ∨
      ∃ bodies raw L v, bodies.length < count ∧ IsBlocks bodies raw ∧
        tail = raw ++ 36 :: (L ++ [cr]) ∧ L.length = 20 ∧ IsHeader L v ∧ v ≤ 2 ^ 63 - 1 := by
  induction count generalizing pre tail args with
  | zero => exact .inl (.inl rfl)
  | succ count ih =>
    rw [readBulks] at h ⊢
    rw [readBulks]
    have hbulk : readBulk (pre ++ tail) pre.length ≠ .needMoreData := fun hb => by
      rw [hb] at h; exact h rfl
    rcases readBulk_append (t := t) hbulk with hst | ⟨L, v, rfl, hL, hv, hle⟩
    · rcases hst with heq | ⟨m, m', he, he'⟩
      · rw [heq]
        cases hb : readBulk (pre ++ tail) pre.length with
        | needMoreData => exact absurd hb hbulk
        | protocolError e => exact .inl (.inl rfl)
        | body arg n =>
          rw [hb] at h; dsimp only at h ⊢
          obtain ⟨raw, rest, hblock, rfl, rfl⟩ := readBulk_sound hb
          rw [← List.append_assoc] at h ⊢
          rw [show pre ++ (raw ++ rest ++ t) = (pre ++ raw) ++ (rest ++ t) by simp]
          rcases ih h with hst | ⟨bodies, raws, L, v, hlt, hbs, rfl, hL, hv, hle⟩
          · exact .inl hst
          · exact .inr ⟨arg :: bodies, raw ++ raws, L, v, by simpa using hlt, .cons hblock hbs,
              by simp, hL, hv, hle⟩
      · rw [he, he']; exact .inl (.inr ⟨m, m', rfl, rfl⟩)
    · exact .inr ⟨[], [], L, v, Nat.succ_pos _, .nil, rfl, hL, hv, hle⟩

theorem readMultibulkFrame_append {s t : Bytes} (h : readMultibulkFrame s ≠ .needMoreData)
    (hcut : ¬ HeaderCut s) : (readMultibulkFrame s).Stable (readMultibulkFrame (s ++ t)) := by
  cases s with
  | nil => exact absurd rfl h
  | cons front rest =>
    unfold readMultibulkFrame at h ⊢
    simp only [List.cons_append] at h ⊢
    by_cases hfront : front = 42
    swap
    · left; simp [hfront]
    subst hfront
    simp only [ne_eq, not_true, if_false] at h ⊢
    have hline : readLine rest kMaxHeaderLineLength ≠ .kNeedMoreData := fun hl => by
      rw [hl] at h; exact h rfl
    rcases readLine_append (t := t) hline with hsame | ⟨hlong, D, rfl, hD, hfound⟩
    · rw [hsame]
      cases hl : readLine rest kMaxHeaderLineLength with
      | kNeedMoreData => exact absurd hl hline
      | kTooLong => exact .inl rfl
      | kFound D n =>
        rw [hl] at h; dsimp only at h ⊢
        cases hv : parseNonnegativeInteger D with
        | none => exact .inl rfl
        | some len =>
          rw [hv] at h; dsimp only at h ⊢
          by_cases hmax : kMaxArrayElements < len
          · rw [if_pos hmax, if_pos hmax]; exact .inl rfl
          rw [if_neg hmax] at h ⊢
          rw [if_neg hmax]
          obtain ⟨hD, hn, rest', rfl⟩ := header_sound hl hv
          have hpre : 1 + n = (42 :: (D ++ crlf)).length := by rw [hn]; simp [crlf]; omega
          have hs : ∀ u : Bytes, 42 :: (D ++ (crlf ++ u)) = 42 :: (D ++ crlf) ++ u := by simp
          rw [hs, hpre] at h
          rw [List.append_assoc, List.append_assoc, hs, hs, hpre]
          rcases readBulks_append (t := t) h with hst | ⟨bodies, raw, L, v, hlt, hbs, rfl, hL, hv, hle⟩
          · exact hst
          · exact absurd (.bulk hD (not_lt.mp hmax) hbs hlt hv hL hle) hcut
    · rw [hlong, hfound]
      dsimp only
      cases hv : parseNonnegativeInteger D with
      | none => exact .inr ⟨_, _, rfl, rfl⟩
      | some len =>
        dsimp only
        obtain ⟨hn, -⟩ := parseNonnegativeInteger_eq_some_iff.mp hv
        by_cases hmax : kMaxArrayElements < len
        · rw [if_pos hmax]; exact .inr ⟨_, _, rfl, rfl⟩
        · exact absurd (.array ⟨hn, hD.le⟩ hD (not_lt.mp hmax)) hcut

/-! ### Verdicts -/

theorem parseCommand_append {s t : Bytes} (h : parseCommand s ≠ .needMoreData) (hcut : ¬ HeaderCut s) :
    SameVerdict (parseCommand (s ++ t)) (parseCommand s) := by
  have hf : readMultibulkFrame s ≠ .needMoreData := fun hf => h (by simp [parseCommand, hf])
  rcases readMultibulkFrame_append (t := t) hf hcut with heq | ⟨m, m', he, he'⟩
  · unfold parseCommand; rw [heq]; rfl
  · unfold parseCommand; rw [he, he']; rfl

theorem parseCommand_arrayCut {D : Bytes} {n : Nat} (hD : IsHeader D n) (hlen : D.length = 20)
    (hn : n ≤ 3) :
    parseCommand (42 :: (D ++ [cr])) = .protocolError (malformed "array length header too long") ∧
      parseCommand (42 :: (D ++ [cr]) ++ [lf]) =
        if n = 0 then frameVerdict [] 23 else .needMoreData := by
  constructor
  · simp [parseCommand, readMultibulkFrame, (readLine_cut hD.cr_notMem hlen []).1]
  · have hs : 42 :: (D ++ [cr]) ++ [lf] = 42 :: (D ++ crlf) ++ [] := by simp [crlf]
    have hend : (42 :: (D ++ crlf)).length = 23 := by simp [crlf, hlen]
    rw [hs, parseCommand, readMultibulkFrame_header hD hn, hend]
    cases n with
    | zero => rfl
    | succ n => simp [readBulks, readBulk, hend]

theorem readBulk_cut {L : Bytes} {v : Nat} (hL : IsHeader L v) (hlen : L.length = 20)
    (hv : v ≤ 2 ^ 63 - 1) (pre : Bytes) :
    readBulk (pre ++ 36 :: (L ++ [cr])) pre.length =
        .protocolError (malformed "bulk string length header too long") ∧
      readBulk (pre ++ 36 :: (L ++ [cr] ++ [lf])) pre.length =
        if kMaxBulkStringLength < v then
          .protocolError
            { category := .kFieldTooLarge
              message := ascii "bulk string exceeds the maximum field size" }
        else .needMoreData := by
  obtain ⟨hlong, hfound⟩ := readLine_cut hL.cr_notMem hlen []
  have hpv := parseNonnegativeInteger_eq_some_iff.mpr ⟨hL.toIsNumeral, hv⟩
  have hdrop : ∀ u : Bytes, (pre ++ 36 :: u).drop (pre.length + 1) = u := by simp [List.drop_append]
  constructor
  · unfold readBulk
    rw [if_neg (by simp), if_neg (by simp), hdrop, hlong]
  · unfold readBulk
    rw [if_neg (by simp), if_neg (by simp), hdrop, hfound]
    dsimp only
    rw [hpv]
    dsimp only
    split_ifs with hmax hshort hterm
    · rfl
    · rfl
    -- no byte of the body is there yet
    all_goals simp [hlen] at hshort; omega

theorem parseCommand_bulkCut {D blocks L : Bytes} {n v : Nat} {args : List Bytes} (hD : IsHeader D n)
    (hn : n ≤ 3) (hb : IsBlocks args blocks) (hlt : args.length < n) (hL : IsHeader L v)
    (hlen : L.length = 20) (hv : v ≤ 2 ^ 63 - 1) :
    parseCommand (42 :: (D ++ (crlf ++ (blocks ++ 36 :: (L ++ [cr]))))) =
        .protocolError (malformed "bulk string length header too long") ∧
      parseCommand (42 :: (D ++ (crlf ++ (blocks ++ 36 :: (L ++ [cr])))) ++ [lf]) =
        if kMaxBulkStringLength < v then
          .protocolError
            { category := .kFieldTooLarge
              message := ascii "bulk string exceeds the maximum field size" }
        else .needMoreData := by
  obtain ⟨k, rfl⟩ : ∃ k, n = args.length + (k + 1) := ⟨n - args.length - 1, by omega⟩
  obtain ⟨h1, h2⟩ := readBulk_cut hL hlen hv (42 :: (D ++ crlf) ++ blocks)
  constructor
  · rw [parseCommand, readMultibulkFrame_blocks hD hn hb, readBulks, h1]
  · rw [show 42 :: (D ++ (crlf ++ (blocks ++ 36 :: (L ++ [cr])))) ++ [lf] =
      42 :: (D ++ (crlf ++ (blocks ++ 36 :: (L ++ [cr] ++ [lf])))) by simp, parseCommand,
      readMultibulkFrame_blocks hD hn hb, readBulks, h2]
    split_ifs <;> rfl

theorem HeaderCut.unstable {s : Bytes} (h : HeaderCut s) :
    parseCommand s ≠ .needMoreData ∧ ¬ SameVerdict (parseCommand (s ++ [lf])) (parseCommand s) := by
  cases h with
  | array hD hlen hn =>
    obtain ⟨h1, h2⟩ := parseCommand_arrayCut hD hlen hn
    rw [h1, h2]
    refine ⟨by simp, ?_⟩
    split_ifs
    · decide
    · simp [SameVerdict, ParseResult.eraseMessage]
  | bulk hD hn hb hlt hL hlen hv =>
    obtain ⟨h1, h2⟩ := parseCommand_bulkCut hD hn hb hlt hL hlen hv
    rw [h1, h2]
    refine ⟨by simp, ?_⟩
    split_ifs
    · decide
    · simp [SameVerdict, ParseResult.eraseMessage]

/-- One more byte shows where a header was cut. -/
theorem headerCut_iff (s : Bytes) : HeaderCut s ↔
    parseCommand s ≠ .needMoreData ∧ ¬ SameVerdict (parseCommand (s ++ [lf])) (parseCommand s) :=
  ⟨HeaderCut.unstable, fun ⟨hmore, hdiff⟩ => by_contra fun hcut => hdiff (parseCommand_append hmore hcut)⟩

instance (s : Bytes) : Decidable (HeaderCut s) := decidable_of_iff' _ (headerCut_iff s)

/-- The verdict on `s` survives every continuation exactly when `s` is not cut in a full header. -/
theorem parseCommand_stable_iff (s : Bytes) :
    (∀ t, parseCommand s ≠ .needMoreData → SameVerdict (parseCommand (s ++ t)) (parseCommand s)) ↔
      ¬ HeaderCut s := by
  constructor
  · intro h hcut
    exact hcut.unstable.2 (h [lf] hcut.unstable.1)
  · intro hcut t h
    exact parseCommand_append h hcut

/-- A `PING` with a zero-padded array header is accepted in one piece and refused when the first
read ends behind the CR of that header. -/
theorem parseCommand_cut_refused :
    parseCommand (ascii "*00000000000000000001\r") =
        .protocolError (malformed "array length header too long") ∧
      parseCommand (ascii "*00000000000000000001\r" ++ ascii "\n$4\r\nPING\r\n") =
        .parsedCommand { type := .kPing } 33 ∧
      ¬ SameVerdict (parseCommand (ascii "*00000000000000000001\r" ++ ascii "\n$4\r\nPING\r\n"))
        (parseCommand (ascii "*00000000000000000001\r")) := by
  decide

end KvStore
