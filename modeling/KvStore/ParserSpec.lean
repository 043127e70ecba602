import KvStore.Parser
import KvStore.Grammar
import Mathlib.Data.List.Forall2

/-!
# The parser accepts exactly its grammar

Every function of the parser has two lemmas. One says what it can give (`readBulk_reads` for one element,
`readBulks_reads` for the element loop, `readMultibulkFrame_reads` for a frame): something of the grammar, an error
of `frameErrors`, or a request for more data, and then the input is still short. The other one (`header_complete`,
`readBulk_complete`, `readMultibulkFrame_complete`) says that what the grammar allows is accepted. An offset into the
input is always written as the length of the text before it, so the loop's induction carries no arithmetic on
positions. `buildCommand_eq_ok_iff` is phase 2.
-/

namespace KvStore
open ByteString Decimal

/-! ### Numerals and header lines -/

theorem isDigit_iff_not_outside (c : UInt8) : IsDigit c ↔ ¬ (c < 48 ∨ 57 < c) := by
  unfold IsDigit; rw [not_or, UInt8.not_lt, UInt8.not_lt]

/-- The digit loop, started with the value of the digits `pre` read before. -/
theorem parseDigits_eq_some_iff {text pre : Bytes} {w : Nat} (hpre : value pre ≤ int64Max) :
    parseDigits text (value pre) = some w ↔
      (∀ b ∈ text, IsDigit b) ∧ value (pre ++ text) = w ∧ w ≤ int64Max := by
  induction text generalizing pre with
  | nil => simp only [parseDigits, Option.some.injEq, List.not_mem_nil, List.append_nil]; grind
  | cons c text ih =>
    rw [parseDigits]
    dsimp only
    split_ifs with hc hov
    · have : ¬ IsDigit c := fun h => (isDigit_iff_not_outside c).mp h hc
      simp only [List.mem_cons, forall_eq_or_imp, this, false_and]
    · -- the guard fires exactly when the next value would pass `INT64_MAX`
      have hd : IsDigit c := (isDigit_iff_not_outside c).mpr hc
      have hbig : int64Max < value (pre ++ [c]) := by
        have := hd.digitVal_le
        rw [value_concat]; unfold digitVal at this ⊢; unfold int64Max at hov ⊢; omega
      refine iff_of_false (by simp) ?_
      rintro ⟨-, rfl, hle⟩
      have := value_le_append (pre ++ [c]) text
      simp only [List.append_assoc, List.singleton_append] at this; omega
    · have hd : IsDigit c := (isDigit_iff_not_outside c).mpr hc
      have hnext : value (pre ++ [c]) ≤ int64Max := by
        have := hd.digitVal_le
        rw [value_concat]; unfold digitVal at this ⊢; unfold int64Max at hov ⊢; omega
      have := ih hnext
      rw [value_concat] at this
      simpa [hd, digitVal] using this

theorem parseNonnegativeInteger_eq_some_iff {text : Bytes} {n : Nat} :
    parseNonnegativeInteger text = some n ↔ IsNumeral text n ∧ n ≤ int64Max := by
  unfold parseNonnegativeInteger
  have : parseDigits text (value []) = some n ↔
      (∀ b ∈ text, IsDigit b) ∧ value ([] ++ text) = n ∧ n ≤ int64Max :=
    parseDigits_eq_some_iff (Nat.zero_le _)
  rw [value_nil, List.nil_append] at this
  split_ifs with h
  · exact iff_of_false (by simp) fun h' => h'.1.ne_nil h
  · rw [this]
    exact ⟨fun ⟨h1, h2, h3⟩ => ⟨⟨h, h1, h2⟩, h3⟩, fun ⟨h1, h2⟩ => ⟨h1.digits, h1.value_eq, h2⟩⟩

theorem readLine_eq_kFound {input content : Bytes} {m n : Nat} (h : readLine input m = .kFound content n) :
    find crlf input = some content.length ∧ content.length ≤ m ∧ n = content.length + 2 ∧
      ∃ rest, input = content ++ (crlf ++ rest) := by
  unfold readLine at h
  cases hf : find crlf input with
  | none => rw [hf] at h; dsimp only at h; split_ifs at h
  | some pos =>
    rw [hf] at h; dsimp only at h
    split_ifs at h with hlong
    injection h with h1 h2
    obtain ⟨rest, hrest, hlen⟩ := split_of_find hf
    rw [h1] at hrest hlen
    subst hlen
    exact ⟨rfl, not_lt.mp hlong, h2.symm, rest, hrest⟩

theorem length_le_of_readLine_more {input : Bytes} {m : Nat} (h : readLine input m = .kNeedMoreData) :
    input.length ≤ m := by
  unfold readLine at h
  cases hf : find crlf input with
  | some pos => rw [hf] at h; dsimp only at h; split_ifs at h
  | none =>
    rw [hf] at h; dsimp only at h
    split_ifs at h with hlong
    exact not_lt.mp hlong

theorem header_sound {input content : Bytes} {n v : Nat}
    (hl : readLine input kMaxHeaderLineLength = .kFound content n)
    (hv : parseNonnegativeInteger content = some v) :
    IsHeader content v ∧ n = content.length + 2 ∧ ∃ rest, input = content ++ (crlf ++ rest) := by
  obtain ⟨-, hle, hn, hrest⟩ := readLine_eq_kFound hl
  exact ⟨⟨(parseNonnegativeInteger_eq_some_iff.mp hv).1, hle⟩, hn, hrest⟩

theorem readLine_complete {content : Bytes} {m : Nat} (hcr : cr ∉ content) (hm : content.length ≤ m)
    (rest : Bytes) : readLine (content ++ (crlf ++ rest)) m = .kFound content (content.length + 2) := by
  have hf : find crlf (content ++ (crlf ++ rest)) = some content.length := find_append_cons hcr
  unfold readLine
  rw [hf]
  simp [not_lt.mpr hm]

theorem header_complete {content : Bytes} {v : Nat} (h : IsHeader content v) (hv : v ≤ int64Max)
    (rest : Bytes) :
    readLine (content ++ (crlf ++ rest)) kMaxHeaderLineLength = .kFound content (content.length + 2) ∧
      parseNonnegativeInteger content = some v :=
  ⟨readLine_complete h.cr_notMem h.length_le rest,
    parseNonnegativeInteger_eq_some_iff.mpr ⟨h.toIsNumeral, hv⟩⟩

/-! ### One element -/

/-- Every error phase 1 can report. -/
def frameErrors : List ProtocolError :=
  [malformed "expected RESP array ('*')", malformed "array length header too long",
    malformed "invalid array length", malformed "too many command arguments",
    malformed "expected bulk string ('$')", malformed "bulk string length header too long",
    malformed "invalid bulk string length",
    { category := .kFieldTooLarge, message := ascii "bulk string exceeds the maximum field size" },
    malformed "bulk string missing terminator"]

theorem split_body {tail : Bytes} {len : Nat}
    (h1 : tail[len]? = some cr) (h2 : tail[len + 1]? = some lf) :
    ∃ rest, tail = tail.take len ++ (crlf ++ rest) := by
  refine ⟨tail.drop (len + 2), ?_⟩
  have e1 := List.getElem?_eq_some_iff.mp h1
  have e2 := List.getElem?_eq_some_iff.mp h2
  obtain ⟨b1, e1⟩ := e1
  obtain ⟨b2, e2⟩ := e2
  conv_lhs => rw [← List.take_append_drop len tail, List.drop_eq_getElem_cons b1, e1,
    List.drop_eq_getElem_cons b2, e2]
  rfl

theorem getElem?_terminator (pre body rest : Bytes) :
    (pre ++ (body ++ (crlf ++ rest)))[pre.length + body.length]? = some cr ∧
      (pre ++ (body ++ (crlf ++ rest)))[pre.length + body.length + 1]? = some lf := by
  rw [← List.append_assoc, ← List.length_append]
  constructor
  · rw [List.getElem?_append_right (Nat.le_refl _), Nat.sub_self]; rfl
  · rw [List.getElem?_append_right (Nat.le_add_right _ 1), Nat.add_sub_cancel_left]; rfl

/-- What reading the element at the front of `tail`, behind `pre`, can give. -/
inductive ReadsBulk (pre tail : Bytes) : BulkResult → Prop
  | body {arg raw rest : Bytes} : IsBlock arg raw → tail = raw ++ rest →
    ReadsBulk pre tail (.body arg (pre ++ raw).length)
  | needMoreData : tail.length < 1048601 → ReadsBulk pre tail .needMoreData
  | protocolError {e : ProtocolError} : e ∈ frameErrors → ReadsBulk pre tail (.protocolError e)

theorem readBulk_reads (pre tail : Bytes) : ReadsBulk pre tail (readBulk (pre ++ tail) pre.length) := by
  unfold readBulk
  split_ifs with hend hdollar
  · rw [List.length_append] at hend
    exact .needMoreData (by omega)
  · exact .protocolError (by simp [frameErrors])
  -- the byte at the offset is the head of `tail`
  obtain ⟨tail', rfl⟩ : ∃ tail', tail = 36 :: tail' := by
    simp only [ne_eq, not_not, List.getElem?_append_right (Nat.le_refl _), Nat.sub_self] at hdollar
    cases tail with
    | nil => simp at hdollar
    | cons b tail' => exact ⟨tail', by simpa using hdollar⟩
  have hdrop : (pre ++ 36 :: tail').drop (pre.length + 1) = tail' := by simp [List.drop_append]
  rw [hdrop]
  cases hl : readLine tail' kMaxHeaderLineLength with
  | kNeedMoreData =>
    have hheader := length_le_of_readLine_more hl
    refine .needMoreData ?_
    rw [List.length_cons]
    unfold kMaxHeaderLineLength at hheader
    omega
  | kTooLong => exact .protocolError (by simp [frameErrors])
  | kFound L lineConsumed =>
    dsimp only
    cases hv : parseNonnegativeInteger L with
    | none => exact .protocolError (by simp [frameErrors])
    | some len =>
      dsimp only
      obtain ⟨hL, hn, rest, rfl⟩ := header_sound hl hv
      have hinput : pre ++ 36 :: (L ++ (crlf ++ rest)) = (pre ++ 36 :: (L ++ crlf)) ++ rest := by simp
      have hstart : pre.length + (1 + lineConsumed) = (pre ++ 36 :: (L ++ crlf)).length := by
        rw [hn]; simp [crlf]; omega
      rw [hinput, hstart]
      split_ifs with hbig hshort hterm
      · exact .protocolError (by simp [frameErrors])
      · have hlen : len ≤ 1048576 := not_lt.mp hbig
        have hheader := hL.length_le
        refine .needMoreData ?_
        rw [List.length_append] at hshort
        simp only [List.length_cons, List.length_append, crlf, List.length_nil]
        omega
      · exact .protocolError (by simp [frameErrors])
      · rw [List.length_append] at hshort
        simp only [ne_eq, not_or, not_not, Nat.add_assoc,
          List.getElem?_append_right (Nat.le_add_right _ _), Nat.add_sub_cancel_left] at hterm
        obtain ⟨rest', hrest'⟩ := split_body hterm.1 hterm.2
        rw [List.drop_left]
        have hblen : (rest.take len).length = len := by rw [List.length_take]; omega
        have hblock : IsBlock (rest.take len) (36 :: (L ++ (crlf ++ (rest.take len ++ crlf)))) := by
          refine ⟨L, hblen.symm ▸ hL, ?_, rfl⟩
          rw [hblen]
          exact not_lt.mp hbig
        have hend : (pre ++ 36 :: (L ++ crlf)).length + (len + 2) =
            (pre ++ 36 :: (L ++ (crlf ++ (rest.take len ++ crlf)))).length := by
          simp only [List.length_append, List.length_cons, crlf, List.length_nil, hblen]
          omega
        have htail : 36 :: (L ++ (crlf ++ rest)) = 36 :: (L ++ (crlf ++ (rest.take len ++ crlf))) ++ rest' := by
          conv_lhs => rw [hrest']
          simp
        rw [hend]
        exact .body hblock htail

theorem readBulk_sound {pre tail body : Bytes} {n : Nat}
    (h : readBulk (pre ++ tail) pre.length = .body body n) :
    ∃ raw rest, IsBlock body raw ∧ tail = raw ++ rest ∧ n = (pre ++ raw).length := by
  have hreads := readBulk_reads pre tail
  rw [h] at hreads
  cases hreads with
  | body hblock htail => exact ⟨_, _, hblock, htail, rfl⟩

theorem readBulk_complete {body raw : Bytes} (h : IsBlock body raw) (pre rest : Bytes) :
    readBulk (pre ++ (raw ++ rest)) pre.length = .body body (pre ++ raw).length := by
  obtain ⟨L, hL, hmax, rfl⟩ := h
  have hsmall : body.length ≤ int64Max := le_trans hmax (by decide)
  obtain ⟨hl, hv⟩ := header_complete hL hsmall (body ++ (crlf ++ rest))
  set tail := L ++ (crlf ++ (body ++ (crlf ++ rest))) with htail
  have hinput : pre ++ (36 :: (L ++ (crlf ++ (body ++ crlf))) ++ rest) = pre ++ 36 :: tail := by
    simp [htail]
  have hinput' : pre ++ 36 :: tail = (pre ++ 36 :: (L ++ crlf)) ++ (body ++ (crlf ++ rest)) := by
    simp [htail]
  have hstart : pre.length + (1 + (L.length + 2)) = (pre ++ 36 :: (L ++ crlf)).length := by
    simp [crlf]; omega
  have hdrop : (pre ++ 36 :: tail).drop (pre.length + 1) = tail := by simp [List.drop_append]
  rw [hinput]
  unfold readBulk
  rw [if_neg (by simp), if_neg (by simp), hdrop, hl]
  dsimp only
  rw [hv]
  dsimp only
  rw [if_neg (show ¬ kMaxBulkStringLength < _ from not_lt.mpr hmax), hstart, hinput', if_neg, if_neg,
    List.drop_left, List.take_left]
  · simp [crlf]; omega
  · obtain ⟨h1, h2⟩ := getElem?_terminator (pre ++ 36 :: (L ++ crlf)) body rest
    rw [h1, h2]; simp
  · simp [crlf]; omega

/-! ### A frame -/

/-- What the loop over `count` elements, at the front of `tail`, can give. -/
inductive ReadsBulks (pre tail : Bytes) (count : Nat) (args : List Bytes) : FrameResult → Prop
  | frameArgs {out bodies : List Bytes} {raw rest : Bytes} {n : Nat} : out = args ++ bodies →
    bodies.length = count → IsBlocks bodies raw → tail = raw ++ rest → n = (pre ++ raw).length →
    ReadsBulks pre tail count args (.frameArgs out n)
  | needMoreData : tail.length < count * 1048601 → ReadsBulks pre tail count args .needMoreData
  | protocolError {e : ProtocolError} : e ∈ frameErrors → ReadsBulks pre tail count args (.protocolError e)

theorem readBulks_reads (pre tail : Bytes) (count : Nat) (args : List Bytes) :
    ReadsBulks pre tail count args (readBulks (pre ++ tail) count pre.length args) := by
  induction count generalizing pre tail args with
  | zero => exact .frameArgs (List.append_nil args).symm rfl .nil rfl (by rw [List.append_nil])
  | succ count ih =>
    have hfirst := readBulk_reads pre tail
    rw [readBulks]
    generalize readBulk (pre ++ tail) pre.length = first at hfirst ⊢
    cases hfirst with
    | needMoreData hlt => exact .needMoreData (by omega)
    | protocolError he => exact .protocolError he
    | @body arg raw rest hblock htail =>
      subst htail
      have hrest := ih (pre ++ raw) rest (args ++ [arg])
      rw [List.append_assoc] at hrest
      dsimp only
      generalize readBulks (pre ++ (raw ++ rest)) count (pre ++ raw).length (args ++ [arg]) = result at hrest ⊢
      cases hrest with
      | @frameArgs out bodies raws rest' n hout hlen hblocks htail hn =>
        have hargs : out = args ++ arg :: bodies := by rw [hout, List.append_assoc]; rfl
        have hraws : raw ++ rest = raw ++ raws ++ rest' := by rw [htail, List.append_assoc]
        have hend : n = (pre ++ (raw ++ raws)).length := by rw [hn, List.append_assoc]
        exact .frameArgs hargs (congrArg (· + 1) hlen) (.cons hblock hblocks) hraws hend
      | needMoreData hlt =>
        have hraw := hblock.length_le
        have hbody := hblock.choose_spec.2.1
        refine .needMoreData ?_
        rw [List.length_append]
        omega
      | protocolError he => exact .protocolError he

theorem readBulks_blocks {bodies : List Bytes} {raw : Bytes} (h : IsBlocks bodies raw)
    (pre rest : Bytes) (args : List Bytes) (count : Nat) :
    readBulks (pre ++ (raw ++ rest)) (bodies.length + count) pre.length args =
      readBulks (pre ++ (raw ++ rest)) count (pre ++ raw).length (args ++ bodies) := by
  induction h generalizing pre args with
  | nil => simp
  | @cons body raw bodies raws hb _ ih =>
    have hbulk := readBulk_complete hb pre (raws ++ rest)
    rw [List.length_cons, Nat.add_right_comm, readBulks, List.append_assoc, hbulk]
    dsimp only
    rw [← List.append_assoc, ih]
    simp

/-- What phase 1 can give. -/
inductive ReadsFrame (input : Bytes) : FrameResult → Prop
  | frameArgs {args : List Bytes} {raw rest : Bytes} : IsFrame args raw → input = raw ++ rest →
    ReadsFrame input (.frameArgs args raw.length)
  | needMoreData : input.length < 3145826 → ReadsFrame input .needMoreData
  | protocolError {e : ProtocolError} : e ∈ frameErrors → ReadsFrame input (.protocolError e)

theorem readMultibulkFrame_reads (input : Bytes) : ReadsFrame input (readMultibulkFrame input) := by
  unfold readMultibulkFrame
  cases input with
  | nil => exact .needMoreData (Nat.zero_lt_succ _)
  | cons front rest =>
    dsimp only
    split_ifs with hfront
    · exact .protocolError (by simp [frameErrors])
    obtain rfl : front = 42 := not_not.mp hfront
    cases hl : readLine rest kMaxHeaderLineLength with
    | kNeedMoreData =>
      have hheader := length_le_of_readLine_more hl
      refine .needMoreData ?_
      rw [List.length_cons]
      unfold kMaxHeaderLineLength at hheader
      omega
    | kTooLong => exact .protocolError (by simp [frameErrors])
    | kFound D lineConsumed =>
      dsimp only
      cases hv : parseNonnegativeInteger D with
      | none => exact .protocolError (by simp [frameErrors])
      | some len =>
        dsimp only
        obtain ⟨hD, hn, rest', rfl⟩ := header_sound hl hv
        split_ifs with hmax
        · exact .protocolError (by simp [frameErrors])
        have hpre : 1 + lineConsumed = (42 :: (D ++ crlf)).length := by rw [hn]; simp [crlf]; omega
        have hreads := readBulks_reads (42 :: (D ++ crlf)) rest' len []
        rw [hpre, show 42 :: (D ++ (crlf ++ rest')) = 42 :: (D ++ crlf) ++ rest' by simp]
        generalize readBulks (42 :: (D ++ crlf) ++ rest') len (42 :: (D ++ crlf)).length [] = result at hreads ⊢
        cases hreads with
        | @frameArgs out bodies raw rest'' n hout hlen hblocks htail hend =>
          obtain rfl : out = bodies := hout
          subst hlen htail
          have hframe : IsFrame out (42 :: (D ++ (crlf ++ raw))) := ⟨D, raw, hD, not_lt.mp hmax, hblocks, rfl⟩
          have hin : 42 :: (D ++ crlf) ++ (raw ++ rest'') = 42 :: (D ++ (crlf ++ raw)) ++ rest'' := by simp
          rw [hend, hin, show 42 :: (D ++ crlf) ++ raw = 42 :: (D ++ (crlf ++ raw)) by simp]
          exact .frameArgs hframe rfl
        | needMoreData hlt =>
          have hthree : len ≤ 3 := not_lt.mp hmax
          have hheader := hD.length_le
          refine .needMoreData ?_
          simp only [List.length_append, List.length_cons, crlf, List.length_nil]
          omega
        | protocolError he => exact .protocolError he

theorem readMultibulkFrame_sound {input : Bytes} {args : List Bytes} {n : Nat}
    (h : readMultibulkFrame input = .frameArgs args n) :
    ∃ raw rest, IsFrame args raw ∧ input = raw ++ rest ∧ n = raw.length := by
  have hreads := readMultibulkFrame_reads input
  rw [h] at hreads
  cases hreads with
  | frameArgs hframe hin => exact ⟨_, _, hframe, hin, rfl⟩

theorem readMultibulkFrame_error_mem {input : Bytes} {e : ProtocolError}
    (h : readMultibulkFrame input = .protocolError e) : e ∈ frameErrors := by
  have hreads := readMultibulkFrame_reads input
  rw [h] at hreads
  cases hreads with
  | protocolError he => exact he

theorem readMultibulkFrame_header {D : Bytes} {n : Nat} (hD : IsHeader D n) (hmax : n ≤ 3) (rest : Bytes) :
    readMultibulkFrame (42 :: (D ++ crlf) ++ rest) =
      readBulks (42 :: (D ++ crlf) ++ rest) n (42 :: (D ++ crlf)).length [] := by
  obtain ⟨hl, hv⟩ := header_complete hD (le_trans hmax (by decide)) rest
  have hpre : 1 + (D.length + 2) = (42 :: (D ++ crlf)).length := by simp [crlf]; omega
  have hrest : D ++ crlf ++ rest = D ++ (crlf ++ rest) := by simp
  unfold readMultibulkFrame
  rw [List.cons_append, hrest]
  dsimp only
  rw [if_neg (by simp), hl]
  dsimp only
  rw [hv]
  dsimp only
  rw [if_neg (show ¬ kMaxArrayElements < _ from not_lt.mpr hmax), hpre]

theorem readMultibulkFrame_blocks {D blocks : Bytes} {args : List Bytes} {k : Nat}
    (hD : IsHeader D (args.length + k)) (hmax : args.length + k ≤ 3) (hblocks : IsBlocks args blocks) (rest : Bytes) :
    readMultibulkFrame (42 :: (D ++ (crlf ++ (blocks ++ rest)))) =
      readBulks ((42 :: (D ++ crlf) ++ blocks) ++ rest) k (42 :: (D ++ crlf) ++ blocks).length args := by
  have hread := readBulks_blocks hblocks (42 :: (D ++ crlf)) rest [] k
  rw [show 42 :: (D ++ (crlf ++ (blocks ++ rest))) = 42 :: (D ++ crlf) ++ (blocks ++ rest) by simp,
    readMultibulkFrame_header hD hmax, hread, List.nil_append, List.append_assoc]

theorem readMultibulkFrame_complete {args : List Bytes} {raw : Bytes} (h : IsFrame args raw)
    (rest : Bytes) : readMultibulkFrame (raw ++ rest) = .frameArgs args raw.length := by
  obtain ⟨D, blocks, hD, hmax, hblocks, rfl⟩ := h
  rw [show 42 :: (D ++ (crlf ++ blocks)) ++ rest = 42 :: (D ++ (crlf ++ (blocks ++ rest))) by simp,
    readMultibulkFrame_blocks (k := 0) hD hmax hblocks, readBulks]
  simp

/-! ### Commands -/

theorem toUpper_eq_iff {x y : UInt8} (hy : 65 ≤ y ∧ y ≤ 90) :
    (if 97 ≤ x ∧ x ≤ 122 then x - 97 + 65 else x) = y ↔ x = y ∨ x = y + 32 := by
  have h1 := UInt8.le_iff_toNat_le.mp hy.1
  have h2 := UInt8.le_iff_toNat_le.mp hy.2
  simp only [UInt8.reduceToNat] at h1 h2
  split_ifs with hx
  · have h3 := UInt8.le_iff_toNat_le.mp hx.1
    have h4 := UInt8.le_iff_toNat_le.mp hx.2
    simp only [UInt8.reduceToNat] at h3 h4
    simp only [← UInt8.toNat_inj, UInt8.toNat_add, UInt8.toNat_sub_of_le _ _ hx.1, UInt8.reduceToNat]
    omega
  · simp only [UInt8.le_iff_toNat_le, UInt8.reduceToNat] at hx
    simp only [← UInt8.toNat_inj, UInt8.toNat_add, UInt8.reduceToNat]
    omega

theorem toUpperAscii_eq_iff {text name : Bytes} (h : ∀ y ∈ name, 65 ≤ y ∧ y ≤ 90) :
    toUpperAscii text = name ↔ List.Forall₂ (fun x y => x = y ∨ x = y + 32) text name := by
  unfold toUpperAscii
  induction text generalizing name with
  | nil => simp [List.forall₂_nil_left_iff, eq_comm]
  | cons x text ih =>
    cases name with
    | nil => simp [List.forall₂_nil_right_iff]
    | cons y name =>
      rw [List.map_cons, List.cons.injEq, List.forall₂_cons, toUpper_eq_iff (h y (by simp)),
        ih fun z hz => h z (by simp [hz])]

theorem checkKeyLength_eq_none_iff {key : Bytes} : checkKeyLength key = none ↔ key.length ≤ 512 := by
  unfold checkKeyLength
  split_ifs with h
  · exact iff_of_false (by simp) (not_le.mpr h)
  · exact iff_of_true rfl (not_lt.mp h)

theorem buildKeyCommand_eq_ok_iff {type : CommandType} {name : Bytes} {params : List Bytes}
    {c : Command} : buildKeyCommand type name params = .ok c ↔
      ∃ key, params = [key] ∧ key.length ≤ 512 ∧ c = { type, key } := by
  unfold buildKeyCommand
  split
  · rename_i key
    cases hk : checkKeyLength key with
    | some err =>
      have : ¬ key.length ≤ 512 := fun h => by rw [checkKeyLength_eq_none_iff.mpr h] at hk; cases hk
      simp [this]
    | none => simp [checkKeyLength_eq_none_iff.mp hk, eq_comm]
  · rename_i h
    refine iff_of_false (by simp) ?_
    rintro ⟨key, rfl, -⟩
    exact h key rfl

theorem buildSet_eq_ok_iff {name : Bytes} {params : List Bytes} {c : Command} :
    buildSet name params = .ok c ↔ ∃ key value, params = [key, value] ∧ key.length ≤ 512 ∧
      value.length ≤ 1048576 ∧ c = { type := .kSet, key, value } := by
  unfold buildSet
  split
  · rename_i key value
    cases hk : checkKeyLength key with
    | some err =>
      have : ¬ key.length ≤ 512 := fun h => by rw [checkKeyLength_eq_none_iff.mpr h] at hk; cases hk
      simp [this]
    | none =>
      dsimp only
      split_ifs with hv
      · have : ¬ value.length ≤ 1048576 := not_le.mpr hv
        simp [this]
      · have : value.length ≤ 1048576 := not_lt.mp hv
        simp [checkKeyLength_eq_none_iff.mp hk, this, eq_comm]
  · rename_i h
    refine iff_of_false (by simp) ?_
    rintro ⟨key, value, rfl, -⟩
    exact h key value rfl

theorem buildExpire_eq_ok_iff {name : Bytes} {params : List Bytes} {c : Command} :
    buildExpire name params = .ok c ↔ ∃ key seconds s, params = [key, seconds] ∧ key.length ≤ 512 ∧
      IsNumeral seconds s ∧ s ≤ 2 ^ 63 - 1 ∧ c = { type := .kExpire, key, seconds := s } := by
  unfold buildExpire
  split
  · rename_i key seconds
    cases hk : checkKeyLength key with
    | some err =>
      have : ¬ key.length ≤ 512 := fun h => by rw [checkKeyLength_eq_none_iff.mpr h] at hk; cases hk
      simp [this]
    | none =>
      have hk := checkKeyLength_eq_none_iff.mp hk
      cases hs : parseNonnegativeInteger seconds with
      | none =>
        refine iff_of_false (by simp) ?_
        rintro ⟨_, _, s, h, -, hn, hle, -⟩
        cases h
        rw [parseNonnegativeInteger_eq_some_iff.mpr ⟨hn, hle⟩] at hs; cases hs
      | some s =>
        obtain ⟨hn, hle⟩ := parseNonnegativeInteger_eq_some_iff.mp hs
        constructor
        · intro h; cases h
          exact ⟨key, seconds, s, rfl, hk, hn, hle, rfl⟩
        · rintro ⟨_, _, s', h, -, hn', -, rfl⟩
          cases h
          rw [← hn.value_eq, hn'.value_eq]
  · rename_i h
    refine iff_of_false (by simp) ?_
    rintro ⟨key, seconds, s, rfl, -⟩
    exact h key seconds rfl

theorem spells_iff {text : Bytes} {name : String} (h : ∀ y ∈ ascii name, 65 ≤ y ∧ y ≤ 90) :
    Spells text name ↔ toUpperAscii text = ascii name :=
  (toUpperAscii_eq_iff h).symm

theorem Spells.length_eq {text : Bytes} {name : String} (h : Spells text name) :
    text.length = (ascii name).length := List.Forall₂.length_eq h

/-- Phase 2 accepts exactly the argument lists of the seven commands. -/
theorem buildCommand_eq_ok_iff {args : List Bytes} {c : Command} :
    buildCommand args = .ok c ↔ IsCommand args c := by
  constructor
  · intro h
    unfold buildCommand at h
    cases args with
    | nil => cases h
    | cons name params =>
      dsimp only at h
      split_ifs at h with h1 h2 h3 h4 h5 h6 h7 h8
      · cases h
        rw [not_not.mp h2]
        exact .ping ((spells_iff (by decide +kernel)).mpr h1)
      · obtain ⟨key, value, rfl, hk, hv, rfl⟩ := buildSet_eq_ok_iff.mp h
        exact .set ((spells_iff (by decide +kernel)).mpr h3) hk hv
      · obtain ⟨key, rfl, hk, rfl⟩ := buildKeyCommand_eq_ok_iff.mp h
        exact .get ((spells_iff (by decide +kernel)).mpr h4) hk
      · obtain ⟨key, rfl, hk, rfl⟩ := buildKeyCommand_eq_ok_iff.mp h
        exact .del ((spells_iff (by decide +kernel)).mpr h5) hk
      · obtain ⟨key, rfl, hk, rfl⟩ := buildKeyCommand_eq_ok_iff.mp h
        exact .exists ((spells_iff (by decide +kernel)).mpr h6) hk
      · obtain ⟨key, seconds, s, rfl, hk, hn, hle, rfl⟩ := buildExpire_eq_ok_iff.mp h
        exact .expire ((spells_iff (by decide +kernel)).mpr h7) hk hn hle
      · obtain ⟨key, rfl, hk, rfl⟩ := buildKeyCommand_eq_ok_iff.mp h
        exact .ttl ((spells_iff (by decide +kernel)).mpr h8) hk
  · -- the names differ pairwise, so the branch is determined by the name
    intro h
    cases h with
    | ping hn =>
      simp only [buildCommand, (spells_iff (by decide +kernel)).mp hn, ↓reduceIte]
      simp
    | set hn hk hv =>
      simp only [buildCommand, (spells_iff (by decide +kernel)).mp hn, ↓reduceIte]
      rw [if_neg (by decide)]
      exact buildSet_eq_ok_iff.mpr ⟨_, _, rfl, hk, hv, rfl⟩
    | get hn hk =>
      simp only [buildCommand, (spells_iff (by decide +kernel)).mp hn, ↓reduceIte]
      rw [if_neg (by decide), if_neg (by decide)]
      exact buildKeyCommand_eq_ok_iff.mpr ⟨_, rfl, hk, rfl⟩
    | del hn hk =>
      simp only [buildCommand, (spells_iff (by decide +kernel)).mp hn, ↓reduceIte]
      rw [if_neg (by decide), if_neg (by decide), if_neg (by decide)]
      exact buildKeyCommand_eq_ok_iff.mpr ⟨_, rfl, hk, rfl⟩
    | «exists» hn hk =>
      simp only [buildCommand, (spells_iff (by decide +kernel)).mp hn, ↓reduceIte]
      rw [if_neg (by decide), if_neg (by decide), if_neg (by decide), if_neg (by decide)]
      exact buildKeyCommand_eq_ok_iff.mpr ⟨_, rfl, hk, rfl⟩
    | ttl hn hk =>
      simp only [buildCommand, (spells_iff (by decide +kernel)).mp hn, ↓reduceIte]
      rw [if_neg (by decide), if_neg (by decide), if_neg (by decide), if_neg (by decide),
        if_neg (by decide), if_neg (by decide)]
      exact buildKeyCommand_eq_ok_iff.mpr ⟨_, rfl, hk, rfl⟩
    | expire hn hk hs hle =>
      simp only [buildCommand, (spells_iff (by decide +kernel)).mp hn, ↓reduceIte]
      rw [if_neg (by decide), if_neg (by decide), if_neg (by decide), if_neg (by decide),
        if_neg (by decide)]
      exact buildExpire_eq_ok_iff.mpr ⟨_, _, _, rfl, hk, hs, hle, rfl⟩

/-! ### The whole parser -/

theorem frameVerdict_eq_parsedCommand_iff {args : List Bytes} {n m : Nat} {c : Command} :
    frameVerdict args n = .parsedCommand c m ↔ IsCommand args c ∧ n = m := by
  unfold frameVerdict
  cases hb : buildCommand args with
  | error e =>
    have : ¬ IsCommand args c := fun h => by rw [buildCommand_eq_ok_iff.mpr h] at hb; cases hb
    simp [this]
  | ok c' =>
    rw [ParseResult.parsedCommand.injEq, ← buildCommand_eq_ok_iff, hb, Except.ok.injEq]

theorem frameVerdict_error_iff {args : List Bytes} {n m : Nat} :
    (∃ e, frameVerdict args n = .protocolError e ∧ e.recoverable = true ∧ e.consumedBytes = m) ↔
      (∀ c, ¬ IsCommand args c) ∧ n = m := by
  unfold frameVerdict
  cases hb : buildCommand args with
  | error e =>
    have : ∀ c, ¬ IsCommand args c := fun c h => by
      rw [buildCommand_eq_ok_iff.mpr h] at hb; cases hb
    simp [this]
  | ok c' => exact iff_of_false (by simp) fun h => h.1 c' (buildCommand_eq_ok_iff.mp hb)

theorem recoverable_of_mem_frameErrors {e : ProtocolError} (h : e ∈ frameErrors) :
    e.recoverable = false := by
  revert e; decide

theorem parseCommand_of_isFrame {args : List Bytes} {raw : Bytes} (h : IsFrame args raw) (rest : Bytes) :
    parseCommand (raw ++ rest) = frameVerdict args raw.length := by
  unfold parseCommand; rw [readMultibulkFrame_complete h rest]

/-- The three outcomes of a parse: the frame is incomplete, phase 1 refuses it, or phase 2 has its say. -/
theorem parseCommand_cases (input : Bytes) :
    parseCommand input = .needMoreData ∨ (∃ e ∈ frameErrors, parseCommand input = .protocolError e) ∨
      ∃ args raw rest, IsFrame args raw ∧ input = raw ++ rest ∧
        parseCommand input = frameVerdict args raw.length := by
  cases hf : readMultibulkFrame input with
  | needMoreData => exact .inl (by simp [parseCommand, hf])
  | protocolError e => exact .inr (.inl ⟨e, readMultibulkFrame_error_mem hf, by simp [parseCommand, hf]⟩)
  | frameArgs args n =>
    obtain ⟨raw, rest, hframe, rfl, rfl⟩ := readMultibulkFrame_sound hf
    exact .inr (.inr ⟨args, raw, rest, hframe, rfl, parseCommand_of_isFrame hframe rest⟩)

theorem isCommand_of_parseCommand {input : Bytes} {c : Command} {n : Nat}
    (h : parseCommand input = .parsedCommand c n) : ∃ args raw rest, IsFrame args raw ∧
      input = raw ++ rest ∧ raw.length = n ∧ IsCommand args c := by
  rcases parseCommand_cases input with hp | ⟨e, -, hp⟩ | ⟨args, raw, rest, hframe, hin, hp⟩
  · rw [hp] at h; cases h
  · rw [hp] at h; cases h
  · obtain ⟨hc, hn⟩ := frameVerdict_eq_parsedCommand_iff.mp (hp.symm.trans h)
    exact ⟨args, raw, rest, hframe, hin, hn, hc⟩

/-- A frame at the front of the input, written with the length the grammar statement uses. -/
theorem isFrame_take_iff {input : Bytes} {args : List Bytes} {n : Nat} :
    readMultibulkFrame input = .frameArgs args n ↔ n ≤ input.length ∧ IsFrame args (input.take n) := by
  constructor
  · intro h
    obtain ⟨raw, rest, hf, rfl, rfl⟩ := readMultibulkFrame_sound h
    exact ⟨by simp, by simpa using hf⟩
  · rintro ⟨hle, hf⟩
    have := readMultibulkFrame_complete hf (input.drop n)
    rwa [List.take_append_drop, List.length_take, Nat.min_eq_left hle] at this

theorem parseCommand_eq_parsedCommand_iff {input : Bytes} {c : Command} {n : Nat} :
    parseCommand input = .parsedCommand c n ↔
      ∃ args, readMultibulkFrame input = .frameArgs args n ∧ IsCommand args c := by
  unfold parseCommand
  cases readMultibulkFrame input with
  | needMoreData => simp
  | protocolError e => simp
  | frameArgs args m =>
    dsimp only
    rw [frameVerdict_eq_parsedCommand_iff]
    constructor
    · rintro ⟨hc, rfl⟩; exact ⟨args, rfl, hc⟩
    · rintro ⟨args', heq, hc⟩; cases heq; exact ⟨hc, rfl⟩

/-- Phase 1 reports no recoverable errors, so these are frames that phase 2 refuses. -/
theorem parseCommand_recoverable_iff {input : Bytes} {n : Nat} :
    (∃ e, parseCommand input = .protocolError e ∧ e.recoverable = true ∧ e.consumedBytes = n) ↔
      ∃ args, readMultibulkFrame input = .frameArgs args n ∧ ∀ c, ¬ IsCommand args c := by
  unfold parseCommand
  cases hf : readMultibulkFrame input with
  | needMoreData => simp
  | protocolError e =>
    have hfatal := recoverable_of_mem_frameErrors (readMultibulkFrame_error_mem hf)
    simp [hfatal]
  | frameArgs args m =>
    dsimp only
    rw [frameVerdict_error_iff]
    constructor
    · rintro ⟨hc, rfl⟩; exact ⟨args, rfl, hc⟩
    · rintro ⟨args', heq, hc⟩; cases heq; exact ⟨hc, rfl⟩

/-- `parse_command` accepts a command of `n` bytes exactly when the first `n` bytes of the input are
a frame of the grammar that is this command, and answers a recoverable error of `n` bytes exactly
when they are a frame that is no command. -/
theorem parseCommand_iff_grammar (input : Bytes) :
    (∀ c n, parseCommand input = .parsedCommand c n ↔
      ∃ args, n ≤ input.length ∧ IsFrame args (input.take n) ∧ IsCommand args c) ∧
    (∀ n, (∃ e, parseCommand input = .protocolError e ∧ e.recoverable = true ∧ e.consumedBytes = n) ↔
      ∃ args, n ≤ input.length ∧ IsFrame args (input.take n) ∧ ∀ c, ¬ IsCommand args c) := by
  refine ⟨fun c n => ?_, fun n => ?_⟩
  · rw [parseCommand_eq_parsedCommand_iff]
    exact exists_congr fun args => by rw [isFrame_take_iff, and_assoc]
  · rw [parseCommand_recoverable_iff]
    exact exists_congr fun args => by rw [isFrame_take_iff, and_assoc]

end KvStore
