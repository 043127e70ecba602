import KvStore.Backpressure

/-!
# The limits of the parser and of the input buffer

The parser asks for more data only inside a frame. A frame has at most three elements of a mebibyte each behind
headers of twenty digits, so it is soon complete or refused (`length_lt_of_needMoreData`). A command is much
shorter: only one of its arguments can be as long as a bulk string may be. It fits in the default input buffer, and
no part of it fills the buffer (`limits_agree`). The bounds are the smallest ones: `padded_expire` is a command and
`parseCommand_waits` gives an incomplete frame that reach them.
-/

namespace KvStore
open ByteString Decimal

theorem length_lt_of_needMoreData {input : Bytes} (h : parseCommand input = .needMoreData) :
    input.length < 3145826 := by
  have hreads := readMultibulkFrame_reads input
  unfold parseCommand at h
  generalize readMultibulkFrame input = result at h hreads
  cases hreads with
  | frameArgs hframe hin =>
    have hconsumed := congrArg ParseResult.consumed h
    dsimp only at hconsumed
    rw [consumed_frameVerdict] at hconsumed
    cases hconsumed
  | needMoreData hlt => exact hlt
  | protocolError he => cases h

/-! ### Commands in the buffer -/

theorem parseCommand_take {input : Bytes} {command : Command} {n : Nat}
    (h : parseCommand input = .parsedCommand command n) :
    parseCommand (input.take n) = .parsedCommand command n ∧ (input.take n).length = n := by
  have hconsumed : (parseCommand input).consumed = some n := by rw [h]; rfl
  refine ⟨(parseCommand_take_consumed hconsumed).trans h, ?_⟩
  rw [List.length_take]
  exact Nat.min_eq_left (consumed_bounds hconsumed).2

theorem consumed_le_of_parsedCommand {input : Bytes} {command : Command} {n : Nat}
    (h : parseCommand input = .parsedCommand command n) : n ≤ 1049192 := by
  obtain ⟨hcommand, hlen⟩ := parseCommand_take h
  rw [← hlen]
  refine IsCommandFrame.length_le ⟨command, ?_⟩
  rw [hcommand, hlen]

/-- With more than 3145825 bytes the parser does not ask for more. A command has at most 1049192 bytes, so a default
input buffer that holds any part of it takes in the rest and then shows the command; until then `read_into` finds
room in it. -/
theorem limits_agree (input : Bytes) :
    (3145826 ≤ input.length → parseCommand input ≠ .needMoreData) ∧
    ∀ command n, parseCommand input = .parsedCommand command n → n ≤ 1049192 ∧
      ∀ (b : BoundedBuffer) (t : Bytes), b.capacity = kDefaultMaxInputBufferBytes → b.data ++ t = input.take n →
        (∃ b', b.append t = some b' ∧ parseCommand b'.data = .parsedCommand command n) ∧
        b.capacity - b.data.length ≠ 0 := by
  refine ⟨fun hlong hmore => ?_, fun command n h => ?_⟩
  · exact absurd (length_lt_of_needMoreData hmore) (not_lt.mpr hlong)
  · have hle := consumed_le_of_parsedCommand h
    refine ⟨hle, fun b t hcap hsplit => ?_⟩
    obtain ⟨hcommand, hlen⟩ := parseCommand_take h
    have hparts := congrArg List.length hsplit
    rw [List.length_append, hlen] at hparts
    have hbuffer : kDefaultMaxInputBufferBytes = 2097152 := rfl
    obtain ⟨b', happ⟩ := BoundedBuffer.exists_append (show b.data.length + t.length ≤ b.capacity by omega)
    refine ⟨⟨b', happ, ?_⟩, by omega⟩
    rw [BoundedBuffer.data_of_append happ, hsplit]
    exact hcommand

/-! ### Commands and incomplete frames as long as they get -/

/-- A length with as many zeros in front as a header may have. -/
def paddedHeader (n : Nat) : Bytes := List.replicate (20 - (ofNat n).length) 48 ++ ofNat n

def paddedBlock (body : Bytes) : Bytes := 36 :: (paddedHeader body.length ++ (crlf ++ (body ++ crlf)))

def paddedFrame (args : List Bytes) : Bytes :=
  42 :: (paddedHeader args.length ++ (crlf ++ (args.map paddedBlock).flatten))

theorem length_paddedHeader {n : Nat} (h : n ≤ 1048576) : (paddedHeader n).length = 20 := by
  have := (isHeader_ofNat h).length_le
  rw [paddedHeader, List.length_append, List.length_replicate]
  omega

theorem isHeader_padded {n : Nat} (h : n ≤ 1048576) : IsHeader (paddedHeader n) n :=
  ⟨(isNumeral_ofNat n).zeros_append _, (length_paddedHeader h).le⟩

theorem isBlock_padded {body : Bytes} (h : body.length ≤ 1048576) : IsBlock body (paddedBlock body) :=
  ⟨paddedHeader body.length, isHeader_padded h, h, rfl⟩

theorem Encodable.isFrame_padded {args : List Bytes} (h : Encodable args) : IsFrame args (paddedFrame args) :=
  ⟨paddedHeader args.length, _, isHeader_padded (le_trans h.length_le (by decide)), h.length_le,
    isBlocks_map fun part hpart => isBlock_padded (h.part_le part hpart), rfl⟩

theorem length_paddedBlocks {args : List Bytes} (h : ∀ arg ∈ args, arg.length ≤ 1048576) :
    (args.map paddedBlock).flatten.length = args.flatten.length + 25 * args.length := by
  induction args with
  | nil => rfl
  | cons arg args ih =>
    have hargs := ih fun a ha => h a (List.mem_cons_of_mem _ ha)
    have hheader := length_paddedHeader (h arg List.mem_cons_self)
    rw [List.map_cons, List.flatten_cons, List.flatten_cons, List.length_append, List.length_append, hargs]
    simp only [paddedBlock, List.length_cons, List.length_append, hheader, crlf, List.length_nil]
    omega

theorem Encodable.length_paddedFrame {args : List Bytes} (h : Encodable args) :
    (paddedFrame args).length = args.flatten.length + 25 * args.length + 23 := by
  have hheader := length_paddedHeader (le_trans h.length_le (by decide))
  have hblocks := length_paddedBlocks h.part_le
  simp only [paddedFrame, List.length_cons, List.length_append, hheader, hblocks, crlf, List.length_nil]
  omega

/-- `EXPIRE` with a key of `k` bytes and zero seconds in `m` digits. -/
def expireArgs (k m : Nat) : List Bytes := [ascii "EXPIRE", List.replicate k 107, List.replicate m 48]

theorem padded_expire {k m : Nat} (hk : k ≤ 512) (hm : 0 < m) (hmax : m ≤ 1048576) :
    parseCommand (paddedFrame (expireArgs k m)) =
      .parsedCommand { type := .kExpire, key := List.replicate k 107, seconds := (0 : Nat) } (k + m + 104) := by
  have hname : (ascii "EXPIRE").length = 6 := rfl
  have hencodable : Encodable (expireArgs k m) := by
    refine ⟨le_refl 3, fun part hpart => ?_⟩
    simp only [expireArgs, List.mem_cons, List.not_mem_nil, or_false] at hpart
    rcases hpart with rfl | rfl | rfl
    · rw [hname]; decide
    · rw [List.length_replicate]; omega
    · rw [List.length_replicate]; exact hmax
  have hnumeral : IsNumeral (List.replicate m 48) 0 := by
    obtain ⟨j, rfl⟩ : ∃ j, m = j + 1 := ⟨m - 1, by omega⟩
    rw [List.replicate_succ']
    exact (isNumeral_ofNat 0).zeros_append j
  have hcommand : IsCommand (expireArgs k m)
      { type := .kExpire, key := List.replicate k 107, seconds := (0 : Nat) } :=
    .expire (by unfold Spells; decide) (by rw [List.length_replicate]; exact hk) hnumeral (Nat.zero_le _)
  have hlength := hencodable.length_paddedFrame
  simp only [expireArgs, List.flatten_cons, List.flatten_nil, List.length_append, List.length_cons, List.length_nil,
    List.length_replicate, hname] at hlength
  have hverdict := parseCommand_of_isFrame hencodable.isFrame_padded []
  rw [List.append_nil] at hverdict
  rw [hverdict, frameVerdict_eq_parsedCommand_iff]
  refine ⟨hcommand, ?_⟩
  rw [show (paddedFrame (expireArgs k m)).length = _ from hlength]
  omega

theorem readBulk_waits {L tail : Bytes} {len : Nat} (hL : IsHeader L len) (hlen : len ≤ 1048576)
    (hshort : tail.length < len + 2) (pre : Bytes) :
    readBulk (pre ++ 36 :: (L ++ (crlf ++ tail))) pre.length = .needMoreData := by
  obtain ⟨hl, hv⟩ := header_complete hL (le_trans hlen (by decide)) tail
  have hdrop : (pre ++ 36 :: (L ++ (crlf ++ tail))).drop (pre.length + 1) = L ++ (crlf ++ tail) := by
    simp [List.drop_append]
  unfold readBulk
  rw [if_neg (by simp), if_neg (by simp), hdrop, hl]
  dsimp only
  rw [hv]
  dsimp only
  rw [if_neg (show ¬ kMaxBulkStringLength < len from not_lt.mpr hlen), if_pos]
  simp only [List.length_append, List.length_cons, crlf, List.length_nil]
  omega

/-- Behind good elements the parser waits until the body of the next one and its terminator are there. -/
theorem parseCommand_waits {D blocks L tail : Bytes} {args : List Bytes} {k len : Nat}
    (hD : IsHeader D (args.length + (k + 1))) (hmax : args.length + (k + 1) ≤ 3) (hblocks : IsBlocks args blocks)
    (hL : IsHeader L len) (hlen : len ≤ 1048576) (hshort : tail.length < len + 2) :
    parseCommand (42 :: (D ++ (crlf ++ (blocks ++ 36 :: (L ++ (crlf ++ tail)))))) = .needMoreData := by
  rw [parseCommand, readMultibulkFrame_blocks hD hmax hblocks, readBulks, readBulk_waits hL hlen hshort]

/-- Three elements of `n` bytes each, without the last byte. -/
def cutFrame (n : Nat) : Bytes :=
  42 :: (paddedHeader 3 ++ (crlf ++ (([List.replicate n 0, List.replicate n 0].map paddedBlock).flatten ++
    36 :: (paddedHeader n ++ (crlf ++ List.replicate (n + 1) 0)))))

section
variable {n : Nat}

theorem length_le_of_mem_pair (h : n ≤ 1048576) :
    ∀ part ∈ [List.replicate n (0 : UInt8), List.replicate n 0], part.length ≤ 1048576 := by
  intro part hpart
  have : part = List.replicate n 0 := by simpa using hpart
  rw [this, List.length_replicate]
  exact h

theorem parseCommand_cutFrame (h : n ≤ 1048576) : parseCommand (cutFrame n) = .needMoreData := by
  have hblocks : IsBlocks [List.replicate n 0, List.replicate n 0] _ :=
    isBlocks_map fun part hpart => isBlock_padded (length_le_of_mem_pair h part hpart)
  have hthree : IsHeader (paddedHeader 3) ([List.replicate n (0 : UInt8), List.replicate n 0].length + (0 + 1)) :=
    isHeader_padded (by decide)
  refine parseCommand_waits hthree (le_refl 3) hblocks (isHeader_padded h) h ?_
  rw [List.length_replicate]
  exact Nat.lt_succ_self _

theorem length_cutFrame (h : n ≤ 1048576) : (cutFrame n).length = 3 * n + 97 := by
  have hblocks := length_paddedBlocks (length_le_of_mem_pair h)
  have hthree : (paddedHeader 3).length = 20 := length_paddedHeader (by decide)
  rw [cutFrame, List.length_cons, List.length_append, List.length_append, List.length_append, hblocks, hthree]
  simp only [List.flatten_cons, List.flatten_nil, List.length_cons, List.length_append, length_paddedHeader h, crlf,
    List.length_nil, List.length_replicate]
  omega

end

/-- The bounds are attained: a command of 1049192 bytes, and an incomplete frame of 3145825 bytes. -/
theorem limits_agree_attained :
    (∃ command b, parseCommand (paddedFrame (expireArgs 512 1048576)) = .parsedCommand command 1049192 ∧
      (BoundedBuffer.empty kDefaultMaxInputBufferBytes).append
        ((paddedFrame (expireArgs 512 1048576)).take 1049192) = some b ∧
      parseCommand b.data = .parsedCommand command 1049192) ∧
    (cutFrame 1048576).length = 3145825 ∧ parseCommand (cutFrame 1048576) = .needMoreData ∧
    ∀ b, parseCommand (cutFrame 1048576 ++ [b]) ≠ .needMoreData := by
  have hcommand := padded_expire (le_refl 512) (by decide) (le_refl 1048576)
  obtain ⟨-, hfits⟩ := (limits_agree (paddedFrame (expireArgs 512 1048576))).2 _ _ hcommand
  obtain ⟨⟨b, happ, hshown⟩, -⟩ := hfits (.empty kDefaultMaxInputBufferBytes) _ rfl rfl
  have hlength : (cutFrame 1048576).length = 3145825 := length_cutFrame (le_refl _)
  refine ⟨⟨_, b, hcommand, happ, hshown⟩, hlength, parseCommand_cutFrame (le_refl _), fun b => ?_⟩
  refine (limits_agree (cutFrame 1048576 ++ [b])).1 ?_
  rw [List.length_append, hlength]
  exact le_refl _

end KvStore
