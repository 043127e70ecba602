import KvStore.Framing
import KvStore.Lib.Checked
import KvStore.LoopMoves

/-!
# The parser stays within its input

`parseCommandChecked` is `parse_command` with every index, every `substr` and every sum of sizes checked: it
faults where the C++ code would read outside the input or wrap around. It never does
(`parseCommandChecked_eq`). A frame that is taken has at least four bytes, so the loop of `process_input`
shortens the buffer in every round that goes on, and ends.
-/

namespace KvStore
open ByteString Checked

/-! ### Phase 1 with checks -/

/-- `std::numeric_limits<std::size_t>::max()`. -/
def sizeMax : Nat := 18446744073709551615

def addSize (a b : Nat) : Except Fault Nat := fits sizeMax (a + b)

def readLineChecked (input : Bytes) (maxLength : Nat) : Except Fault LineResult :=
  match find crlf input with
  | some pos =>
    if maxLength < pos then .ok .kTooLong
    else do
      let content ← substr input 0 pos
      let consumed ← addSize pos 2
      return .kFound content consumed
  | none => if maxLength < input.length then .ok .kTooLong else .ok .kNeedMoreData

def parseDigitsChecked : Bytes → Nat → Except Fault (Option Nat)
  | [], value => .ok (some value)
  | c :: text, value =>
    if c < 48 ∨ 57 < c then .ok none
    else
      let digit := c.toNat - 48
      if (int64Max - digit) / 10 < value then .ok none
      else do
        let scaled ← fits int64Max (value * 10)
        let value ← fits int64Max (scaled + digit)
        parseDigitsChecked text value

def parseNonnegativeIntegerChecked (text : Bytes) : Except Fault (Option Nat) :=
  if text = [] then .ok none else parseDigitsChecked text 0

/-- The body of `bulkLen` bytes behind a header that ends at `start`. -/
def readBodyChecked (input : Bytes) (start bulkLen : Nat) : Except Fault BulkResult := do
  let bodyEnd ← addSize start bulkLen
  let needed ← addSize bodyEnd 2
  if input.length < needed then return .needMoreData
  let first ← byteAt input bodyEnd
  if first ≠ cr then return .protocolError (malformed "bulk string missing terminator")
  let next ← addSize bodyEnd 1
  let second ← byteAt input next
  if second ≠ lf then return .protocolError (malformed "bulk string missing terminator")
  let arg ← substr input start bulkLen
  let advance ← addSize bulkLen 2
  let consumed ← addSize start advance
  return .body arg consumed

def readBulkChecked (input : Bytes) (consumed : Nat) : Except Fault BulkResult := do
  if input.length ≤ consumed then return .needMoreData
  let front ← byteAt input consumed
  if front ≠ 36 then return .protocolError (malformed "expected bulk string ('$')")
  let header ← addSize consumed 1
  let tail ← substrFrom input header
  match ← readLineChecked tail kMaxHeaderLineLength with
  | .kNeedMoreData => return .needMoreData
  | .kTooLong => return .protocolError (malformed "bulk string length header too long")
  | .kFound content lineConsumed =>
    match ← parseNonnegativeIntegerChecked content with
    | none => return .protocolError (malformed "invalid bulk string length")
    | some bulkLen =>
      if kMaxBulkStringLength < bulkLen then
        return .protocolError
          { category := .kFieldTooLarge
            message := ascii "bulk string exceeds the maximum field size" }
      let headerLength ← addSize 1 lineConsumed
      let start ← addSize consumed headerLength
      readBodyChecked input start bulkLen

def readBulksChecked (input : Bytes) : Nat → Nat → List Bytes → Except Fault FrameResult
  | 0, consumed, args => .ok (.frameArgs args consumed)
  | count + 1, consumed, args => do
    match ← readBulkChecked input consumed with
    | .body arg consumed => readBulksChecked input count consumed (args ++ [arg])
    | .needMoreData => return .needMoreData
    | .protocolError e => return .protocolError e

def readMultibulkFrameChecked (input : Bytes) : Except Fault FrameResult := do
  if input = [] then return .needMoreData
  let front ← byteAt input 0
  if front ≠ 42 then return .protocolError (malformed "expected RESP array ('*')")
  let tail ← substrFrom input 1
  match ← readLineChecked tail kMaxHeaderLineLength with
  | .kNeedMoreData => return .needMoreData
  | .kTooLong => return .protocolError (malformed "array length header too long")
  | .kFound content lineConsumed =>
    match ← parseNonnegativeIntegerChecked content with
    | none => return .protocolError (malformed "invalid array length")
    | some arrayLen =>
      if kMaxArrayElements < arrayLen then return .protocolError (malformed "too many command arguments")
      let consumed ← addSize 1 lineConsumed
      readBulksChecked input arrayLen consumed []

def parseCommandChecked (input : Bytes) : Except Fault ParseResult := do
  match ← readMultibulkFrameChecked input with
  | .needMoreData => return .needMoreData
  | .protocolError error => return .protocolError error
  | .frameArgs args consumed => return frameVerdict args consumed

/-! ### No check fails -/

theorem addSize_eq_ok {a b : Nat} (h : a + b ≤ sizeMax) : addSize a b = .ok (a + b) := fits_eq_ok h

theorem readLineChecked_eq {input : Bytes} (hsize : input.length ≤ int64Max) (maxLength : Nat) :
    readLineChecked input maxLength = .ok (readLine input maxLength) := by
  unfold readLineChecked readLine
  cases hf : find crlf input with
  | none =>
    dsimp only
    split_ifs <;> rfl
  | some pos =>
    have hpos : pos + 2 ≤ input.length := length_le_of_find hf
    have hfit : pos + 2 ≤ sizeMax := le_trans (le_trans hpos hsize) (by decide)
    dsimp only
    split_ifs with hlong
    · rfl
    · rw [bind_eq_of_ok (substr_eq_ok (by omega)), bind_eq_of_ok (addSize_eq_ok hfit)]
      rfl

theorem parseDigitsChecked_eq (text : Bytes) (value : Nat) :
    parseDigitsChecked text value = .ok (parseDigits text value) := by
  induction text generalizing value with
  | nil => rfl
  | cons c text ih =>
    rw [parseDigitsChecked, parseDigits]
    dsimp only
    split_ifs with hdigit hover
    · rfl
    · rfl
    · have hc : c.toNat ≤ 57 := UInt8.le_iff_toNat_le.mp (UInt8.not_lt.mp fun h => hdigit (.inr h))
      have hmax : int64Max = 9223372036854775807 := rfl
      rw [bind_eq_of_ok (fits_eq_ok (by omega)), bind_eq_of_ok (fits_eq_ok (by omega))]
      exact ih _

theorem parseNonnegativeIntegerChecked_eq (text : Bytes) :
    parseNonnegativeIntegerChecked text = .ok (parseNonnegativeInteger text) := by
  unfold parseNonnegativeIntegerChecked parseNonnegativeInteger
  split_ifs
  · rfl
  · exact parseDigitsChecked_eq text 0

section
variable {input : Bytes} {start consumed bulkLen : Nat}

theorem le_of_readLine {content : Bytes} {m n : Nat} (h : readLine input m = .kFound content n) :
    n ≤ input.length := by
  obtain ⟨-, -, rfl, rest, rfl⟩ := readLine_eq_kFound h
  simp [crlf]

theorem readBodyChecked_eq (hsize : input.length ≤ int64Max) (hstart : start ≤ input.length)
    (hlen : bulkLen ≤ kMaxBulkStringLength) : readBodyChecked input start bulkLen =
      .ok (if input.length < start + bulkLen + 2 then .needMoreData
        else if input[start + bulkLen]? ≠ some cr ∨ input[start + bulkLen + 1]? ≠ some lf then
          .protocolError (malformed "bulk string missing terminator")
        else .body ((input.drop start).take bulkLen) (start + (bulkLen + 2))) := by
  -- the largest sum is the end of a body that has not arrived yet
  have hroom : int64Max + kMaxBulkStringLength + 2 ≤ sizeMax := by decide
  unfold readBodyChecked
  rw [bind_eq_of_ok (addSize_eq_ok (by omega)), bind_eq_of_ok (addSize_eq_ok (by omega))]
  by_cases hshort : input.length < start + bulkLen + 2
  · rw [if_pos hshort, if_pos hshort]; rfl
  obtain ⟨first, hfirst⟩ : ∃ b, input[start + bulkLen]? = some b := ⟨_, List.getElem?_eq_getElem (by omega)⟩
  obtain ⟨second, hsecond⟩ : ∃ b, input[start + bulkLen + 1]? = some b := ⟨_, List.getElem?_eq_getElem (by omega)⟩
  rw [if_neg hshort, if_neg hshort, bind_eq_of_ok (byteAt_eq_ok hfirst), hfirst, hsecond]
  by_cases hcr : first = cr
  · rw [if_neg (not_not.mpr hcr), bind_eq_of_ok (addSize_eq_ok (by omega)), bind_eq_of_ok (byteAt_eq_ok hsecond)]
    by_cases hlf : second = lf
    · rw [if_neg (not_not.mpr hlf), bind_eq_of_ok (substr_eq_ok (by omega)),
        bind_eq_of_ok (addSize_eq_ok (by omega)), bind_eq_of_ok (addSize_eq_ok (by omega)),
        if_neg (by simp [hcr, hlf])]
      rfl
    · rw [if_pos hlf, if_pos (by simp [hlf])]; rfl
  · rw [if_pos hcr, if_pos (by simp [hcr])]; rfl

theorem readBulkChecked_eq (hsize : input.length ≤ int64Max) (consumed : Nat) :
    readBulkChecked input consumed = .ok (readBulk input consumed) := by
  have hroom : int64Max + kMaxBulkStringLength + 2 ≤ sizeMax := by decide
  unfold readBulkChecked readBulk
  by_cases hend : input.length ≤ consumed
  · rw [if_pos hend, if_pos hend]; rfl
  obtain ⟨front, hfront⟩ : ∃ b, input[consumed]? = some b := ⟨_, List.getElem?_eq_getElem (by omega)⟩
  rw [if_neg hend, if_neg hend, bind_eq_of_ok (byteAt_eq_ok hfront), hfront]
  by_cases hdollar : front = 36
  swap
  · rw [if_pos hdollar, if_pos (by simp [hdollar])]; rfl
  have htail : (input.drop (consumed + 1)).length ≤ int64Max := by rw [List.length_drop]; omega
  rw [if_neg (not_not.mpr hdollar), if_neg (by simp [hdollar]), bind_eq_of_ok (addSize_eq_ok (by omega)),
    bind_eq_of_ok (substrFrom_eq_ok (by omega)), bind_eq_of_ok (readLineChecked_eq htail _)]
  cases hline : readLine (input.drop (consumed + 1)) kMaxHeaderLineLength with
  | kNeedMoreData => rfl
  | kTooLong => rfl
  | kFound content lineConsumed =>
    dsimp only
    rw [bind_eq_of_ok (parseNonnegativeIntegerChecked_eq content)]
    cases hvalue : parseNonnegativeInteger content with
    | none => rfl
    | some bulkLen =>
      dsimp only
      by_cases hlarge : kMaxBulkStringLength < bulkLen
      · rw [if_pos hlarge, if_pos hlarge]; rfl
      have hfit := le_of_readLine hline
      rw [List.length_drop] at hfit
      rw [if_neg hlarge, if_neg hlarge, bind_eq_of_ok (addSize_eq_ok (by omega)),
        bind_eq_of_ok (addSize_eq_ok (by omega))]
      exact readBodyChecked_eq hsize (by omega) (not_lt.mp hlarge)

theorem readBulksChecked_eq (hsize : input.length ≤ int64Max) (count consumed : Nat) (args : List Bytes) :
    readBulksChecked input count consumed args = .ok (readBulks input count consumed args) := by
  induction count generalizing consumed args with
  | zero => rfl
  | succ count ih =>
    rw [readBulksChecked, readBulks, bind_eq_of_ok (readBulkChecked_eq hsize consumed)]
    cases readBulk input consumed with
    | body arg consumed => exact ih consumed _
    | needMoreData => rfl
    | protocolError e => rfl

theorem readMultibulkFrameChecked_eq (hsize : input.length ≤ int64Max) :
    readMultibulkFrameChecked input = .ok (readMultibulkFrame input) := by
  have hroom : int64Max ≤ sizeMax := by decide
  unfold readMultibulkFrameChecked readMultibulkFrame
  cases input with
  | nil => rfl
  | cons front rest =>
    dsimp only
    rw [if_neg (List.cons_ne_nil _ _), bind_eq_of_ok (byteAt_eq_ok List.getElem?_cons_zero)]
    by_cases hstar : front = 42
    swap
    · rw [if_pos hstar, if_pos hstar]; rfl
    have hrest : rest.length ≤ int64Max := le_trans (Nat.le_succ _) hsize
    rw [if_neg (not_not.mpr hstar), if_neg (not_not.mpr hstar),
      bind_eq_of_ok (substrFrom_eq_ok (Nat.succ_le_succ (Nat.zero_le _)))]
    rw [show (front :: rest).drop 1 = rest from rfl, bind_eq_of_ok (readLineChecked_eq hrest _)]
    cases hline : readLine rest kMaxHeaderLineLength with
    | kNeedMoreData => rfl
    | kTooLong => rfl
    | kFound content lineConsumed =>
      dsimp only
      rw [bind_eq_of_ok (parseNonnegativeIntegerChecked_eq content)]
      cases hvalue : parseNonnegativeInteger content with
      | none => rfl
      | some arrayLen =>
        dsimp only
        by_cases hmany : kMaxArrayElements < arrayLen
        · rw [if_pos hmany, if_pos hmany]; rfl
        have hfit := le_of_readLine hline
        have hcons : rest.length + 1 ≤ int64Max := hsize
        rw [if_neg hmany, if_neg hmany, bind_eq_of_ok (addSize_eq_ok (by omega))]
        exact readBulksChecked_eq hsize arrayLen _ []

/-- `parse_command` never reads outside its input, and no sum of sizes wraps around. -/
theorem parseCommandChecked_eq (hsize : input.length ≤ int64Max) :
    parseCommandChecked input = .ok (parseCommand input) := by
  unfold parseCommandChecked parseCommand
  rw [bind_eq_of_ok (readMultibulkFrameChecked_eq hsize)]
  cases readMultibulkFrame input <;> rfl

end

/-! ### The loop of `process_input` -/

section
variable {maxInFlight : Nat} {c : Connection} {q : BoundedQueue WorkItem}

theorem processInput_more (h : (processInput maxInFlight c q).flow = .more) :
    ∃ n, (parseCommand c.input.data).consumed = some n ∧
      (processInput maxInFlight c q).connection.input.data = c.input.data.drop n := by
  rcases processInput_cases maxInFlight c q with
    ⟨-, hr⟩ | ⟨-, command, n, hroom, -, hp, hr⟩ | ⟨-, verdict, n, reply, goOn, hown, -, hr⟩
  · rw [hr] at h; cases h
  · rw [hr, hp]; exact ⟨n, rfl, rfl⟩
  · rw [hr] at h ⊢
    unfold answerFrame at h
    dsimp only at h
    split_ifs at h with hgo
    obtain ⟨-, rfl⟩ := Bool.and_eq_true_iff.mp hgo
    exact ⟨n, hown.consumed.2, rfl⟩

theorem processInput_takes_frame (h : (processInput maxInFlight c q).flow = .more) :
    ∃ args raw, IsFrame args raw ∧ c.input.data = raw ++ (processInput maxInFlight c q).connection.input.data := by
  obtain ⟨n, hn, hdata⟩ := processInput_more h
  obtain ⟨args, raw, rest, hframe, hin, hlen, -⟩ := frame_of_consumed hn
  refine ⟨args, raw, hframe, ?_⟩
  rw [hdata, hin, ← hlen, List.drop_left]

/-- The rounds of a call of `process_input`, at most `fuel` of them. Round `i` finds the work queue `queues i`:
the workers pop and the shutdown closes it in between. -/
def processInputLoop (maxInFlight : Nat) : Nat → (Nat → BoundedQueue WorkItem) → Connection →
    Option (Connection × Bool)
  | 0, _, _ => none
  | fuel + 1, queues, c =>
    let round := processInput maxInFlight c (queues 0)
    match round.flow with
    | .more => processInputLoop maxInFlight fuel (fun i => queues (i + 1)) round.connection
    | .returnTrue => some (round.connection, true)
    | .returnFalse => some (round.connection, false)

/-- Every round that goes on takes at least four bytes. -/
theorem processInputLoop_isSome {fuel : Nat} (hfuel : c.input.data.length < 4 * fuel)
    (queues : Nat → BoundedQueue WorkItem) : (processInputLoop maxInFlight fuel queues c).isSome := by
  induction fuel generalizing c queues with
  | zero => omega
  | succ fuel ih =>
    rw [processInputLoop]
    cases hflow : (processInput maxInFlight c (queues 0)).flow with
    | more =>
      refine ih ?_ _
      obtain ⟨args, raw, hframe, hin⟩ := processInput_takes_frame hflow
      have hfour := hframe.four_le
      have := congrArg List.length hin
      rw [List.length_append] at this
      omega
    | returnTrue => rfl
    | returnFalse => rfl

end

/-- Parsing stays within the input: every access is good and no sum wraps, for every byte string that fits in
memory; what is consumed has at least the four bytes of a header. So a call of `process_input` takes one frame
off the buffer in every round that goes on, and returns, whatever `try_push` answers. -/
theorem parsing_progresses (input : Bytes) (hsize : input.length ≤ int64Max) (maxInFlight : Nat) (c : Connection)
    (queues : Nat → BoundedQueue WorkItem) :
    parseCommandChecked input = .ok (parseCommand input) ∧
    (∀ n, (parseCommand input).consumed = some n → 4 ≤ n ∧ n ≤ input.length) ∧
    (∀ q, (processInput maxInFlight c q).flow = .more → ∃ args raw, IsFrame args raw ∧
      c.input.data = raw ++ (processInput maxInFlight c q).connection.input.data) ∧
    (processInputLoop maxInFlight (c.input.data.length / 4 + 1) queues c).isSome :=
  ⟨parseCommandChecked_eq hsize, fun _ => consumed_bounds, fun _ => processInput_takes_frame,
    processInputLoop_isSome (by omega) queues⟩

/-- Two pings and a header that is cut behind its CR. -/
def pingsAndCut : Connection :=
  ⟨7, 1, ⟨ascii "*1\r\n$4\r\nPING\r\n*1\r\n$4\r\nPING\r\n*2\r", 64, by decide⟩, .empty 64, {}⟩

theorem parsing_progresses_pings :
    parseCommandChecked pingsAndCut.input.data = .ok (.parsedCommand { type := .kPing } 14) ∧
    (processInputLoop 8 8 (fun _ => BoundedQueue.make 1 Nat.one_pos) pingsAndCut).isSome := by
  obtain ⟨hok, -, -, hends⟩ := parsing_progresses pingsAndCut.input.data (by decide) 8 pingsAndCut fun _ =>
    BoundedQueue.make 1 Nat.one_pos
  have hping : parseCommand pingsAndCut.input.data = .parsedCommand { type := .kPing } 14 := by decide +kernel
  exact ⟨hping ▸ hok, hends⟩

end KvStore
