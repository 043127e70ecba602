import KvStore.Command

/-!
# The RESP2 request parser

`parseCommand` of `protocol/parser.cpp`: phase 1 (`readMultibulkFrame`) reads an array of bulk
strings from the front of the input, phase 2 (`buildCommand`) checks the command. Positions are
offsets into the whole input, as in the source.
-/

namespace KvStore
open ByteString

def kMaxKeyLength : Nat := 512
def kMaxValueLength : Nat := 1024 * 1024
def kMaxBulkStringLength : Nat := kMaxValueLength
def kMaxArrayElements : Nat := 3
def kMaxHeaderLineLength : Nat := 20

/-- `std::numeric_limits<std::int64_t>::max()`. -/
def int64Max : Nat := 9223372036854775807

/-- `LineResult`: the content and the consumed bytes are there iff the line was found. -/
inductive LineResult where
  | kFound (content : Bytes) (consumed : Nat)
  | kNeedMoreData
  | kTooLong
deriving DecidableEq, Repr

def readLine (input : Bytes) (maxLength : Nat) : LineResult :=
  match find crlf input with
  | some pos =>
    if maxLength < pos then .kTooLong else .kFound (input.take pos) (pos + 2)
  | none => if maxLength < input.length then .kTooLong else .kNeedMoreData

/-- The digit loop of `parse_nonnegative_integer`, from the accumulated `value`. -/
def parseDigits : Bytes → Nat → Option Nat
  | [], value => some value
  | c :: text, value =>
    if c < 48 ∨ 57 < c then none
    else
      let digit := c.toNat - 48
      if (int64Max - digit) / 10 < value then none
      else parseDigits text (value * 10 + digit)

def parseNonnegativeInteger (text : Bytes) : Option Nat :=
  if text = [] then none else parseDigits text 0

def toUpperAscii (text : Bytes) : Bytes :=
  text.map fun c => if 97 ≤ c ∧ c ≤ 122 then c - 97 + 65 else c

/-! ### Phase 1: multi-bulk framing -/

inductive FrameResult where
  | frameArgs (args : List Bytes) (consumedBytes : Nat)
  | needMoreData
  | protocolError (error : ProtocolError)
deriving DecidableEq, Repr

def malformed (message : String) : ProtocolError :=
  { category := .kMalformedFrame, message := ascii message }

/-- What one round of the loop over the array elements does: a body and the new `consumed`. -/
inductive BulkResult where
  | body (arg : Bytes) (consumed : Nat)
  | needMoreData
  | protocolError (error : ProtocolError)
deriving DecidableEq, Repr

/-- The bulk string that starts at `consumed`. -/
def readBulk (input : Bytes) (consumed : Nat) : BulkResult :=
  if input.length ≤ consumed then .needMoreData
  else if input[consumed]? ≠ some 36 then .protocolError (malformed "expected bulk string ('$')")
  else
    match readLine (input.drop (consumed + 1)) kMaxHeaderLineLength with
    | .kNeedMoreData => .needMoreData
    | .kTooLong => .protocolError (malformed "bulk string length header too long")
    | .kFound content lineConsumed =>
      match parseNonnegativeInteger content with
      | none => .protocolError (malformed "invalid bulk string length")
      | some bulkLen =>
        if kMaxBulkStringLength < bulkLen then
          .protocolError
            { category := .kFieldTooLarge
              message := ascii "bulk string exceeds the maximum field size" }
        else
          -- '$' plus the header line
          let start := consumed + (1 + lineConsumed)
          if input.length < start + bulkLen + 2 then .needMoreData
          else if input[start + bulkLen]? ≠ some cr ∨ input[start + bulkLen + 1]? ≠ some lf then
            .protocolError (malformed "bulk string missing terminator")
          else .body ((input.drop start).take bulkLen) (start + (bulkLen + 2))

/-- The loop over the array elements: `count` of them are left. -/
def readBulks (input : Bytes) : Nat → Nat → List Bytes → FrameResult
  | 0, consumed, args => .frameArgs args consumed
  | count + 1, consumed, args =>
    match readBulk input consumed with
    | .body arg consumed => readBulks input count consumed (args ++ [arg])
    | .needMoreData => .needMoreData
    | .protocolError e => .protocolError e

def readMultibulkFrame (input : Bytes) : FrameResult :=
  match input with
  | [] => .needMoreData
  | front :: rest =>
    if front ≠ 42 then .protocolError (malformed "expected RESP array ('*')")
    else
      match readLine rest kMaxHeaderLineLength with
      | .kNeedMoreData => .needMoreData
      | .kTooLong => .protocolError (malformed "array length header too long")
      | .kFound content lineConsumed =>
        match parseNonnegativeInteger content with
        | none => .protocolError (malformed "invalid array length")
        | some arrayLen =>
          if kMaxArrayElements < arrayLen then
            .protocolError (malformed "too many command arguments")
          else readBulks input arrayLen (1 + lineConsumed) []

/-! ### Phase 2: command validation -/

structure SemanticError where
  category : ProtocolErrorCategory
  message : Bytes
deriving DecidableEq, Repr

def arityError (name : Bytes) : SemanticError :=
  ⟨.kWrongArity, ascii "ERR wrong number of arguments for '" ++ name ++ ascii "' command"⟩

def checkKeyLength (key : Bytes) : Option SemanticError :=
  if kMaxKeyLength < key.length then some ⟨.kFieldTooLarge, ascii "ERR key exceeds maximum size"⟩
  else none

def unknownCommand (arg : Bytes) : SemanticError :=
  ⟨.kUnknownCommand, ascii "ERR unknown command '" ++ arg ++ ascii "'"⟩

/-- The branch shared by the commands that take exactly a key. -/
def buildKeyCommand (type : CommandType) (name : Bytes) (params : List Bytes) :
    Except SemanticError Command :=
  match params with
  | [key] =>
    match checkKeyLength key with
    | some err => .error err
    | none => .ok { type, key }
  | _ => .error (arityError name)

def buildSet (name : Bytes) (params : List Bytes) : Except SemanticError Command :=
  match params with
  | [key, value] =>
    match checkKeyLength key with
    | some err => .error err
    | none =>
      if kMaxValueLength < value.length then
        .error ⟨.kFieldTooLarge, ascii "ERR value exceeds maximum size"⟩
      else .ok { type := .kSet, key, value }
  | _ => .error (arityError name)

def buildExpire (name : Bytes) (params : List Bytes) : Except SemanticError Command :=
  match params with
  | [key, seconds] =>
    match checkKeyLength key with
    | some err => .error err
    | none =>
      match parseNonnegativeInteger seconds with
      | none => .error ⟨.kInvalidInteger, ascii "ERR value is not an integer or out of range"⟩
      | some s => .ok { type := .kExpire, key, seconds := s }
  | _ => .error (arityError name)

/-- `args = arg0 :: params`: the source compares `args.size()` where this matches on `params`. -/
def buildCommand (args : List Bytes) : Except SemanticError Command :=
  match args with
  | [] => .error (unknownCommand [])
  | arg0 :: params =>
    let name := toUpperAscii arg0
    if name = ascii "PING" then
      if params ≠ [] then .error (arityError name) else .ok { type := .kPing }
    else if name = ascii "SET" then buildSet name params
    else if name = ascii "GET" then buildKeyCommand .kGet name params
    else if name = ascii "DEL" then buildKeyCommand .kDel name params
    else if name = ascii "EXISTS" then buildKeyCommand .kExists name params
    else if name = ascii "EXPIRE" then buildExpire name params
    else if name = ascii "TTL" then buildKeyCommand .kTtl name params
    else .error (unknownCommand arg0)

/-- The verdict on a complete frame with these arguments. -/
def frameVerdict (args : List Bytes) (consumed : Nat) : ParseResult :=
  match buildCommand args with
  | .error error =>
    .protocolError
      { category := error.category, message := error.message, recoverable := true
        consumedBytes := consumed }
  | .ok command => .parsedCommand command consumed

def parseCommand (input : Bytes) : ParseResult :=
  match readMultibulkFrame input with
  | .needMoreData => .needMoreData
  | .protocolError error => .protocolError error
  | .frameArgs args consumed => frameVerdict args consumed

-- the parser tests' `SET name Anish` frame
example : parseCommand (ascii "*3\r\n$3\r\nset\r\n$4\r\nname\r\n$5\r\nAnish\r\n*1") =
    .parsedCommand { type := .kSet, key := ascii "name", value := ascii "Anish" } 34 := by
  decide +kernel

end KvStore
