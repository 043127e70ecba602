import KvStore.Lib.ByteString

/-!
# Commands and parser verdicts

The data types of `protocol/command.hpp` and `protocol/parser.hpp`. A `std::string` is a byte list;
`std::chrono::seconds` is an `Int`.
-/

namespace KvStore
open ByteString

inductive CommandType where
  | kPing | kSet | kGet | kDel | kExists | kExpire | kTtl
deriving DecidableEq, Repr

/-- A validated request; the fields a command does not use keep their defaults. -/
structure Command where
  type : CommandType
  key : Bytes := []
  value : Bytes := []
  seconds : Int := 0
deriving DecidableEq, Repr

inductive ProtocolErrorCategory where
  | kMalformedFrame | kFieldTooLarge | kWrongArity | kUnknownCommand | kInvalidInteger
deriving DecidableEq, Repr

/-- `consumedBytes` is meaningful only when `recoverable`. -/
structure ProtocolError where
  category : ProtocolErrorCategory
  message : Bytes
  recoverable : Bool := false
  consumedBytes : Nat := 0
deriving DecidableEq, Repr

inductive ParseResult where
  | parsedCommand (command : Command) (consumedBytes : Nat)
  | needMoreData
  | protocolError (error : ProtocolError)
deriving DecidableEq, Repr

end KvStore
