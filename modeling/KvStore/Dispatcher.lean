import KvStore.Command
import KvStore.Serializer
import KvStore.Store

/-!
# Command dispatch

`command/dispatcher.cpp`: one store operation and its encoded reply for every command.
-/

namespace KvStore
open ByteString

variable {P : Platform}

def dispatchPing (st : Store P) : Store P × Bytes := (st, encodeSimpleString (ascii "PONG"))

def dispatchSet (st : Store P) (c : Command) : Store P × Bytes :=
  (st.set c.key c.value, encodeSimpleString (ascii "OK"))

def dispatchGet (st : Store P) (now : Int) (c : Command) : Store P × Bytes :=
  let (st, value) := st.get now c.key
  match value with
  | none => (st, encodeNullBulkString)
  | some value => (st, encodeBulkString value)

/-- `encode_integer(flag ? 1 : 0)`. -/
def encodeFlag (flag : Bool) : Bytes := encodeInteger (if flag then 1 else 0)

def dispatchDel (st : Store P) (now : Int) (c : Command) : Store P × Bytes :=
  let (st, removed) := st.del now c.key
  (st, encodeFlag removed)

def dispatchExists (st : Store P) (now : Int) (c : Command) : Store P × Bytes :=
  let (st, found) := st.exists now c.key
  (st, encodeFlag found)

def dispatchExpire (st : Store P) (now : Int) (c : Command) : Store P × Bytes :=
  let (st, setOk) := st.expire now c.key c.seconds
  (st, encodeFlag setOk)

def encodeTtl : TtlResult → Bytes
  | .kMissing => encodeInteger (-2)
  | .kNoTtl => encodeInteger (-1)
  | .kHasTtl remaining => encodeInteger remaining

def dispatchTtl (st : Store P) (now : Int) (c : Command) : Store P × Bytes :=
  let (st, result) := st.ttl now c.key
  (st, encodeTtl result)

def dispatch (st : Store P) (now : Int) (c : Command) : Store P × Bytes :=
  match c.type with
  | .kPing => dispatchPing st
  | .kSet => dispatchSet st c
  | .kGet => dispatchGet st now c
  | .kDel => dispatchDel st now c
  | .kExists => dispatchExists st now c
  | .kExpire => dispatchExpire st now c
  | .kTtl => dispatchTtl st now c

end KvStore
