import KvStore.Lib.Decimal

/-!
# Reply encoding

The RESP2 reply types of `protocol/serializer.cpp`. `encodeSimpleString` and `encodeError` copy their
text as it is; that it holds no line break is left to the caller.
-/

namespace KvStore
open ByteString Decimal

/-- `std::to_string`. -/
def decimalText : Int → Bytes
  | .ofNat n => ofNat n
  | .negSucc n => 45 :: ofNat (n + 1)

def encodeSimpleString (value : Bytes) : Bytes := 43 :: (value ++ crlf)

def encodeError (message : Bytes) : Bytes := 45 :: (message ++ crlf)

def encodeInteger (value : Int) : Bytes := 58 :: (decimalText value ++ crlf)

def encodeBulkString (value : Bytes) : Bytes := 36 :: (ofNat value.length ++ (crlf ++ (value ++ crlf)))

def encodeNullBulkString : Bytes := ascii "$-1\r\n"

end KvStore
