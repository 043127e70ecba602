import KvStore.Framing
import KvStore.ErrorReply
import KvStore.Bounds

/-!
# A closed-loop client

`benchmarks/client/kv_bench.cpp`: a client that sends a request, reads until the reply is complete, and only then sends
the next one. It does not parse replies: `checkReply` looks for the end of a line or counts the bytes of a bulk string,
and what it has read beyond the reply would be thrown away with the buffer. On every reply of the server it answers
right for every way in which the reply can arrive (`WholeReply`). `Session` puts such a client on one connection of a
server; the network holds what one side has sent and the other has not read.
-/

namespace KvStore
open ByteString Decimal Resp2 Transition

/-! ### Recognising a reply -/

/-- `std::strtol` in base ten: blanks, a sign, digits; a value that does not fit is cut to the range of `long`. -/
def strtol (text : Bytes) : Int :=
  let text := text.dropWhile fun b => b = 32 ∨ (9 ≤ b ∧ b ≤ 13)
  if text.head? = some 45 then max (-(value (text.tail.takeWhile fun b => IsDigit b) : Int)) (-(int64Max : Int) - 1)
  else
    let digits := if text.head? = some 43 then text.tail else text
    min (value (digits.takeWhile fun b => IsDigit b) : Int) int64Max

/-- How a round of the receiving loop ends: `return true`, `continue`, or the last `return false`. -/
inductive ReplyCheck where
  | complete
  | wait
  | unknown
deriving DecidableEq, Repr

/-- The receiving loop of `send_and_receive`, on what has been read. -/
def checkReply (buffer : Bytes) : ReplyCheck :=
  match buffer with
  | [] => .wait
  | type :: rest =>
    if type = 43 ∨ type = 45 ∨ type = 58 then
      if (find crlf buffer).isSome then .complete else .wait
    else if type = 36 then
      match find crlf buffer with
      | none => .wait
      | some headerEnd =>
        if strtol rest < 0 then .complete
        else if headerEnd + 2 + (strtol rest).toNat + 2 ≤ buffer.length then .complete
        else .wait
    else .unknown

/-- The client is done with this reply when it has read all of it, and not before. -/
def WholeReply (reply : Bytes) : Prop :=
  reply ≠ [] ∧ ∀ p, p ≠ [] → p <+: reply → checkReply p = if p = reply then .complete else .wait

theorem strtol_ofNat {n : Nat} (h : n ≤ int64Max) (rest : Bytes) : strtol (ofNat n ++ (crlf ++ rest)) = n := by
  obtain ⟨d, ds, hds⟩ := List.exists_cons_of_ne_nil (ofNat_ne_nil n)
  have hd : IsDigit d := isDigit_of_mem_ofNat (hds ▸ List.mem_cons_self)
  have hdigits : (ofNat n ++ (crlf ++ rest)).takeWhile (fun b => IsDigit b) = ofNat n := by
    rw [List.takeWhile_append_of_pos fun b hb => decide_eq_true (isDigit_of_mem_ofNat hb)]
    simp [crlf, not_isDigit_cr]
  -- a digit is neither a blank nor a sign
  have hblank : ¬ (d = 32 ∨ (9 ≤ d ∧ d ≤ 13)) := by
    rintro (rfl | ⟨-, hle⟩)
    · exact absurd hd (by decide)
    · have hle' : d.toNat ≤ 13 := UInt8.le_iff_toNat_le.mp hle
      have := hd.toNat
      omega
  have hsign : ∀ b : UInt8, ¬ IsDigit b → (ofNat n ++ (crlf ++ rest)).head? ≠ some b := by
    intro b hb hhead
    rw [hds] at hhead
    cases hhead
    exact hb hd
  have hdrop : (ofNat n ++ (crlf ++ rest)).dropWhile (fun b => b = 32 ∨ (9 ≤ b ∧ b ≤ 13)) =
      ofNat n ++ (crlf ++ rest) := by
    rw [hds, List.cons_append, List.dropWhile_cons_of_neg (by simpa using hblank)]
  unfold strtol
  simp only [hdrop]
  rw [if_neg (hsign 45 (by decide)), if_neg (hsign 43 (by decide)), hdigits, value_ofNat]
  omega

theorem wholeReply_line {type : UInt8} {text : Bytes} (htype : type = 43 ∨ type = 45 ∨ type = 58)
    (htext : OneLine text) : WholeReply (type :: (text ++ crlf)) := by
  have hcr : cr ∉ type :: text := by
    rw [List.mem_cons, not_or]
    refine ⟨?_, htext.1⟩
    rcases htype with rfl | rfl | rfl <;> decide
  have hfind : find crlf (type :: (text ++ crlf)) = some (type :: text).length := by
    have := find_append_cons (p := [lf]) (v := []) hcr
    rwa [List.append_nil] at this
  refine ⟨List.cons_ne_nil _ _, fun p hp hpre => ?_⟩
  obtain ⟨b, q, rfl⟩ := List.exists_cons_of_ne_nil hp
  obtain ⟨rfl, -⟩ := List.cons_prefix_cons.mp hpre
  rw [checkReply, if_pos htype]
  by_cases heq : b :: q = b :: (text ++ crlf)
  · rw [heq, hfind]
    simp
  · have hend : (b :: text).length + crlf.length = (b :: (text ++ crlf)).length := by
      rw [List.length_cons, List.length_cons, List.length_append]
      omega
    have hnone := find_eq_none_of_prefix hfind hend hpre heq
    rw [hnone, if_neg heq]
    simp

theorem wholeReply_null : WholeReply encodeNullBulkString := by
  have hall : ∀ p ∈ encodeNullBulkString.inits, p ≠ [] →
      checkReply p = if p = encodeNullBulkString then .complete else .wait := by decide +kernel
  exact ⟨by decide, fun p hp hpre => hall p ((List.mem_inits p _).mpr hpre) hp⟩

theorem wholeReply_bulk {value : Bytes} (h : value.length ≤ int64Max) : WholeReply (encodeBulkString value) := by
  have hcr : cr ∉ 36 :: ofNat value.length := by
    rw [List.mem_cons, not_or]
    exact ⟨by decide, cr_notMem_ofNat _⟩
  have hfind : find crlf (encodeBulkString value) = some (36 :: ofNat value.length).length :=
    find_append_cons (p := [lf]) (v := value ++ crlf) hcr
  refine ⟨List.cons_ne_nil _ _, fun p hp hpre => ?_⟩
  obtain ⟨b, q, rfl⟩ := List.exists_cons_of_ne_nil hp
  obtain ⟨rfl, hq⟩ := List.cons_prefix_cons.mp hpre
  rw [checkReply, if_neg (by decide), if_pos rfl]
  cases hp' : find crlf (36 :: q) with
  | none =>
    have hne : (36 : UInt8) :: q ≠ encodeBulkString value := fun heq => by
      rw [heq, hfind] at hp'
      cases hp'
    rw [if_neg hne]
  | some headerEnd =>
    obtain ⟨t, ht⟩ := hpre
    have hheader := find_append (t := t) hp'
    rw [ht, hfind] at hheader
    cases hheader
    have hle := length_le_of_find hp'
    have hcrlf : crlf.length = 2 := rfl
    rw [List.length_cons, List.length_cons, hcrlf] at hle
    -- the header is there, so the length can be read
    have hread : strtol q = value.length := by
      obtain ⟨more, rfl⟩ : ofNat value.length ++ crlf <+: q := by
        refine List.prefix_of_prefix_length_le ?_ hq ?_
        · rw [← List.append_assoc]
          exact List.prefix_append _ _
        · rw [List.length_append, hcrlf]
          omega
      rw [List.append_assoc]
      exact strtol_ofNat h more
    have htotal : (encodeBulkString value).length = (36 :: ofNat value.length).length + 2 + value.length + 2 := by
      rw [encodeBulkString, List.length_cons, List.length_cons, List.length_append, List.length_append,
        List.length_append, hcrlf]
      omega
    dsimp only
    rw [hread, if_neg (by omega), Int.toNat_natCast, ← htotal]
    by_cases heq : (36 : UInt8) :: q = encodeBulkString value
    · rw [if_pos heq, heq, if_pos le_rfl]
    · rw [if_neg heq, if_neg fun hge => heq ((show _ <+: _ from ⟨t, ht⟩).eq_of_length_le hge)]

/-! ### Requests -/

/-- A request that `encode_command` can write and whose name has no line break. -/
structure Sendable (args : List Bytes) : Prop where
  encodable : Encodable args
  name : ∀ name ∈ args.head?, OneLine name

theorem Sendable.not_nameBreaksLine {args : List Bytes} (h : Sendable args) :
    ¬ NameBreaksLine (encodeCommand args) := by
  rintro ⟨name, params, raw, rest, hframe, heq, hbreaks⟩
  rw [← List.append_nil (encodeCommand args)] at heq
  have hargs := hframe.unique h.encodable.isFrame heq.symm
  exact hbreaks (h.name name (by rw [hargs]; rfl))

def benchKey (index : Nat) : Bytes := ascii "bench:" ++ ofNat index

/-- What `run_connection` and `populate_keyspace` send. -/
def benchRequest (valueSize index : Nat) (doSet : Bool) : List Bytes :=
  if doSet then [ascii "SET", benchKey index, List.replicate valueSize 120] else [ascii "GET", benchKey index]

theorem sendable_benchRequest {valueSize index : Nat} (hvalue : valueSize ≤ kMaxValueLength)
    (hindex : index ≤ sizeMax) (doSet : Bool) : Sendable (benchRequest valueSize index doSet) := by
  have hdigits : (ofNat index).length ≤ 20 := by
    have hmax : sizeMax < 10 ^ 20 := by decide
    exact length_ofNat_le (by decide) (by omega)
  have hkey : (benchKey index).length ≤ 1048576 := by
    have hprefix : (ascii "bench:").length = 6 := by decide
    rw [benchKey, List.length_append, hprefix]
    omega
  have hset : (ascii "SET").length ≤ 1048576 := by decide
  have hget : (ascii "GET").length ≤ 1048576 := by decide
  cases doSet with
  | true =>
    refine ⟨⟨by simp [benchRequest], ?_⟩, ?_⟩
    · simpa [benchRequest] using ⟨hset, hkey, hvalue⟩
    · rintro name hname
      cases hname
      exact oneLine_ascii (by decide)
  | false =>
    refine ⟨⟨by simp [benchRequest], ?_⟩, ?_⟩
    · simpa [benchRequest] using ⟨hget, hkey⟩
    · rintro name hname
      cases hname
      exact oneLine_ascii (by decide)

/-! ### The client and its connection -/

/-- Where a thread of the client is. -/
inductive ClientPhase where
  /-- Between two calls of `send_and_receive`. -/
  | idle
  /-- The sending loop, with what is left of the request. -/
  | sending (rest : Bytes)
  /-- The receiving loop, with its buffer. -/
  | receiving (buffer : Bytes)
  /-- `send` or `recv` failed, and the connection is given up. -/
  | lost
  /-- The reply is of no known type, and the connection is given up. -/
  | refused
deriving DecidableEq, Repr

structure Client where
  phase : ClientPhase := .idle
  /-- The requests so far, and the contents of the buffer at the end of each call that returned true. -/
  asked : List (List Bytes) := []
  replies : List Bytes := []

/-- A client on a connection of a server. -/
structure Session (P : Platform) where
  server : System P
  client : Client := {}
  toServer : Bytes := []
  toClient : Bytes := []

inductive SessionChoice where
  | server (choice : Choice)
  | ask (args : List Bytes)
  /-- `send` and `recv` return a positive number. -/
  | send (count : Nat)
  | recv (count : Nat)
  | fail

namespace Session
variable {P : Platform}

/-- A step of the server; on the client's connection, generation `g`, it receives what the client has sent. -/
def serverStep (cfg : EventLoopConfig) (g : Nat) (s : Session P) (choice : Choice) :
    Option (Session P × List Event) :=
  match s.server.step cfg choice with
  | none => none
  | some (server, evs) =>
    if receivedOf g evs <+: s.toServer then
      some ({ s with
        server
        toServer := s.toServer.drop (receivedOf g evs).length
        toClient := s.toClient ++ sentOf g evs }, evs)
    else none

/-- The receiving loop after another `recv`. -/
def received (s : Session P) (buffer : Bytes) (count : Nat) : Session P :=
  let buffer := buffer ++ s.toClient.take count
  { s with
    toClient := s.toClient.drop count
    client :=
      match checkReply buffer with
      | .complete => { s.client with phase := .idle, replies := s.client.replies ++ [buffer] }
      | .wait => { s.client with phase := .receiving buffer }
      | .unknown => { s.client with phase := .refused } }

/-- The sending loop after another `send`; `buffer.clear()` comes behind it. -/
def sent (s : Session P) (rest : Bytes) (count : Nat) : Session P :=
  { s with
    toServer := s.toServer ++ rest.take count
    client := { s.client with phase := if count = rest.length then .receiving [] else .sending (rest.drop count) } }

def step (cfg : EventLoopConfig) (g : Nat) (s : Session P) : SessionChoice → Option (Session P × List Event)
  | .server choice => s.serverStep cfg g choice
  | .ask args =>
    match s.client.phase with
    | .idle =>
      some ({ s with client := { s.client with
        phase := .sending (encodeCommand args)
        asked := s.client.asked ++ [args] } }, [])
    | _ => none
  | .send count =>
    match s.client.phase with
    | .sending rest => if 0 < count ∧ count ≤ rest.length then some (s.sent rest count, []) else none
    | _ => none
  | .recv count =>
    match s.client.phase with
    | .receiving buffer =>
      -- the chunk of the source holds 4096 bytes
      if 0 < count ∧ count ≤ 4096 ∧ count ≤ s.toClient.length then some (s.received buffer count, []) else none
    | _ => none
  | .fail =>
    match s.client.phase with
    | .sending _ | .receiving _ => some ({ s with client := { s.client with phase := .lost } }, [])
    | _ => none

def Run (cfg : ServerConfig) (g : Nat) (store : Store P) (clock : Int) (log : List Event) (s : Session P) : Prop :=
  Exec (Step (Session.step cfg.toEventLoopConfig g)) { server := System.start cfg store clock } log s

end Session

end KvStore
