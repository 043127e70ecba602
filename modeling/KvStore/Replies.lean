import KvStore.CommandOps
import KvStore.ErrorReply
import KvStore.ShardInv

/-!
# What a client learns from a reply

Commands are dispatched one after another, each at its own clock reading. Their replies decode one by one,
whatever follows them, and each tells what the store answered (`Tells`). For `TTL` that needs a remaining
time that cannot be taken for one of the two sentinels: a live deadline lies ahead of the clock, and the
deadlines in a store come from `expire` (`Store.Timed`), so their distance is not wrapped around.
-/

namespace KvStore
open ByteString ExpiringMap Resp2

variable {P : Platform}

/-! ### Deadlines -/

namespace Shard
variable {sh : Shard P}

/-- Every deadline in the shard was computed by `expire`. -/
def Timed (sh : Shard P) : Prop :=
  ∀ k e d, sh.entries.lookup k = some e → e.deadline = some d → ∃ now s, d = P.chrono.addSeconds now s

theorem Timed.empty : (Shard.empty P).Timed := fun _ _ _ hl => by cases hl

theorem Timed.erase (h : sh.Timed) (key : Bytes) (heap : P.heap.Rep) :
    ({ sh with entries := sh.entries.erase key, expirationHeap := heap } : Shard P).Timed :=
  fun k e d hl => h k e d (Finmap.lookup_erase_eq_some hl).2

theorem Timed.insert (h : sh.Timed) {key : Bytes} {entry : Entry} {n : Nat} {heap : P.heap.Rep}
    (hentry : ∀ d, entry.deadline = some d → ∃ now s, d = P.chrono.addSeconds now s) :
    (⟨sh.entries.insert key entry, n, heap⟩ : Shard P).Timed := by
  intro k e d hl hd
  rcases Finmap.lookup_insert_eq_some hl with ⟨-, rfl⟩ | ⟨-, hl⟩
  · exact hentry d hd
  · exact h k e d hl hd

theorem Timed.readLive (h : sh.Timed) (now : Int) (key : Bytes) : (sh.readLive now key).1.Timed := by
  unfold Shard.readLive
  split
  · exact h
  · exact h
  · unfold eraseExpired
    split
    · split_ifs
      · exact h.erase key _
      · exact h
    · exact h

theorem Timed.del (h : sh.Timed) (now : Int) (key : Bytes) : (sh.del now key).1.Timed := by
  unfold Shard.del
  split
  · exact h
  · exact h.erase key _

theorem Timed.expire (h : sh.Timed) (now : Int) (key : Bytes) (s : Int) : (sh.expire now key s).1.Timed := by
  unfold Shard.expire
  split
  · exact h
  · split_ifs
    · exact h.erase key _
    · refine h.insert fun d hd => ⟨now, s, ?_⟩
      cases hd
      rfl

theorem Timed.sectionsKeep (index : Bytes → Nat) : SectionsKeep index fun _ (sh : Shard P) => sh.Timed where
  set _ _ _ h := h.insert nofun
  readLive now key _ h := h.readLive now key
  del now key _ h := h.del now key
  expire now key s _ h := h.expire now key s
  sweep _ m _ sh h := sweepLoop_induction (motive := Timed) (fun _ _ _ _ _ h => h)
    (fun _ c _ _ _ _ _ h => h.erase c.key _) m 0 sh h

end Shard

/-- The clock readings the arithmetic is made for: `int64` time points of the steady clock count up from zero. -/
def Chrono.Reads (chrono : Chrono) (now : Int) : Prop := chrono = .exact ∨ chrono = .int64 ∧ 0 ≤ now

namespace Store
variable {st : Store P} {now : Int} {key : Bytes}

def Timed (st : Store P) : Prop := st.EachShard fun _ sh => sh.Timed

theorem Timed.of_make {shardCount : Nat} (hst : Store.make P shardCount = .ok st) : st.Timed :=
  EachShard.of_make hst fun _ => .empty

theorem Timed.after (h : st.Timed) (calls : List StoreCall) : (st.after calls).Timed :=
  EachShard.after (Shard.Timed.sectionsKeep _) h calls

theorem Timed.deadline (h : st.Timed) {v : Bytes} {d : Int} (hlive : st.liveAt now key = some (v, some d)) :
    now < d ∧ ∃ t s, d = P.chrono.addSeconds t s := by
  obtain ⟨hcell, hahead⟩ := Option.filter_eq_some_iff.mp hlive
  obtain ⟨e, hl, he⟩ := Option.map_eq_some_iff.mp hcell
  refine ⟨?_, EachShard.shardFor h key key e d hl (congrArg Prod.snd he)⟩
  simpa [Cell.live] using hahead

/-- The time left to a live deadline is not negative, and it is measured exactly. -/
theorem Timed.remaining (h : st.Timed) (hclock : P.chrono.Reads now) {v : Bytes} {d : Int}
    (hlive : st.liveAt now key = some (v, some d)) :
    0 ≤ (d - now) / nanosPerSecond ∧ ttlOf P (some d) now = .kHasTtl ((d - now) / nanosPerSecond) := by
  obtain ⟨hahead, t, s, hd⟩ := h.deadline hlive
  have hpos : 0 ≤ d - now := by omega
  have hsub : P.chrono.sub d now = d - now := by
    rcases hclock with hexact | ⟨hwrap, hnow⟩
    · rw [hexact]; rfl
    · rw [hwrap] at hd ⊢
      have : d < 2 ^ 63 := hd ▸ wrap64_lt _
      exact wrap64_eq_self (by omega) (by omega)
  refine ⟨Int.ediv_nonneg hpos (by decide), ?_⟩
  rw [ttlOf, hsub, durationCastSeconds, Int.tdiv_eq_ediv_of_nonneg hpos]

end Store

/-! ### Replies -/

/-- The reply says whether the flag is set. -/
def TellsFlag (r : Reply) (flag : Bool) : Prop :=
  (r = .integer 1 ↔ flag = true) ∧ (r = .integer 0 ↔ flag = false)

/-- The reply tells the three cases of a key apart, and gives the remaining seconds rounded down. -/
structure TellsTtl (r : Reply) (now : Int) (cell : Option (Cell Bytes)) : Prop where
  missing : r = .integer (-2) ↔ cell = none
  noTtl : r = .integer (-1) ↔ ∃ v, cell = some (v, none)
  hasTtl : ∀ n : Nat, r = .integer n ↔ ∃ v d, cell = some (v, some d) ∧ (d - now) / nanosPerSecond = n

/-- What the decoded reply tells about the command's result in the store it was dispatched on. -/
def Tells (st : Store P) (now : Int) (c : Command) (r : Reply) : Prop :=
  match c.type with
  | .kPing => r = .simpleString (ascii "PONG")
  | .kSet => r = .simpleString (ascii "OK")
  | .kGet => (∀ v, r = .bulkString v ↔ (st.get now c.key).2 = some v) ∧
      (r = .nullBulkString ↔ (st.get now c.key).2 = none)
  | .kDel => TellsFlag r (st.del now c.key).2
  | .kExists => TellsFlag r (st.exists now c.key).2
  | .kExpire => TellsFlag r (st.expire now c.key c.seconds).2
  | .kTtl => TellsTtl r now (st.liveAt now c.key)

theorem tellsFlag_integer (flag : Bool) : TellsFlag (.integer (if flag then 1 else 0)) flag := by
  cases flag <;> simp [TellsFlag]

section
variable {st : Store P} {now : Int}

theorem tellsTtl_number (h : st.Timed) (hclock : P.chrono.Reads now) (key : Bytes) :
    TellsTtl (.integer (st.ttl now key).2.number) now (st.liveAt now key) := by
  rw [Store.ttl_result]
  cases hlive : st.liveAt now key with
  | none => constructor <;> simp [TtlResult.number]
  | some cell =>
    obtain ⟨v, _ | d⟩ := cell
    · constructor <;> simp [TtlResult.number, Store.ttlOf]
    · obtain ⟨hpos, httl⟩ := h.remaining hclock hlive
      dsimp only
      rw [httl]
      have hmissing : (d - now) / nanosPerSecond ≠ -2 := by omega
      have hnoTtl : (d - now) / nanosPerSecond ≠ -1 := by omega
      constructor <;> simp [TtlResult.number, hmissing, hnoTtl]

theorem tells_decodedReply (h : st.Timed) (hclock : P.chrono.Reads now) (c : Command) :
    Tells st now c (decodedReply st now c) := by
  unfold Tells decodedReply
  cases c.type with
  | kPing => rfl
  | kSet => rfl
  | kGet => cases (st.get now c.key).2 <;> simp
  | kDel => exact tellsFlag_integer _
  | kExists => exact tellsFlag_integer _
  | kExpire => exact tellsFlag_integer _
  | kTtl => exact tellsTtl_number h hclock c.key

end

/-! ### Sequences of commands -/

def Command.calls (now : Int) (c : Command) : List StoreCall :=
  match c.type with
  | .kPing => []
  | .kSet => [⟨now, .set c.key c.value⟩]
  | .kGet => [⟨now, .get c.key⟩]
  | .kDel => [⟨now, .del c.key⟩]
  | .kExists => [⟨now, .exists_ c.key⟩]
  | .kExpire => [⟨now, .expire c.key c.seconds⟩]
  | .kTtl => [⟨now, .ttl c.key⟩]

theorem dispatch_eq_after (st : Store P) (now : Int) (c : Command) :
    (dispatch st now c).1 = st.after (c.calls now) := by
  unfold dispatch Command.calls
  cases c.type with
  | kGet => exact fst_dispatchGet st now c
  | _ => rfl

/-- The store after the commands, each dispatched at its own clock reading. -/
def storeAfter (st : Store P) : List (Int × Command) → Store P
  | [] => st
  | (now, c) :: requests => storeAfter (dispatch st now c).1 requests

def dispatchAll (st : Store P) : List (Int × Command) → List Bytes
  | [] => []
  | (now, c) :: requests => (dispatch st now c).2 :: dispatchAll (dispatch st now c).1 requests

def decodedReplies (st : Store P) : List (Int × Command) → List Reply
  | [] => []
  | (now, c) :: requests => decodedReply st now c :: decodedReplies (dispatch st now c).1 requests

section
variable {requests : List (Int × Command)}

theorem length_decodedReplies (st : Store P) (requests : List (Int × Command)) :
    (decodedReplies st requests).length = requests.length := by
  induction requests generalizing st with
  | nil => rfl
  | cons request requests ih => exact congrArg Nat.succ (ih _)

theorem decodes_dispatchAll (st : Store P) (requests : List (Int × Command)) :
    Decodes (dispatchAll st requests).flatten (decodedReplies st requests) := by
  refine decodes_flatten ?_
  induction requests generalizing st with
  | nil => exact .nil
  | cons request requests ih => exact .cons (decodes_dispatch st request.1 request.2) (ih _)

theorem getElem?_decodedReplies {st : Store P} {i : Nat} {now : Int} {c : Command}
    (h : requests[i]? = some (now, c)) :
    (decodedReplies st requests)[i]? = some (decodedReply (storeAfter st (requests.take i)) now c) := by
  induction requests generalizing st i with
  | nil => cases h
  | cons request requests ih =>
    cases i with
    | zero => cases h; rfl
    | succ i => exact ih h

theorem Store.Timed.storeAfter {st : Store P} (h : st.Timed) (requests : List (Int × Command)) :
    (KvStore.storeAfter st requests).Timed := by
  induction requests generalizing st with
  | nil => exact h
  | cons request requests ih =>
    refine ih ?_
    rw [dispatch_eq_after]
    exact h.after _

end

/-- Commands dispatched one after another on any store that can be reached: the bytes of their replies decode
to one reply for each command, whatever follows, and each reply tells the command's result. -/
theorem replies_decode (P : Platform) (shardCount : Nat) (st : Store P)
    (hst : Store.make P shardCount = .ok st) (calls : List StoreCall) (requests : List (Int × Command))
    (hclock : ∀ request ∈ requests, P.chrono.Reads request.1) (rest : Bytes) :
    ∃ replies, decodeMany requests.length ((dispatchAll (st.after calls) requests).flatten ++ rest) =
        some (replies, rest) ∧
      replies.length = requests.length ∧
      ∀ i now c r, requests[i]? = some (now, c) → replies[i]? = some r →
        Tells (storeAfter (st.after calls) (requests.take i)) now c r := by
  have htimed := (Store.Timed.of_make hst).after calls
  refine ⟨decodedReplies (st.after calls) requests, ?_, length_decodedReplies _ _, fun i now c r hi hr => ?_⟩
  · rw [← length_decodedReplies (st.after calls) requests]
    exact decodeMany_append (decodes_dispatchAll _ _) rest
  · rw [getElem?_decodedReplies hi] at hr
    cases hr
    exact tells_decodedReply (htimed.storeAfter _) (hclock _ (List.mem_of_getElem? hi)) c

/-- A value that looks like a reply, a deadline, and a key that is missing. -/
def sampleRequests : List (Int × Command) :=
  [(7, { type := .kGet, key := ascii "k" }), (7, { type := .kExpire, key := ascii "k", seconds := 9 }),
    (8, { type := .kTtl, key := ascii "k" }), (9, { type := .kTtl, key := ascii "x" })]

def sampleCalls : List StoreCall := [⟨5, .set (ascii "k") (ascii "+OK\r\n")⟩]

theorem replies_decode_sample : ∃ st : Store (.reference .int64), Store.make (.reference .int64) 1 = .ok st ∧
    ∃ replies, decodeMany 4 ((dispatchAll (st.after sampleCalls) sampleRequests).flatten ++ ascii ":1") =
        some (replies, ascii ":1") ∧
      replies = [.bulkString (ascii "+OK\r\n"), .integer 1, .integer 8, .integer (-2)] := by
  have hvalue : decodeMany 4 ((dispatchAll ((Store.ofCount (.reference .int64) ⟨1, 0, rfl⟩).after sampleCalls)
      sampleRequests).flatten ++ ascii ":1") =
        some ([.bulkString (ascii "+OK\r\n"), .integer 1, .integer 8, .integer (-2)], ascii ":1") := by
    decide +kernel
  obtain ⟨replies, hdecode, -, -⟩ := replies_decode (.reference .int64) 1 (.ofCount _ ⟨1, 0, rfl⟩) rfl
    sampleCalls sampleRequests (fun request hr => .inr ⟨rfl, by revert request; decide⟩) (ascii ":1")
  exact ⟨_, rfl, replies, hdecode, congrArg Prod.fst (Option.some.inj (hdecode.symm.trans hvalue))⟩

end KvStore
