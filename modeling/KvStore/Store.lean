import KvStore.Shard

/-!
# The sharded store

`Store` of `storage/store.cpp`. The shard count is a power of two, so that the bitmask of `shardIndex`
always names a shard; the structure carries that as a field. Every operation takes the clock value it
reads.
-/

namespace KvStore
open ByteString

/-- `std::bit_ceil`. -/
def bitCeil (n : Nat) : Nat := if n ≤ 1 then 1 else 2 ^ (Nat.log2 (n - 1) + 1)

theorem bitCeil_eq_pow (n : Nat) : ∃ k, bitCeil n = 2 ^ k := by
  unfold bitCeil
  split_ifs
  · exact ⟨0, rfl⟩
  · exact ⟨_, rfl⟩

abbrev ShardCount := { n : Nat // ∃ k, n = 2 ^ k }

/-- `normalize_shard_count`; zero throws. -/
def normalizeShardCount (requested : Nat) : Except String ShardCount :=
  if requested = 0 then .error "Store: shard_count must be greater than zero"
  else .ok ⟨bitCeil requested, bitCeil_eq_pow requested⟩

structure Store (P : Platform) where
  shards : List (Shard P)
  activeExpirations : Nat
  count_pow : ∃ k, shards.length = 2 ^ k

/-- `TtlResult`; the remaining seconds are there iff the key has a TTL. -/
inductive TtlResult where
  | kMissing
  | kNoTtl
  | kHasTtl (remaining : Int)
deriving DecidableEq, Repr

namespace Store
variable {P : Platform}

def ofCount (P : Platform) (count : ShardCount) : Store P :=
  ⟨List.replicate count.1 (Shard.empty P), 0, by simpa using count.2⟩

def small : Store (.reference .exact) := .ofCount _ ⟨2, 1, rfl⟩

def make (P : Platform) (shardCount : Nat) : Except String (Store P) :=
  (normalizeShardCount shardCount).map (ofCount P)

theorem eq_ofCount_of_make {shardCount : Nat} {st : Store P} (h : make P shardCount = .ok st) :
    ∃ count, st = ofCount P count := by
  unfold make at h
  cases hn : normalizeShardCount shardCount with
  | error e => rw [hn] at h; cases h
  | ok count =>
    rw [hn] at h; cases h
    exact ⟨count, rfl⟩

theorem shards_pos (st : Store P) : 0 < st.shards.length := by
  obtain ⟨k, hk⟩ := st.count_pow
  rw [hk]; exact Nat.two_pow_pos k

def shardIndex (st : Store P) (key : Bytes) : Nat := P.hash key &&& (st.shards.length - 1)

theorem shardIndex_lt (st : Store P) (key : Bytes) : st.shardIndex key < st.shards.length := by
  have h1 : st.shardIndex key ≤ st.shards.length - 1 := Nat.and_le_right
  have h2 := st.shards_pos
  omega

def shardFor (st : Store P) (key : Bytes) : Shard P :=
  st.shards.get ⟨st.shardIndex key, st.shardIndex_lt key⟩

/-- Write a shard back to its place. -/
def putShardAt (st : Store P) (i : Nat) (sh : Shard P) : Store P :=
  { st with
    shards := st.shards.set i sh
    count_pow := by simpa using st.count_pow }

def putShard (st : Store P) (key : Bytes) (sh : Shard P) : Store P := st.putShardAt (st.shardIndex key) sh

def set (st : Store P) (key value : Bytes) : Store P :=
  st.putShard key ((st.shardFor key).set key value)

/-- `read_live` on the key's shard. -/
def readLive (st : Store P) (now : Int) (key : Bytes) : Store P × Option Entry :=
  let (sh, found) := (st.shardFor key).readLive now key
  (st.putShard key sh, found)

def get (st : Store P) (now : Int) (key : Bytes) : Store P × Option Bytes :=
  let (st, found) := st.readLive now key
  (st, found.map (·.value))

def «exists» (st : Store P) (now : Int) (key : Bytes) : Store P × Bool :=
  let (st, found) := st.readLive now key
  (st, found.isSome)

/-- `duration_cast<seconds>` of a nanosecond count truncates toward zero. -/
def durationCastSeconds (nanos : Int) : Int := nanos.tdiv nanosPerSecond

/-- The answer of `ttl` for a live entry. -/
def ttlOf (P : Platform) (deadline : Option Int) (now : Int) : TtlResult :=
  match deadline with
  | none => .kNoTtl
  | some deadline => .kHasTtl (durationCastSeconds (P.chrono.sub deadline now))

def ttl (st : Store P) (now : Int) (key : Bytes) : Store P × TtlResult :=
  let (st, found) := st.readLive now key
  match found with
  | none => (st, .kMissing)
  | some entry => (st, ttlOf P entry.deadline now)

def del (st : Store P) (now : Int) (key : Bytes) : Store P × Bool :=
  let (sh, wasLive) := (st.shardFor key).del now key
  (st.putShard key sh, wasLive)

def expire (st : Store P) (now : Int) (key : Bytes) (ttlSeconds : Int) : Store P × Bool :=
  let (sh, ok) := (st.shardFor key).expire now key ttlSeconds
  (st.putShard key sh, ok)

/-- The loop of `sweep_expired` over the shards. -/
def sweepShards (now : Int) (maxItems : Nat) : List (Shard P) → Nat → List (Shard P) × Nat
  | [], total => ([], total)
  | sh :: rest, total =>
    let (sh, removed) := sh.sweep now maxItems
    let (rest, total) := sweepShards now maxItems rest (total + removed)
    (sh :: rest, total)

theorem length_sweepShards (now : Int) (maxItems : Nat) (shards : List (Shard P)) (total : Nat) :
    (sweepShards now maxItems shards total).1.length = shards.length := by
  induction shards generalizing total with
  | nil => rfl
  | cons sh rest ih => simp [sweepShards, ih]

def sweepExpired (st : Store P) (now : Int) (maxItemsPerShard : Nat) : Store P × Nat :=
  let swept := sweepShards now maxItemsPerShard st.shards 0
  ({ shards := swept.1
     activeExpirations := st.activeExpirations + swept.2
     count_pow := by rw [length_sweepShards]; exact st.count_pow }, swept.2)

end Store
end KvStore
