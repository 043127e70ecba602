import KvStore.ExpireArith
import KvStore.Lib.Linearizable
import KvStore.Lib.Slots
import KvStore.Lib.Transition

/-!
# Threads on one store

The operations of `storage/store.cpp` cut where another thread can get in between: the clock reading, each
lock-protected section, and for the sweep the final count. Any number of operations are in progress at
once; what happens next is a `StoreChoice`. The clock moves on between any two steps and never goes back.

An operation is over with its last section: what is left is to return an answer that is already fixed.
Run on its own, an operation does what `Store.call` does (`Running.alone_call`).
-/

namespace KvStore
open ByteString ExpiringMap

/-- The operations built on `read_live`. -/
inductive ReadOp where
  | get
  | exists_
  | ttl
deriving DecidableEq, Repr

def ReadOp.op (key : Bytes) : ReadOp → StoreOp
  | .get => .get key
  | .exists_ => .exists_ key
  | .ttl => .ttl key

/-- What `on_live` and `on_missing` leave in the result. -/
def ReadOp.reply (P : Platform) (now : Int) (found : Option Entry) : ReadOp → StoreReply
  | .get => .value (found.map (·.value))
  | .exists_ => .flag found.isSome
  | .ttl => .remaining (match found with
    | none => .kMissing
    | some entry => Store.ttlOf P entry.deadline now)

/-- How far an operation in progress is; `now` is the clock value it has read. -/
inductive Running where
  /-- Before the clock reading; `set` does not read the clock and waits for its lock. -/
  | called (op : StoreOp)
  /-- Before the shared-lock section of `read_live`. -/
  | reading (r : ReadOp) (key : Bytes) (now : Int)
  /-- `read_live` has found an expired entry and waits for the exclusive lock. -/
  | revalidating (r : ReadOp) (key : Bytes) (now : Int)
  | deleting (key : Bytes) (now : Int)
  | expiring (key : Bytes) (seconds now : Int)
  /-- The shards before `shard` are swept. -/
  | sweeping (maxItemsPerShard : Nat) (now : Int) (shard removed : Nat)
deriving DecidableEq, Repr

def Running.op : Running → StoreOp
  | .called op => op
  | .reading r key _ => r.op key
  | .revalidating r key _ => r.op key
  | .deleting key _ => .del key
  | .expiring key seconds _ => .expire key seconds
  | .sweeping m _ _ _ => .sweepExpired m

/-- The clock value the operation works with, once it has read it. -/
def Running.now? : Running → Option Int
  | .called _ => none
  | .reading _ _ now | .revalidating _ _ now | .deleting _ now | .expiring _ _ now | .sweeping _ now _ _ =>
    some now

inductive StoreEvent where
  | called (id : Nat) (clock : Int) (op : StoreOp)
  /-- The operation reads the clock. -/
  | sampled (id : Nat) (now : Int)
  | returned (id : Nat) (clock : Int) (op : StoreOp) (reply : StoreReply)
deriving DecidableEq, Repr

/-- What an operation in progress does next: it goes on, or it is over and returns. -/
def Running.advance {P : Platform} (st : Store P) (clock : Int) : Running → Store P × (Running ⊕ StoreReply)
  | .called (.set key value) => (st.set key value, .inr .done)
  | .called (.get key) => (st, .inl (.reading .get key clock))
  | .called (.exists_ key) => (st, .inl (.reading .exists_ key clock))
  | .called (.ttl key) => (st, .inl (.reading .ttl key clock))
  | .called (.del key) => (st, .inl (.deleting key clock))
  | .called (.expire key seconds) => (st, .inl (.expiring key seconds clock))
  | .called (.sweepExpired m) => (st, .inl (.sweeping m clock 0 0))
  | .reading r key now =>
    match (st.shardFor key).find now key with
    | .live entry => (st, .inr (r.reply P now (some entry)))
    | .missing => (st, .inr (r.reply P now none))
    | .expired => (st, .inl (.revalidating r key now))
  | .revalidating r key now =>
    (st.putShard key ((st.shardFor key).eraseExpired now key), .inr (r.reply P now none))
  | .deleting key now => ((st.del now key).1, .inr (.flag (st.del now key).2))
  | .expiring key seconds now => ((st.expire now key seconds).1, .inr (.flag (st.expire now key seconds).2))
  | .sweeping m now shard removed =>
    match st.shards[shard]? with
    | some sh =>
      (st.putShardAt shard (sh.sweep now m).1, .inl (.sweeping m now (shard + 1) (removed + (sh.sweep now m).2)))
    | none => ({ st with activeExpirations := st.activeExpirations + removed }, .inr .done)

/-- `running` holds the operations in progress under their numbers. -/
structure ConcurrentStore (P : Platform) where
  store : Store P
  clock : Int
  running : Finmap (fun _ : Nat => Running) := ∅
  nextId : Nat := 0

/-- What happens next. -/
inductive StoreChoice where
  | call (op : StoreOp)
  | advance (id : Nat)
  | tick (clock : Int)
deriving DecidableEq, Repr

namespace ConcurrentStore
variable {P : Platform}

def advance (s : ConcurrentStore P) (id : Nat) (r : Running) : ConcurrentStore P × List StoreEvent :=
  match r.advance s.store s.clock with
  | (store, .inl r') =>
    ({ s with store, running := s.running.insert id r' }, if r.now?.isNone then [.sampled id s.clock] else [])
  | (store, .inr reply) =>
    ({ s with store, running := s.running.erase id }, [.returned id s.clock r.op reply])

def step (s : ConcurrentStore P) : StoreChoice → Option (ConcurrentStore P × List StoreEvent)
  | .call op =>
    some ({ s with running := s.running.insert s.nextId (.called op), nextId := s.nextId + 1 },
      [.called s.nextId s.clock op])
  | .advance id => (s.running.lookup id).map (s.advance id)
  | .tick clock => if s.clock ≤ clock then some ({ s with clock }, []) else none

abbrev Run (s : ConcurrentStore P) := Transition.Exec (Transition.Step step) s

end ConcurrentStore

/-! ### What one step does to the store -/

section
variable {P : Platform} {st : Store P} {clock now t : Int} {key k : Bytes}

/-- The answer of a read is fixed by its shared-lock section. -/
theorem Store.call_reply_read (st : Store P) (now : Int) (key : Bytes) (r : ReadOp) :
    (st.call ⟨now, r.op key⟩).2 = r.reply P now ((st.shardFor key).readLive now key).2 := by
  cases r with
  | ttl =>
    show StoreReply.remaining (st.ttl now key).2 = _
    unfold Store.ttl Store.readLive
    dsimp only
    cases ((st.shardFor key).readLive now key).2 <;> rfl
  | _ => rfl

theorem Store.eraseExpired_liveAt (hle : now ≤ t) :
    (st.putShard key ((st.shardFor key).eraseExpired now key)).liveAt t k = st.liveAt t k := by
  unfold Store.liveAt
  rw [cellAt_putShard fun k hk => Shard.eraseExpired_cellAt_ne hk]
  split_ifs with hk
  · rw [hk, Shard.eraseExpired_liveIn hle]; rfl
  · rfl

theorem Store.shardFor_of_getElem? {i : Nat} {sh : Shard P} (hi : st.shards[i]? = some sh)
    (hk : st.shardIndex k = i) : st.shardFor k = sh := by
  subst hk
  exact (List.getElem?_eq_some_iff.mp hi).2

theorem Store.sweepShard_liveAt {i m : Nat} {sh : Shard P} (hi : st.shards[i]? = some sh) (hle : now ≤ t) :
    (st.putShardAt i (sh.sweep now m).1).liveAt t k = st.liveAt t k := by
  unfold Store.liveAt Store.cellAt
  rw [shardFor_putShardAt]
  split_ifs with hk
  · rw [shardFor_of_getElem? hi hk]
    exact Shard.sweepLoop_liveIn hle k _ _ _
  · rfl

/-! ### Operations that nothing interrupts -/

/-- The operation runs to its end, one step after the other, while the clock stands still. -/
inductive Running.Alone (clock : Int) : Store P → Running → Store P → StoreReply → Prop
  | finish {st st' : Store P} {r : Running} {reply : StoreReply} :
      r.advance st clock = (st', .inr reply) → Alone clock st r st' reply
  | next {st st₁ st' : Store P} {r r₁ : Running} {reply : StoreReply} :
      r.advance st clock = (st₁, .inl r₁) → Alone clock st₁ r₁ st' reply → Alone clock st r st' reply

theorem Store.putShardAt_self {i : Nat} {sh : Shard P} (hi : st.shards[i]? = some sh) : st.putShardAt i sh = st := by
  obtain ⟨shards, n, hpow⟩ := st
  have hset : shards.set i sh = shards := Slots.set_of_getElem? hi
  simp only [Store.putShardAt, hset]

theorem Store.putShard_shardFor (st : Store P) (key : Bytes) : st.putShard key (st.shardFor key) = st :=
  putShardAt_self (List.getElem?_eq_getElem (st.shardIndex_lt key))

theorem Store.call_store_read (st : Store P) (now : Int) (key : Bytes) (r : ReadOp) :
    (st.call ⟨now, r.op key⟩).1 = st.putShard key ((st.shardFor key).readLive now key).1 := by
  cases r with
  | ttl => exact st.fst_ttl now key
  | _ => rfl

theorem Running.Alone.reading (st : Store P) (clock now : Int) (key : Bytes) (r : ReadOp) :
    Alone clock st (.reading r key now) (st.call ⟨now, r.op key⟩).1 (st.call ⟨now, r.op key⟩).2 := by
  rw [Store.call_store_read, Store.call_reply_read]
  cases hf : (st.shardFor key).find now key with
  | live e =>
    refine .finish ?_
    simp only [Running.advance, Shard.readLive, hf, Store.putShard_shardFor]
  | missing =>
    refine .finish ?_
    simp only [Running.advance, Shard.readLive, hf, Store.putShard_shardFor]
  | expired =>
    have hfirst : (Running.reading r key now).advance st clock = (st, .inl (.revalidating r key now)) := by
      simp only [Running.advance, hf]
    refine .next hfirst (.finish ?_)
    simp only [Running.advance, Shard.readLive, hf]

theorem Running.Alone.sweeping (clock now : Int) (m : Nat) (done todo : List (Shard P)) (n removed : Nat)
    (hpow : ∃ k, (done ++ todo).length = 2 ^ k)
    (hpow' : ∃ k, (done ++ (Store.sweepShards now m todo removed).1).length = 2 ^ k) :
    Alone clock ⟨done ++ todo, n, hpow⟩ (.sweeping m now done.length removed)
      ⟨done ++ (Store.sweepShards now m todo removed).1, n + (Store.sweepShards now m todo removed).2, hpow'⟩
      .done := by
  induction todo generalizing done removed with
  | nil =>
    refine .finish ?_
    simp [Running.advance, Store.sweepShards]
  | cons sh todo ih =>
    have hset : (done ++ sh :: todo).set done.length (sh.sweep now m).1 =
        (done ++ [(sh.sweep now m).1]) ++ todo := by simp
    have hlen : (done ++ [(sh.sweep now m).1]).length = done.length + 1 := by simp
    have hswept : done ++ (Store.sweepShards now m (sh :: todo) removed).1 =
        (done ++ [(sh.sweep now m).1]) ++ (Store.sweepShards now m todo (removed + (sh.sweep now m).2)).1 := by
      simp [Store.sweepShards]
    have hpow₁ : ∃ k, ((done ++ [(sh.sweep now m).1]) ++ todo).length = 2 ^ k := by
      rw [← hset, List.length_set]; exact hpow
    have hfirst : (Running.sweeping m now done.length removed).advance ⟨done ++ sh :: todo, n, hpow⟩ clock =
        (⟨(done ++ [(sh.sweep now m).1]) ++ todo, n, hpow₁⟩,
          .inl (.sweeping m now (done.length + 1) (removed + (sh.sweep now m).2))) := by
      simp [Running.advance, Store.putShardAt]
    have hrest := ih (done ++ [(sh.sweep now m).1]) (removed + (sh.sweep now m).2) hpow₁ (hswept ▸ hpow')
    rw [hlen] at hrest
    simp only [hswept]
    exact .next hfirst hrest

/-- An operation that nothing interrupts does what its sequential definition says. -/
theorem Running.alone_call (st : Store P) (clock : Int) (op : StoreOp) :
    Alone clock st (.called op) (st.call ⟨clock, op⟩).1 (st.call ⟨clock, op⟩).2 := by
  cases op with
  | set key value => exact .finish rfl
  | get key => exact .next rfl (.reading st clock clock key .get)
  | exists_ key => exact .next rfl (.reading st clock clock key .exists_)
  | ttl key => exact .next rfl (.reading st clock clock key .ttl)
  | del key => exact .next rfl (.finish rfl)
  | expire key s => exact .next rfl (.finish rfl)
  | sweepExpired m =>
    exact .next rfl (.sweeping clock clock m [] st.shards st.activeExpirations 0 st.count_pow _)

end
end KvStore
