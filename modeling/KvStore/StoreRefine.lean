import KvStore.Lib.Simulation
import KvStore.StoreSpec

/-!
# The store refines a map with deadlines

`AbstractStore` says what the store is for: a finite map from keys to values with an optional deadline,
where the sweep does nothing. The simulation relation `SameLive now` only says that both sides show the
same live cells at `now`; what expired entries, generations and heap candidates the shards still hold is
left open. `store_refines_abstract` is the result for whole call sequences.
-/

namespace KvStore
open ByteString ExpiringMap

/-- The public operations of `Store`. -/
inductive StoreOp where
  | set (key value : Bytes)
  | get (key : Bytes)
  | del (key : Bytes)
  | exists_ (key : Bytes)
  | expire (key : Bytes) (seconds : Int)
  | ttl (key : Bytes)
  | sweepExpired (maxItemsPerShard : Nat)
deriving DecidableEq, Repr

/-- An operation and the clock value it reads. -/
structure StoreCall where
  now : Int
  op : StoreOp
deriving DecidableEq, Repr

/-- What a caller gets back; `set` returns nothing and the sweep's count is a statistic. -/
inductive StoreReply where
  | done
  | value (v : Option Bytes)
  | flag (b : Bool)
  | remaining (r : TtlResult)
deriving DecidableEq, Repr

def Store.call {P : Platform} (st : Store P) (c : StoreCall) : Store P × StoreReply :=
  match c.op with
  | .set key value => (st.set key value, .done)
  | .get key => (st.get c.now key).map id .value
  | .del key => (st.del c.now key).map id .flag
  | .exists_ key => (st.exists c.now key).map id .flag
  | .expire key seconds => (st.expire c.now key seconds).map id .flag
  | .ttl key => (st.ttl c.now key).map id .remaining
  | .sweepExpired m => ((st.sweepExpired c.now m).1, .done)

/-! ### The abstract model -/

abbrev AbstractStore := ExpiringMap Bytes Bytes

namespace AbstractStore

/-- Whole seconds left until the deadline, rounded down. -/
def ttlOf (deadline : Option Int) (now : Int) : TtlResult :=
  match deadline with
  | none => .kNoTtl
  | some deadline => .kHasTtl ((deadline - now) / nanosPerSecond)

def call (m : AbstractStore) (c : StoreCall) : AbstractStore × StoreReply :=
  match c.op with
  | .set key value => (m.insert key (value, none), .done)
  | .get key => (m, .value ((m.liveAt c.now key).map Prod.fst))
  | .del key => (m.erase key, .flag (m.liveAt c.now key).isSome)
  | .exists_ key => (m, .flag (m.liveAt c.now key).isSome)
  | .expire key seconds =>
    (m.setDeadline c.now key (c.now + seconds * nanosPerSecond), .flag (m.liveAt c.now key).isSome)
  | .ttl key =>
    (m, .remaining (match m.liveAt c.now key with
      | none => .kMissing
      | some cell => ttlOf cell.2 c.now))
  | .sweepExpired _ => (m, .done)

/-- The same map with the platform's time arithmetic in the place of exact integers. -/
def callOn (P : Platform) (m : AbstractStore) (c : StoreCall) : AbstractStore × StoreReply :=
  match c.op with
  | .expire key seconds =>
    (m.setDeadline c.now key (P.chrono.addSeconds c.now seconds), .flag (m.liveAt c.now key).isSome)
  | .ttl key =>
    (m, .remaining (match m.liveAt c.now key with
      | none => .kMissing
      | some cell => Store.ttlOf P cell.2 c.now))
  | _ => m.call c

end AbstractStore

/-! ### The simulation -/

section Refinement
variable {P : Platform} {st : Store P} {m : AbstractStore} {now t : Int}

/-- Both sides show the same live cells. -/
def SameLive (now : Int) (st : Store P) (m : AbstractStore) : Prop := ∀ k, st.liveAt now k = m.liveAt now k

theorem SameLive.mono (hle : now ≤ t) (h : SameLive now st m) : SameLive t st m := by
  intro k
  rw [← Store.liveAt_liveAt hle, h k]
  exact liveIn_liveIn hle _

/-- Truncation and rounding down agree on the time left to a live deadline. -/
theorem ttlOf_eq (hP : P.chrono = .exact) {c : Cell Bytes} (hlive : Cell.live now c = true) :
    Store.ttlOf P c.2 now = AbstractStore.ttlOf c.2 now := by
  rcases c with ⟨v, _ | d⟩
  · rfl
  · simp only [Cell.live, decide_eq_true_eq] at hlive
    have hpos : 0 ≤ d - now := by omega
    simp only [Store.ttlOf, AbstractStore.ttlOf, hP, Chrono.exact, Store.durationCastSeconds]
    rw [Int.tdiv_eq_ediv_of_nonneg hpos]

theorem AbstractStore.callOn_exact (hP : P.chrono = .exact) : callOn P = call := by
  funext m ⟨now, op⟩
  cases op with
  | expire key s => simp only [callOn, call, hP, Chrono.exact]
  | ttl key =>
    simp only [callOn, call]
    cases hl : m.liveAt now key with
    | none => rfl
    | some cell => simp only [ttlOf_eq hP (live_of_liveIn hl)]
  | _ => rfl

theorem SameLive.callOn (c : StoreCall) (h : SameLive c.now st m) :
    (st.call c).2 = (m.callOn P c).2 ∧ SameLive c.now (st.call c).1 (m.callOn P c).1 := by
  obtain ⟨now, op⟩ := c
  change SameLive now st m at h
  rcases op with ⟨key, value⟩ | key | key | key | ⟨key, s⟩ | key | n
  · refine ⟨rfl, fun k => ?_⟩
    refine (Store.set_liveAt st key value now k).trans ?_
    rw [h k]
    exact (liveAt_insert m key (value, none) now k).symm
  · refine ⟨?_, fun k => ?_⟩
    · exact congrArg StoreReply.value (Store.get_result.trans (congrArg (Option.map Prod.fst) (h key)))
    · exact (Store.get_liveAt le_rfl).trans (h k)
  · refine ⟨?_, fun k => ?_⟩
    · exact congrArg StoreReply.flag (Store.del_result.trans (congrArg Option.isSome (h key)))
    · exact (Store.del_liveAt st now key now k).trans (by rw [h k]; exact (liveAt_erase m key now k).symm)
  · refine ⟨?_, fun k => ?_⟩
    · exact congrArg StoreReply.flag (Store.exists_result.trans (congrArg Option.isSome (h key)))
    · exact (Store.exists_liveAt le_rfl).trans (h k)
  · refine ⟨?_, fun k => ?_⟩
    · exact congrArg StoreReply.flag ((Store.expire_result s).trans (congrArg Option.isSome (h key)))
    · refine (Store.expire_liveAt s).trans ?_
      rw [h k, h key]
      exact (liveAt_setDeadline le_rfl key _ k).symm
  · refine ⟨?_, fun k => ?_⟩
    · exact congrArg StoreReply.remaining (Store.ttl_result.trans (h key ▸ rfl))
    · exact (Store.ttl_liveAt le_rfl).trans (h k)
  · exact ⟨rfl, fun k => (Store.sweepExpired_liveAt n le_rfl).trans (h k)⟩

theorem SameLive.call (hP : P.chrono = .exact) (c : StoreCall) (h : SameLive c.now st m) :
    (st.call c).2 = (AbstractStore.call m c).2 ∧ SameLive c.now (st.call c).1 (AbstractStore.call m c).1 := by
  rw [← AbstractStore.callOn_exact hP]
  exact h.callOn c

theorem Store.ofCount_liveAt (P : Platform) (count : ShardCount) (t : Int) (k : Bytes) :
    (ofCount P count).liveAt t k = none := by
  unfold liveAt cellAt shardFor ofCount
  simp [Shard.empty, Shard.cellAt]

theorem Store.make_liveAt {shardCount : Nat} (hst : Store.make P shardCount = .ok st) (t : Int) (k : Bytes) :
    st.liveAt t k = none := by
  obtain ⟨count, rfl⟩ := Store.eq_ofCount_of_make hst
  exact Store.ofCount_liveAt P count t k

/-- Every answer of a fresh store, for every shard count and every hash function, is the answer of the
abstract map, as long as the clock does not go back. -/
theorem store_refines_abstract (P : Platform) (hP : P.chrono = .exact) (shardCount : Nat)
    (st : Store P) (hst : Store.make P shardCount = .ok st) (calls : List StoreCall)
    (hclock : (calls.map StoreCall.now).Pairwise (· ≤ ·)) :
    Simulation.outputs Store.call st calls = Simulation.outputs AbstractStore.call ∅ calls := by
  refine Simulation.outputs_eq StoreCall.now SameLive (fun _ _ _ _ => SameLive.mono)
    (fun _ _ c => SameLive.call hP c) calls hclock st ∅ fun c _ k => ?_
  rw [Store.make_liveAt hst, liveAt_empty]

end Refinement

/-- A key that is swept at its deadline, in a store asked for three shards. -/
theorem store_refines_abstract_swept_key :
    let calls : List StoreCall :=
      [⟨0, .set (ascii "k") (ascii "v")⟩, ⟨1, .expire (ascii "k") 1⟩, ⟨2, .ttl (ascii "k")⟩,
        ⟨1000000001, .sweepExpired 8⟩, ⟨1000000001, .get (ascii "k")⟩]
    Simulation.outputs Store.call (Store.ofCount (.reference .exact) ⟨bitCeil 3, bitCeil_eq_pow 3⟩) calls =
      Simulation.outputs AbstractStore.call ∅ calls :=
  store_refines_abstract (.reference .exact) rfl 3 _ rfl _ (by decide)

end KvStore
