import KvStore.Lib.ExpiringMap
import KvStore.Store

/-!
# What each store operation does to the live keys

`Store.liveAt st t k` is what a reader at time `t` can see under key `k`: the value and the deadline of
the entry, if there is one and it has not expired. Every operation is specified by its effect on
`liveAt`, for every `t` not before the clock value it used; shards, generations and the heap do not
appear. Lazy removal and the sweep change nothing there (`readLive_liveAt`, `sweepExpired_liveAt`).
-/

namespace KvStore
open ByteString ExpiringMap

/-- The part of an entry a reader can observe. -/
def Entry.cell (e : Entry) : Cell Bytes := (e.value, e.deadline)

theorem cell_live_iff (e : Entry) (now : Int) : Cell.live now e.cell = !isExpired e now := by
  rcases e with ⟨v, _ | d, g⟩
  · rfl
  · simp [Entry.cell, Cell.live, isExpired, ← decide_not]

/-! ### Shards -/

namespace Shard
variable {P : Platform} {sh : Shard P} {now t : Int} {key k : Bytes}

/-- The cell a shard stores under a key, live or not. -/
def cellAt (sh : Shard P) (k : Bytes) : Option (Cell Bytes) := (sh.entries.lookup k).map Entry.cell

theorem cellAt_insert (entries : Entries) (e : Entry) (n : Nat) (h : P.heap.Rep) (key k : Bytes) :
    (Shard.mk (P := P) (entries.insert key e) n h).cellAt k =
      if k = key then some e.cell else (entries.lookup k).map Entry.cell := by
  unfold cellAt
  rw [Finmap.lookup_insert_ite]
  split_ifs <;> rfl

theorem cellAt_erase (entries : Entries) (n : Nat) (h : P.heap.Rep) (key k : Bytes) :
    (Shard.mk (P := P) (entries.erase key) n h).cellAt k =
      if k = key then none else (entries.lookup k).map Entry.cell := by
  unfold cellAt
  rw [Finmap.lookup_erase_ite]
  split_ifs <;> rfl

theorem liveIn_of_isExpired {e : Entry} (h : isExpired e now = true) (hle : now ≤ t) :
    liveIn t (some e.cell) = none := by
  have : ¬ Cell.live t e.cell = true := fun ht => by
    have := Cell.live_of_le hle ht
    rw [cell_live_iff, h] at this; cases this
  rw [liveIn_some, if_neg this]

theorem set_cellAt (sh : Shard P) (key value k : Bytes) :
    (sh.set key value).cellAt k = if k = key then some (value, none) else sh.cellAt k :=
  cellAt_insert ..

theorem eraseExpired_cellAt_ne (h : k ≠ key) : (sh.eraseExpired now key).cellAt k = sh.cellAt k := by
  unfold eraseExpired
  split
  · split_ifs
    · rw [cellAt_erase, if_neg h]; rfl
    · rfl
  · rfl

theorem eraseExpired_liveIn (hle : now ≤ t) :
    liveIn t ((sh.eraseExpired now key).cellAt key) = liveIn t (sh.cellAt key) := by
  unfold eraseExpired
  split
  · rename_i e he
    split_ifs with hexp
    · rw [cellAt_erase, if_pos rfl, cellAt, he, Option.map_some, liveIn_of_isExpired hexp hle]; rfl
    · rfl
  · rfl

theorem readLive_cellAt_ne (h : k ≠ key) : (sh.readLive now key).1.cellAt k = sh.cellAt k := by
  unfold readLive
  split
  · rfl
  · rfl
  · exact eraseExpired_cellAt_ne h

theorem readLive_liveIn (hle : now ≤ t) :
    liveIn t ((sh.readLive now key).1.cellAt key) = liveIn t (sh.cellAt key) := by
  unfold readLive
  split
  · rfl
  · rfl
  · exact eraseExpired_liveIn hle

theorem readLive_result : (sh.readLive now key).2.map Entry.cell = liveIn now (sh.cellAt key) := by
  unfold readLive find cellAt
  cases hl : sh.entries.lookup key with
  | none => rfl
  | some e =>
    dsimp only
    by_cases hexp : isExpired e now = true
    · rw [if_pos hexp, Option.map_some, liveIn_of_isExpired hexp le_rfl]; rfl
    · rw [if_neg hexp, Option.map_some, liveIn_some, if_pos (by rw [cell_live_iff]; simpa using hexp)]

theorem del_cellAt (sh : Shard P) (now : Int) (key k : Bytes) :
    (sh.del now key).1.cellAt k = if k = key then none else sh.cellAt k := by
  unfold del
  cases hl : sh.entries.lookup key with
  | none =>
    dsimp only
    split_ifs with hk
    · rw [hk, cellAt, hl]; rfl
    · rfl
  | some e => exact cellAt_erase ..

theorem del_result : (sh.del now key).2 = (liveIn now (sh.cellAt key)).isSome := by
  unfold del cellAt
  cases hl : sh.entries.lookup key with
  | none => rfl
  | some e =>
    dsimp only
    rw [Option.map_some, liveIn_some, cell_live_iff]
    cases isExpired e now <;> rfl

theorem expire_cellAt_ne (s : Int) (h : k ≠ key) : (sh.expire now key s).1.cellAt k = sh.cellAt k := by
  unfold expire
  split
  · rfl
  · split_ifs
    · rw [cellAt_erase, if_neg h]; rfl
    · rw [cellAt_insert, if_neg h]; rfl

theorem expire_result (s : Int) : (sh.expire now key s).2 = (liveIn now (sh.cellAt key)).isSome := by
  unfold expire cellAt
  cases hl : sh.entries.lookup key with
  | none => rfl
  | some e =>
    dsimp only
    rw [Option.map_some, liveIn_some, cell_live_iff]
    cases isExpired e now <;> rfl

/-- `expire` gives the live entry the new deadline; an expired entry stays invisible. -/
theorem expire_liveIn (s : Int) :
    liveIn t ((sh.expire now key s).1.cellAt key) =
      liveIn t ((liveIn now (sh.cellAt key)).map fun c => (c.1, some (P.chrono.addSeconds now s))) := by
  unfold expire
  cases hl : sh.entries.lookup key with
  | none => simp [cellAt, hl]
  | some e =>
    dsimp only
    have hc : sh.cellAt key = some e.cell := by rw [cellAt, hl]; rfl
    rw [hc, liveIn_some, cell_live_iff]
    split_ifs with hexp hlive hlive
    · rw [hexp] at hlive; cases hlive
    · rw [cellAt_erase, if_pos rfl]; rfl
    · rw [cellAt_insert, if_pos rfl]; rfl
    · rw [Bool.not_eq_true] at hexp; rw [hexp] at hlive; exact absurd rfl hlive

/-! The sweep -/

theorem isExpired_of_matchesEntry {c : ExpirationCandidate} {e : Entry} (h : matchesEntry c e = true)
    (hdue : ¬ now < c.deadline) : isExpired e now = true := by
  simp only [matchesEntry, decide_eq_true_eq] at h
  simp only [isExpired, h.2, decide_eq_true_eq]
  exact not_lt.mp hdue

/-- What survives the two things a round of the sweep can do, dropping a candidate that no entry waits for and
removing a candidate with its entry, survives the sweep. The induction is on the candidates still allowed. -/
theorem sweepLoop_induction {motive : Shard P → Prop}
    (hpop : ∀ (sh : Shard P) c, P.heap.top? sh.expirationHeap = some c → ¬ now < c.deadline →
      (∀ e, sh.entries.lookup c.key = some e → ¬ matchesEntry c e = true) → motive sh →
      motive { sh with expirationHeap := P.heap.pop sh.expirationHeap })
    (herase : ∀ (sh : Shard P) c e, P.heap.top? sh.expirationHeap = some c → ¬ now < c.deadline →
      sh.entries.lookup c.key = some e → matchesEntry c e = true → motive sh →
      motive { sh with entries := sh.entries.erase c.key, expirationHeap := P.heap.pop sh.expirationHeap })
    (budget removed : Nat) (sh : Shard P) (h : motive sh) : motive (sweepLoop now budget sh removed).1 := by
  induction budget generalizing sh removed with
  | zero => exact h
  | succ budget ih =>
    rw [sweepLoop]
    split
    · exact h
    rename_i c hc
    split_ifs with hdue
    · exact h
    cases hl : sh.entries.lookup c.key with
    | none => exact ih _ _ (hpop sh c hc hdue (fun e he => by rw [hl] at he; cases he) h)
    | some e =>
      dsimp only
      split_ifs with hm
      · exact ih _ _ (herase sh c e hc hdue hl hm h)
      · refine ih _ _ (hpop sh c hc hdue (fun e' he' => ?_) h)
        rw [hl] at he'
        cases he'
        exact hm

theorem sweepLoop_liveIn (hle : now ≤ t) (k : Bytes) (budget : Nat) (sh : Shard P) (removed : Nat) :
    liveIn t ((sweepLoop now budget sh removed).1.cellAt k) = liveIn t (sh.cellAt k) := by
  refine sweepLoop_induction (motive := fun sh' => liveIn t (sh'.cellAt k) = liveIn t (sh.cellAt k))
    (fun _ _ _ _ _ h => h) (fun sh' c e _ hdue hl hm h => ?_) budget removed sh rfl
  rw [cellAt_erase]
  split_ifs with hk
  · rw [← h, hk, cellAt, hl, Option.map_some, liveIn_of_isExpired (isExpired_of_matchesEntry hm hdue) hle]; rfl
  · exact h

end Shard

/-! ### The store -/

namespace Store
variable {P : Platform} {st : Store P} {now t : Int} {key k : Bytes}

def cellAt (st : Store P) (k : Bytes) : Option (Cell Bytes) := (st.shardFor k).cellAt k

/-- What a reader at time `t` can see under `k`. -/
def liveAt (st : Store P) (t : Int) (k : Bytes) : Option (Cell Bytes) := liveIn t (st.cellAt k)

theorem shardIndex_putShardAt (i : Nat) (sh : Shard P) (k : Bytes) :
    (st.putShardAt i sh).shardIndex k = st.shardIndex k := by
  simp [shardIndex, putShardAt]

theorem shardFor_putShardAt (i : Nat) (sh : Shard P) (k : Bytes) :
    (st.putShardAt i sh).shardFor k = if st.shardIndex k = i then sh else st.shardFor k := by
  unfold shardFor
  simp only [shardIndex_putShardAt]
  refine (List.getElem_set ..).trans ?_
  simp only [eq_comm]
  rfl

theorem cellAt_putShard {sh : Shard P} (h : ∀ k, k ≠ key → sh.cellAt k = (st.shardFor key).cellAt k)
    (k : Bytes) : (st.putShard key sh).cellAt k = if k = key then sh.cellAt key else st.cellAt k := by
  unfold cellAt putShard
  rw [shardFor_putShardAt]
  by_cases hk : k = key
  · rw [if_pos hk, hk, if_pos rfl]
  · rw [if_neg hk]
    split_ifs with hi
    · rw [h k hk]
      have : st.shardFor key = st.shardFor k := by unfold shardFor; simp only [hi]
      rw [this]
    · rfl

theorem liveAt_liveAt (hle : now ≤ t) (k : Bytes) : liveIn t (st.liveAt now k) = st.liveAt t k :=
  liveIn_liveIn hle _

theorem set_liveAt (st : Store P) (key value : Bytes) (t : Int) (k : Bytes) :
    (st.set key value).liveAt t k = if k = key then some (value, none) else st.liveAt t k := by
  unfold liveAt set
  rw [cellAt_putShard fun k hk => by rw [Shard.set_cellAt, if_neg hk]]
  split_ifs with hk
  · rw [Shard.set_cellAt, if_pos rfl]; rfl
  · rfl

theorem readLive_liveAt (hle : now ≤ t) : (st.readLive now key).1.liveAt t k = st.liveAt t k := by
  unfold liveAt readLive
  dsimp only
  rw [cellAt_putShard fun k hk => Shard.readLive_cellAt_ne hk]
  split_ifs with hk
  · rw [hk, Shard.readLive_liveIn hle]; rfl
  · rfl

theorem readLive_result : (st.readLive now key).2.map Entry.cell = st.liveAt now key :=
  Shard.readLive_result

theorem get_liveAt (hle : now ≤ t) : (st.get now key).1.liveAt t k = st.liveAt t k :=
  readLive_liveAt hle

theorem get_result : (st.get now key).2 = (st.liveAt now key).map Prod.fst := by
  rw [← readLive_result, Option.map_map]; rfl

theorem exists_liveAt (hle : now ≤ t) : (st.exists now key).1.liveAt t k = st.liveAt t k :=
  readLive_liveAt hle

theorem exists_result : (st.exists now key).2 = (st.liveAt now key).isSome := by
  rw [← readLive_result, Option.isSome_map]; rfl

theorem fst_ttl (st : Store P) (now : Int) (key : Bytes) : (st.ttl now key).1 = (st.readLive now key).1 := by
  unfold ttl
  dsimp only
  cases (st.readLive now key).2 <;> rfl

theorem ttl_liveAt (hle : now ≤ t) : (st.ttl now key).1.liveAt t k = st.liveAt t k := by
  rw [fst_ttl, readLive_liveAt hle]

theorem ttl_result : (st.ttl now key).2 =
    match st.liveAt now key with
    | none => .kMissing
    | some c => ttlOf P c.2 now := by
  rw [← readLive_result]
  unfold ttl; dsimp only
  cases (st.readLive now key).2 <;> rfl

theorem del_liveAt (st : Store P) (now : Int) (key : Bytes) (t : Int) (k : Bytes) :
    (st.del now key).1.liveAt t k = if k = key then none else st.liveAt t k := by
  unfold liveAt del
  dsimp only
  rw [cellAt_putShard fun k hk => by rw [Shard.del_cellAt, if_neg hk]]
  split_ifs with hk
  · rw [Shard.del_cellAt, if_pos rfl]; rfl
  · rfl

theorem del_result : (st.del now key).2 = (st.liveAt now key).isSome := Shard.del_result

theorem expire_liveAt (s : Int) : (st.expire now key s).1.liveAt t k =
    if k = key then
      liveIn t ((st.liveAt now key).map fun c => (c.1, some (P.chrono.addSeconds now s)))
    else st.liveAt t k := by
  unfold liveAt expire
  dsimp only
  rw [cellAt_putShard fun k hk => Shard.expire_cellAt_ne s hk]
  split_ifs with hk
  · rw [Shard.expire_liveIn s]; rfl
  · rfl

theorem expire_result (s : Int) : (st.expire now key s).2 = (st.liveAt now key).isSome :=
  Shard.expire_result s

theorem fst_sweepShards (now : Int) (m : Nat) (shards : List (Shard P)) (total : Nat) :
    (sweepShards now m shards total).1 = shards.map fun sh => (sh.sweep now m).1 := by
  induction shards generalizing total with
  | nil => rfl
  | cons sh rest ih => exact congrArg _ (ih _)

theorem shards_sweepExpired (st : Store P) (now : Int) (m : Nat) :
    (st.sweepExpired now m).1.shards = st.shards.map fun sh => (sh.sweep now m).1 :=
  fst_sweepShards ..

theorem shardIndex_sweepExpired (st : Store P) (now : Int) (m : Nat) :
    (st.sweepExpired now m).1.shardIndex = st.shardIndex := by
  funext k
  simp [shardIndex, shards_sweepExpired]

theorem sweepExpired_liveAt (m : Nat) (hle : now ≤ t) :
    (st.sweepExpired now m).1.liveAt t k = st.liveAt t k := by
  have hget : (st.sweepExpired now m).1.shardFor k = ((st.shardFor k).sweep now m).1 := by
    unfold shardFor
    simp only [shardIndex_sweepExpired, shards_sweepExpired, List.get_eq_getElem, List.getElem_map]
  unfold liveAt cellAt
  rw [hget]
  exact Shard.sweepLoop_liveIn hle k _ _ _

end Store
end KvStore
