import KvStore.ConcurrentStore
import KvStore.Lib.Descent
import KvStore.Lib.Locks
import KvStore.Lib.Slots
import KvStore.Lib.Totals

/-!
# The locks of the shards

In `ConcurrentStore` a section under a lock is one step. Here it is what the code of `storage/store.cpp` does
between taking the `shared_mutex` of a shard and releasing it: one step for every access to the shard, in the
order of the source, so that a thread can be stopped between any two of them. Most of these moments show a shard
that no operation leaves behind, such as the empty entry that `entries[key]` makes for `set` to fill in. An iterator
and the reference to the top of the heap are looked up again whenever they are used; if what they point to is gone,
the access has no step.
-/

namespace KvStore
open ByteString ExpiringMap Transition Sections

/-- What a section leaves its operation with: it goes on, or it is over. -/
abbrev Outcome := Running ⊕ StoreReply

/-- The next access in a section. -/
inductive Access where
  /-- `entries[key]` of `set`, then the assignments to the entry's fields. -/
  | setEntry (key value : Bytes)
  | setValue (key value : Bytes)
  | setDeadline (key : Bytes)
  | setBump (key : Bytes)
  | setGeneration (key : Bytes) (generation : Nat)
  /-- `read_live` under the shared lock: `find`, `is_expired`, `on_live`. -/
  | find (r : ReadOp) (key : Bytes) (now : Int)
  | test (r : ReadOp) (key : Bytes) (now : Int)
  | onLive (r : ReadOp) (key : Bytes) (now : Int)
  /-- `read_live` under the exclusive lock. -/
  | findAgain (r : ReadOp) (key : Bytes) (now : Int)
  | testAgain (r : ReadOp) (key : Bytes) (now : Int)
  | eraseAgain (r : ReadOp) (key : Bytes) (now : Int)
  | delFind (key : Bytes) (now : Int)
  | delTest (key : Bytes) (now : Int)
  | delErase (key : Bytes) (wasLive : Bool)
  | expireFind (key : Bytes) (seconds now : Int)
  | expireTest (key : Bytes) (seconds now : Int)
  | expireErase (key : Bytes)
  | expireDeadline (key : Bytes) (deadline : Int)
  | expireBump (key : Bytes) (deadline : Int)
  | expireGeneration (key : Bytes) (deadline : Int) (generation : Nat)
  | expirePush (key : Bytes) (deadline : Int)
  /-- The loop of `sweep_expired` in the shard `shard`; `processed` candidates are done. -/
  | sweepTop (m : Nat) (now : Int) (shard removed processed : Nat)
  | sweepFind (m : Nat) (now : Int) (shard removed processed : Nat)
  | sweepTest (m : Nat) (now : Int) (shard removed processed : Nat)
  | sweepErase (m : Nat) (now : Int) (shard removed processed : Nat)
  | sweepPop (m : Nat) (now : Int) (shard removed processed : Nat)
deriving DecidableEq, Repr

/-- `read_live` begins under a shared lock; every other section has the shard to itself. -/
def Access.exclusive : Access → Bool
  | .find _ _ _ | .test _ _ _ | .onLive _ _ _ => false
  | _ => true

def Shard.put {P : Platform} (sh : Shard P) (key : Bytes) (entry : Entry) : Shard P :=
  { sh with entries := sh.entries.insert key entry }

def Shard.remove {P : Platform} (sh : Shard P) (key : Bytes) : Shard P :=
  { sh with entries := sh.entries.erase key }

/-- `Entry{}`. -/
def Entry.fresh : Entry := ⟨[], none, 0⟩

def Access.micro {P : Platform} : Access → Shard P → Option (Shard P × (Access ⊕ Outcome))
  | .setEntry key value, sh =>
    match sh.entries.lookup key with
    | some _ => some (sh, .inl (.setValue key value))
    | none => some (sh.put key .fresh, .inl (.setValue key value))
  | .setValue key value, sh =>
    (sh.entries.lookup key).map fun entry => (sh.put key { entry with value }, .inl (.setDeadline key))
  | .setDeadline key, sh =>
    (sh.entries.lookup key).map fun entry => (sh.put key { entry with deadline := none }, .inl (.setBump key))
  | .setBump key, sh =>
    some ({ sh with nextGeneration := sh.nextGeneration + 1 }, .inl (.setGeneration key (sh.nextGeneration + 1)))
  | .setGeneration key generation, sh =>
    (sh.entries.lookup key).map fun entry => (sh.put key { entry with generation }, .inr (.inr .done))
  | .find r key now, sh =>
    match sh.entries.lookup key with
    | some _ => some (sh, .inl (.test r key now))
    | none => some (sh, .inr (.inr (r.reply P now none)))
  | .test r key now, sh =>
    (sh.entries.lookup key).map fun entry =>
      (sh, if isExpired entry now then .inr (.inl (.revalidating r key now)) else .inl (.onLive r key now))
  | .onLive r key now, sh =>
    (sh.entries.lookup key).map fun entry => (sh, .inr (.inr (r.reply P now (some entry))))
  | .findAgain r key now, sh =>
    match sh.entries.lookup key with
    | some _ => some (sh, .inl (.testAgain r key now))
    | none => some (sh, .inr (.inr (r.reply P now none)))
  | .testAgain r key now, sh =>
    (sh.entries.lookup key).map fun entry =>
      (sh, if isExpired entry now then .inl (.eraseAgain r key now) else .inr (.inr (r.reply P now none)))
  | .eraseAgain r key now, sh =>
    (sh.entries.lookup key).map fun _ => (sh.remove key, .inr (.inr (r.reply P now none)))
  | .delFind key now, sh =>
    match sh.entries.lookup key with
    | some _ => some (sh, .inl (.delTest key now))
    | none => some (sh, .inr (.inr (.flag false)))
  | .delTest key now, sh =>
    (sh.entries.lookup key).map fun entry => (sh, .inl (.delErase key !isExpired entry now))
  | .delErase key wasLive, sh =>
    (sh.entries.lookup key).map fun _ => (sh.remove key, .inr (.inr (.flag wasLive)))
  | .expireFind key seconds now, sh =>
    match sh.entries.lookup key with
    | some _ => some (sh, .inl (.expireTest key seconds now))
    | none => some (sh, .inr (.inr (.flag false)))
  | .expireTest key seconds now, sh =>
    (sh.entries.lookup key).map fun entry =>
      (sh, if isExpired entry now then .inl (.expireErase key)
        else .inl (.expireDeadline key (P.chrono.addSeconds now seconds)))
  | .expireErase key, sh =>
    (sh.entries.lookup key).map fun _ => (sh.remove key, .inr (.inr (.flag false)))
  | .expireDeadline key deadline, sh =>
    (sh.entries.lookup key).map fun entry =>
      (sh.put key { entry with deadline := some deadline }, .inl (.expireBump key deadline))
  | .expireBump key deadline, sh =>
    some ({ sh with nextGeneration := sh.nextGeneration + 1 },
      .inl (.expireGeneration key deadline (sh.nextGeneration + 1)))
  | .expireGeneration key deadline generation, sh =>
    (sh.entries.lookup key).map fun entry =>
      (sh.put key { entry with generation }, .inl (.expirePush key deadline))
  | .expirePush key deadline, sh =>
    (sh.entries.lookup key).map fun entry =>
      ({ sh with expirationHeap := P.heap.push ⟨deadline, entry.generation, key⟩ sh.expirationHeap },
        .inr (.inr (.flag true)))
  | .sweepTop m now shard removed processed, sh =>
    if processed < m then
      match P.heap.top? sh.expirationHeap with
      | none => some (sh, .inr (.inl (.sweeping m now (shard + 1) removed)))
      | some candidate =>
        if now < candidate.deadline then some (sh, .inr (.inl (.sweeping m now (shard + 1) removed)))
        else some (sh, .inl (.sweepFind m now shard removed processed))
    else some (sh, .inr (.inl (.sweeping m now (shard + 1) removed)))
  | .sweepFind m now shard removed processed, sh =>
    (P.heap.top? sh.expirationHeap).map fun candidate =>
      match sh.entries.lookup candidate.key with
      | some _ => (sh, .inl (.sweepTest m now shard removed processed))
      | none => (sh, .inl (.sweepPop m now shard removed processed))
  | .sweepTest m now shard removed processed, sh =>
    match P.heap.top? sh.expirationHeap with
    | none => none
    | some candidate =>
      (sh.entries.lookup candidate.key).map fun entry =>
        (sh, if Shard.matchesEntry candidate entry then .inl (.sweepErase m now shard removed processed)
          else .inl (.sweepPop m now shard removed processed))
  | .sweepErase m now shard removed processed, sh =>
    match P.heap.top? sh.expirationHeap with
    | none => none
    | some candidate =>
      (sh.entries.lookup candidate.key).map fun _ =>
        (sh.remove candidate.key, .inl (.sweepPop m now shard (removed + 1) processed))
  | .sweepPop m now shard removed processed, sh =>
    (P.heap.top? sh.expirationHeap).map fun _ =>
      ({ sh with expirationHeap := P.heap.pop sh.expirationHeap },
        .inl (.sweepTop m now shard removed (processed + 1)))

section
variable {P : Platform} {sh : Shard P} {key value : Bytes} {entry : Entry}

@[simp] theorem Shard.lookup_put (sh : Shard P) (key : Bytes) (entry : Entry) :
    (sh.put key entry).entries.lookup key = some entry := Finmap.lookup_insert _

@[simp] theorem Shard.put_put (sh : Shard P) (key : Bytes) (entry entry' : Entry) :
    (sh.put key entry).put key entry' = sh.put key entry' := by
  unfold Shard.put
  simp only [Finmap.insert_insert]

/-- From the second access on: the entry is there. -/
theorem completes_setValue (h : sh.entries.lookup key = some entry) :
    Completes Access.micro (.setValue key value) sh (sh.set key value) (.inr .done) := by
  refine .next (by rw [Access.micro, h]; rfl) ?_
  refine .next (by rw [Access.micro, Shard.lookup_put]; rfl) ?_
  refine .next rfl ?_
  refine .last ?_
  rw [Access.micro]
  simp [Shard.put, Shard.set, Finmap.insert_insert]

end

/-- The shard whose lock the operation takes next and the first access of the section; `none` for the clock
reading and for the count at the end of a sweep. -/
def Running.section {P : Platform} (st : Store P) : Running → Option (Nat × Access)
  | .called (.set key value) => some (st.shardIndex key, .setEntry key value)
  | .called _ => none
  | .reading r key now => some (st.shardIndex key, .find r key now)
  | .revalidating r key now => some (st.shardIndex key, .findAgain r key now)
  | .deleting key now => some (st.shardIndex key, .delFind key now)
  | .expiring key seconds now => some (st.shardIndex key, .expireFind key seconds now)
  | .sweeping m now shard removed =>
    if shard < st.shards.length then some (shard, .sweepTop m now shard removed 0) else none

/-- Where an operation stands. -/
inductive Stage where
  | waiting (r : Running)
  /-- It holds the lock of `shard`, alone or not; when nothing is left to access it releases it. -/
  | inside (r : Running) (exclusive : Bool) (shard : Nat) (rest : Access ⊕ Outcome)
deriving DecidableEq, Repr

def Stage.running : Stage → Running
  | .waiting r => r
  | .inside r _ _ _ => r

/-- The lock it holds: of which shard, and whether alone. -/
def Stage.lock : Stage → Option (Nat × Bool)
  | .waiting _ => none
  | .inside _ exclusive shard _ => some (shard, exclusive)

/-- The store with the locks of its shards. -/
structure LockedStore (P : Platform) where
  store : Store P
  locks : List RwLock
  clock : Int
  running : Finmap (fun _ : Nat => Stage) := ∅
  nextId : Nat := 0

namespace LockedStore
variable {P : Platform}

def start (store : Store P) (clock : Int) : LockedStore P where
  store
  locks := List.replicate store.shards.length .free
  clock

def lockOf (s : LockedStore P) (id : Nat) : Option (Nat × Bool) := (s.running.lookup id).bind Stage.lock

/-- The operation `id` goes on with `outcome`, or it is over and returns. -/
def resume (s : LockedStore P) (id : Nat) (r : Running) : Outcome → LockedStore P × List StoreEvent
  | .inl r' =>
    ({ s with running := s.running.insert id (.waiting r') }, if r.now?.isNone then [.sampled id s.clock] else [])
  | .inr reply => ({ s with running := s.running.erase id }, [.returned id s.clock r.op reply])

/-- An operation that holds no lock reads the clock, counts, or takes the next lock if it can. -/
def proceed (s : LockedStore P) (id : Nat) (r : Running) : Option (LockedStore P × List StoreEvent) :=
  match r.section s.store with
  | none => some ({ s with store := (r.advance s.store s.clock).1 }.resume id r (r.advance s.store s.clock).2)
  | some (shard, access) =>
    match s.locks[shard]?.bind (RwLock.acquire access.exclusive id) with
    | some lock =>
      some ({ s with
        locks := s.locks.set shard lock
        running := s.running.insert id (.inside r access.exclusive shard (.inl access)) }, [])
    | none => none

/-- One access to the shard whose lock the operation holds. -/
def access (s : LockedStore P) (id : Nat) (r : Running) (exclusive : Bool) (shard : Nat) (access : Access) :
    Option (LockedStore P × List StoreEvent) :=
  match s.store.shards[shard]?.bind access.micro with
  | some (sh, rest) =>
    some ({ s with
      store := s.store.putShardAt shard sh
      running := s.running.insert id (.inside r exclusive shard rest) }, [])
  | none => none

def release (s : LockedStore P) (id : Nat) (shard : Nat) : LockedStore P :=
  { s with locks := s.locks.modify shard (RwLock.release id) }

def step (s : LockedStore P) : StoreChoice → Option (LockedStore P × List StoreEvent)
  | .call op =>
    some ({ s with running := s.running.insert s.nextId (.waiting (.called op)), nextId := s.nextId + 1 },
      [.called s.nextId s.clock op])
  | .advance id =>
    match s.running.lookup id with
    | none => none
    | some (.waiting r) => s.proceed id r
    | some (.inside r exclusive shard (.inl next)) => s.access id r exclusive shard next
    | some (.inside r _ shard (.inr outcome)) => some ((s.release id shard).resume id r outcome)
  | .tick clock => if s.clock ≤ clock then some ({ s with clock }, []) else none

end LockedStore

/-! ### What a section does if nobody interferes -/

section
variable {P : Platform} {sh : Shard P} {key value : Bytes} {now seconds clock : Int} {entry : Entry}

theorem completes_set (sh : Shard P) (key value : Bytes) :
    Completes Access.micro (.setEntry key value) sh (sh.set key value) (.inr .done) := by
  cases h : sh.entries.lookup key with
  | some entry => exact .next (by rw [Access.micro, h]) (completes_setValue h)
  | none =>
    have hset : (sh.put key .fresh).set key value = sh.set key value := by
      simp [Shard.put, Shard.set, Finmap.insert_insert]
    refine .next (by rw [Access.micro, h]) ?_
    rw [← hset]
    exact completes_setValue (sh.lookup_put key .fresh)

/-- What the shared-lock section of `read_live` leaves its operation with. -/
def ReadOp.outcome (P : Platform) (r : ReadOp) (key : Bytes) (now : Int) : Found → Outcome
  | .live entry => .inr (r.reply P now (some entry))
  | .missing => .inr (r.reply P now none)
  | .expired => .inl (.revalidating r key now)

theorem completes_find (sh : Shard P) (r : ReadOp) (key : Bytes) (now : Int) :
    Completes Access.micro (.find r key now) sh sh (r.outcome P key now (sh.find now key)) := by
  unfold Shard.find
  cases h : sh.entries.lookup key with
  | none => exact .last (by rw [Access.micro, h]; rfl)
  | some entry =>
    refine .next (by rw [Access.micro, h]) ?_
    dsimp only
    split_ifs with hexpired
    · exact .last (by rw [Access.micro, h, Option.map_some, if_pos hexpired]; rfl)
    · refine .next (by rw [Access.micro, h, Option.map_some, if_neg hexpired]) ?_
      exact .last (by rw [Access.micro, h]; rfl)

theorem completes_findAgain (sh : Shard P) (r : ReadOp) (key : Bytes) (now : Int) :
    Completes Access.micro (.findAgain r key now) sh (sh.eraseExpired now key) (.inr (r.reply P now none)) := by
  unfold Shard.eraseExpired
  cases h : sh.entries.lookup key with
  | none => exact .last (by rw [Access.micro, h])
  | some entry =>
    refine .next (by rw [Access.micro, h]) ?_
    dsimp only
    split_ifs with hexpired
    · refine .next (by rw [Access.micro, h, Option.map_some, if_pos hexpired]) ?_
      exact .last (by rw [Access.micro, h]; rfl)
    · exact .last (by rw [Access.micro, h, Option.map_some, if_neg hexpired])

theorem completes_del (sh : Shard P) (key : Bytes) (now : Int) :
    Completes Access.micro (.delFind key now) sh (sh.del now key).1 (.inr (.flag (sh.del now key).2)) := by
  unfold Shard.del
  cases h : sh.entries.lookup key with
  | none => exact .last (by rw [Access.micro, h])
  | some entry =>
    refine .next (by rw [Access.micro, h]) ?_
    refine .next (by rw [Access.micro, h]; rfl) ?_
    exact .last (by rw [Access.micro, h]; rfl)

theorem completes_expire (sh : Shard P) (key : Bytes) (seconds now : Int) :
    Completes Access.micro (.expireFind key seconds now) sh (sh.expire now key seconds).1
      (.inr (.flag (sh.expire now key seconds).2)) := by
  unfold Shard.expire
  cases h : sh.entries.lookup key with
  | none => exact .last (by rw [Access.micro, h])
  | some entry =>
    refine .next (by rw [Access.micro, h]) ?_
    dsimp only
    split_ifs with hexpired
    · refine .next (by rw [Access.micro, h, Option.map_some, if_pos hexpired]) ?_
      exact .last (by rw [Access.micro, h]; rfl)
    · refine .next (by rw [Access.micro, h, Option.map_some, if_neg hexpired]) ?_
      refine .next (by rw [Access.micro, h]; rfl) ?_
      refine .next rfl ?_
      refine .next (by rw [Access.micro]; simp only [Shard.put, Finmap.lookup_insert]; rfl) ?_
      refine .last ?_
      rw [Access.micro]
      simp [Finmap.insert_insert]

theorem completes_sweep (m : Nat) (now : Int) (shard removed budget processed acc : Nat) (sh : Shard P)
    (hbudget : processed + budget = m) :
    Completes Access.micro (.sweepTop m now shard (removed + acc) processed) sh (Shard.sweepLoop now budget sh acc).1
      (.inl (.sweeping m now (shard + 1) (removed + (Shard.sweepLoop now budget sh acc).2))) := by
  induction budget generalizing processed acc sh with
  | zero => exact .last (by rw [Access.micro, if_neg (by omega)]; rfl)
  | succ budget ih =>
    have hlt : processed < m := by omega
    unfold Shard.sweepLoop
    cases htop : P.heap.top? sh.expirationHeap with
    | none => exact .last (by rw [Access.micro, if_pos hlt, htop])
    | some candidate =>
      dsimp only
      split_ifs with hdue
      · exact .last (by rw [Access.micro, if_pos hlt, htop]; exact if_pos hdue)
      · have hpop : ∀ (acc : Nat) (sh : Shard P), P.heap.top? sh.expirationHeap = some candidate →
            Completes Access.micro (.sweepPop m now shard (removed + acc) processed) sh
              (Shard.sweepLoop now budget { sh with expirationHeap := P.heap.pop sh.expirationHeap } acc).1
              (.inl (.sweeping m now (shard + 1) (removed +
                (Shard.sweepLoop now budget { sh with expirationHeap := P.heap.pop sh.expirationHeap } acc).2))) := by
          intro acc sh htop
          refine .next (by rw [Access.micro, htop]; rfl) ?_
          exact ih (processed + 1) acc _ (by omega)
        refine .next (by rw [Access.micro, if_pos hlt, htop]; exact if_neg hdue) ?_
        cases hentry : sh.entries.lookup candidate.key with
        | none =>
          refine .next (by rw [Access.micro, htop, Option.map_some, hentry]) ?_
          exact hpop acc sh htop
        | some entry =>
          refine .next (by rw [Access.micro, htop, Option.map_some, hentry]) ?_
          dsimp only
          split_ifs with hmatch
          · refine .next (by rw [Access.micro, htop]; dsimp only; rw [hentry, Option.map_some, if_pos hmatch]) ?_
            refine .next (by rw [Access.micro, htop]; dsimp only; rw [hentry]; rfl) ?_
            exact hpop (acc + 1) (sh.remove candidate.key) htop
          · refine .next (by rw [Access.micro, htop]; dsimp only; rw [hentry, Option.map_some, if_neg hmatch]) ?_
            exact hpop acc sh htop

variable {st : Store P} {i : Nat} {r : Running} {a : Access}

/-- A section that nobody interferes with is the step of `ConcurrentStore`. -/
theorem Running.completes_section (hsection : r.section st = some (i, a)) (hi : st.shards[i]? = some sh) :
    ∃ sh' out, Completes Access.micro a sh sh' out ∧ ∀ clock, r.advance st clock = (st.putShardAt i sh', out) := by
  cases r with
  | called op =>
    cases op with
    | set key value =>
      cases hsection
      refine ⟨_, _, completes_set sh key value, fun clock => ?_⟩
      rw [← Store.shardFor_of_getElem? hi rfl]; rfl
    | _ => cases hsection
  | reading r key now =>
    cases hsection
    refine ⟨_, _, completes_find sh r key now, fun clock => ?_⟩
    rw [Store.putShardAt_self hi, Running.advance, Store.shardFor_of_getElem? hi rfl]
    cases sh.find now key <;> rfl
  | revalidating r key now =>
    cases hsection
    refine ⟨_, _, completes_findAgain sh r key now, fun clock => ?_⟩
    rw [← Store.shardFor_of_getElem? hi rfl]; rfl
  | deleting key now =>
    cases hsection
    refine ⟨_, _, completes_del sh key now, fun clock => ?_⟩
    rw [← Store.shardFor_of_getElem? hi rfl]; rfl
  | expiring key seconds now =>
    cases hsection
    refine ⟨_, _, completes_expire sh key seconds now, fun clock => ?_⟩
    rw [← Store.shardFor_of_getElem? hi rfl]; rfl
  | sweeping m now shard removed =>
    unfold Running.section at hsection
    dsimp only at hsection
    split_ifs at hsection
    cases hsection
    refine ⟨_, _, completes_sweep m now i removed m 0 0 sh (Nat.zero_add m), fun clock => ?_⟩
    rw [Running.advance, hi]
    rfl

theorem Access.micro_shared {sh' : Shard P} {rest : Access ⊕ Outcome} (hshared : a.exclusive = false)
    (h : a.micro sh = some (sh', rest)) : sh' = sh ∧ ∀ a', rest = .inl a' → a'.exclusive = false := by
  cases a with
  | find r key now =>
    rw [Access.micro] at h
    cases hentry : sh.entries.lookup key with
    | some entry =>
      rw [hentry] at h; cases h
      exact ⟨rfl, fun a' ha' => by cases ha'; rfl⟩
    | none =>
      rw [hentry] at h; cases h
      exact ⟨rfl, fun a' ha' => by cases ha'⟩
  | test r key now =>
    obtain ⟨entry, -, heq⟩ := Option.map_eq_some_iff.mp h
    obtain ⟨rfl, hrest⟩ := Prod.mk.inj heq
    refine ⟨rfl, fun a' ha' => ?_⟩
    rw [ha'] at hrest
    split_ifs at hrest
    cases hrest; rfl
  | onLive r key now =>
    obtain ⟨entry, -, heq⟩ := Option.map_eq_some_iff.mp h
    cases heq
    exact ⟨rfl, fun a' ha' => by cases ha'⟩
  | _ => cases hshared

theorem Running.section_congr {st' : Store P} (h : st'.shards.length = st.shards.length) (r : Running) :
    r.section st' = r.section st := by
  have hindex : ∀ key, st'.shardIndex key = st.shardIndex key := by
    intro key
    unfold Store.shardIndex
    rw [h]
  cases r with
  | called op =>
    cases op with
    | set key value => unfold Running.section; dsimp only; rw [hindex]
    | _ => rfl
  | sweeping m now shard removed => unfold Running.section; dsimp only; rw [h]
  | _ => unfold Running.section; dsimp only; rw [hindex]

theorem Running.section_lt (h : r.section st = some (i, a)) : i < st.shards.length := by
  cases r with
  | called op =>
    cases op with
    | set key value => cases h; exact st.shardIndex_lt key
    | _ => cases h
  | sweeping m now shard removed =>
    unfold Running.section at h
    dsimp only at h
    split_ifs at h with hlt
    cases h; exact hlt
  | _ => cases h; exact st.shardIndex_lt _

/-- What is done without a lock touches no shard: the clock reading, or the count at the end of a sweep. -/
theorem Running.advance_of_section_none (h : r.section st = none) (clock : Int) :
    ∃ (count : Nat) (out : Outcome), ∀ st' : Store P, st'.shards.length = st.shards.length →
      r.advance st' clock = ({ st' with activeExpirations := st'.activeExpirations + count }, out) := by
  cases r with
  | called op =>
    cases op with
    | set key value => cases h
    | _ => exact ⟨0, _, fun st' _ => rfl⟩
  | sweeping m now shard removed =>
    unfold Running.section at h
    dsimp only at h
    split_ifs at h with hlt
    refine ⟨removed, .inr .done, fun st' hlength => ?_⟩
    have hnone : st'.shards[shard]? = none := List.getElem?_eq_none (by omega)
    rw [Running.advance, hnone]
  | _ => cases h

end
end KvStore
