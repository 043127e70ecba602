import KvStore.ConcurrentStore

/-!
# Stale clock readings

Every operation works with a clock value it has read before it got its lock. `EntryChange` lists what one
step can do to the entry under a key. Removing an entry on a stale reading is harmless, since what has expired
at an earlier reading has expired now (`cleanup_keeps_live`). Setting a deadline from a stale reading is not:
`EXPIRE` counts the seconds from its reading, and that may lie before the `SET` it applies to (`ttl_kept`,
`ttl_shortened`).
-/

namespace KvStore
open ByteString ExpiringMap

section
variable {P : Platform} {st : Store P} {clock now t : Int} {key k : Bytes} {e : Entry}

theorem isExpired_mono (hle : now ≤ t) (h : isExpired e now = true) : isExpired e t = true := by
  rcases e with ⟨v, _ | d, g⟩
  · cases h
  · simp only [isExpired, decide_eq_true_eq] at h ⊢; omega

/-- What the store holds under a key, live or not. -/
def Store.entryAt (st : Store P) (k : Bytes) : Option Entry := (st.shardFor k).entries.lookup k

/-- What a step of the operation `r` with the outcome `out` may do to the entry under `k`; `t` is the time of
the step. -/
inductive EntryChange (P : Platform) (t : Int) (k : Bytes) :
    Running → Running ⊕ StoreReply → Option Entry → Option Entry → Prop
  | same {r : Running} {out : Running ⊕ StoreReply} {o : Option Entry} : EntryChange P t k r out o o
  | cleaned {r : Running} {out : Running ⊕ StoreReply} {e : Entry} :
      isExpired e t = true → EntryChange P t k r out (some e) none
  | written {v : Bytes} {g : Nat} {o : Option Entry} :
      EntryChange P t k (.called (.set k v)) (.inr .done) o (some ⟨v, none, g⟩)
  | deleted {now : Int} {e : Entry} :
      EntryChange P t k (.deleting k now) (.inr (.flag true)) (some e) none
  | rescheduled {seconds now : Int} {e : Entry} {g : Nat} : isExpired e now = false →
      EntryChange P t k (.expiring k seconds now) (.inr (.flag true)) (some e)
        (some { e with deadline := some (P.chrono.addSeconds now seconds), generation := g })

theorem Shard.erase_change {r : Running} {out : Running ⊕ StoreReply} {sh : Shard P} {key : Bytes} {e : Entry}
    (hl : sh.entries.lookup key = some e) (hexp : isExpired e now = true) (hle : now ≤ t) (k : Bytes) :
    EntryChange P t k r out (sh.entries.lookup k) ((sh.entries.erase key).lookup k) := by
  rw [Finmap.lookup_erase_ite]
  split_ifs with hk
  · rw [hk, hl]; exact .cleaned (isExpired_mono hle hexp)
  · exact .same

theorem Shard.eraseExpired_change {r : Running} {out : Running ⊕ StoreReply} (sh : Shard P) (hle : now ≤ t)
    (key k : Bytes) :
    EntryChange P t k r out (sh.entries.lookup k) ((sh.eraseExpired now key).entries.lookup k) := by
  unfold Shard.eraseExpired
  cases hl : sh.entries.lookup key with
  | none => exact .same
  | some e =>
    dsimp only
    split_ifs with hexp
    · exact erase_change hl hexp hle k
    · exact .same

theorem Shard.sweep_change {r : Running} {out : Running ⊕ StoreReply} (sh : Shard P) (hle : now ≤ t) (m : Nat)
    (k : Bytes) : EntryChange P t k r out (sh.entries.lookup k) ((sh.sweep now m).1.entries.lookup k) := by
  have hsweep : (sh.sweep now m).1.entries.lookup k = sh.entries.lookup k ∨
      (sh.sweep now m).1.entries.lookup k = none ∧ ∃ e, sh.entries.lookup k = some e ∧ isExpired e t = true := by
    refine sweepLoop_induction (motive := fun sh' => sh'.entries.lookup k = sh.entries.lookup k ∨
      sh'.entries.lookup k = none ∧ ∃ e, sh.entries.lookup k = some e ∧ isExpired e t = true)
      (fun _ _ _ _ _ h => h) (fun sh' c e _ hdue hl hm h => ?_) m 0 sh (.inl rfl)
    rw [Finmap.lookup_erase_ite]
    split_ifs with hk
    · rw [← hk] at hl
      rcases h with h | ⟨hnone, -⟩
      · exact .inr ⟨rfl, e, h ▸ hl, isExpired_mono hle (isExpired_of_matchesEntry hm hdue)⟩
      · rw [hl] at hnone; cases hnone
    · exact h
  rcases hsweep with h | ⟨hnone, e, he, hexp⟩
  · rw [h]; exact .same
  · rw [hnone, he]; exact .cleaned hexp

theorem Store.entryAt_putShardAt {i : Nat} {sh sh' : Shard P} (hi : st.shards[i]? = some sh) {r : Running}
    {out : Running ⊕ StoreReply} (h : EntryChange P t k r out (sh.entries.lookup k) (sh'.entries.lookup k)) :
    EntryChange P t k r out (st.entryAt k) ((st.putShardAt i sh').entryAt k) := by
  unfold Store.entryAt
  rw [shardFor_putShardAt]
  split_ifs with hk
  · rw [shardFor_of_getElem? hi hk]; exact h
  · exact .same

theorem Store.entryAt_putShard {sh : Shard P} {r : Running} {out : Running ⊕ StoreReply}
    (h : EntryChange P t k r out ((st.shardFor key).entries.lookup k) (sh.entries.lookup k)) :
    EntryChange P t k r out (st.entryAt k) ((st.putShard key sh).entryAt k) :=
  entryAt_putShardAt (List.getElem?_eq_getElem (st.shardIndex_lt key)) h

theorem Shard.set_change (sh : Shard P) (key value k : Bytes) :
    EntryChange P t k (.called (.set key value)) (.inr .done) (sh.entries.lookup k)
      ((sh.set key value).entries.lookup k) := by
  unfold Shard.set
  dsimp only
  rw [Finmap.lookup_insert_ite]
  split_ifs with hk
  · subst hk; exact .written
  · exact .same

theorem Shard.del_change (sh : Shard P) (hle : now ≤ t) (key k : Bytes) :
    EntryChange P t k (.deleting key now) (.inr (.flag (sh.del now key).2)) (sh.entries.lookup k)
      ((sh.del now key).1.entries.lookup k) := by
  unfold Shard.del
  cases hl : sh.entries.lookup key with
  | none => exact .same
  | some e =>
    dsimp only
    rw [Finmap.lookup_erase_ite]
    split_ifs with hk
    · subst hk
      rw [hl]
      cases hexp : isExpired e now with
      | false => exact .deleted
      | true => exact .cleaned (isExpired_mono hle hexp)
    · exact .same

theorem Shard.expire_change (sh : Shard P) (hle : now ≤ t) (key k : Bytes) (s : Int) :
    EntryChange P t k (.expiring key s now) (.inr (.flag (sh.expire now key s).2)) (sh.entries.lookup k)
      ((sh.expire now key s).1.entries.lookup k) := by
  unfold Shard.expire
  cases hl : sh.entries.lookup key with
  | none => exact .same
  | some e =>
    dsimp only
    split_ifs with hexp
    · exact erase_change hl hexp hle k
    · dsimp only
      rw [Finmap.lookup_insert_ite]
      split_ifs with hk
      · subst hk
        rw [hl]
        exact .rescheduled (Bool.eq_false_iff.mpr hexp)
      · exact .same

theorem Running.advance_change (r : Running) (hle : ∀ now, r.now? = some now → now ≤ t) (k : Bytes) :
    EntryChange P t k r (r.advance st clock).2 (st.entryAt k) ((r.advance st clock).1.entryAt k) := by
  cases r with
  | called op =>
    cases op with
    | set key value => exact Store.entryAt_putShard (Shard.set_change ..)
    | _ => exact .same
  | reading r key now =>
    unfold Running.advance
    dsimp only
    split <;> exact .same
  | revalidating r key now => exact Store.entryAt_putShard (Shard.eraseExpired_change _ (hle now rfl) ..)
  | deleting key now => exact Store.entryAt_putShard (Shard.del_change _ (hle now rfl) ..)
  | expiring key s now => exact Store.entryAt_putShard (Shard.expire_change _ (hle now rfl) ..)
  | sweeping m now i removed =>
    simp only [Running.advance]
    cases hi : st.shards[i]? with
    | some sh => exact Store.entryAt_putShardAt hi (Shard.sweep_change sh (hle now rfl) m k)
    | none => exact .same

theorem Running.change_of_advance {r : Running} {st' : Store P} {out : Running ⊕ StoreReply}
    (h : r.advance st clock = (st', out)) (hle : ∀ now, r.now? = some now → now ≤ t) (k : Bytes) :
    EntryChange P t k r out (st.entryAt k) (st'.entryAt k) := by
  have hchange : EntryChange P t k r (r.advance st clock).2 (st.entryAt k) ((r.advance st clock).1.entryAt k) :=
    r.advance_change hle k
  rwa [h] at hchange

end

/-! ### Clock readings along a run -/

theorem Running.advance_inl {P : Platform} {st st' : Store P} {clock : Int} {r r' : Running}
    (h : r.advance st clock = (st', .inl r')) : r'.op = r.op ∧ r'.now? = some (r.now?.getD clock) := by
  cases r with
  | called op => cases op <;> cases h <;> exact ⟨rfl, rfl⟩
  | reading rd key now =>
    simp only [Running.advance] at h
    split at h <;> cases h
    exact ⟨rfl, rfl⟩
  | revalidating rd key now => cases h
  | deleting key now => cases h
  | expiring key seconds now => cases h
  | sweeping m now i removed =>
    simp only [Running.advance] at h
    split at h <;> cases h
    exact ⟨rfl, rfl⟩

namespace ConcurrentStore
variable {P : Platform} {s s' : ConcurrentStore P} {log evs : List StoreEvent} {id : Nat} {r : Running}

/-- What a step of the threads can be. -/
inductive Moved (s : ConcurrentStore P) : List StoreEvent → ConcurrentStore P → Prop
  | call (op : StoreOp) : Moved s [.called s.nextId s.clock op]
      { s with running := s.running.insert s.nextId (.called op), nextId := s.nextId + 1 }
  | goOn {id : Nat} {r r' : Running} {store : Store P} : s.running.lookup id = some r →
      r.advance s.store s.clock = (store, .inl r') →
      Moved s (if r.now?.isNone then [.sampled id s.clock] else [])
        { s with store, running := s.running.insert id r' }
  | ended {id : Nat} {r : Running} {store : Store P} {reply : StoreReply} : s.running.lookup id = some r →
      r.advance s.store s.clock = (store, .inr reply) →
      Moved s [.returned id s.clock r.op reply] { s with store, running := s.running.erase id }
  | tick {clock : Int} : s.clock ≤ clock → Moved s [] { s with clock }

theorem moved_of_step (h : Transition.Step step s evs s') : Moved s evs s' := by
  obtain ⟨choice, hc⟩ := h
  cases choice with
  | call op => cases hc; exact .call op
  | advance id =>
    obtain ⟨r, hl, hadv⟩ := Option.map_eq_some_iff.mp hc
    unfold advance at hadv
    split at hadv
    · rename_i store r' heq
      cases hadv
      exact .goOn hl heq
    · rename_i store reply heq
      cases hadv
      exact .ended hl heq
  | tick clock =>
    simp only [step] at hc
    split_ifs at hc with hle
    cases hc
    exact .tick hle

/-- Operations in progress have numbers that were given out, and clock readings that are not in the future. -/
structure ReadingsInv (log : List StoreEvent) (s : ConcurrentStore P) : Prop where
  running_lt : ∀ id r, s.running.lookup id = some r → id < s.nextId
  past : ∀ id r now, s.running.lookup id = some r → r.now? = some now → now ≤ s.clock
  /-- The reading is the one the log shows. -/
  logged : ∀ id r now, s.running.lookup id = some r → .sampled id now ∈ log → r.now? = some now
  logged_lt : ∀ id now, .sampled id now ∈ log → id < s.nextId

theorem ReadingsInv.start (st : Store P) (clock : Int) : ReadingsInv [] ⟨st, clock, ∅, 0⟩ where
  running_lt id r hl := by cases hl
  past id r now hl := by cases hl
  logged id r now hl := by cases hl
  logged_lt id now hmem := by cases hmem

theorem ReadingsInv.step (h : ReadingsInv log s) (hstep : Moved s evs s') : ReadingsInv (log ++ evs) s' := by
  cases hstep with
  | call op =>
    have hlogged : ∀ {id now}, StoreEvent.sampled id now ∈ log ++ [.called s.nextId s.clock op] →
        .sampled id now ∈ log := fun hmem => by simpa using hmem
    refine ⟨fun id r hl => ?_, fun id r now hl hnow => ?_, fun id r now hl hmem => ?_,
      fun id now hmem => Nat.lt_succ_of_lt (h.logged_lt id now (hlogged hmem))⟩
    all_goals rcases Finmap.lookup_insert_eq_some hl with ⟨rfl, rfl⟩ | ⟨-, hl⟩
    · exact Nat.lt_succ_self _
    · exact Nat.lt_succ_of_lt (h.running_lt id r hl)
    · cases hnow
    · exact h.past id r now hl hnow
    · exact absurd (h.logged_lt _ now (hlogged hmem)) (Nat.lt_irrefl _)
    · exact h.logged id r now hl (hlogged hmem)
  | @goOn id r r' store hl hadv =>
    obtain ⟨-, hnow⟩ := Running.advance_inl hadv
    have hevs : ∀ {id' now}, StoreEvent.sampled id' now ∈ log ++ (if r.now?.isNone then [.sampled id s.clock] else []) →
        .sampled id' now ∈ log ∨ id' = id ∧ now = s.clock ∧ r.now? = none := fun {id' now} hmem => by
      rcases List.mem_append.mp hmem with hmem | hmem
      · exact .inl hmem
      · split_ifs at hmem with hnone
        · cases List.mem_singleton.mp hmem
          exact .inr ⟨rfl, rfl, Option.isNone_iff_eq_none.mp hnone⟩
        · cases hmem
    refine ⟨fun id' r₁ hl' => ?_, fun id' r₁ now hl' hnow' => ?_, fun id' r₁ now hl' hmem => ?_,
      fun id' now hmem => ?_⟩
    · rcases Finmap.lookup_insert_eq_some hl' with ⟨rfl, rfl⟩ | ⟨-, hl'⟩
      · exact h.running_lt _ r hl
      · exact h.running_lt id' r₁ hl'
    · rcases Finmap.lookup_insert_eq_some hl' with ⟨rfl, rfl⟩ | ⟨-, hl'⟩
      · rw [hnow] at hnow'
        cases hr : r.now? with
        | none => rw [hr] at hnow'; cases hnow'; exact le_rfl
        | some now₀ => rw [hr] at hnow'; cases hnow'; exact h.past _ r _ hl hr
      · exact h.past id' r₁ now hl' hnow'
    · rcases Finmap.lookup_insert_eq_some hl' with ⟨rfl, rfl⟩ | ⟨hne, hl'⟩
      · rcases hevs hmem with hmem | ⟨-, rfl, hr⟩
        · rw [hnow, h.logged _ r now hl hmem]; rfl
        · rw [hnow, hr]; rfl
      · rcases hevs hmem with hmem | ⟨rfl, -⟩
        · exact h.logged id' r₁ now hl' hmem
        · exact absurd rfl hne
    · rcases hevs hmem with hmem | ⟨rfl, -⟩
      · exact h.logged_lt id' now hmem
      · exact h.running_lt _ r hl
  | @ended id₀ r₀ store reply hl hadv =>
    have hlogged : ∀ {id now}, StoreEvent.sampled id now ∈ log ++ [.returned id₀ s.clock r₀.op reply] →
        .sampled id now ∈ log := fun hmem => by simpa using hmem
    exact ⟨fun id r hl => h.running_lt id r (Finmap.lookup_erase_eq_some hl).2,
      fun id r now hl => h.past id r now (Finmap.lookup_erase_eq_some hl).2,
      fun id r now hl hmem => h.logged id r now (Finmap.lookup_erase_eq_some hl).2 (hlogged hmem),
      fun id now hmem => h.logged_lt id now (hlogged hmem)⟩
  | tick hle =>
    rw [List.append_nil]
    exact ⟨h.running_lt, fun id r now hl hnow => (h.past id r now hl hnow).trans hle, h.logged, h.logged_lt⟩

theorem Run.readingsInv {st : Store P} {clock : Int} (h : Run ⟨st, clock, ∅, 0⟩ log s) : ReadingsInv log s :=
  h.invariant (.start st clock) fun _ _ _ _ hinv hstep => hinv.step (moved_of_step hstep)

end ConcurrentStore

/-! ### Cleaning up -/

/-- The operations that remove expired entries on the way. -/
def StoreOp.cleans : StoreOp → Bool
  | .get _ | .exists_ _ | .ttl _ | .expire _ _ | .sweepExpired _ => true
  | .set _ _ | .del _ => false

/-- Whatever the threads did before and however far the clock went on since an operation read it: its next
step leaves every entry that is live at this moment where it is; only `expire` may touch it, and then gives it
a new deadline. -/
theorem cleanup_keeps_live (P : Platform) (st : Store P) (clock : Int) (log : List StoreEvent)
    (s : ConcurrentStore P) (hrun : ConcurrentStore.Run ⟨st, clock, ∅, 0⟩ log s) (id : Nat) (r : Running)
    (hr : s.running.lookup id = some r) (hclean : r.op.cleans = true) (k : Bytes) (e : Entry)
    (he : s.store.entryAt k = some e) (hlive : isExpired e s.clock = false) :
    ∃ e', (s.advance id r).1.store.entryAt k = some e' ∧ e'.value = e.value ∧
      (e' = e ∨ ∃ seconds, r.op = .expire k seconds) := by
  obtain ⟨store, out, hadv⟩ : ∃ store out, r.advance s.store s.clock = (store, out) := ⟨_, _, rfl⟩
  have hchange := Running.change_of_advance hadv (fun now hnow => hrun.readingsInv.past id r now hr hnow) k
  have hstore : (s.advance id r).1.store = store := by
    unfold ConcurrentStore.advance
    rw [hadv]
    cases out <;> rfl
  rw [hstore]
  rw [he] at hchange
  generalize store.entryAt k = after at hchange
  cases hchange with
  | same => exact ⟨e, rfl, rfl, .inl rfl⟩
  | cleaned hexp => rw [hexp] at hlive; cases hlive
  | written => cases hclean
  | deleted => cases hclean
  | rescheduled => exact ⟨_, rfl, rfl, .inr ⟨_, rfl⟩⟩

/-- A `get` decides at reading 1 s that `k` has expired; the key is set again before it gets the lock. -/
def staleDecision : List StoreChoice :=
  [.call (.set (ascii "k") (ascii "v")), .advance 0, .call (.expire (ascii "k") 1), .advance 1, .advance 1,
    .tick 1000000000, .call (.get (ascii "k")), .advance 2, .advance 2, .tick 5000000000,
    .call (.set (ascii "k") (ascii "w")), .advance 3]

def raceStart : ConcurrentStore (.reference .exact) := ⟨Store.small, 0, ∅, 0⟩

theorem staleDecision_isSome : (Transition.run ConcurrentStore.step raceStart staleDecision).isSome = true := by
  decide +kernel

theorem cleanup_keeps_live_stale :
    let s := ((Transition.run ConcurrentStore.step raceStart staleDecision).get staleDecision_isSome).1
    ∃ e', (s.advance 2 (.revalidating .get (ascii "k") 1000000000)).1.store.entryAt (ascii "k") = some e' ∧
      e'.value = ascii "w" ∧
      (e' = ⟨ascii "w", none, 3⟩ ∨
        ∃ seconds, (Running.revalidating .get (ascii "k") 1000000000).op = .expire (ascii "k") seconds) :=
  cleanup_keeps_live (.reference .exact) (Store.ofCount _ ⟨2, 1, rfl⟩) 0 _ _
    (Transition.exec_of_isSome staleDecision_isSome) 2 (.revalidating .get (ascii "k") 1000000000)
    (by decide +kernel) rfl (ascii "k") ⟨ascii "w", none, 3⟩ (by decide +kernel) (by decide +kernel)

/-! ### Deadlines from stale readings -/

/-- The operation has changed what is stored under `k`; `del` and `expire` that answer `false` have not. -/
def StoreEvent.writes (k : Bytes) : StoreEvent → Bool
  | .returned _ _ op reply => op.writes k && reply ≠ .flag false
  | _ => false

/-- The deadline of `expire` does not overflow the clock's range. -/
def DeadlineFits (P : Platform) (now seconds : Int) : Prop :=
  P.chrono = .exact ∨ P.chrono = .int64 ∧ 0 ≤ now ∧ now + seconds * nanosPerSecond < 2 ^ 63

/-- A key was set at `t₀` and given `seconds`: `rest` is what happens after the `set`, `post` what happens
after the `expire`. No read of the key that is called later and is over before the `seconds` are misses it, and
no `ttl` called after the `expire` answers more. -/
structure TtlKept (k : Bytes) (t₀ seconds : Int) (rest post : List StoreEvent) : Prop where
  get_finds : ∀ id c t, .called id c (.get k) ∈ rest → .returned id t (.get k) (.value none) ∈ rest →
    t₀ + seconds * nanosPerSecond ≤ t
  exists_finds : ∀ id c t, .called id c (.exists_ k) ∈ rest → .returned id t (.exists_ k) (.flag false) ∈ rest →
    t₀ + seconds * nanosPerSecond ≤ t
  ttl_le : ∀ id c t left, .called id c (.ttl k) ∈ post →
    .returned id t (.ttl k) (.remaining (.kHasTtl left)) ∈ post → left ≤ seconds

section
variable {P : Platform} {st st' : Store P} {clock now t τ : Int} {k : Bytes} {c : Cell Bytes} {N : Nat}
  {log evs : List StoreEvent} {s s' : ConcurrentStore P} {r r' : Running} {rd : ReadOp} {reply : StoreReply}

theorem Cell.not_live_mono (hle : now ≤ t) (h : Cell.live now c = false) : Cell.live t c = false :=
  Bool.eq_false_iff.mpr fun ht => Bool.eq_false_iff.mp h (Cell.live_of_le hle ht)

theorem ReadOp.op_inj {rd' : ReadOp} {key : Bytes} (h : rd'.op key = rd.op k) : rd' = rd ∧ key = k := by
  cases rd' <;> cases rd <;> cases h <;> exact ⟨rfl, rfl⟩

theorem ReadOp.reply_some_ne (rd : ReadOp) (now t : Int) (e : Entry) :
    rd.reply P now (some e) ≠ rd.reply P t none := by
  rcases e with ⟨v, _ | d, g⟩ <;> cases rd <;> simp [ReadOp.reply, Store.ttlOf]

/-- What the shared-lock section hands out is what a reader sees at its clock value. -/
theorem Store.found_cell (st : Store P) (now : Int) (key : Bytes) :
    ((st.shardFor key).readLive now key).2.map Entry.cell = st.liveAt now key :=
  Shard.readLive_result

/-- A read only goes on to its exclusive section if there is nothing live to see. -/
theorem Running.revalidating_of_advance (h : r.advance st clock = (st', .inl (.revalidating rd k now))) :
    r = .reading rd k now ∧ st.liveAt now k = none := by
  cases r with
  | called op => cases op <;> cases h
  | reading rd' key now' =>
    have hfound := Store.found_cell st now' key
    simp only [Running.advance] at h
    unfold Shard.readLive at hfound
    split at h <;> cases h
    rename_i hf
    rw [hf] at hfound
    exact ⟨rfl, hfound.symm⟩
  | sweeping m now' i removed =>
    simp only [Running.advance] at h
    split at h <;> cases h
  | _ => cases h

theorem Running.read_of_advance (h : r.advance st clock = (st', .inr reply)) (hop : r.op = rd.op k) :
    (∃ now found, r = .reading rd k now ∧ found.map Entry.cell = st.liveAt now k ∧ reply = rd.reply P now found) ∨
      ∃ now, r = .revalidating rd k now ∧ reply = rd.reply P now none := by
  cases r with
  | called op =>
    cases op <;> cases h
    cases rd <;> cases hop
  | reading rd' key now =>
    obtain ⟨rfl, rfl⟩ := ReadOp.op_inj hop
    have hfound := Store.found_cell st now key
    simp only [Running.advance] at h
    unfold Shard.readLive at hfound
    split at h <;> cases h
    all_goals
      rename_i hf
      rw [hf] at hfound
      exact .inl ⟨now, _, rfl, hfound, rfl⟩
  | revalidating rd' key now =>
    obtain ⟨rfl, rfl⟩ := ReadOp.op_inj hop
    cases h
    exact .inr ⟨now, rfl, rfl⟩
  | _ => cases rd <;> cases hop

/-- After a write that left the cell `c` under `k`, as long as nothing else is written there. `N` and `τ` are
the number and the time from which on operations are called. -/
structure KeyInv (N : Nat) (τ : Int) (k : Bytes) (c : Cell Bytes) (log : List StoreEvent) (s : ConcurrentStore P) :
    Prop where
  next_le : N ≤ s.nextId
  clock_le : τ ≤ s.clock
  past : ∀ id r now, s.running.lookup id = some r → r.now? = some now → now ≤ s.clock ∧ (N ≤ id → τ ≤ now)
  /-- The cell is there, or it was removed after its deadline. -/
  cell : s.store.cellAt k = some c ∨ s.store.cellAt k = none ∧ Cell.live s.clock c = false
  waiting : ∀ id rd now, N ≤ id → s.running.lookup id = some (.revalidating rd k now) → Cell.live s.clock c = false
  called : ∀ id t op, .called id t op ∈ log → N ≤ id
  missing : ∀ id t (rd : ReadOp), N ≤ id → .returned id t (rd.op k) (rd.reply P 0 none) ∈ log → Cell.live t c = false
  ttl : ∀ id t left, N ≤ id → .returned id t (.ttl k) (.remaining (.kHasTtl left)) ∈ log →
    ∃ d now, c.2 = some d ∧ τ ≤ now ∧ now < d ∧ left = Store.durationCastSeconds (P.chrono.sub d now)

namespace KeyInv

theorem not_live (h : KeyInv N τ k c log s) (hnone : s.store.liveAt now k = none) (hle : now ≤ s.clock) :
    Cell.live s.clock c = false := by
  rcases h.cell with hc | ⟨-, hdead⟩
  · unfold Store.liveAt at hnone
    rw [hc, liveIn_some] at hnone
    split_ifs at hnone with hlive
    exact Cell.not_live_mono hle (Bool.eq_false_iff.mpr hlive)
  · exact hdead

theorem cell_of_change (h : KeyInv N τ k c log s) {out : Running ⊕ StoreReply} {o : Option Entry}
    (hchange : EntryChange P s.clock k r out (s.store.entryAt k) o)
    (hw : ∀ reply id, out = .inr reply → StoreEvent.writes k (.returned id s.clock r.op reply) = false) :
    o.map Entry.cell = some c ∨ o.map Entry.cell = none ∧ Cell.live s.clock c = false := by
  have hcell := h.cell
  change (s.store.entryAt k).map Entry.cell = some c ∨ (s.store.entryAt k).map Entry.cell = none ∧ _ at hcell
  generalize s.store.entryAt k = before at hchange hcell
  cases hchange with
  | same => exact hcell
  | @cleaned _ _ e hexp =>
    refine .inr ⟨rfl, ?_⟩
    rcases hcell with hc | ⟨hnone, -⟩
    · cases hc
      rw [cell_live_iff, hexp]; rfl
    · cases hnone
  | written => exact absurd (hw _ 0 rfl) (by simp [StoreEvent.writes, Running.op, StoreOp.writes])
  | deleted => exact absurd (hw _ 0 rfl) (by simp [StoreEvent.writes, Running.op, StoreOp.writes])
  | rescheduled => exact absurd (hw _ 0 rfl) (by simp [StoreEvent.writes, Running.op, StoreOp.writes])

theorem start (hinv : ConcurrentStore.ReadingsInv log s) (hcell : s.store.cellAt k = some c) :
    KeyInv s.nextId s.clock k c [] s where
  next_le := le_rfl
  clock_le := le_rfl
  past id r now hl hnow :=
    ⟨hinv.past id r now hl hnow, fun hN => absurd (hinv.running_lt id r hl) (Nat.not_lt.mpr hN)⟩
  cell := .inl hcell
  waiting id rd now hN hl := absurd (hinv.running_lt id _ hl) (Nat.not_lt.mpr hN)
  called id t op hmem := by cases hmem
  missing id t rd _ hmem := by cases hmem
  ttl id t left _ hmem := by cases hmem

theorem goOn (h : KeyInv N τ k c log s) {id : Nat} {store : Store P} (hl : s.running.lookup id = some r)
    (hadv : r.advance s.store s.clock = (store, .inl r')) :
    KeyInv N τ k c (log ++ if r.now?.isNone then [.sampled id s.clock] else [])
      { s with store, running := s.running.insert id r' } := by
  have hlog : ∀ ev ∈ log ++ (if r.now?.isNone then [.sampled id s.clock] else []),
      ev ∈ log ∨ ∃ now, ev = .sampled id now := fun ev hmem => by
    rcases List.mem_append.mp hmem with hmem | hmem
    · exact .inl hmem
    · split_ifs at hmem with hnone
      · exact .inr ⟨_, List.mem_singleton.mp hmem⟩
      · cases hmem
  constructor
  case next_le => exact h.next_le
  case clock_le => exact h.clock_le
  case past =>
    intro id' r₁ now hl' hnow'
    rcases Finmap.lookup_insert_eq_some hl' with ⟨rfl, rfl⟩ | ⟨-, hl'⟩
    · rw [(Running.advance_inl hadv).2] at hnow'
      cases hr : r.now? with
      | none => rw [hr] at hnow'; cases hnow'; exact ⟨le_rfl, fun _ => h.clock_le⟩
      | some now₀ => rw [hr] at hnow'; cases hnow'; exact h.past _ r _ hl hr
    · exact h.past id' r₁ now hl' hnow'
  case cell =>
    have hchange := Running.change_of_advance hadv (fun now hnow => (h.past id r now hl hnow).1) k
    exact h.cell_of_change hchange fun _ _ heq => by cases heq
  case waiting =>
    intro id' rd now hN hl'
    rcases Finmap.lookup_insert_eq_some hl' with ⟨rfl, rfl⟩ | ⟨-, hl'⟩
    · obtain ⟨rfl, hnone⟩ := Running.revalidating_of_advance hadv
      exact h.not_live hnone (h.past _ _ now hl rfl).1
    · exact h.waiting id' rd now hN hl'
  case called =>
    intro id' t op hmem
    rcases hlog _ hmem with hmem | ⟨_, heq⟩
    · exact h.called id' t op hmem
    · cases heq
  case missing =>
    intro id' t rd hN hmem
    rcases hlog _ hmem with hmem | ⟨_, heq⟩
    · exact h.missing id' t rd hN hmem
    · cases heq
  case ttl =>
    intro id' t left hN hmem
    rcases hlog _ hmem with hmem | ⟨_, heq⟩
    · exact h.ttl id' t left hN hmem
    · cases heq

theorem ttl_of_found (h : KeyInv N τ k c log s) {found : Option Entry} {left : Int}
    (hfound : found.map Entry.cell = s.store.liveAt now k)
    (hreply : StoreReply.remaining (.kHasTtl left) = ReadOp.ttl.reply P now found) :
    ∃ d, c.2 = some d ∧ now < d ∧ left = Store.durationCastSeconds (P.chrono.sub d now) := by
  cases found with
  | none => cases hreply
  | some e =>
    obtain ⟨v, _ | d, g⟩ := e
    · cases hreply
    · have hlive : Cell.live now ((v, some d) : Cell Bytes) = true := live_of_liveIn hfound.symm
      have hcell : s.store.cellAt k = some (v, some d) := by
        unfold Store.liveAt liveIn at hfound
        exact (Option.filter_eq_some_iff.mp hfound.symm).1
      rcases h.cell with hc | ⟨hnone, -⟩
      · rw [hcell] at hc
        cases hc
        cases hreply
        exact ⟨d, rfl, by simpa [Cell.live] using hlive, rfl⟩
      · rw [hcell] at hnone; cases hnone

theorem ended (h : KeyInv N τ k c log s) {id : Nat} {store : Store P} (hl : s.running.lookup id = some r)
    (hadv : r.advance s.store s.clock = (store, .inr reply))
    (hw : StoreEvent.writes k (.returned id s.clock r.op reply) = false) :
    KeyInv N τ k c (log ++ [.returned id s.clock r.op reply]) { s with store, running := s.running.erase id } := by
  constructor
  case next_le => exact h.next_le
  case clock_le => exact h.clock_le
  case past => exact fun id' r' now hl' => h.past id' r' now (Finmap.lookup_erase_eq_some hl').2
  case cell =>
    have hchange := Running.change_of_advance hadv (fun now hnow => (h.past id r now hl hnow).1) k
    exact h.cell_of_change hchange fun _ _ heq => by cases heq; exact hw
  case waiting => exact fun id' rd now hN hl' => h.waiting id' rd now hN (Finmap.lookup_erase_eq_some hl').2
  case called =>
    intro id' t op hmem
    exact h.called id' t op (by simpa using hmem)
  case missing =>
    intro id' t rd hN hmem
    rcases List.mem_append.mp hmem with hmem | hmem
    · exact h.missing id' t rd hN hmem
    · obtain ⟨rfl, rfl, hop, hreply⟩ := StoreEvent.returned.inj (List.mem_singleton.mp hmem)
      rcases Running.read_of_advance hadv hop.symm with ⟨now, found, rfl, hfound, rfl⟩ | ⟨now, rfl, -⟩
      · refine h.not_live (hfound.symm.trans ?_) (h.past _ _ now hl rfl).1
        cases found with
        | none => rfl
        | some e => exact absurd hreply.symm (ReadOp.reply_some_ne rd now 0 e)
      · exact h.waiting _ rd now hN hl
  case ttl =>
    intro id' t left hN hmem
    rcases List.mem_append.mp hmem with hmem | hmem
    · exact h.ttl id' t left hN hmem
    · obtain ⟨rfl, rfl, hop, rfl⟩ := StoreEvent.returned.inj (List.mem_singleton.mp hmem)
      rcases Running.read_of_advance hadv (show r.op = ReadOp.ttl.op k from hop.symm) with
        ⟨now, found, rfl, hfound, hreply⟩ | ⟨now, -, hreply⟩
      · obtain ⟨d, hd, hlt, hleft⟩ := h.ttl_of_found hfound hreply
        exact ⟨d, now, hd, (h.past _ _ now hl rfl).2 hN, hlt, hleft⟩
      · cases hreply

theorem step (h : KeyInv N τ k c log s) (hmove : ConcurrentStore.Moved s evs s')
    (hw : ∀ ev ∈ evs, ev.writes k = false) : KeyInv N τ k c (log ++ evs) s' := by
  cases hmove with
  | call op =>
    have hlog : ∀ {id t op' reply}, StoreEvent.returned id t op' reply ∈ log ++ [.called s.nextId s.clock op] →
        .returned id t op' reply ∈ log := fun hmem => by simpa using hmem
    refine ⟨Nat.le_succ_of_le h.next_le, h.clock_le, fun id r now hl hnow => ?_, h.cell, fun id rd now hN hl => ?_,
      fun id t op' hmem => ?_, fun id t rd hN hmem => h.missing id t rd hN (hlog hmem),
      fun id t left hN hmem => h.ttl id t left hN (hlog hmem)⟩
    · rcases Finmap.lookup_insert_eq_some hl with ⟨rfl, rfl⟩ | ⟨-, hl⟩
      · cases hnow
      · exact h.past id r now hl hnow
    · rcases Finmap.lookup_insert_eq_some hl with ⟨-, heq⟩ | ⟨-, hl⟩
      · cases heq
      · exact h.waiting id rd now hN hl
    · rcases List.mem_append.mp hmem with hmem | hmem
      · exact h.called id t op' hmem
      · cases List.mem_singleton.mp hmem
        exact h.next_le
  | goOn hl hadv => exact h.goOn hl hadv
  | ended hl hadv => exact h.ended hl hadv (hw _ List.mem_cons_self)
  | tick hle =>
    rw [List.append_nil]
    exact ⟨h.next_le, h.clock_le.trans hle,
      fun id r now hl hnow => ⟨(h.past id r now hl hnow).1.trans hle, (h.past id r now hl hnow).2⟩,
      h.cell.imp_right fun hc => ⟨hc.1, Cell.not_live_mono hle hc.2⟩,
      fun id rd now hN hl => Cell.not_live_mono hle (h.waiting id rd now hN hl), h.called, h.missing, h.ttl⟩

theorem run (h : KeyInv N τ k c log s) (hrun : ConcurrentStore.Run s evs s')
    (hw : ∀ ev ∈ evs, ev.writes k = false) : KeyInv N τ k c (log ++ evs) s' := by
  induction hrun with
  | refl => rw [List.append_nil]; exact h
  | tail _ hstep ih =>
    rw [← List.append_assoc]
    exact (ih fun ev hev => hw ev (List.mem_append_left _ hev)).step (ConcurrentStore.moved_of_step hstep)
      fun ev hev => hw ev (List.mem_append_right _ hev)

end KeyInv

/-! ### The result -/

theorem Store.set_cellAt_key (st : Store P) (k v : Bytes) : (st.set k v).cellAt k = some (v, none) := by
  unfold Store.set
  rw [cellAt_putShard fun k' hk' => by rw [Shard.set_cellAt, if_neg hk'], if_pos rfl, Shard.set_cellAt, if_pos rfl]

theorem Store.expire_cellAt_key {seconds : Int} (h : (st.expire now k seconds).2 = true) :
    ∃ v d, st.cellAt k = some (v, d) ∧
      (st.expire now k seconds).1.cellAt k = some (v, some (P.chrono.addSeconds now seconds)) := by
  unfold Store.expire at h ⊢
  dsimp only at h ⊢
  rw [cellAt_putShard fun k' hk' => Shard.expire_cellAt_ne seconds hk', if_pos rfl]
  unfold Store.cellAt Shard.cellAt
  unfold Shard.expire at h ⊢
  cases hl : (st.shardFor k).entries.lookup k with
  | none => rw [hl] at h; cases h
  | some e =>
    rw [hl] at h
    dsimp only at h ⊢
    split_ifs at h ⊢
    exact ⟨e.value, e.deadline, rfl, by rw [Finmap.lookup_insert]; rfl⟩

theorem DeadlineFits.addSeconds {seconds : Int} (h : DeadlineFits P now seconds) (hs : 1 ≤ seconds) :
    P.chrono.addSeconds now seconds = now + seconds * nanosPerSecond := by
  rcases h with hP | ⟨hP, hnow, hfit⟩
  · rw [hP]; rfl
  · rw [hP]; exact addSeconds_int64_eq hnow (by omega) hfit

theorem DeadlineFits.left_le {seconds : Int} (h : DeadlineFits P now seconds) (hs : 1 ≤ seconds) (hle : now ≤ t)
    (hlt : t < P.chrono.addSeconds now seconds) :
    Store.durationCastSeconds (P.chrono.sub (P.chrono.addSeconds now seconds) t) ≤ seconds := by
  rw [h.addSeconds hs] at hlt ⊢
  have hsub : P.chrono.sub (now + seconds * nanosPerSecond) t = now + seconds * nanosPerSecond - t := by
    rcases h with hP | ⟨hP, hnow, hfit⟩
    · rw [hP]; rfl
    · rw [hP]; exact wrap64_eq_self (by omega) (by omega)
  rw [hsub, Store.durationCastSeconds, Int.tdiv_eq_ediv_of_nonneg (by omega)]
  calc (now + seconds * nanosPerSecond - t) / nanosPerSecond
      ≤ (seconds * nanosPerSecond) / nanosPerSecond := Int.ediv_le_ediv (by decide) (by omega)
    _ = seconds := Int.mul_ediv_cancel seconds (by decide)

theorem ConcurrentStore.Moved.returned {id : Nat} {op : StoreOp}
    (h : ConcurrentStore.Moved s [.returned id t op reply] s') :
    t = s.clock ∧ ∃ r store, s.running.lookup id = some r ∧ r.op = op ∧
      r.advance s.store s.clock = (store, .inr reply) ∧ s' = { s with store, running := s.running.erase id } := by
  generalize hev : [StoreEvent.returned id t op reply] = evs at h
  cases h with
  | call op => cases hev
  | goOn hl hadv => split_ifs at hev; cases hev
  | ended hl hadv =>
    cases hev
    exact ⟨rfl, _, _, hl, rfl, hadv, rfl⟩
  | tick hle => cases hev

theorem Running.set_of_advance {v : Bytes} (h : r.advance st clock = (st', .inr reply)) (hop : r.op = .set k v) :
    st' = st.set k v := by
  cases r with
  | called op => cases hop; cases h; rfl
  | reading rd key now => cases rd <;> cases hop
  | revalidating rd key now => cases rd <;> cases hop
  | _ => cases hop

theorem Running.expire_of_advance {seconds : Int} (h : r.advance st clock = (st', .inr (.flag true)))
    (hop : r.op = .expire k seconds) :
    ∃ now, r = .expiring k seconds now ∧ st' = (st.expire now k seconds).1 ∧ (st.expire now k seconds).2 = true := by
  cases r with
  | called op => cases hop; cases h
  | reading rd key now => cases rd <;> cases hop
  | revalidating rd key now => cases rd <;> cases hop
  | expiring key seconds now =>
    cases hop
    obtain ⟨hst, hreply⟩ := Prod.mk.inj h
    exact ⟨now, rfl, hst.symm, by simpa using hreply⟩
  | _ => cases hop

theorem KeyInv.expire_cell {v : Bytes} {seconds : Int} (h : KeyInv N τ k (v, none) log s)
    (hok : (s.store.expire now k seconds).2 = true) :
    (s.store.expire now k seconds).1.cellAt k = some (v, some (P.chrono.addSeconds now seconds)) := by
  obtain ⟨v', d, hbefore, hafter⟩ := Store.expire_cellAt_key hok
  rcases h.cell with hc | ⟨hnone, -⟩
  · rw [hbefore] at hc
    cases hc
    exact hafter
  · rw [hbefore] at hnone; cases hnone

theorem KeyInv.expired {v : Bytes} {seconds : Int} (h : KeyInv N τ k (v, none) log s) (id : Nat)
    (hok : (s.store.expire now k seconds).2 = true) :
    KeyInv N τ k (v, some (P.chrono.addSeconds now seconds))
      (log ++ [.returned id s.clock (.expire k seconds) (.flag true)])
      { s with store := (s.store.expire now k seconds).1, running := s.running.erase id } := by
  have hlive : ∀ t, ¬ Cell.live t ((v, none) : Cell Bytes) = false := fun t =>
    Bool.eq_false_iff.not.mpr (not_not.mpr rfl)
  constructor
  case next_le => exact h.next_le
  case clock_le => exact h.clock_le
  case past => exact fun id' r' now hl' => h.past id' r' now (Finmap.lookup_erase_eq_some hl').2
  case cell => exact .inl (h.expire_cell hok)
  case waiting =>
    exact fun id' rd now hN hl' => absurd (h.waiting id' rd now hN (Finmap.lookup_erase_eq_some hl').2) (hlive _)
  case called => exact fun id' t op hmem => h.called id' t op (by simpa using hmem)
  case missing =>
    intro id' t rd hN hmem
    rcases List.mem_append.mp hmem with hmem | hmem
    · exact absurd (h.missing id' t rd hN hmem) (hlive t)
    · cases rd <;> cases List.mem_singleton.mp hmem
  case ttl =>
    intro id' t left hN hmem
    rcases List.mem_append.mp hmem with hmem | hmem
    · obtain ⟨d, now, hd, -⟩ := h.ttl id' t left hN hmem
      cases hd
    · cases List.mem_singleton.mp hmem

theorem ConcurrentStore.length_events_le (h : Transition.Step ConcurrentStore.step s evs s') : evs.length ≤ 1 := by
  cases ConcurrentStore.moved_of_step h with
  | goOn => split_ifs <;> simp
  | _ => simp

end

/-- In every run in which a key is set, one `expire` is the only later write to it, and that `expire` has read
the clock at or after the time of the `set`, the key keeps the seconds it was given. -/
theorem ttl_kept (P : Platform) (st : Store P) (start : Int) (log : List StoreEvent) (s : ConcurrentStore P)
    (hrun : ConcurrentStore.Run ⟨st, start, ∅, 0⟩ log s) (before mid post : List StoreEvent) (i j : Nat)
    (t₀ t₁ now seconds : Int) (k v : Bytes)
    (hlog : log = before ++ .returned i t₀ (.set k v) .done ::
      (mid ++ .returned j t₁ (.expire k seconds) (.flag true) :: post))
    (hother : ∀ ev ∈ mid ++ post, ev.writes k = false) (hs : 1 ≤ seconds)
    (hsampled : .sampled j now ∈ before ++ .returned i t₀ (.set k v) .done :: mid)
    (hfits : DeadlineFits P now seconds) (hafter : t₀ ≤ now) :
    TtlKept k t₀ seconds (mid ++ .returned j t₁ (.expire k seconds) (.flag true) :: post) post := by
  obtain ⟨a₀, a₁, hbefore, hset, hrest⟩ := hrun.cut (fun _ _ _ => ConcurrentStore.length_events_le) hlog
  obtain ⟨a₂, a₃, hmid, hexpire, hpost⟩ := hrest.cut (fun _ _ _ => ConcurrentStore.length_events_le) rfl
  have hrun₁ : ConcurrentStore.Run _ _ a₁ := hbefore.tail hset
  have hrun₂ : ConcurrentStore.Run _ _ a₂ := hrun₁.trans hmid
  have hrun₃ : ConcurrentStore.Run _ _ a₃ := hrun₂.tail hexpire
  have hinv₁ := hrun₁.readingsInv
  have hinv₂ := hrun₂.readingsInv
  have hinv₃ := hrun₃.readingsInv
  -- after the `set` the key has no deadline, until the `expire`
  obtain ⟨rfl, r, store, hl, hop, hadv, rfl⟩ := (ConcurrentStore.moved_of_step hset).returned
  have hset' := Running.set_of_advance hadv hop
  subst hset'
  have hkey := (KeyInv.start hinv₁ (Store.set_cellAt_key a₀.store k v)).run hmid
    fun ev hev => hother ev (List.mem_append_left _ hev)
  obtain ⟨rfl, r', store', hl', hop', hadv', rfl⟩ := (ConcurrentStore.moved_of_step hexpire).returned
  obtain ⟨now', rfl, rfl, hok⟩ := Running.expire_of_advance hadv' hop'
  have hnow : now' = now := by
    have := hinv₂.logged j _ now hl' (by simpa using hsampled)
    exact Option.some.inj this
  subst hnow
  have hnow_le := hinv₂.past j _ now' hl' rfl
  -- from there on it has the deadline counted from the reading
  have hother' := fun ev hev => hother ev (List.mem_append_right _ hev)
  have hkey₁ := (hkey.expired j hok).run hpost hother'
  have hkey₂ := (KeyInv.start hinv₃ (hkey.expire_cell hok)).run hpost hother'
  rw [List.nil_append, List.append_assoc] at hkey₁
  rw [List.nil_append] at hkey₂
  have hdead : ∀ t, Cell.live t ((v, some (P.chrono.addSeconds now' seconds)) : Cell Bytes) = false →
      a₀.clock + seconds * nanosPerSecond ≤ t := fun t hdead => by
    rw [hfits.addSeconds hs] at hdead
    simp only [Cell.live, decide_eq_false_iff_not, not_lt] at hdead
    omega
  refine ⟨fun id c t hcall hret => ?_, fun id c t hcall hret => ?_, fun id c t left hcall hret => ?_⟩
  · exact hdead t (hkey₁.missing id t .get (hkey₁.called id c _ hcall) hret)
  · exact hdead t (hkey₁.missing id t .exists_ (hkey₁.called id c _ hcall) hret)
  · obtain ⟨d, now, hd, hle, hlt, rfl⟩ := hkey₂.ttl id t left (hkey₂.called id c _ hcall) hret
    cases hd
    exact hfits.left_le hs (hnow_le.trans hle) hlt

/-- A minute for a key that is set and read at once. -/
def minuteChoices : List StoreChoice :=
  [.call (.set (ascii "k") (ascii "v")), .advance 0, .call (.expire (ascii "k") 60), .advance 1, .tick 5,
    .advance 1, .call (.ttl (ascii "k")), .advance 2, .advance 2]

theorem minuteChoices_isSome : (Transition.run ConcurrentStore.step raceStart minuteChoices).isSome = true := by
  decide +kernel

theorem ttl_kept_minute :
    TtlKept (ascii "k") 0 60
      [.called 1 0 (.expire (ascii "k") 60), .sampled 1 0, .returned 1 5 (.expire (ascii "k") 60) (.flag true),
        .called 2 5 (.ttl (ascii "k")), .sampled 2 5, .returned 2 5 (.ttl (ascii "k")) (.remaining (.kHasTtl 59))]
      [.called 2 5 (.ttl (ascii "k")), .sampled 2 5,
        .returned 2 5 (.ttl (ascii "k")) (.remaining (.kHasTtl 59))] :=
  ttl_kept (.reference .exact) (Store.ofCount _ ⟨2, 1, rfl⟩) 0 _ _ (Transition.exec_of_isSome minuteChoices_isSome)
    [.called 0 0 (.set (ascii "k") (ascii "v"))] [.called 1 0 (.expire (ascii "k") 60), .sampled 1 0] _ 0 1 0 5 0 60
    (ascii "k") (ascii "v") (by decide +kernel) (by decide +kernel) (by decide) (by decide +kernel) (.inl rfl)
    (by decide)

/-- An `expire` reads the clock at 0 and waits for its lock; ten seconds later another thread sets the key. -/
def staleExpire : List StoreChoice :=
  [.call (.expire (ascii "k") 1), .advance 0, .tick 10000000000, .call (.set (ascii "k") (ascii "v")), .advance 1,
    .advance 0, .call (.get (ascii "k")), .advance 2, .advance 2, .advance 2]

theorem staleExpire_isSome : (Transition.run ConcurrentStore.step raceStart staleExpire).isSome = true := by
  decide +kernel

/-- The key was set at ten seconds and given one second; it is gone at ten seconds. -/
theorem ttl_shortened :
    ∃ (log : List StoreEvent) (s : ConcurrentStore (.reference .exact)) (before post : List StoreEvent),
      ConcurrentStore.Run raceStart log s ∧
      log = before ++ .returned 1 10000000000 (.set (ascii "k") (ascii "v")) .done ::
        ([] ++ .returned 0 10000000000 (.expire (ascii "k") 1) (.flag true) :: post) ∧
      (∀ ev ∈ [] ++ post, ev.writes (ascii "k") = false) ∧
      .sampled 0 0 ∈ before ++ .returned 1 10000000000 (.set (ascii "k") (ascii "v")) .done :: [] ∧
      DeadlineFits (.reference .exact) 0 1 ∧
      ¬ TtlKept (ascii "k") 10000000000 1
        ([] ++ .returned 0 10000000000 (.expire (ascii "k") 1) (.flag true) :: post) post := by
  refine ⟨_, _, [.called 0 0 (.expire (ascii "k") 1), .sampled 0 0,
    .called 1 10000000000 (.set (ascii "k") (ascii "v"))],
    [.called 2 10000000000 (.get (ascii "k")), .sampled 2 10000000000,
      .returned 2 10000000000 (.get (ascii "k")) (.value none)],
    Transition.exec_of_isSome staleExpire_isSome, by decide +kernel, by decide +kernel, by decide +kernel, .inl rfl,
    fun h => ?_⟩
  have := h.get_finds 2 10000000000 10000000000 (by decide +kernel) (by decide +kernel)
  revert this
  decide

end KvStore
