import KvStore.LockedRefine

/-!
# Every operation returns

The locks of the shards cannot block each other: an operation that waits for one holds none, and an operation
inside a section has a next access or the release to do. `rank` counts what an operation has still to do, with
room for the section that `read_live` may need a second time and for the shards a sweep has not come to.
`store_calls_return`: left alone, the operations in progress come to an end.
-/

namespace KvStore
open ByteString ExpiringMap Transition Sections

/-- How many accesses the section has left, at most. -/
def Access.rank : Access → Nat
  | .setEntry _ _ => 4
  | .setValue _ _ => 3
  | .setDeadline _ => 2
  | .setBump _ => 1
  | .setGeneration _ _ => 0
  | .find _ _ _ | .findAgain _ _ _ | .delFind _ _ => 2
  | .test _ _ _ | .testAgain _ _ _ | .delTest _ _ => 1
  | .onLive _ _ _ | .eraseAgain _ _ _ | .delErase _ _ => 0
  | .expireFind _ _ _ => 5
  | .expireTest _ _ _ => 4
  | .expireDeadline _ _ => 3
  | .expireBump _ _ => 2
  | .expireGeneration _ _ _ => 1
  | .expireErase _ | .expirePush _ _ => 0
  | .sweepTop m _ _ _ processed => 5 * (m - processed)
  | .sweepFind m _ _ _ processed => 5 * (m - (processed + 1)) + 4
  | .sweepTest m _ _ _ processed => 5 * (m - (processed + 1)) + 3
  | .sweepErase m _ _ _ processed => 5 * (m - (processed + 1)) + 2
  | .sweepPop m _ _ _ processed => 5 * (m - (processed + 1)) + 1

/-- What an operation has still to do before it returns, if there are `n` shards. -/
def Running.rank (n : Nat) : Running → Nat
  | .called (.set _ _) => 10
  | .called (.del _) | .called (.expire _ _) => 11
  | .called (.sweepExpired m) => n * (5 * m + 10) + 2
  | .called _ => 21
  | .reading _ _ _ => 20
  | .revalidating _ _ _ | .deleting _ _ | .expiring _ _ _ => 10
  | .sweeping m _ shard _ => (n - shard) * (5 * m + 10) + 1

/-- What it has still to do after the section it is in or waits for. -/
def Running.after (n : Nat) : Running → Nat
  | .reading _ _ _ => 10
  | .sweeping m _ shard _ => (n - (shard + 1)) * (5 * m + 10) + 1
  | _ => 0

def Stage.rank (n : Nat) : Stage → Nat
  | .waiting r => r.rank n
  | .inside r _ _ (.inl a) => r.after n + 2 + a.rank
  | .inside r _ _ (.inr _) => r.after n + 1

section
variable {P : Platform} {s s' : LockedStore P} {evs log : List StoreEvent} {sh sh' : Shard P} {st : Store P}
  {a a' : Access} {r r' : Running} {i id : Nat} {out : Outcome}

theorem Access.rank_micro (h : a.micro sh = some (sh', .inl a')) : a'.rank < a.rank := by
  cases a with
  | setBump | expireBump => cases h; exact Nat.lt_succ_self _
  | setEntry | find | findAgain | delFind | expireFind =>
    rw [Access.micro] at h
    split at h <;> cases h <;> exact Nat.lt_succ_self _
  | setValue | setDeadline | delTest | expireDeadline | expireGeneration =>
    obtain ⟨entry, -, heq⟩ := Option.map_eq_some_iff.mp h
    cases heq; exact Nat.lt_succ_self _
  | setGeneration | onLive | eraseAgain | delErase | expireErase | expirePush =>
    obtain ⟨entry, -, heq⟩ := Option.map_eq_some_iff.mp h
    cases heq
  | test | testAgain | expireTest =>
    obtain ⟨entry, -, heq⟩ := Option.map_eq_some_iff.mp h
    split_ifs at heq <;> cases heq <;> simp [Access.rank]
  | sweepTop m now shard removed processed =>
    rw [Access.micro] at h
    split_ifs at h with hlt
    · split at h
      · cases h
      · split_ifs at h <;> cases h
        simp only [Access.rank]
        omega
    · cases h
  | sweepFind =>
    obtain ⟨candidate, -, heq⟩ := Option.map_eq_some_iff.mp h
    split at heq <;> cases heq <;> simp [Access.rank]
  | sweepTest =>
    rw [Access.micro] at h
    split at h
    · cases h
    · obtain ⟨entry, -, heq⟩ := Option.map_eq_some_iff.mp h
      split_ifs at heq <;> cases heq <;> simp [Access.rank]
  | sweepErase =>
    rw [Access.micro] at h
    split at h
    · cases h
    · obtain ⟨entry, -, heq⟩ := Option.map_eq_some_iff.mp h
      cases heq; simp [Access.rank]
  | sweepPop =>
    obtain ⟨candidate, -, heq⟩ := Option.map_eq_some_iff.mp h
    cases heq; exact Nat.lt_succ_self _

theorem Running.rank_of_section_none (h : r.section st = none) (clock : Int) :
    0 < r.rank st.shards.length ∧
      ∀ r', (r.advance st clock).2 = .inl r' → r'.rank st.shards.length < r.rank st.shards.length := by
  cases r with
  | called op =>
    cases op with
    | set => cases h
    | sweepExpired m =>
      refine ⟨Nat.succ_pos _, ?_⟩
      intro r' hr'
      cases hr'
      simp [Running.rank]
    | _ => exact ⟨Nat.succ_pos _, fun r' hr' => by cases hr'; simp [Running.rank]⟩
  | sweeping m now shard removed =>
    unfold Running.section at h
    dsimp only at h
    split_ifs at h with hlt
    refine ⟨Nat.succ_pos _, fun r' hr' => ?_⟩
    rw [Running.advance, List.getElem?_eq_none (Nat.not_lt.mp hlt)] at hr'
    cases hr'
  | _ => cases h

/-- The section and what may come after it are paid for. -/
theorem Running.rank_of_section (h : r.section st = some (i, a)) (clock : Int) :
    r.after st.shards.length + 2 + a.rank < r.rank st.shards.length ∧
      ∀ r', (r.advance st clock).2 = .inl r' → r'.rank st.shards.length ≤ r.after st.shards.length := by
  cases r with
  | called op =>
    cases op with
    | set => cases h; exact ⟨by simp [Running.after, Running.rank, Access.rank], fun r' hr' => by cases hr'⟩
    | _ => cases h
  | reading r key now =>
    cases h
    refine ⟨by simp [Running.after, Running.rank, Access.rank], fun r' hr' => ?_⟩
    rw [Running.advance] at hr'
    split at hr' <;> cases hr'
    exact Nat.le_refl _
  | sweeping m now shard removed =>
    have hlt := Running.section_lt h
    unfold Running.section at h
    dsimp only at h
    split_ifs at h
    cases h
    constructor
    · have hsplit : st.shards.length - i = (st.shards.length - (i + 1)) + 1 := by omega
      simp only [Running.after, Running.rank, Access.rank, hsplit, Nat.add_mul, Nat.one_mul, Nat.sub_zero]
      omega
    · intro r' hr'
      rw [Running.advance, List.getElem?_eq_getElem hlt] at hr'
      cases hr'
      exact Nat.le_refl _
  | _ => cases h; exact ⟨by simp [Running.after, Running.rank, Access.rank], fun r' hr' => by cases hr'⟩

/-! ### Steps and rest -/

namespace LockedStore

def Advance (s : LockedStore P) (evs : List StoreEvent) (s' : LockedStore P) : Prop :=
  ∃ id, s.step (.advance id) = some (s', evs)

def todo (s : LockedStore P) : Nat := Finmap.total (Stage.rank s.store.shards.length) s.running

def Sound (s : LockedStore P) : Prop := ∃ c, LockInv s ∧ Reflects s c

theorem Sound.step {choice : StoreChoice} (h : s.Sound) (hstep : s.step choice = some (s', evs)) : s'.Sound := by
  obtain ⟨c, hlocks, hreflects⟩ := h
  have hmove := move_of_step hstep
  obtain ⟨c', -, hreflects'⟩ := hreflects.step hmove hlocks
  exact ⟨c', hlocks.step hmove, hreflects'⟩

theorem todo_resume {stage : Stage} (hid : s.running.lookup id = some stage)
    (hless : ∀ r', out = .inl r' → r'.rank s.store.shards.length < stage.rank s.store.shards.length)
    (hpos : 0 < stage.rank s.store.shards.length) (r : Running) : (s.resume id r out).1.todo < s.todo := by
  unfold todo
  rw [store_resume]
  cases out with
  | inl r' =>
    have hrank : Stage.rank s.store.shards.length (.waiting r') < stage.rank s.store.shards.length := hless r' rfl
    have htotal := Finmap.total_insert_add (Stage.rank s.store.shards.length) (.waiting r') hid
    show Finmap.total _ (s.running.insert id (.waiting r')) < _
    omega
  | inr reply =>
    have htotal := Finmap.total_erase_add (Stage.rank s.store.shards.length) hid
    show Finmap.total _ (s.running.erase id) < _
    omega

theorem todo_lt (hmove : OperationMove s id evs s') (h : s.Sound) : s'.todo < s.todo := by
  obtain ⟨c, hlocks, hreflects⟩ := h
  cases hmove with
  | @free r hid hsection =>
    obtain ⟨hpos, hless⟩ := Running.rank_of_section_none hsection s.clock
    obtain ⟨count, out, hadvance⟩ := Running.advance_of_section_none hsection s.clock
    rw [hadvance s.store rfl] at hless ⊢
    exact todo_resume (s := { s with store := { s.store with activeExpirations := s.store.activeExpirations + count } })
      hid hless hpos r
  | @acquire shard r a lock lock' hid hsection hlock hacquire =>
    have hrank := (Running.rank_of_section hsection s.clock).1
    have htotal := Finmap.total_insert_add (Stage.rank s.store.shards.length)
      (.inside r a.exclusive shard (.inl a)) hid
    show Finmap.total (Stage.rank s.store.shards.length) (s.running.insert id _) < Finmap.total _ s.running
    simp only [Stage.rank] at htotal
    omega
  | @access shard r exclusive a sh sh' rest hid hsh hmicro =>
    have hlength : (s.store.putShardAt shard sh').shards.length = s.store.shards.length := List.length_set
    have htotal := Finmap.total_insert_add (Stage.rank s.store.shards.length) (.inside r exclusive shard rest) hid
    show Finmap.total (Stage.rank (s.store.putShardAt shard sh').shards.length) (s.running.insert id _) <
      Finmap.total _ s.running
    rw [hlength]
    cases rest with
    | inl a' =>
      have hrank := Access.rank_micro hmicro
      simp only [Stage.rank] at htotal
      omega
    | inr out =>
      simp only [Stage.rank] at htotal
      omega
  | @release shard r exclusive out hid =>
    -- what the section has left its operation with is what the section as a whole does
    obtain ⟨before, now, hbefore, hnow, a, sh', out', hsection, hcompletes, rfl, rfl⟩ := hreflects.midway hid
    have hsection' : r.section c.store = some (shard, a) := (Running.section_congr hreflects.length r).trans hsection
    obtain ⟨sh₁, out₁, hcompletes₁, hadvance⟩ := Running.completes_section hsection' hbefore
    obtain ⟨rfl, rfl⟩ := hcompletes.unique hcompletes₁
    refine todo_resume (s := s.release id shard) hid (fun r' hr' => ?_) (Nat.succ_pos _) r
    have hrank := (Running.rank_of_section hsection' c.clock).2 r' (by rw [hadvance]; exact hr')
    rw [hreflects.length] at hrank
    exact Nat.lt_succ_of_le hrank

theorem Advance.todo_lt (h : s.Sound) (hstep : Advance s evs s') : s'.todo < s.todo := by
  obtain ⟨id, hstep⟩ := hstep
  exact LockedStore.todo_lt (move_of_advance hstep) h

theorem advance_of_isSome (id : Nat) (h : (s.step (.advance id)).isSome = true) : ∃ evs s', Advance s evs s' :=
  ⟨_, _, id, (Option.some_get h).symm⟩

theorem advance_of_inside {shard : Nat} {exclusive : Bool} {rest : Access ⊕ Outcome} (h : s.Sound)
    (hid : s.running.lookup id = some (.inside r exclusive shard rest)) : ∃ evs s', Advance s evs s' := by
  obtain ⟨c, -, hreflects⟩ := h
  cases rest with
  | inr out =>
    refine advance_of_isSome id ?_
    unfold step
    dsimp only
    rw [hid]
    rfl
  | inl a =>
    obtain ⟨before, now, -, hnow, a₀, sh', out, -, -, hrest⟩ := hreflects.midway hid
    obtain ⟨sh₁, next, hmicro, -⟩ := Completes.step hrest
    refine advance_of_isSome id ?_
    have hstep : s.step (.advance id) = s.access id r exclusive shard a := by unfold step; dsimp only; rw [hid]
    rw [hstep]
    unfold access
    rw [hnow, Option.bind_some, hmicro]
    rfl

theorem advance_of_waiting (h : s.Sound) (hnobody : ∀ i, s.lockOf i = none)
    (hid : s.running.lookup id = some (.waiting r)) : ∃ evs s', Advance s evs s' := by
  obtain ⟨c, hlocks, -⟩ := h
  have hstep : s.step (.advance id) = s.proceed id r := by unfold step; dsimp only; rw [hid]
  refine advance_of_isSome id ?_
  rw [hstep]
  unfold proceed
  cases hsection : r.section s.store with
  | none => rfl
  | some next =>
    obtain ⟨shard, a⟩ := next
    have hlt : shard < s.locks.length := hlocks.length ▸ Running.section_lt hsection
    have hlock := List.getElem?_eq_getElem hlt
    have hfree : ∀ e i, ¬ s.locks[shard].Holds e i := by
      intro e i hholds
      have hheld := (hlocks.holds_iff hlock e i).mp hholds
      rw [hnobody i] at hheld
      cases hheld
    obtain ⟨lock', hacquire⟩ := RwLock.acquire_isSome hfree a.exclusive id
    dsimp only
    rw [hlock, Option.bind_some, hacquire]
    rfl

end LockedStore

/-- No deadlock. Once no operation is called any more, those in progress take finitely many steps in whatever order
they take them, and wherever none can take another one, all have returned. -/
theorem store_calls_return {store : Store P} {clock : Int} (hrun : (LockedStore.start store clock).Run log s) :
    (∀ f : Nat → LockedStore P, f 0 = s → ∃ n, ∀ evs, ¬ LockedStore.Advance (f n) evs (f (n + 1))) ∧
    ∀ log' s', Exec LockedStore.Advance s log' s' → (∀ evs s'', ¬ LockedStore.Advance s' evs s'') →
      ∀ id, s'.running.lookup id = none := by
  obtain ⟨c, -, hsound⟩ := hrun.reflects
  have hkept : ∀ (s : LockedStore P) evs s', s.Sound → LockedStore.Advance s evs s' → s'.Sound := by
    rintro s evs s' hsound ⟨id, hstep⟩
    exact hsound.step hstep
  have hless : ∀ (s : LockedStore P) evs s', s.Sound → LockedStore.Advance s evs s' →
      Descent.Descends [LockedStore.todo] s s' :=
    fun s evs s' hsound hstep => .inl (hstep.todo_lt hsound)
  constructor
  · rintro f rfl
    exact Descent.exists_not_step hless hkept f ⟨c, hsound⟩
  · intro log' s' hexec hrest id
    have hstart : s.Sound := ⟨c, hsound⟩
    have hsound' : s'.Sound := Exec.invariant hstart (fun _ evs s s' => hkept s evs s') hexec
    have hnobody : ∀ i, s'.lockOf i = none := by
      intro i
      cases hi : s'.running.lookup i with
      | none => unfold LockedStore.lockOf; rw [hi]; rfl
      | some stage =>
        cases stage with
        | waiting r => exact LockedStore.lockOf_waiting hi
        | inside r exclusive shard rest =>
          obtain ⟨evs, s'', hstep⟩ := LockedStore.advance_of_inside hsound' hi
          exact absurd hstep (hrest evs s'')
    cases hid : s'.running.lookup id with
    | none => rfl
    | some stage =>
      cases stage with
      | waiting r =>
        obtain ⟨evs, s'', hstep⟩ := LockedStore.advance_of_waiting hsound' hnobody hid
        exact absurd hstep (hrest evs s'')
      | inside r exclusive shard rest =>
        obtain ⟨evs, s'', hstep⟩ := LockedStore.advance_of_inside hsound' hid
        exact absurd hstep (hrest evs s'')

end

theorem store_calls_return_halfWritten :
    ∃ log s, (LockedStore.start Store.small 0).Run log s ∧ s.lockOf 0 = some (1, true) ∧
      ∀ log' s', Exec LockedStore.Advance s log' s' → (∀ evs s'', ¬ LockedStore.Advance s' evs s'') →
        ∀ id, s'.running.lookup id = none :=
  ⟨_, _, exec_of_isSome halfWritten_isSome, rfl, (store_calls_return (exec_of_isSome halfWritten_isSome)).2⟩

end KvStore
