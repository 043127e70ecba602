import KvStore.ShardLocks

/-!
# Sections are atomic

`Reflects s c`: the store with locks `s` is seen from outside as the store `c` of `ConcurrentStore`. A shard that
nobody holds alone is the same in both; a shard that somebody holds alone is in `c` still what it was when the lock
was taken, and what is left of the section leads from what the shard is now to what the whole section makes of it
(`Midway`). The step of `c` is taken when the lock is released. `LockInv` says that the locks are held by exactly
the operations that are inside a section.

`locked_store_refines`: every log of the store with locks is one of `ConcurrentStore`, no access finds its entry or
its candidate gone, and nobody else changes the shard of a section.
-/

namespace KvStore
open ByteString ExpiringMap Transition Sections

section
variable {P : Platform} {s s' : LockedStore P} {c : ConcurrentStore P} {evs log : List StoreEvent}

/-- A step of the operation `id`. -/
inductive OperationMove (s : LockedStore P) (id : Nat) : List StoreEvent → LockedStore P → Prop
  | free {r : Running} : s.running.lookup id = some (.waiting r) → r.section s.store = none →
    OperationMove s id ({ s with store := (r.advance s.store s.clock).1 }.resume id r (r.advance s.store s.clock).2).2
      ({ s with store := (r.advance s.store s.clock).1 }.resume id r (r.advance s.store s.clock).2).1
  | acquire {shard : Nat} {r : Running} {a : Access} {lock lock' : RwLock} :
    s.running.lookup id = some (.waiting r) → r.section s.store = some (shard, a) →
    s.locks[shard]? = some lock → lock.acquire a.exclusive id = some lock' →
    OperationMove s id []
      { s with
        locks := s.locks.set shard lock'
        running := s.running.insert id (.inside r a.exclusive shard (.inl a)) }
  | access {shard : Nat} {r : Running} {exclusive : Bool} {a : Access} {sh sh' : Shard P}
      {rest : Access ⊕ Outcome} :
    s.running.lookup id = some (.inside r exclusive shard (.inl a)) → s.store.shards[shard]? = some sh →
    a.micro sh = some (sh', rest) →
    OperationMove s id []
      { s with
        store := s.store.putShardAt shard sh'
        running := s.running.insert id (.inside r exclusive shard rest) }
  | release {shard : Nat} {r : Running} {exclusive : Bool} {out : Outcome} :
    s.running.lookup id = some (.inside r exclusive shard (.inr out)) →
    OperationMove s id ((s.release id shard).resume id r out).2 ((s.release id shard).resume id r out).1

/-- What can happen next. -/
inductive LockedMove (s : LockedStore P) : List StoreEvent → LockedStore P → Prop
  | call {op : StoreOp} : LockedMove s [.called s.nextId s.clock op]
      { s with running := s.running.insert s.nextId (.waiting (.called op)), nextId := s.nextId + 1 }
  | operation {id : Nat} {evs : List StoreEvent} {s' : LockedStore P} : OperationMove s id evs s' → LockedMove s evs s'
  | tick {clock : Int} : s.clock ≤ clock → LockedMove s [] { s with clock }

theorem LockedStore.move_of_advance {id : Nat} (h : s.step (.advance id) = some (s', evs)) :
    OperationMove s id evs s' := by
  unfold LockedStore.step at h
  dsimp only at h
  split at h
  · cases h
  · next r hid =>
    unfold LockedStore.proceed at h
    split at h
    · next hsection =>
      have hmove := OperationMove.free hid hsection
      rw [Option.some.inj h] at hmove
      exact hmove
    · next shard a hsection =>
      split at h
      · next lock' hacquire =>
        cases h
        obtain ⟨lock, hlock, hacquire⟩ := Option.bind_eq_some_iff.mp hacquire
        exact .acquire hid hsection hlock hacquire
      · cases h
  · next r exclusive shard a hid =>
    unfold LockedStore.access at h
    split at h
    · next sh' rest hmicro =>
      cases h
      obtain ⟨sh, hsh, hmicro⟩ := Option.bind_eq_some_iff.mp hmicro
      exact .access hid hsh hmicro
    · cases h
  · next r exclusive shard out hid =>
    have hmove := OperationMove.release hid
    rw [Option.some.inj h] at hmove
    exact hmove

theorem LockedStore.move_of_step {choice : StoreChoice} (h : s.step choice = some (s', evs)) :
    LockedMove s evs s' := by
  cases choice with
  | call op => cases h; exact .call
  | advance id => exact .operation (move_of_advance h)
  | tick clock =>
    unfold LockedStore.step at h
    dsimp only at h
    split_ifs at h with hle
    cases h; exact .tick hle

/-! ### Who holds the locks -/

namespace LockedStore
variable {id : Nat} {stage : Stage} {r : Running} {out : Outcome}

theorem lockOf_waiting (h : s.running.lookup id = some (.waiting r)) : s.lockOf id = none := by
  unfold lockOf; rw [h]; rfl

theorem lockOf_inside {shard : Nat} {exclusive : Bool} {rest : Access ⊕ Outcome}
    (h : s.running.lookup id = some (.inside r exclusive shard rest)) : s.lockOf id = some (shard, exclusive) := by
  unfold lockOf; rw [h]; rfl

theorem lockOf_insert {s : LockedStore P} (s' : LockedStore P) (h : s'.running = s.running.insert id stage) (id' : Nat) :
    s'.lockOf id' = if id' = id then stage.lock else s.lockOf id' := by
  unfold lockOf
  rw [h, Finmap.lookup_insert_ite]
  split_ifs <;> rfl

theorem lookup_resume (s : LockedStore P) (id : Nat) (r : Running) (out : Outcome) (id' : Nat) :
    (s.resume id r out).1.running.lookup id' =
      if id' = id then out.elim (fun r' => some (.waiting r')) (fun _ => none) else s.running.lookup id' := by
  cases out with
  | inl r' => exact Finmap.lookup_insert_ite ..
  | inr reply => exact Finmap.lookup_erase_ite ..

theorem lockOf_resume (s : LockedStore P) (id : Nat) (r : Running) (out : Outcome) (id' : Nat) :
    (s.resume id r out).1.lockOf id' = if id' = id then none else s.lockOf id' := by
  unfold lockOf
  rw [lookup_resume]
  split_ifs
  · cases out <;> rfl
  · rfl

@[simp] theorem store_resume (s : LockedStore P) (id : Nat) (r : Running) (out : Outcome) :
    (s.resume id r out).1.store = s.store := by cases out <;> rfl

@[simp] theorem locks_resume (s : LockedStore P) (id : Nat) (r : Running) (out : Outcome) :
    (s.resume id r out).1.locks = s.locks := by cases out <;> rfl

@[simp] theorem clock_resume (s : LockedStore P) (id : Nat) (r : Running) (out : Outcome) :
    (s.resume id r out).1.clock = s.clock := by cases out <;> rfl

@[simp] theorem nextId_resume (s : LockedStore P) (id : Nat) (r : Running) (out : Outcome) :
    (s.resume id r out).1.nextId = s.nextId := by cases out <;> rfl

end LockedStore

/-- A lock is held by the operations that are inside a section of its shard. -/
structure LockInv (s : LockedStore P) : Prop where
  length : s.locks.length = s.store.shards.length
  fresh : ∀ {id}, s.nextId ≤ id → s.running.lookup id = none
  lt : ∀ {id shard : Nat} {exclusive : Bool}, s.lockOf id = some (shard, exclusive) → shard < s.locks.length
  holds_iff : ∀ {shard : Nat} {lock : RwLock}, s.locks[shard]? = some lock →
    ∀ exclusive id, lock.Holds exclusive id ↔ s.lockOf id = some (shard, exclusive)
  shared : ∀ {id shard : Nat} {r : Running} {a : Access},
    s.running.lookup id = some (.inside r false shard (.inl a)) → a.exclusive = false

namespace LockInv

theorem start (store : Store P) (clock : Int) : LockInv (LockedStore.start store clock) where
  length := List.length_replicate
  fresh _ := Finmap.lookup_empty _
  lt h := by cases h
  holds_iff hlock exclusive id := by
    rw [List.eq_of_mem_replicate (List.mem_of_getElem? hlock)]
    exact iff_of_false RwLock.not_holds_free (fun h => by cases h)
  shared h := by cases h

theorem exists_lock {id shard : Nat} {exclusive : Bool} (h : LockInv s) (hid : s.lockOf id = some (shard, exclusive)) :
    ∃ lock, s.locks[shard]? = some lock ∧ lock.Holds exclusive id := by
  refine ⟨_, List.getElem?_eq_getElem (h.lt hid), ?_⟩
  exact (h.holds_iff (List.getElem?_eq_getElem (h.lt hid)) exclusive id).mpr hid

theorem unique {id i shard : Nat} {exclusive : Bool} (h : LockInv s) (hid : s.lockOf id = some (shard, true))
    (hi : s.lockOf i = some (shard, exclusive)) : i = id := by
  obtain ⟨lock, hlock, hholds⟩ := h.exists_lock hid
  exact (hholds.unique ((h.holds_iff hlock exclusive i).mpr hi)).2

theorem id_lt {id : Nat} {stage : Stage} (h : LockInv s) (hid : s.running.lookup id = some stage) : id < s.nextId := by
  rcases Nat.lt_or_ge id s.nextId with hlt | hge
  · exact hlt
  · rw [h.fresh hge] at hid; cases hid

theorem fresh_insert {id : Nat} {stage stage' : Stage} (h : LockInv s) (hid : s.running.lookup id = some stage)
    {i : Nat} (hle : s.nextId ≤ i) : (s.running.insert id stage').lookup i = none := by
  have hlt := h.id_lt hid
  rw [Finmap.lookup_insert_ite, if_neg (by omega)]
  exact h.fresh hle

theorem holds_iff_acquired {id shard shard' : Nat} {exclusive : Bool} {lock lock' lock'' : RwLock} (h : LockInv s)
    (hnone : s.lockOf id = none) (hlock : s.locks[shard]? = some lock) (hacquire : lock.acquire exclusive id = some lock')
    (hlock'' : (s.locks.set shard lock')[shard']? = some lock'') (e : Bool) (i : Nat) :
    lock''.Holds e i ↔ (if i = id then some (shard, exclusive) else s.lockOf i) = some (shard', e) := by
  rw [List.getElem?_set] at hlock''
  split_ifs at hlock'' with hshard
  · cases hlock''
    subst hshard
    rw [RwLock.holds_acquire hacquire, h.holds_iff hlock]
    split_ifs with hi
    · rw [hi, hnone]
      simp [eq_comm]
    · simp [hi]
  · rw [h.holds_iff hlock'']
    split_ifs with hi
    · rw [hi, hnone]
      simp [hshard]
    · exact Iff.rfl

/-- A step that changes no lock and nobody's position with respect to them. -/
theorem of_lockOf (h : LockInv s) (hlocks : s'.locks = s.locks) (hlength : s'.store.shards.length = s.store.shards.length)
    (hlockOf : ∀ id, s'.lockOf id = s.lockOf id) (hfresh : ∀ {id}, s'.nextId ≤ id → s'.running.lookup id = none)
    (hshared : ∀ {id shard : Nat} {r : Running} {a : Access},
      s'.running.lookup id = some (.inside r false shard (.inl a)) → a.exclusive = false) : LockInv s' where
  length := by rw [hlocks, hlength]; exact h.length
  fresh := hfresh
  lt hid := by rw [hlocks]; exact h.lt ((hlockOf _).symm.trans hid)
  holds_iff hlock exclusive id := by rw [hlocks] at hlock; rw [hlockOf]; exact h.holds_iff hlock exclusive id
  shared := hshared

theorem resume {id : Nat} (hlength : s.locks.length = s.store.shards.length)
    (hfresh : ∀ {id}, s.nextId ≤ id → s.running.lookup id = none)
    (hlt : ∀ {id shard : Nat} {exclusive : Bool}, s.lockOf id = some (shard, exclusive) → shard < s.locks.length)
    (hholds : ∀ {shard : Nat} {lock : RwLock}, s.locks[shard]? = some lock →
      ∀ exclusive i, lock.Holds exclusive i ↔ i ≠ id ∧ s.lockOf i = some (shard, exclusive))
    (hshared : ∀ {id shard : Nat} {r : Running} {a : Access},
      s.running.lookup id = some (.inside r false shard (.inl a)) → a.exclusive = false)
    (hid : id < s.nextId) (r : Running) (out : Outcome) : LockInv (s.resume id r out).1 where
  length := by rw [LockedStore.locks_resume, LockedStore.store_resume]; exact hlength
  fresh hle := by
    rw [LockedStore.nextId_resume] at hle
    rw [LockedStore.lookup_resume, if_neg (by omega)]
    exact hfresh hle
  lt hlock := by
    rw [LockedStore.lockOf_resume] at hlock
    split_ifs at hlock
    rw [LockedStore.locks_resume]
    exact hlt hlock
  holds_iff hlock exclusive i := by
    rw [LockedStore.locks_resume] at hlock
    rw [hholds hlock, LockedStore.lockOf_resume]
    split_ifs with hi
    · exact iff_of_false (fun h => h.1 hi) (fun h => by cases h)
    · exact ⟨fun h => h.2, fun h => ⟨hi, h⟩⟩
  shared hinside := by
    rw [LockedStore.lookup_resume] at hinside
    split_ifs at hinside
    · cases out <;> cases hinside
    · exact hshared hinside

theorem operation {id : Nat} (hmove : OperationMove s id evs s') (h : LockInv s) : LockInv s' := by
  cases hmove with
  | @free r hid hsection =>
    obtain ⟨count, out, hadvance⟩ := Running.advance_of_section_none hsection s.clock
    have hnone := LockedStore.lockOf_waiting hid
    rw [hadvance s.store rfl]
    refine resume (s := { s with store := { s.store with activeExpirations := s.store.activeExpirations + count } })
      h.length h.fresh h.lt (fun hlock exclusive i => ?_) h.shared (h.id_lt hid) r out
    refine (h.holds_iff hlock exclusive i).trans ⟨fun hi => ⟨?_, hi⟩, fun hi => hi.2⟩
    rintro rfl
    cases hnone.symm.trans hi
  | @acquire shard r a lock lock' hid hsection hlock hacquire =>
    have hnone := LockedStore.lockOf_waiting hid
    have hlt : shard < s.locks.length := (List.getElem?_eq_some_iff.mp hlock).1
    refine ⟨List.length_set.trans h.length, ?_, ?_, ?_, ?_⟩
    · exact h.fresh_insert hid
    · intro i shard' exclusive hi
      rw [LockedStore.lockOf_insert (s := s) _ rfl] at hi
      dsimp only
      rw [List.length_set]
      split_ifs at hi
      · cases hi; exact hlt
      · exact h.lt hi
    · intro shard' lock'' hlock'' exclusive i
      rw [LockedStore.lockOf_insert (s := s) _ rfl]
      exact h.holds_iff_acquired hnone hlock hacquire hlock'' exclusive i
    · intro i shard' r' a' hi
      rcases Finmap.lookup_insert_eq_some hi with ⟨-, heq⟩ | ⟨-, hold⟩
      · injection heq with h1 h2 h3 h4
        cases h4
        exact h2.symm
      · exact h.shared hold
  | @access shard r exclusive a sh sh' rest hid hsh hmicro =>
    refine h.of_lockOf rfl List.length_set ?_ ?_ ?_
    · intro i
      rw [LockedStore.lockOf_insert (s := s) _ rfl]
      split_ifs with hi
      · subst hi
        unfold LockedStore.lockOf
        rw [hid]; rfl
      · rfl
    · exact h.fresh_insert hid
    · intro i shard' r' a' hi
      rcases Finmap.lookup_insert_eq_some hi with ⟨-, heq⟩ | ⟨-, hold⟩
      · injection heq with h1 h2 h3 h4
        subst h2
        exact (Access.micro_shared (h.shared hid) hmicro).2 a' h4.symm
      · exact h.shared hold
  | @release shard r exclusive out hid =>
    have hheld := LockedStore.lockOf_inside hid
    refine resume (s := s.release id shard) ?_ h.fresh ?_ ?_ h.shared (h.id_lt hid) r out
    · exact (List.length_modify ..).trans h.length
    · intro i shard' e hi
      exact (h.lt hi).trans_eq (List.length_modify ..).symm
    · intro shard' lock' hlock' e i
      have hmodify : (s.locks.modify shard (RwLock.release id))[shard']? = some lock' := hlock'
      rw [List.getElem?_modify] at hmodify
      obtain ⟨lock, hlock, rfl⟩ := Option.map_eq_some_iff.mp hmodify
      show _ ↔ i ≠ id ∧ s.lockOf i = some (shard', e)
      rw [← h.holds_iff hlock]
      split_ifs with hshard
      · subst hshard
        rw [RwLock.holds_release ((h.holds_iff hlock exclusive id).mpr hheld)]
        exact and_comm
      · refine ⟨fun hi => ⟨?_, hi⟩, fun hi => hi.2⟩
        rintro rfl
        cases hheld.symm.trans ((h.holds_iff hlock e i).mp hi)
        exact hshard rfl

/-- An access touches no other shard, and none at all under a shared lock. -/
theorem getElem?_access {id shard shard' : Nat} {r : Running} {exclusive : Bool} {a : Access} {sh sh' : Shard P}
    {rest : Access ⊕ Outcome} (h : LockInv s) (hid : s.running.lookup id = some (.inside r exclusive shard (.inl a)))
    (hsh : s.store.shards[shard]? = some sh) (hmicro : a.micro sh = some (sh', rest))
    (hother : shard' ≠ shard ∨ exclusive = false) :
    (s.store.putShardAt shard sh').shards[shard']? = s.store.shards[shard']? := by
  rcases hother with hne | rfl
  · exact List.getElem?_set_ne hne.symm
  · rw [(Access.micro_shared (h.shared hid) hmicro).1, Store.putShardAt_self hsh]

theorem getElem?_access_of_ne {id i shard shard' : Nat} {r r' : Running} {exclusive exclusive' : Bool} {a : Access}
    {sh sh' : Shard P} {rest rest' : Access ⊕ Outcome} (h : LockInv s)
    (hid : s.running.lookup id = some (.inside r exclusive shard (.inl a))) (hsh : s.store.shards[shard]? = some sh)
    (hmicro : a.micro sh = some (sh', rest)) (hi : s.running.lookup i = some (.inside r' exclusive' shard' rest'))
    (hne : i ≠ id) : (s.store.putShardAt shard sh').shards[shard']? = s.store.shards[shard']? := by
  refine h.getElem?_access hid hsh hmicro ?_
  by_cases heq : shard' = shard
  · subst heq
    cases exclusive with
    | false => exact .inr rfl
    | true => exact absurd (h.unique (LockedStore.lockOf_inside hid) (LockedStore.lockOf_inside hi)) hne
  · exact .inl heq

theorem step (hmove : LockedMove s evs s') (h : LockInv s) : LockInv s' := by
  cases hmove with
  | @call op =>
    have hnew : s.running.lookup s.nextId = none := h.fresh (Nat.le_refl _)
    refine h.of_lockOf rfl rfl ?_ ?_ ?_
    · intro id
      rw [LockedStore.lockOf_insert _ rfl]
      split_ifs with hid
      · rw [hid]
        unfold LockedStore.lockOf
        rw [hnew]; rfl
      · rfl
    · intro id hle
      dsimp only at hle ⊢
      rw [Finmap.lookup_insert_ite, if_neg (by omega)]
      exact h.fresh (by omega)
    · intro id shard r a hid
      rcases Finmap.lookup_insert_eq_some hid with ⟨-, heq⟩ | ⟨-, hold⟩
      · cases heq
      · exact h.shared hold
  | operation hmove => exact h.operation hmove
  | tick => exact ⟨h.length, h.fresh, h.lt, h.holds_iff, h.shared⟩

end LockInv

/-! ### What is seen from outside -/

/-- The section of `r` on `shard`, `before` when it began, is `now` after some of its accesses, and what is left of it
leads where the whole section leads from `before`. -/
def Midway (st : Store P) (r : Running) (shard : Nat) (before now : Shard P) (rest : Access ⊕ Outcome) : Prop :=
  ∃ a sh' out, r.section st = some (shard, a) ∧ Completes Access.micro a before sh' out ∧
    Finishes Access.micro rest now sh' out

structure Reflects (s : LockedStore P) (c : ConcurrentStore P) : Prop where
  clock : c.clock = s.clock
  nextId : c.nextId = s.nextId
  active : c.store.activeExpirations = s.store.activeExpirations
  length : c.store.shards.length = s.store.shards.length
  running : ∀ id, c.running.lookup id = (s.running.lookup id).map Stage.running
  settled : ∀ {shard : Nat}, (∀ id, s.lockOf id ≠ some (shard, true)) →
    c.store.shards[shard]? = s.store.shards[shard]?
  midway : ∀ {id shard : Nat} {r : Running} {exclusive : Bool} {rest : Access ⊕ Outcome},
    s.running.lookup id = some (.inside r exclusive shard rest) →
    ∃ before now, c.store.shards[shard]? = some before ∧ s.store.shards[shard]? = some now ∧
      Midway s.store r shard before now rest

namespace Reflects

theorem start (store : Store P) (clock : Int) : Reflects (LockedStore.start store clock) { store, clock } where
  clock := rfl
  nextId := rfl
  active := rfl
  length := rfl
  running id := by
    show (∅ : Finmap fun _ : Nat => Running).lookup id = ((∅ : Finmap fun _ : Nat => Stage).lookup id).map Stage.running
    rw [Finmap.lookup_empty, Finmap.lookup_empty]; rfl
  settled _ := rfl
  midway h := by cases h

/-- The operations in progress in `ConcurrentStore` after a step of `id`. -/
def continued (running : Finmap fun _ : Nat => Running) (id : Nat) : Outcome → Finmap fun _ : Nat => Running
  | .inl r => running.insert id r
  | .inr _ => running.erase id

theorem lookup_continued (h : ∀ id, c.running.lookup id = (s.running.lookup id).map Stage.running)
    (id : Nat) (r : Running) (out : Outcome) (i : Nat) :
    (continued c.running id out).lookup i = ((s.resume id r out).1.running.lookup i).map Stage.running := by
  rw [LockedStore.lookup_resume]
  cases out with
  | inl r' =>
    rw [continued, Finmap.lookup_insert_ite, h i]
    split_ifs <;> rfl
  | inr reply =>
    rw [continued, Finmap.lookup_erase_ite, h i]
    split_ifs <;> rfl

theorem step_continued {id : Nat} {r : Running} {out : Outcome} {store : Store P}
    (hclock : c.clock = s.clock) (hid : c.running.lookup id = some r)
    (hadvance : r.advance c.store c.clock = (store, out)) :
    Step ConcurrentStore.step c (s.resume id r out).2 { c with store, running := continued c.running id out } := by
  refine ⟨.advance id, ?_⟩
  unfold ConcurrentStore.step
  dsimp only
  rw [hid, Option.map_some]
  unfold ConcurrentStore.advance
  rw [hadvance]
  cases out with
  | inl r' => rw [hclock]; rfl
  | inr reply => rw [hclock]; rfl

theorem resume {c' : ConcurrentStore P} {id : Nat} {r : Running} {out : Outcome} (hclock : c'.clock = s.clock)
    (hnextId : c'.nextId = s.nextId) (hactive : c'.store.activeExpirations = s.store.activeExpirations)
    (hlength : c'.store.shards.length = s.store.shards.length)
    (hrunning : ∀ i, c'.running.lookup i = ((s.resume id r out).1.running.lookup i).map Stage.running)
    (hsettled : ∀ {shard : Nat}, (∀ i, i ≠ id → s.lockOf i ≠ some (shard, true)) →
      c'.store.shards[shard]? = s.store.shards[shard]?)
    (hmidway : ∀ {i shard : Nat} {r : Running} {exclusive : Bool} {rest : Access ⊕ Outcome}, i ≠ id →
      s.running.lookup i = some (.inside r exclusive shard rest) →
      ∃ before now, c'.store.shards[shard]? = some before ∧ s.store.shards[shard]? = some now ∧
        Midway s.store r shard before now rest) : Reflects (s.resume id r out).1 c' where
  clock := by rw [LockedStore.clock_resume]; exact hclock
  nextId := by rw [LockedStore.nextId_resume]; exact hnextId
  active := by rw [LockedStore.store_resume]; exact hactive
  length := by rw [LockedStore.store_resume]; exact hlength
  running := hrunning
  settled hnone := by
    rw [LockedStore.store_resume]
    refine hsettled fun i hi hheld => hnone i ?_
    rw [LockedStore.lockOf_resume, if_neg hi]
    exact hheld
  midway hinside := by
    rw [LockedStore.store_resume]
    rw [LockedStore.lookup_resume] at hinside
    split_ifs at hinside with hi
    · cases out <;> cases hinside
    · exact hmidway hi hinside

theorem free {id : Nat} {r : Running} (h : Reflects s c) (hid : s.running.lookup id = some (.waiting r))
    (hsection : r.section s.store = none) :
    ∃ c', Exec (Step ConcurrentStore.step) c
        ({ s with store := (r.advance s.store s.clock).1 }.resume id r (r.advance s.store s.clock).2).2 c' ∧
      Reflects ({ s with store := (r.advance s.store s.clock).1 }.resume id r (r.advance s.store s.clock).2).1 c' := by
  obtain ⟨count, out, hadvance⟩ := Running.advance_of_section_none hsection s.clock
  have hc := hadvance c.store h.length
  rw [← h.clock] at hc
  have hrunning : c.running.lookup id = some r := by rw [h.running, hid]; rfl
  have hnone := LockedStore.lockOf_waiting hid
  rw [hadvance s.store rfl]
  let s₁ : LockedStore P :=
    { s with store := { s.store with activeExpirations := s.store.activeExpirations + count } }
  refine ⟨_, .single (step_continued (s := s₁) h.clock hrunning hc), ?_⟩
  refine resume (s := s₁) h.clock h.nextId (congrArg (· + count) h.active) h.length
    (lookup_continued (s := s₁) h.running id r out) (fun hothers => h.settled fun i hi => ?_) fun _ => h.midway
  rcases eq_or_ne i id with rfl | hne
  · cases hnone.symm.trans hi
  · exact hothers i hne hi

theorem acquire {id shard : Nat} {r : Running} {a : Access} {lock lock' : RwLock} (hlocks : LockInv s)
    (h : Reflects s c) (hid : s.running.lookup id = some (.waiting r)) (hsection : r.section s.store = some (shard, a))
    (hlock : s.locks[shard]? = some lock) (hacquire : lock.acquire a.exclusive id = some lock') :
    Reflects { s with
      locks := s.locks.set shard lock'
      running := s.running.insert id (.inside r a.exclusive shard (.inl a)) } c := by
  have hnone := LockedStore.lockOf_waiting hid
  refine ⟨h.clock, h.nextId, h.active, h.length, ?_, ?_, ?_⟩
  · intro i
    dsimp only
    rw [Finmap.lookup_insert_ite]
    split_ifs with hi
    · rw [h.running, hi, hid]; rfl
    · exact h.running i
  · intro shard' hothers
    refine h.settled fun i hi => hothers i ?_
    rw [LockedStore.lockOf_insert (s := s) _ rfl, if_neg, hi]
    rintro rfl
    cases hnone.symm.trans hi
  · intro i shard' r' exclusive rest hi
    rcases Finmap.lookup_insert_eq_some hi with ⟨-, heq⟩ | ⟨-, hold⟩
    · -- nobody holds the shard alone, so it is seen as it is
      cases heq
      have hsettled := h.settled fun i hi =>
        RwLock.not_holds_of_acquire hacquire ((hlocks.holds_iff hlock true i).mpr hi)
      have hsh := List.getElem?_eq_getElem (Running.section_lt hsection)
      obtain ⟨sh', out, hcompletes, -⟩ := Running.completes_section hsection hsh
      exact ⟨_, _, hsettled.trans hsh, hsh, a, sh', out, hsection, hcompletes, hcompletes⟩
    · exact h.midway hold

theorem access {id shard : Nat} {r : Running} {exclusive : Bool} {a : Access} {sh sh' : Shard P}
    {rest : Access ⊕ Outcome} (hlocks : LockInv s) (h : Reflects s c)
    (hid : s.running.lookup id = some (.inside r exclusive shard (.inl a))) (hsh : s.store.shards[shard]? = some sh)
    (hmicro : a.micro sh = some (sh', rest)) :
    Reflects { s with
      store := s.store.putShardAt shard sh'
      running := s.running.insert id (.inside r exclusive shard rest) } c := by
  have hheld := LockedStore.lockOf_inside hid
  have hlength : (s.store.putShardAt shard sh').shards.length = s.store.shards.length := List.length_set
  refine ⟨h.clock, h.nextId, h.active, h.length.trans hlength.symm, ?_, ?_, ?_⟩
  · intro i
    dsimp only
    rw [Finmap.lookup_insert_ite]
    split_ifs with hi
    · rw [h.running, hi, hid]; rfl
    · exact h.running i
  · intro shard' hothers
    have hlockOf : ∀ i, s.lockOf i ≠ some (shard', true) := by
      intro i hi
      refine hothers i ?_
      rw [LockedStore.lockOf_insert (s := s) _ rfl]
      split_ifs with heq
      · rw [← hi, heq, hheld]; rfl
      · exact hi
    refine (h.settled hlockOf).trans (hlocks.getElem?_access hid hsh hmicro ?_).symm
    by_cases hne : shard' = shard
    · subst hne
      cases exclusive with
      | false => exact .inr rfl
      | true => exact absurd hheld (hlockOf id)
    · exact .inl hne
  · intro i shard' r' exclusive' rest' hi
    rcases Finmap.lookup_insert_eq_some hi with ⟨-, heq⟩ | ⟨hne, hold⟩
    · cases heq
      obtain ⟨before, now, hbefore, hnow, a₀, sh'', out, hsection, hcompletes, hrest⟩ := h.midway hid
      cases hsh.symm.trans hnow
      obtain ⟨sh₁, next, hstep, hfinishes⟩ := Completes.step hrest
      cases hmicro.symm.trans hstep
      have hput : (s.store.putShardAt shard sh').shards[shard]? = some sh' :=
        List.getElem?_set_self (List.getElem?_eq_some_iff.mp hsh).1
      exact ⟨before, sh', hbefore, hput, a₀, sh'', out, (Running.section_congr hlength r).trans hsection, hcompletes,
        hfinishes⟩
    · obtain ⟨before, now, hbefore, hnow, a₀, sh'', out, hsection, hrest⟩ := h.midway hold
      have hkept := (hlocks.getElem?_access_of_ne hid hsh hmicro hold hne).trans hnow
      exact ⟨before, now, hbefore, hkept, a₀, sh'', out, (Running.section_congr hlength r').trans hsection, hrest⟩

theorem release {id shard : Nat} {r : Running} {exclusive : Bool} {out : Outcome} (hlocks : LockInv s)
    (h : Reflects s c) (hid : s.running.lookup id = some (.inside r exclusive shard (.inr out))) :
    ∃ c', Exec (Step ConcurrentStore.step) c ((s.release id shard).resume id r out).2 c' ∧
      Reflects ((s.release id shard).resume id r out).1 c' := by
  have hheld := LockedStore.lockOf_inside hid
  have hrunning : c.running.lookup id = some r := by rw [h.running, hid]; rfl
  obtain ⟨before, now, hbefore, hnow, a, sh', out', hsection, hcompletes, rfl, rfl⟩ := h.midway hid
  -- the section as a whole, on the shard as it was
  have hadvance : r.advance c.store c.clock = (c.store.putShardAt shard sh', out') := by
    obtain ⟨sh₁, out₁, hcompletes₁, hadvance⟩ :=
      Running.completes_section ((Running.section_congr h.length r).trans hsection) hbefore
    obtain ⟨rfl, rfl⟩ := hcompletes.unique hcompletes₁
    exact hadvance c.clock
  have hput : (c.store.putShardAt shard sh').shards[shard]? = some sh' :=
    List.getElem?_set_self (List.getElem?_eq_some_iff.mp hbefore).1
  have hother : ∀ shard', shard' ≠ shard → (c.store.putShardAt shard sh').shards[shard']? = c.store.shards[shard']? :=
    fun shard' hne => List.getElem?_set_ne hne.symm
  have hlength : (c.store.putShardAt shard sh').shards.length = s.store.shards.length := List.length_set.trans h.length
  refine ⟨_, .single (step_continued (s := s.release id shard) h.clock hrunning hadvance), ?_⟩
  refine resume (s := s.release id shard) h.clock h.nextId h.active hlength
    (lookup_continued (s := s.release id shard) h.running id r out') ?_ ?_
  · intro shard' hothers
    by_cases hshard : shard' = shard
    · rw [hshard]; exact hput.trans hnow.symm
    · refine (hother shard' hshard).trans (h.settled fun i hi => ?_)
      rcases eq_or_ne i id with rfl | hne
      · cases hheld.symm.trans hi; exact hshard rfl
      · exact hothers i hne hi
  · intro i shard' r' exclusive' rest hne hi
    obtain ⟨before', now', hbefore', hnow', hmid⟩ := h.midway hi
    by_cases hshard : shard' = shard
    · -- two are inside: the lock is shared, and the shard has been seen as it is all the time
      subst hshard
      have hheld' : s.lockOf i = some (shard', exclusive') := LockedStore.lockOf_inside hi
      have hsettled : c.store.shards[shard']? = s.store.shards[shard']? := by
        refine h.settled fun j hj => hne ?_
        rw [hlocks.unique hj hheld', hlocks.unique hj hheld]
      refine ⟨before', now', ?_, hnow', hmid⟩
      exact hput.trans (hnow.symm.trans (hsettled.symm.trans hbefore'))
    · exact ⟨before', now', (hother shard' hshard).trans hbefore', hnow', hmid⟩

theorem step (hmove : LockedMove s evs s') (hlocks : LockInv s) (h : Reflects s c) :
    ∃ c', Exec (Step ConcurrentStore.step) c evs c' ∧ Reflects s' c' := by
  cases hmove with
  | @call op =>
    have hstep : c.step (.call op) = some ({ c with
        running := c.running.insert c.nextId (.called op), nextId := c.nextId + 1 },
        [.called s.nextId s.clock op]) := by
      rw [← h.clock, ← h.nextId]; rfl
    refine ⟨_, .single ⟨.call op, hstep⟩, ?_⟩
    have hnew : s.running.lookup s.nextId = none := hlocks.fresh (Nat.le_refl _)
    refine ⟨h.clock, congrArg (· + 1) h.nextId, h.active, h.length, ?_, ?_, ?_⟩
    · intro i
      dsimp only
      rw [Finmap.lookup_insert_ite, Finmap.lookup_insert_ite, h.nextId, h.running i]
      split_ifs <;> rfl
    · intro shard hnone
      refine h.settled fun i hi => hnone i ?_
      rw [LockedStore.lockOf_insert (s := s) _ rfl, if_neg, hi]
      rintro rfl
      unfold LockedStore.lockOf at hi
      rw [hnew] at hi
      cases hi
    · intro i shard r exclusive rest hi
      rcases Finmap.lookup_insert_eq_some hi with ⟨-, heq⟩ | ⟨-, hold⟩
      · cases heq
      · exact h.midway hold
  | operation hmove =>
    cases hmove with
    | free hid hsection => exact h.free hid hsection
    | acquire hid hsection hlock hacquire => exact ⟨c, .refl, h.acquire hlocks hid hsection hlock hacquire⟩
    | access hid hsh hmicro => exact ⟨c, .refl, h.access hlocks hid hsh hmicro⟩
    | release hid => exact h.release hlocks hid
  | @tick clock hle =>
    have hstep : c.step (.tick clock) = some ({ c with clock }, []) := by
      rw [ConcurrentStore.step, if_pos (h.clock.trans_le hle)]
    exact ⟨_, .single ⟨.tick clock, hstep⟩, rfl, h.nextId, h.active, h.length, h.running, h.settled, h.midway⟩

end Reflects

abbrev LockedStore.Run (s : LockedStore P) := Exec (Step LockedStore.step) s

theorem LockedStore.Run.reflects {store : Store P} {clock : Int} (hrun : (LockedStore.start store clock).Run log s) :
    ∃ c, ConcurrentStore.Run { store, clock } log c ∧ LockInv s ∧ Reflects s c := by
  have hstep : ∀ (s : LockedStore P) (c : ConcurrentStore P) evs s', LockInv s ∧ Reflects s c →
      Step LockedStore.step s evs s' → ∃ c', Exec (Step ConcurrentStore.step) c evs c' ∧ LockInv s' ∧ Reflects s' c' := by
    rintro s c evs s' ⟨hlocks, hreflects⟩ ⟨choice, hstep⟩
    have hmove := move_of_step hstep
    obtain ⟨c', hexec, hreflects'⟩ := hreflects.step hmove hlocks
    exact ⟨c', hexec, hlocks.step hmove, hreflects'⟩
  exact Exec.simulate hstep ⟨LockInv.start store clock, Reflects.start store clock⟩ hrun

/-- A step of anybody but the operation `id`. -/
def LockedStore.OthersStep (id : Nat) (s : LockedStore P) (evs : List StoreEvent) (s' : LockedStore P) : Prop :=
  ∃ choice, choice ≠ .advance id ∧ s.step choice = some (s', evs)

/-- `s'` shows the operation `id` what `s` shows it: its place and the shard whose lock it holds. -/
def LockedStore.SameFor (id shard : Nat) (s s' : LockedStore P) : Prop :=
  s'.running.lookup id = s.running.lookup id ∧ s'.store.shards[shard]? = s.store.shards[shard]?

theorem LockInv.sameFor_step {id shard : Nat} {r : Running} {exclusive : Bool} {rest : Access ⊕ Outcome}
    (h : LockInv s) (hid : s.running.lookup id = some (.inside r exclusive shard rest))
    (hstep : LockedStore.OthersStep id s evs s') : LockedStore.SameFor id shard s s' := by
  obtain ⟨choice, hother, hstep⟩ := hstep
  cases choice with
  | call op =>
    cases hstep
    exact ⟨Finmap.lookup_insert_of_ne _ (Nat.ne_of_lt (h.id_lt hid)), rfl⟩
  | tick clock =>
    rw [LockedStore.step] at hstep
    split_ifs at hstep
    cases hstep
    exact ⟨rfl, rfl⟩
  | advance i =>
    have hne : id ≠ i := fun heq => hother (heq ▸ rfl)
    cases LockedStore.move_of_advance hstep with
    | @free r' hi hsection =>
      obtain ⟨count, out, hadvance⟩ := Running.advance_of_section_none hsection s.clock
      rw [hadvance s.store rfl]
      refine ⟨?_, by rw [LockedStore.store_resume]⟩
      rw [LockedStore.lookup_resume, if_neg hne]
    | acquire hi hsection hlock hacquire => exact ⟨Finmap.lookup_insert_of_ne _ hne, rfl⟩
    | access hi hsh hmicro =>
      exact ⟨Finmap.lookup_insert_of_ne _ hne, h.getElem?_access_of_ne hi hsh hmicro hid hne⟩
    | release hi =>
      refine ⟨?_, by rw [LockedStore.store_resume]; rfl⟩
      rw [LockedStore.lookup_resume, if_neg hne]; rfl

theorem LockInv.sameFor {id shard : Nat} {r : Running} {exclusive : Bool} {rest : Access ⊕ Outcome} (h : LockInv s)
    (hid : s.running.lookup id = some (.inside r exclusive shard rest))
    (hexec : Exec (LockedStore.OthersStep id) s log s') : LockedStore.SameFor id shard s s' := by
  have hstep : ∀ (log evs : List StoreEvent) (s₁ s₂ : LockedStore P), LockInv s₁ ∧ LockedStore.SameFor id shard s s₁ →
      LockedStore.OthersStep id s₁ evs s₂ → LockInv s₂ ∧ LockedStore.SameFor id shard s s₂ := by
    rintro log evs s₁ s₂ ⟨hinv, hsame⟩ hothers
    obtain ⟨hplace, hshard⟩ := hinv.sameFor_step (hsame.1.trans hid) hothers
    refine ⟨?_, hplace.trans hsame.1, hshard.trans hsame.2⟩
    obtain ⟨choice, -, hstep⟩ := hothers
    exact hinv.step (LockedStore.move_of_step hstep)
  exact (Exec.invariant ⟨h, rfl, rfl⟩ hstep hexec).2

/-- With one lock per shard the sections of `store.cpp` are atomic. Whatever order the threads take their accesses
in, the calls and answers are those of a run in which each section is one step; a shard that nobody holds alone is
what it is in that run; no access is made to an entry or a candidate that another thread has taken away; and
between two accesses of a section nobody else changes its shard, so that an iterator stands for the entry it was
found as. -/
theorem locked_store_refines {store : Store P} {clock : Int} (hrun : (LockedStore.start store clock).Run log s) :
    (∃ c, ConcurrentStore.Run { store, clock } log c ∧ c.clock = s.clock ∧
      ∀ shard, (∀ id, s.lockOf id ≠ some (shard, true)) → c.store.shards[shard]? = s.store.shards[shard]?) ∧
    (∀ id r exclusive shard a, s.running.lookup id = some (.inside r exclusive shard (.inl a)) →
      ∃ sh, s.store.shards[shard]? = some sh ∧ (a.micro sh).isSome = true) ∧
    ∀ id r exclusive shard rest log' s', s.running.lookup id = some (.inside r exclusive shard rest) →
      Exec (LockedStore.OthersStep id) s log' s' → LockedStore.SameFor id shard s s' := by
  obtain ⟨c, hexec, hlocks, hreflects⟩ := hrun.reflects
  refine ⟨⟨c, hexec, hreflects.clock, fun shard => hreflects.settled⟩, fun id r exclusive shard a hid => ?_,
    fun id r exclusive shard rest log' s' => hlocks.sameFor⟩
  obtain ⟨before, now, -, hnow, a₀, sh', out, -, -, hrest⟩ := hreflects.midway hid
  obtain ⟨sh₁, next, hmicro, -⟩ := Completes.step hrest
  exact ⟨now, hnow, by rw [hmicro]; rfl⟩

end

/-- A writer has made the entry of its key and not yet filled it in; a reader of the key waits for the lock. -/
def halfWritten : List StoreChoice :=
  [.call (.set [107] [118]), .call (.get [107]), .advance 1, .advance 0, .advance 0]

theorem halfWritten_isSome :
    (run LockedStore.step (LockedStore.start Store.small 0) halfWritten).isSome = true := rfl

theorem locked_store_refines_halfWritten :
    ∃ log s, (LockedStore.start Store.small 0).Run log s ∧
      ((s.store.shardFor [107]).entries.lookup [107] = some .fresh) ∧
      (∃ c, ConcurrentStore.Run { store := Store.small, clock := 0 } log c ∧ c.clock = s.clock ∧
        ∀ shard, (∀ id, s.lockOf id ≠ some (shard, true)) → c.store.shards[shard]? = s.store.shards[shard]?) ∧
      (∀ id r exclusive shard a, s.running.lookup id = some (.inside r exclusive shard (.inl a)) →
        ∃ sh, s.store.shards[shard]? = some sh ∧ (a.micro sh).isSome = true) ∧
      ∀ id r exclusive shard rest log' s', s.running.lookup id = some (.inside r exclusive shard rest) →
        Exec (LockedStore.OthersStep id) s log' s' → LockedStore.SameFor id shard s s' :=
  ⟨_, _, exec_of_isSome halfWritten_isSome, rfl, locked_store_refines (exec_of_isSome halfWritten_isSome)⟩

end KvStore
