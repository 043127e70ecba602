import KvStore.Lib.Backlog
import KvStore.Sweep
import Mathlib.Algebra.Order.Group.Multiset

/-!
# What the expiration heaps hold

A successful EXPIRE puts a candidate into the heap of the key's shard, and only a sweep takes one out, when its
deadline has come. So a heap holds every candidate ever scheduled whose deadline is ahead, also those of keys
that were deleted, overwritten or scheduled again (`expiration_ledger`): what bounds it is not the number of
keys but the rate of EXPIREs and their lengths. How far the sweeps are behind follows from the number of
candidates that come due between them, exactly (`sweep_keeps_up_iff`).
-/

namespace KvStore
open ByteString PriorityQueue

namespace Shard
variable {P : Platform} {sh : Shard P} {now : Int} {key : Bytes}

theorem expirationHeap_readLive (sh : Shard P) (now : Int) (key : Bytes) :
    (sh.readLive now key).1.expirationHeap = sh.expirationHeap := by
  unfold readLive eraseExpired
  cases sh.find now key with
  | expired =>
    cases sh.entries.lookup key with
    | none => rfl
    | some e => dsimp only; split_ifs <;> rfl
  | _ => rfl

theorem expirationHeap_del (sh : Shard P) (now : Int) (key : Bytes) :
    (sh.del now key).1.expirationHeap = sh.expirationHeap := by
  unfold del
  cases sh.entries.lookup key <;> rfl

def candidate (sh : Shard P) (now : Int) (key : Bytes) (seconds : Int) : ExpirationCandidate :=
  ⟨P.chrono.addSeconds now seconds, sh.nextGeneration + 1, key⟩

theorem elems_expire (sh : Shard P) (now : Int) (key : Bytes) (seconds : Int) :
    P.heap.elems (sh.expire now key seconds).1.expirationHeap =
      (if (sh.expire now key seconds).2 then {sh.candidate now key seconds} else 0) +
        P.heap.elems sh.expirationHeap := by
  unfold expire
  cases sh.entries.lookup key with
  | none => exact (Multiset.zero_add _).symm
  | some e =>
    cases hexpired : isExpired e now with
    | true => simp only [hexpired, if_true, Bool.false_eq_true, if_false, Multiset.zero_add]
    | false =>
      simp only [hexpired, Bool.false_eq_true, if_false, if_true, P.heap.elems_push, Multiset.singleton_add]
      rfl

end Shard

def StoreOp.isSweep : StoreOp → Bool
  | .sweepExpired _ => true
  | _ => false

namespace Store
variable {P : Platform} {st : Store P} {c : StoreCall} {calls : List StoreCall} {i : Nat} {now : Int}

def heapAt (st : Store P) (i : Nat) : Multiset ExpirationCandidate :=
  match st.shards[i]? with
  | some sh => P.heap.elems sh.expirationHeap
  | none => 0

def pushes (st : Store P) (c : StoreCall) (i : Nat) : Multiset ExpirationCandidate :=
  match c.op with
  | .expire key seconds =>
    if st.shardIndex key = i ∧ (st.expire c.now key seconds).2 = true then
      {(st.shardFor key).candidate c.now key seconds}
    else 0
  | _ => 0

def scheduled (i : Nat) : Store P → List StoreCall → Multiset ExpirationCandidate
  | _, [] => 0
  | st, c :: calls => st.pushes c i + scheduled i (st.call c).1 calls

theorem heapAt_eq {sh : Shard P} (h : st.shards[i]? = some sh) : st.heapAt i = P.heap.elems sh.expirationHeap := by
  rw [heapAt, h]

theorem heapAt_putShard (st : Store P) (key : Bytes) (sh : Shard P) (i : Nat) :
    (st.putShard key sh).heapAt i =
      if st.shardIndex key = i then P.heap.elems sh.expirationHeap else st.heapAt i := by
  unfold heapAt putShard putShardAt
  dsimp only
  split_ifs with hi
  · rw [← hi, List.getElem?_set_self (st.shardIndex_lt key)]
  · rw [List.getElem?_set_ne hi]

theorem heapAt_shardIndex (st : Store P) (key : Bytes) :
    st.heapAt (st.shardIndex key) = P.heap.elems (st.shardFor key).expirationHeap :=
  heapAt_eq (List.getElem?_eq_getElem (st.shardIndex_lt key))

theorem heapAt_putShard_same {key : Bytes} {sh : Shard P}
    (h : sh.expirationHeap = (st.shardFor key).expirationHeap) : (st.putShard key sh).heapAt i = st.heapAt i := by
  rw [heapAt_putShard, h, ← heapAt_shardIndex]
  split_ifs with hi
  · rw [hi]
  · rfl

/-- Every call but a sweep leaves what is in the heap, and an EXPIRE that answers 1 adds its candidate. -/
theorem heapAt_call (hop : c.op.isSweep = false) : (st.call c).1.heapAt i = st.pushes c i + st.heapAt i := by
  obtain ⟨now, op⟩ := c
  cases op with
  | set key value =>
    have hheap : ((st.shardFor key).set key value).expirationHeap = (st.shardFor key).expirationHeap := rfl
    exact (heapAt_putShard_same hheap).trans (Multiset.zero_add _).symm
  | get key | exists_ key =>
    exact (heapAt_putShard_same (Shard.expirationHeap_readLive ..)).trans (Multiset.zero_add _).symm
  | ttl key =>
    show (st.ttl now key).1.heapAt i = _
    rw [fst_ttl]
    exact (heapAt_putShard_same (Shard.expirationHeap_readLive ..)).trans (Multiset.zero_add _).symm
  | del key => exact (heapAt_putShard_same (Shard.expirationHeap_del ..)).trans (Multiset.zero_add _).symm
  | expire key seconds =>
    show (st.putShard key ((st.shardFor key).expire now key seconds).1).heapAt i = _
    rw [heapAt_putShard, Shard.elems_expire, ← heapAt_shardIndex]
    unfold pushes
    dsimp only
    by_cases hi : st.shardIndex key = i
    · rw [if_pos hi, hi]
      congr 1
      exact if_congr (by simp; rfl) rfl rfl
    · rw [if_neg hi, if_neg fun h => hi h.1, Multiset.zero_add]
  | sweepExpired m => cases hop

/-- A sweep takes out as many candidates as are due, up to its batch size, and only such. -/
theorem heapAt_sweep (st : Store P) (now : Int) (m i : Nat) :
    ∃ popped : Multiset ExpirationCandidate, popped + (st.sweepExpired now m).1.heapAt i = st.heapAt i ∧
      (∀ c ∈ popped, c.deadline ≤ now) ∧
      popped.card = min m ((st.heapAt i).countP fun c => c.deadline ≤ now) := by
  unfold heapAt
  rw [shards_sweepExpired, List.getElem?_map]
  cases st.shards[i]? with
  | none => exact ⟨0, rfl, fun c hc => absurd hc (Multiset.notMem_zero c), by simp⟩
  | some sh =>
    obtain ⟨popped, hswept⟩ := Shard.sweep_swept now m sh
    exact ⟨popped, hswept.pops.elems.symm, fun c hc => hswept.popped_due c (Multiset.mem_coe.mp hc), hswept.length_eq⟩

theorem pushes_sweep (h : c.op.isSweep = true) : st.pushes c i = 0 := by
  obtain ⟨now, op⟩ := c
  cases op with
  | sweepExpired m => rfl
  | _ => cases h

/-- What was in the heap or was put into it is in the heap or was popped by a sweep, after its deadline. -/
theorem ledger (st : Store P) (calls : List StoreCall) (i : Nat) :
    ∃ popped : Multiset ExpirationCandidate, popped + (st.after calls).heapAt i = scheduled i st calls + st.heapAt i ∧
      ∀ c ∈ popped, ∃ call ∈ calls, call.op.isSweep = true ∧ c.deadline ≤ call.now := by
  induction calls generalizing st with
  | nil => exact ⟨0, rfl, fun c hc => absurd hc (Multiset.notMem_zero c)⟩
  | cons call calls ih =>
    obtain ⟨popped, hsum, hdue⟩ := ih (st.call call).1
    have hlater : ∀ c ∈ popped, ∃ call' ∈ call :: calls, call'.op.isSweep = true ∧ c.deadline ≤ call'.now :=
      fun c hc => by
        obtain ⟨call', hmem, h⟩ := hdue c hc
        exact ⟨call', List.mem_cons_of_mem _ hmem, h⟩
    cases hop : call.op.isSweep with
    | false =>
      refine ⟨popped, ?_, hlater⟩
      rw [heapAt_call hop, ← Multiset.add_assoc] at hsum
      rw [scheduled, Multiset.add_comm (st.pushes call i)]
      exact hsum
    | true =>
      obtain ⟨now, op⟩ := call
      cases op with
      | sweepExpired m =>
        obtain ⟨popped', hsum', hdue', -⟩ := heapAt_sweep st now m i
        refine ⟨popped' + popped, ?_, fun c hc => ?_⟩
        · rw [scheduled, pushes_sweep hop, zero_add]
          calc popped' + popped + ((st.call ⟨now, .sweepExpired m⟩).1.after calls).heapAt i
            _ = popped' + (scheduled i (st.call ⟨now, .sweepExpired m⟩).1 calls +
                (st.call ⟨now, .sweepExpired m⟩).1.heapAt i) := by rw [add_assoc, hsum]
            _ = scheduled i (st.call ⟨now, .sweepExpired m⟩).1 calls +
                (popped' + (st.sweepExpired now m).1.heapAt i) := add_left_comm _ _ _
            _ = scheduled i (st.call ⟨now, .sweepExpired m⟩).1 calls + st.heapAt i := by rw [hsum']
        · rcases Multiset.mem_add.mp hc with hc | hc
          · exact ⟨_, List.mem_cons_self, rfl, hdue' c hc⟩
          · exact hlater c hc
      | _ => cases hop

theorem heapAt_of_make {shardCount : Nat} (hst : Store.make P shardCount = .ok st) (i : Nat) : st.heapAt i = 0 := by
  unfold heapAt
  cases hsh : st.shards[i]? with
  | none => rfl
  | some sh =>
    have heach : st.EachShard fun _ sh => P.heap.elems sh.expirationHeap = 0 :=
      EachShard.of_make hst fun _ => P.heap.elems_empty
    exact heach i sh hsh

end Store

/-- The heap of a shard holds the candidates that were scheduled, but for those that a sweep has popped when
they were due; those that are due later than any sweep are all there. -/
theorem expiration_ledger (P : Platform) (shardCount : Nat) (st : Store P) (hst : Store.make P shardCount = .ok st)
    (calls : List StoreCall) (i : Nat) :
    (∃ popped, popped + (st.after calls).heapAt i = Store.scheduled i st calls ∧
      ∀ c ∈ popped, ∃ call ∈ calls, call.op.isSweep = true ∧ c.deadline ≤ call.now) ∧
    ∀ now, (∀ call ∈ calls, call.op.isSweep = true → call.now ≤ now) →
      ((st.after calls).heapAt i).filter (fun c => now < c.deadline) =
        (Store.scheduled i st calls).filter fun c => now < c.deadline := by
  obtain ⟨popped, hsum, hdue⟩ := Store.ledger st calls i
  rw [Store.heapAt_of_make hst, add_zero] at hsum
  refine ⟨⟨popped, hsum, hdue⟩, fun now hnow => ?_⟩
  have hnone : popped.filter (fun c => now < c.deadline) = 0 := Multiset.filter_eq_nil.mpr fun c hc hlt => by
    obtain ⟨call, hmem, hop, hle⟩ := hdue c hc
    have := hnow call hmem hop
    omega
  rw [← hsum, Multiset.filter_add, hnone, zero_add]

/-- Two keys, and three candidates in the heap. -/
theorem expiration_ledger_rescheduled : ∃ st : Store (.reference .exact), Store.make (.reference .exact) 1 = .ok st ∧
    ((st.after sweepCalls).heapAt 0).filter (fun c => 0 < c.deadline) =
      (st.scheduled 0 sweepCalls).filter (fun c => 0 < c.deadline) ∧
    (st.scheduled 0 sweepCalls).card = 3 := by
  have hledger := expiration_ledger (.reference .exact) 1 _ rfl sweepCalls 0
  exact ⟨_, rfl, hledger.2 0 (by simp [sweepCalls]), by decide +kernel⟩

/-! ### How far the sweeps are behind -/

namespace Store
variable {P : Platform} {st : Store P} {calls : List StoreCall} {i : Nat} {now : Int}

/-- For each sweep among the calls, how many candidates were due by then, in all; `known` were scheduled
before. -/
def demand (i : Nat) (known : Multiset ExpirationCandidate) : Store P → List StoreCall → List Nat
  | _, [] => []
  | st, c :: calls =>
    if c.op.isSweep then known.countP (fun e => e.deadline ≤ c.now) :: demand i known (st.call c).1 calls
    else demand i (known + st.pushes c i) (st.call c).1 calls

theorem popped_eq_served {m : Nat} {known popped : Multiset ExpirationCandidate}
    (hsum : popped + st.heapAt i = known) (hpopped : ∀ e ∈ popped, ∀ call ∈ calls, e.deadline ≤ call.now)
    (hclock : (calls.map StoreCall.now).Pairwise (· ≤ ·))
    (hbatch : ∀ call ∈ calls, ∀ k, call.op = .sweepExpired k → k = m) :
    ∃ popped', popped' + (st.after calls).heapAt i = known + scheduled i st calls ∧
      popped'.card = Backlog.served m popped.card (demand i known st calls) ∧
      ∀ t, (∀ e ∈ popped, e.deadline ≤ t) → (∀ call ∈ calls, call.now ≤ t) → ∀ e ∈ popped', e.deadline ≤ t := by
  induction calls generalizing st known popped with
  | nil => exact ⟨popped, by rw [scheduled, add_zero]; exact hsum, rfl, fun t h _ => h⟩
  | cons call calls ih =>
    rw [List.map_cons, List.pairwise_cons] at hclock
    rw [List.forall_mem_cons] at hbatch
    have hlater : ∀ {t : Int} {e : ExpirationCandidate}, e.deadline ≤ call.now →
        (∀ c ∈ call :: calls, c.now ≤ t) → e.deadline ≤ t := fun hle ht => hle.trans (ht call List.mem_cons_self)
    unfold demand
    cases hop : call.op.isSweep with
    | false =>
      have hsum' : popped + (st.call call).1.heapAt i = known + st.pushes call i := by
        rw [heapAt_call hop, ← hsum, add_comm (st.pushes call i), add_assoc]
      obtain ⟨popped', hsum'', hcard, hbound⟩ :=
        ih hsum' (fun e he c hc => hpopped e he c (List.mem_cons_of_mem _ hc)) hclock.2 hbatch.2
      refine ⟨popped', ?_, hcard, fun t h ht => hbound t h fun c hc => ht c (List.mem_cons_of_mem _ hc)⟩
      rw [scheduled, ← add_assoc]; exact hsum''
    | true =>
      obtain ⟨now, op⟩ := call
      cases op with
      | sweepExpired k =>
        obtain rfl : k = m := hbatch.1 k rfl
        obtain ⟨taken, htaken, hdue, hcard⟩ := heapAt_sweep st now k i
        -- all that was popped was due by now, so what is due is the rest of the demand
        have hall : popped.countP (fun e => e.deadline ≤ now) = popped.card :=
          Multiset.countP_eq_card.mpr fun e he => hpopped e he _ List.mem_cons_self
        have hdemand : known.countP (fun e => e.deadline ≤ now) =
            popped.card + (st.heapAt i).countP fun e => e.deadline ≤ now := by
          rw [← hsum, Multiset.countP_add, hall]
        have hsum' : popped + taken + (st.sweepExpired now k).1.heapAt i = known := by
          rw [add_assoc, htaken, hsum]
        have hpopped' : ∀ e ∈ popped + taken, ∀ c ∈ calls, e.deadline ≤ c.now := by
          intro e he c hc
          rcases Multiset.mem_add.mp he with he | he
          · exact hpopped e he c (List.mem_cons_of_mem _ hc)
          · exact (hdue e he).trans (hclock.1 c.now (List.mem_map_of_mem hc))
        obtain ⟨popped', hsum'', hcard', hbound⟩ := ih hsum' hpopped' hclock.2 hbatch.2
        refine ⟨popped', ?_, ?_, fun t h ht => hbound t (fun e he => ?_) fun c hc => ht c (List.mem_cons_of_mem _ hc)⟩
        · rw [scheduled, pushes_sweep hop, zero_add]; exact hsum''
        · rw [hcard', if_pos rfl, Backlog.served, Multiset.card_add, hcard, hdemand]
          congr 1
          omega
        · rcases Multiset.mem_add.mp he with he | he
          · exact h e he
          · exact hlater (hdue e he) ht
      | _ => cases hop

end Store

namespace Shard
variable {P : Platform} {sh : Shard P} {now : Int}

/-- The keys whose entries are still there although they have expired. -/
def expiredKeys (sh : Shard P) (now : Int) : Finset Bytes :=
  sh.entries.keys.filter fun k => (sh.entries.lookup k).any (isExpired · now)

theorem exists_of_mem_expiredKeys {k : Bytes} (h : k ∈ sh.expiredKeys now) :
    ∃ e d, sh.entries.lookup k = some e ∧ e.deadline = some d ∧ d ≤ now := by
  have hexpired := (Finset.mem_filter.mp h).2
  cases hl : sh.entries.lookup k with
  | none => rw [hl] at hexpired; cases hexpired
  | some e =>
    rw [hl, Option.any_some, isExpired] at hexpired
    cases hd : e.deadline with
    | none => rw [hd] at hexpired; cases hexpired
    | some d =>
      rw [hd] at hexpired
      exact ⟨e, d, rfl, hd, of_decide_eq_true hexpired⟩

/-- The candidate that the entry of a key waits for. -/
def ownCandidate (sh : Shard P) (k : Bytes) : ExpirationCandidate :=
  ⟨((sh.entries.lookup k).bind (·.deadline)).getD 0, ((sh.entries.lookup k).map (·.generation)).getD 0, k⟩

theorem WellFormed.ownCandidate_mem {home : Bytes → Prop} (h : sh.WellFormed home) {k : Bytes}
    (hk : k ∈ sh.expiredKeys now) :
    sh.ownCandidate k ∈ (P.heap.elems sh.expirationHeap).filter fun c => c.deadline ≤ now := by
  obtain ⟨e, d, hl, hd, hle⟩ := exists_of_mem_expiredKeys hk
  have hown : sh.ownCandidate k = ⟨d, e.generation, k⟩ := by simp [ownCandidate, hl, hd]
  have hin : (⟨d, e.generation, k⟩ : ExpirationCandidate) ∈ sh.candidatesFor k e.generation := by
    rw [h.scheduled k e d hl hd]
    exact Multiset.mem_singleton_self _
  rw [hown]
  exact Multiset.mem_filter.mpr ⟨(Multiset.mem_filter.mp hin).1, hle⟩

theorem WellFormed.card_expiredKeys_le {home : Bytes → Prop} (h : sh.WellFormed home) :
    (sh.expiredKeys now).card ≤ sh.due now := by
  have hinj : Function.Injective sh.ownCandidate := fun _ _ heq => congrArg ExpirationCandidate.key heq
  have hnodup : ((sh.expiredKeys now).val.map sh.ownCandidate).Nodup := (sh.expiredKeys now).nodup.map hinj
  have hsub : (sh.expiredKeys now).val.map sh.ownCandidate ⊆
      (P.heap.elems sh.expirationHeap).filter fun c => c.deadline ≤ now := by
    intro c hc
    obtain ⟨k, hk, rfl⟩ := Multiset.mem_map.mp hc
    exact h.ownCandidate_mem (Finset.mem_val.mp hk)
  calc (sh.expiredKeys now).card
    _ = ((sh.expiredKeys now).val.map sh.ownCandidate).card := (Multiset.card_map _ _).symm
    _ ≤ ((P.heap.elems sh.expirationHeap).filter fun c => c.deadline ≤ now).card :=
        Multiset.card_le_card ((Multiset.le_iff_subset hnodup).mpr hsub)
    _ = sh.due now := (Multiset.countP_eq_card_filter _ _).symm

end Shard

/-- With sweeps of batch size `m`, at most `b` candidates of a shard are overdue at `now` exactly if, since the
start and since each earlier sweep, no more have come due than the sweeps since could take and `b`. The
expired entries that the shard still holds are no more than the candidates that are overdue. -/
theorem sweep_keeps_up_iff (P : Platform) (shardCount : Nat) (st : Store P) (hst : Store.make P shardCount = .ok st)
    (calls : List StoreCall) (hclock : (calls.map StoreCall.now).Pairwise (· ≤ ·)) (m : Nat)
    (hbatch : ∀ call ∈ calls, ∀ k, call.op = .sweepExpired k → k = m) (now : Int)
    (hnow : ∀ call ∈ calls, call.now ≤ now) (i : Nat) (sh : Shard P) (hsh : (st.after calls).shards[i]? = some sh) :
    (∀ b, sh.due now ≤ b ↔
      (st.scheduled i calls).countP (fun c => c.deadline ≤ now) ≤ (st.demand i 0 calls).length * m + b ∧
      ∀ earlier d later, st.demand i 0 calls = earlier ++ d :: later →
        (st.scheduled i calls).countP (fun c => c.deadline ≤ now) ≤ d + later.length * m + b) ∧
    (sh.expiredKeys now).card ≤ sh.due now := by
  have hempty : (0 : Multiset ExpirationCandidate) + st.heapAt i = 0 := (zero_add _).trans (Store.heapAt_of_make hst i)
  obtain ⟨popped, hsum, hcard, hbound⟩ :=
    Store.popped_eq_served hempty (fun _ he => absurd he (Multiset.notMem_zero _)) hclock hbatch
  rw [Multiset.card_zero] at hcard
  refine ⟨fun b => ?_, ((Store.WellFormed.of_make hst).after calls i sh hsh).card_expiredKeys_le⟩
  -- what has come due was popped or is overdue
  have hall : popped.countP (fun c => c.deadline ≤ now) = popped.card :=
    Multiset.countP_eq_card.mpr (hbound now (fun _ he => absurd he (Multiset.notMem_zero _)) hnow)
  have hdue : (st.scheduled i calls).countP (fun c => c.deadline ≤ now) = popped.card + sh.due now := by
    rw [← zero_add (st.scheduled i calls), ← hsum, Multiset.countP_add, hall, Store.heapAt_eq hsh]
    rfl
  have hserved : sh.due now ≤ b ↔
      (st.scheduled i calls).countP (fun c => c.deadline ≤ now) - b ≤ Backlog.served m 0 (st.demand i 0 calls) := by
    rw [← hcard]; omega
  rw [hserved, Backlog.le_served_iff, Nat.zero_add]
  simp only [Nat.sub_le_iff_le_add]

/-- Two of the three candidates are due at two seconds; a sweep that may pop one leaves the other. -/
def lateCalls : List StoreCall := sweepCalls ++ [⟨2000000000, .sweepExpired 1⟩]

def lateShard : Shard (.reference .exact) :=
  ((Store.ofCount _ ⟨bitCeil 1, bitCeil_eq_pow 1⟩).after lateCalls).shards.get ⟨0, Store.shards_pos _⟩

theorem sweep_keeps_up_iff_behind : lateShard.due 2000000000 = 1 ∧
    (lateShard.expiredKeys 2000000000).card ≤ lateShard.due 2000000000 := by
  have hspec := sweep_keeps_up_iff (.reference .exact) 1 _ rfl lateCalls (by decide) 1 (by simp [lateCalls, sweepCalls])
    2000000000 (by simp [lateCalls, sweepCalls]) 0 lateShard (List.getElem?_eq_getElem _)
  exact ⟨by decide +kernel, hspec.2⟩

end KvStore
