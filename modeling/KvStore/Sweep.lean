import KvStore.ShardInv
import Mathlib.Algebra.GroupWithZero.Nat

/-!
# The sweep from end to end

`Swept` says all that `sweep_expired` does to one shard: which candidates it pops and in which order, which
entries go, and what stays. It holds for every shard, whatever the heap does with equal deadlines
(`sweep_swept`). The store's sweep is that for each shard (`sweep_expired_spec`), and enough of them leave
nothing that is due (`Shard.WellFormed` finds the candidate of every entry with a deadline).
-/

namespace KvStore
open ByteString PriorityQueue

namespace Shard
variable {P : Platform} {sh sh₁ sh' : Shard P} {now : Int} {c : ExpirationCandidate}
  {popped : List ExpirationCandidate} {m removed : Nat}

def due (sh : Shard P) (now : Int) : Nat := (P.heap.elems sh.expirationHeap).countP fun c => c.deadline ≤ now

/-- Some candidate of the list is for this entry. -/
def anyMatches (candidates : List ExpirationCandidate) (k : Bytes) (e : Entry) : Bool :=
  candidates.any fun c => c.key = k && matchesEntry c e

/-- A sweep of at most `m` candidates. -/
structure Swept (now : Int) (m : Nat) (sh : Shard P) (popped : List ExpirationCandidate) (sh' : Shard P)
    (removed : Nat) : Prop where
  pops : P.heap.Pops sh.expirationHeap popped sh'.expirationHeap
  length_le : popped.length ≤ m
  popped_due : ∀ c ∈ popped, c.deadline ≤ now
  /-- It stops early only when nothing is due any more. -/
  exhausted : popped.length < m → sh'.due now = 0
  entries : ∀ k, sh'.entries.lookup k = (sh.entries.lookup k).filter fun e => !anyMatches popped k e
  nextGeneration : sh'.nextGeneration = sh.nextGeneration
  removed_eq : removed + sh'.entries.keys.card = sh.entries.keys.card

theorem Swept.nil (h : 0 < m → sh.due now = 0) : Swept now m sh [] sh 0 where
  pops := .nil
  length_le := Nat.zero_le _
  popped_due := fun _ hc => absurd hc List.not_mem_nil
  exhausted := h
  entries := fun k => by cases sh.entries.lookup k <;> rfl
  nextGeneration := rfl
  removed_eq := Nat.zero_add _

/-- What a round of the loop makes of a shard whose first candidate is `c`, and how many entries it removes. -/
def dropCandidate (sh : Shard P) (c : ExpirationCandidate) : Shard P × Nat :=
  let popped := { sh with expirationHeap := P.heap.pop sh.expirationHeap }
  match sh.entries.lookup c.key with
  | some entry => if matchesEntry c entry then ({ popped with entries := sh.entries.erase c.key }, 1) else (popped, 0)
  | none => (popped, 0)

theorem sweepLoop_succ (htop : P.heap.top? sh.expirationHeap = some c) (hdue : ¬ now < c.deadline) (budget : Nat) :
    sweepLoop now (budget + 1) sh removed =
      sweepLoop now budget (sh.dropCandidate c).1 (removed + (sh.dropCandidate c).2) := by
  rw [sweepLoop, htop]
  dsimp only
  rw [if_neg hdue]
  unfold dropCandidate
  cases sh.entries.lookup c.key with
  | none => rfl
  | some e =>
    dsimp only
    split_ifs <;> rfl

theorem dropCandidate_heap (sh : Shard P) (c : ExpirationCandidate) :
    (sh.dropCandidate c).1.expirationHeap = P.heap.pop sh.expirationHeap ∧
      (sh.dropCandidate c).1.nextGeneration = sh.nextGeneration := by
  unfold dropCandidate
  cases sh.entries.lookup c.key with
  | none => exact ⟨rfl, rfl⟩
  | some e =>
    dsimp only
    split_ifs <;> exact ⟨rfl, rfl⟩

theorem dropCandidate_entries (sh : Shard P) (c : ExpirationCandidate) (k : Bytes) :
    (sh.dropCandidate c).1.entries.lookup k =
      (sh.entries.lookup k).filter fun e => !(c.key = k && matchesEntry c e) := by
  have hsame : (∀ e, sh.entries.lookup k = some e → ¬ (c.key = k ∧ matchesEntry c e = true)) →
      (sh.entries.lookup k).filter (fun e => !(c.key = k && matchesEntry c e)) = sh.entries.lookup k := by
    intro hnot
    cases hl : sh.entries.lookup k with
    | none => rfl
    | some e =>
      have hfalse : (c.key = k && matchesEntry c e) = false := by
        rw [Bool.eq_false_iff]
        intro hfor
        simp only [Bool.and_eq_true, decide_eq_true_eq] at hfor
        exact hnot e hl hfor
      exact Option.filter_eq_some_iff.mpr ⟨rfl, by rw [hfalse]; rfl⟩
  unfold dropCandidate
  cases hl : sh.entries.lookup c.key with
  | none =>
    refine (hsame ?_).symm
    rintro e he ⟨rfl, -⟩
    cases hl.symm.trans he
  | some e₀ =>
    dsimp only
    split_ifs with hm
    · dsimp only
      by_cases hk : k = c.key
      · rw [hk, Finmap.lookup_erase, hl]
        simp [Option.filter, hm]
      · rw [Finmap.lookup_erase_ne hk]
        exact (hsame fun e _ hfor => hk hfor.1.symm).symm
    · refine (hsame ?_).symm
      rintro e he ⟨rfl, hme⟩
      cases hl.symm.trans he
      exact hm hme

theorem dropCandidate_removed (sh : Shard P) (c : ExpirationCandidate) :
    (sh.dropCandidate c).2 + (sh.dropCandidate c).1.entries.keys.card = sh.entries.keys.card := by
  unfold dropCandidate
  cases hl : sh.entries.lookup c.key with
  | none => exact Nat.zero_add _
  | some e =>
    dsimp only
    split_ifs
    · have hmem : c.key ∈ sh.entries.keys := Finmap.mem_keys.mpr (Finmap.mem_of_lookup_eq_some hl)
      rw [Finmap.keys_erase, Finset.card_erase_of_mem hmem]
      have := Finset.card_pos.mpr ⟨c.key, hmem⟩
      omega
    · exact Nat.zero_add _

theorem Swept.cons (htop : P.heap.top? sh.expirationHeap = some c) (hdue : ¬ now < c.deadline)
    (h : Swept now m (sh.dropCandidate c).1 popped sh' removed) :
    Swept now (m + 1) sh (c :: popped) sh' ((sh.dropCandidate c).2 + removed) := by
  obtain ⟨hheap, hgen⟩ := sh.dropCandidate_heap c
  refine ⟨.cons htop (hheap ▸ h.pops), Nat.succ_le_succ h.length_le, ?_,
    fun hlt => h.exhausted (Nat.lt_of_succ_lt_succ hlt), fun k => ?_, h.nextGeneration.trans hgen, ?_⟩
  · intro c' hc'
    rcases List.mem_cons.mp hc' with rfl | hc'
    · exact Int.not_lt.mp hdue
    · exact h.popped_due c' hc'
  · rw [h.entries, dropCandidate_entries, Option.filter_filter]
    congr 1
    funext e
    simp [anyMatches]
  · have h1 := h.removed_eq
    have h2 := sh.dropCandidate_removed c
    omega

theorem sweepLoop_swept (now : Int) (m : Nat) (sh : Shard P) (removed : Nat) :
    ∃ popped n, (sweepLoop now m sh removed).2 = removed + n ∧
      Swept now m sh popped (sweepLoop now m sh removed).1 n := by
  induction m generalizing sh removed with
  | zero => exact ⟨[], 0, rfl, .nil fun h => absurd h (Nat.lt_irrefl 0)⟩
  | succ m ih =>
    cases htop : P.heap.top? sh.expirationHeap with
    | none =>
      have hend : sweepLoop now (m + 1) sh removed = (sh, removed) := by rw [sweepLoop, htop]
      rw [hend]
      refine ⟨[], 0, rfl, .nil fun _ => ?_⟩
      unfold due
      rw [(P.heap.top?_eq_none _).mp htop]
      rfl
    | some c =>
      by_cases hdue : now < c.deadline
      · have hend : sweepLoop now (m + 1) sh removed = (sh, removed) := by
          rw [sweepLoop, htop]
          dsimp only
          rw [if_pos hdue]
        rw [hend]
        refine ⟨[], 0, rfl, .nil fun _ => Multiset.countP_eq_zero.mpr fun c' hc' => ?_⟩
        -- the first candidate is not due, so no other one is
        have := P.heap.top?_le _ _ htop c' hc'
        omega
      · rw [sweepLoop_succ htop hdue]
        obtain ⟨popped, n, hn, hswept⟩ := ih (sh.dropCandidate c).1 (removed + (sh.dropCandidate c).2)
        exact ⟨c :: popped, _, by rw [hn, Nat.add_assoc], .cons htop hdue hswept⟩

theorem sweep_swept (now : Int) (m : Nat) (sh : Shard P) :
    ∃ popped, Swept now m sh popped (sh.sweep now m).1 (sh.sweep now m).2 := by
  obtain ⟨popped, n, hn, hswept⟩ := sweepLoop_swept now m sh 0
  rw [Nat.zero_add] at hn
  exact ⟨popped, by rw [Shard.sweep, hn]; exact hswept⟩

theorem Swept.due_eq (h : Swept now m sh popped sh' removed) : sh.due now = popped.length + sh'.due now := by
  have hall : Multiset.countP (fun c : ExpirationCandidate => c.deadline ≤ now) (popped : Multiset ExpirationCandidate) =
      popped.length := Multiset.countP_eq_card.mpr h.popped_due
  unfold due
  rw [h.pops.elems, Multiset.countP_add, hall]

theorem Swept.length_eq (h : Swept now m sh popped sh' removed) : popped.length = min m (sh.due now) := by
  have hdue := h.due_eq
  have hle := h.length_le
  rcases Nat.lt_or_ge popped.length m with hlt | hge
  · have := h.exhausted hlt
    omega
  · omega

theorem due_sweep (now : Int) (m : Nat) (sh : Shard P) : (sh.sweep now m).1.due now = sh.due now - m := by
  obtain ⟨popped, h⟩ := sweep_swept now m sh
  have := h.due_eq
  have := h.length_eq
  omega

theorem WellFormed.not_due {home : Bytes → Prop} (h : sh.WellFormed home) (hdue : sh.due now = 0) {k : Bytes}
    {e : Entry} {d : Int} (hl : sh.entries.lookup k = some e) (hd : e.deadline = some d) : now < d := by
  have hmem : (⟨d, e.generation, k⟩ : ExpirationCandidate) ∈ sh.candidatesFor k e.generation := by
    rw [h.scheduled k e d hl hd]
    exact Multiset.mem_singleton_self _
  have hnot := Multiset.countP_eq_zero.mp hdue _ (Multiset.mem_filter.mp hmem).1
  exact Int.not_le.mp hnot

end Shard

/-! ### The store -/

namespace Store
variable {P : Platform} {st : Store P} {now : Int} {m : Nat}

def entryCount (st : Store P) : Nat := (st.shards.map (·.entries.keys.card)).sum

theorem snd_sweepShards (now : Int) (m : Nat) (shards : List (Shard P)) (total : Nat) :
    (sweepShards now m shards total).2 = total + (shards.map fun sh => (sh.sweep now m).2).sum := by
  induction shards generalizing total with
  | nil => rfl
  | cons sh rest ih =>
    rw [List.map_cons, List.sum_cons, ← Nat.add_assoc]
    exact ih _

theorem entryCount_sweepExpired (st : Store P) (now : Int) (m : Nat) :
    (st.sweepExpired now m).2 + (st.sweepExpired now m).1.entryCount = st.entryCount := by
  have hanswer : (st.sweepExpired now m).2 = (st.shards.map fun sh => (sh.sweep now m).2).sum := by
    show (sweepShards now m st.shards 0).2 = _
    rw [snd_sweepShards, Nat.zero_add]
  unfold entryCount
  rw [hanswer, shards_sweepExpired, List.map_map]
  induction st.shards with
  | nil => rfl
  | cons sh rest ih =>
    obtain ⟨popped, hswept⟩ := Shard.sweep_swept now m sh
    have := hswept.removed_eq
    simp only [List.map_cons, List.sum_cons, Function.comp_apply] at ih ⊢
    omega

def sweeps (now : Int) (m : Nat) : Nat → Store P → Store P
  | 0, st => st
  | k + 1, st => sweeps now m k (st.sweepExpired now m).1

theorem sweeps_eq_after (now : Int) (m k : Nat) :
    sweeps now m k st = st.after (List.replicate k ⟨now, .sweepExpired m⟩) := by
  induction k generalizing st with
  | zero => rfl
  | succ k ih => exact ih

/-- Each sweep takes up to `m` due candidates off every shard. -/
theorem due_sweeps {k : Nat} (hdue : ∀ sh ∈ st.shards, sh.due now ≤ k * m) :
    ∀ sh ∈ (sweeps now m k st).shards, sh.due now = 0 := by
  induction k generalizing st with
  | zero =>
    intro sh hsh
    have := hdue sh hsh
    omega
  | succ k ih =>
    refine ih fun sh' hsh' => ?_
    rw [shards_sweepExpired, List.mem_map] at hsh'
    obtain ⟨sh, hsh, rfl⟩ := hsh'
    have hle := hdue sh hsh
    rw [Nat.succ_mul] at hle
    rw [Shard.due_sweep]
    omega

end Store

/-- What `sweep_expired` does to a store that has answered any calls: in every shard it pops the due candidates
in the order of their deadlines, up to the batch size, and removes the entries they are for, and nothing else;
it returns how many these are, and counts them. Sweeping again and again at one clock reading leaves nothing
that is due. -/
theorem sweep_expired_spec (P : Platform) (shardCount : Nat) (st : Store P)
    (hst : Store.make P shardCount = .ok st) (calls : List StoreCall) (now : Int) (m : Nat) :
    (∀ (i : Nat) (sh : Shard P), (st.after calls).shards[i]? = some sh → ∃ popped sh' removed,
      ((st.after calls).sweepExpired now m).1.shards[i]? = some sh' ∧
        Shard.Swept now m sh popped sh' removed ∧ popped.length = min m (sh.due now) ∧
        popped.Pairwise fun a b => a.deadline ≤ b.deadline) ∧
    ((st.after calls).sweepExpired now m).1.shards.length = (st.after calls).shards.length ∧
    ((st.after calls).sweepExpired now m).2 + ((st.after calls).sweepExpired now m).1.entryCount =
      (st.after calls).entryCount ∧
    ((st.after calls).sweepExpired now m).1.activeExpirations =
      (st.after calls).activeExpirations + ((st.after calls).sweepExpired now m).2 ∧
    ∀ k, (∀ sh ∈ (st.after calls).shards, sh.due now ≤ k * m) →
      ∀ sh ∈ (Store.sweeps now m k (st.after calls)).shards, sh.due now = 0 ∧
        ∀ key e d, sh.entries.lookup key = some e → e.deadline = some d → now < d := by
  have hwf := (Store.WellFormed.of_make hst).after calls
  refine ⟨fun i sh hi => ?_, ?_, Store.entryCount_sweepExpired _ now m, rfl, fun k hdue sh hsh => ?_⟩
  · obtain ⟨popped, hswept⟩ := Shard.sweep_swept now m sh
    refine ⟨popped, _, _, ?_, hswept, hswept.length_eq, hswept.pops.sorted⟩
    rw [Store.shards_sweepExpired, List.getElem?_map, hi]
    rfl
  · rw [Store.shards_sweepExpired, List.length_map]
  · have hzero := Store.due_sweeps hdue sh hsh
    obtain ⟨i, hi⟩ := List.getElem?_of_mem hsh
    rw [Store.sweeps_eq_after] at hi
    have hshard := hwf.after _ i sh hi
    exact ⟨hzero, fun key e d hl hd => hshard.not_due hzero hl hd⟩

/-- Two keys with a deadline, one of them scheduled again later. -/
def sweepCalls : List StoreCall :=
  [⟨0, .set (ascii "a") (ascii "1")⟩, ⟨0, .expire (ascii "a") 1⟩, ⟨0, .set (ascii "b") (ascii "2")⟩,
    ⟨0, .expire (ascii "b") 2⟩, ⟨0, .expire (ascii "a") 3⟩]

/-- At two seconds two candidates are due, and only one of them is for an entry. -/
theorem sweep_expired_spec_sample : ∃ st : Store (.reference .exact), Store.make (.reference .exact) 1 = .ok st ∧
    ((st.after sweepCalls).sweepExpired 2000000000 2).2 = 1 ∧
    ((st.after sweepCalls).sweepExpired 2000000000 2).2 +
      ((st.after sweepCalls).sweepExpired 2000000000 2).1.entryCount = (st.after sweepCalls).entryCount := by
  have hspec := sweep_expired_spec (.reference .exact) 1 _ rfl sweepCalls 2000000000 2
  exact ⟨_, rfl, by decide +kernel, hspec.2.2.1⟩

end KvStore
