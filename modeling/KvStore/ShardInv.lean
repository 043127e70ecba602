import KvStore.ExpireArith
import KvStore.Lib.Updates

/-!
# The representation of a shard

`WellFormed home sh`: entries and heap candidates carry distinct generations that were given out, an entry
with a deadline is scheduled by exactly one candidate, and one without a deadline by none. Entries are
removed lazily and leave their candidates behind; the generations tell these from the candidate of a later
entry under the same key. Every lock-protected section keeps it (`WellFormed.insert`, `.erase`,
`.pop`), and what every section keeps every sequence of calls keeps (`Store.EachShard.after`).
-/

namespace KvStore
open ByteString

namespace Shard
variable {P : Platform} {sh : Shard P} {home : Bytes → Prop} {now : Int} {key : Bytes}

def candidatesFor (sh : Shard P) (k : Bytes) (g : Nat) : Multiset ExpirationCandidate :=
  (P.heap.elems sh.expirationHeap).filter fun c => c.key = k ∧ c.generation = g

/-- `home k`: the key belongs to this shard. -/
structure WellFormed (home : Bytes → Prop) (sh : Shard P) : Prop where
  home_of_mem : ∀ k e, sh.entries.lookup k = some e → home k
  entry_range : ∀ k e, sh.entries.lookup k = some e → 1 ≤ e.generation ∧ e.generation ≤ sh.nextGeneration
  entry_distinct : ∀ k e k' e', sh.entries.lookup k = some e → sh.entries.lookup k' = some e' →
    e.generation = e'.generation → k = k'
  candidate_range : ∀ c ∈ P.heap.elems sh.expirationHeap, 1 ≤ c.generation ∧ c.generation ≤ sh.nextGeneration
  candidate_distinct : ((P.heap.elems sh.expirationHeap).map ExpirationCandidate.generation).Nodup
  /-- Exactly one candidate has the key and the generation of an entry with a deadline: its own. -/
  scheduled : ∀ k e d, sh.entries.lookup k = some e → e.deadline = some d →
    sh.candidatesFor k e.generation = {⟨d, e.generation, k⟩}
  unscheduled : ∀ k e, sh.entries.lookup k = some e → e.deadline = none → sh.candidatesFor k e.generation = 0

theorem WellFormed.candidatesFor_fresh (h : sh.WellFormed home) {g : Nat} (hg : sh.nextGeneration < g)
    (k : Bytes) : sh.candidatesFor k g = 0 := by
  refine Multiset.filter_eq_nil.mpr fun c hc hfor => ?_
  have := (h.candidate_range c hc).2
  omega

theorem WellFormed.empty (home : Bytes → Prop) : (Shard.empty P).WellFormed home := by
  have hnone : ∀ {k : Bytes} {e : Entry}, (Shard.empty P).entries.lookup k = some e → False := fun hl => by
    cases hl
  have helems : P.heap.elems (Shard.empty P).expirationHeap = 0 := P.heap.elems_empty
  refine ⟨fun k e hl => (hnone hl).elim, fun k e hl => (hnone hl).elim, fun k e k' e' hl => (hnone hl).elim,
    fun c hc => ?_, ?_, fun k e d hl => (hnone hl).elim, fun k e hl => (hnone hl).elim⟩
  · rw [helems] at hc; cases hc
  · rw [helems]; exact Multiset.nodup_zero

theorem WellFormed.erase (h : sh.WellFormed home) (key : Bytes) :
    ({ sh with entries := sh.entries.erase key } : Shard P).WellFormed home where
  home_of_mem k e hl := h.home_of_mem k e (Finmap.lookup_erase_eq_some hl).2
  entry_range k e hl := h.entry_range k e (Finmap.lookup_erase_eq_some hl).2
  entry_distinct k e k' e' hl hl' :=
    h.entry_distinct k e k' e' (Finmap.lookup_erase_eq_some hl).2 (Finmap.lookup_erase_eq_some hl').2
  candidate_range := h.candidate_range
  candidate_distinct := h.candidate_distinct
  scheduled k e d hl := h.scheduled k e d (Finmap.lookup_erase_eq_some hl).2
  unscheduled k e hl := h.unscheduled k e (Finmap.lookup_erase_eq_some hl).2

/-- An entry with a fresh generation is put under a key of the shard; the heap may get one candidate of that
generation. -/
theorem WellFormed.insert (h : sh.WellFormed home) {e : Entry} {heap : P.heap.Rep} (hkey : home key)
    (hg : e.generation = sh.nextGeneration + 1)
    (helems : P.heap.elems heap = match e.deadline with
      | none => P.heap.elems sh.expirationHeap
      | some d => ⟨d, e.generation, key⟩ ::ₘ P.heap.elems sh.expirationHeap) :
    (⟨sh.entries.insert key e, sh.nextGeneration + 1, heap⟩ : Shard P).WellFormed home := by
  -- the candidates of the older generations are the old ones
  have hold : ∀ k g, g ≤ sh.nextGeneration →
      (⟨sh.entries.insert key e, sh.nextGeneration + 1, heap⟩ : Shard P).candidatesFor k g =
        sh.candidatesFor k g := by
    intro k g hle
    unfold candidatesFor
    cases hd : e.deadline with
    | none => rw [helems, hd]
    | some d =>
      rw [helems, hd]
      exact Multiset.filter_cons_of_neg _ fun hfor => by have := hfor.2; dsimp only at this; omega
  have hmem : ∀ c ∈ P.heap.elems heap, c ∈ P.heap.elems sh.expirationHeap ∨ c.generation = sh.nextGeneration + 1 := by
    intro c hc
    cases hd : e.deadline with
    | none => rw [helems, hd] at hc; exact .inl hc
    | some d =>
      rw [helems, hd] at hc
      rcases Multiset.mem_cons.mp hc with rfl | hc
      · exact .inr hg
      · exact .inl hc
  refine ⟨fun k e' hl => ?_, fun k e' hl => ?_, fun k e₁ k' e₂ hl hl' heq => ?_, fun c hc => ?_, ?_,
    fun k e' d hl hd => ?_, fun k e' hl hd => ?_⟩
  · rcases Finmap.lookup_insert_eq_some hl with ⟨rfl, -⟩ | ⟨-, hl⟩
    · exact hkey
    · exact h.home_of_mem k e' hl
  · rcases Finmap.lookup_insert_eq_some hl with ⟨-, rfl⟩ | ⟨-, hl⟩
    · show _ ∧ _ ≤ sh.nextGeneration + 1
      omega
    · obtain ⟨h1, h2⟩ := h.entry_range k e' hl
      exact ⟨h1, Nat.le_succ_of_le h2⟩
  · rcases Finmap.lookup_insert_eq_some hl with ⟨hk, he⟩ | ⟨-, hl₀⟩ <;>
      rcases Finmap.lookup_insert_eq_some hl' with ⟨hk', he'⟩ | ⟨-, hl₀'⟩
    · rw [hk, hk']
    · have := (h.entry_range _ _ hl₀').2
      rw [he] at heq
      omega
    · have := (h.entry_range _ _ hl₀).2
      rw [he'] at heq
      omega
    · exact h.entry_distinct _ _ _ _ hl₀ hl₀' heq
  · show _ ∧ _ ≤ sh.nextGeneration + 1
    rcases hmem c hc with hc | hc
    · obtain ⟨h1, h2⟩ := h.candidate_range c hc
      omega
    · omega
  · show ((P.heap.elems heap).map ExpirationCandidate.generation).Nodup
    cases hd : e.deadline with
    | none => rw [helems, hd]; exact h.candidate_distinct
    | some d =>
      rw [helems, hd, Multiset.map_cons]
      refine Multiset.nodup_cons.mpr ⟨fun hin => ?_, h.candidate_distinct⟩
      obtain ⟨c, hc, hcg⟩ := Multiset.mem_map.mp hin
      have := (h.candidate_range c hc).2
      dsimp only at hcg
      omega
  · rcases Finmap.lookup_insert_eq_some hl with ⟨rfl, rfl⟩ | ⟨-, hl⟩
    · have hnone := h.candidatesFor_fresh (g := e'.generation) (by omega) k
      unfold candidatesFor at hnone ⊢
      rw [helems, hd]
      dsimp only
      rw [Multiset.filter_cons_of_pos _ ⟨rfl, rfl⟩, hnone]; rfl
    · rw [hold k _ (h.entry_range k e' hl).2]; exact h.scheduled k e' d hl hd
  · rcases Finmap.lookup_insert_eq_some hl with ⟨rfl, rfl⟩ | ⟨-, hl⟩
    · have hnone := h.candidatesFor_fresh (g := e'.generation) (by omega) k
      unfold candidatesFor at hnone ⊢
      rw [helems, hd]; exact hnone
    · rw [hold k _ (h.entry_range k e' hl).2]; exact h.unscheduled k e' hl hd

theorem WellFormed.pop (h : sh.WellFormed home) {c : ExpirationCandidate}
    (htop : P.heap.top? sh.expirationHeap = some c)
    (hnot : ∀ e, sh.entries.lookup c.key = some e → ¬ matchesEntry c e = true) :
    ({ sh with expirationHeap := P.heap.pop sh.expirationHeap } : Shard P).WellFormed home := by
  have helems := P.heap.elems_pop _ _ htop
  have hmem : ∀ c' ∈ P.heap.elems (P.heap.pop sh.expirationHeap), c' ∈ P.heap.elems sh.expirationHeap :=
    fun c' hc' => helems ▸ Multiset.mem_cons_of_mem hc'
  have hkept : ∀ k e, sh.entries.lookup k = some e →
      ({ sh with expirationHeap := P.heap.pop sh.expirationHeap } : Shard P).candidatesFor k e.generation =
        sh.candidatesFor k e.generation := by
    intro k e hl
    have hfor : ¬ (c.key = k ∧ c.generation = e.generation) := by
      rintro ⟨rfl, hg⟩
      have hin : c ∈ sh.candidatesFor c.key e.generation :=
        Multiset.mem_filter.mpr ⟨helems ▸ Multiset.mem_cons_self _ _, rfl, hg⟩
      cases hd : e.deadline with
      | none => rw [h.unscheduled _ e hl hd] at hin; cases hin
      | some d =>
        rw [h.scheduled _ e d hl hd, Multiset.mem_singleton] at hin
        refine hnot e hl ?_
        rw [hin]
        simp [matchesEntry, hd]
    unfold candidatesFor
    rw [helems]
    exact (Multiset.filter_cons_of_neg (p := fun c : ExpirationCandidate => c.key = k ∧ c.generation = e.generation)
      _ hfor).symm
  refine ⟨h.home_of_mem, h.entry_range, h.entry_distinct, fun c' hc' => h.candidate_range c' (hmem c' hc'), ?_,
    fun k e d hl hd => (hkept k e hl).trans (h.scheduled k e d hl hd),
    fun k e hl hd => (hkept k e hl).trans (h.unscheduled k e hl hd)⟩
  have := h.candidate_distinct
  rw [helems, Multiset.map_cons] at this
  exact (Multiset.nodup_cons.mp this).2

/-! ### The sections -/

theorem WellFormed.set (h : sh.WellFormed home) (hkey : home key) (value : Bytes) :
    (sh.set key value).WellFormed home :=
  h.insert hkey rfl rfl

theorem WellFormed.eraseExpired (h : sh.WellFormed home) (now : Int) (key : Bytes) :
    (sh.eraseExpired now key).WellFormed home := by
  unfold Shard.eraseExpired
  split
  · split_ifs
    · exact h.erase key
    · exact h
  · exact h

theorem WellFormed.readLive (h : sh.WellFormed home) (now : Int) (key : Bytes) :
    (sh.readLive now key).1.WellFormed home := by
  unfold Shard.readLive
  split
  · exact h
  · exact h
  · exact h.eraseExpired now key

theorem WellFormed.del (h : sh.WellFormed home) (now : Int) (key : Bytes) :
    (sh.del now key).1.WellFormed home := by
  unfold Shard.del
  split
  · exact h
  · exact h.erase key

theorem WellFormed.expire (h : sh.WellFormed home) (now : Int) (key : Bytes) (s : Int) :
    (sh.expire now key s).1.WellFormed home := by
  unfold Shard.expire
  split
  · exact h
  · rename_i e hl
    split_ifs
    · exact h.erase key
    · exact h.insert (h.home_of_mem key e hl) rfl (P.heap.elems_push _ _)

theorem WellFormed.sweepLoop (h : sh.WellFormed home) (now : Int) (budget removed : Nat) :
    (Shard.sweepLoop now budget sh removed).1.WellFormed home := by
  refine sweepLoop_induction (motive := fun sh => sh.WellFormed home) (fun sh c htop _ hnot h => h.pop htop hnot)
    (fun sh c e htop _ _ _ h => ?_) budget removed sh h
  -- the entry goes together with its candidate
  exact (h.erase c.key).pop htop fun e' he' => absurd rfl (Finmap.lookup_erase_eq_some he').1

end Shard

/-! ### The store -/

variable {P : Platform}

/-- A property of shards, given with their index, that every lock-protected section keeps; `index` names the
shard of a key. -/
structure SectionsKeep (index : Bytes → Nat) (Inv : Nat → Shard P → Prop) : Prop where
  set : ∀ key value sh, Inv (index key) sh → Inv (index key) (sh.set key value)
  readLive : ∀ now key sh, Inv (index key) sh → Inv (index key) (sh.readLive now key).1
  del : ∀ now key sh, Inv (index key) sh → Inv (index key) (sh.del now key).1
  expire : ∀ now key s sh, Inv (index key) sh → Inv (index key) (sh.expire now key s).1
  sweep : ∀ now m i sh, Inv i sh → Inv i (sh.sweep now m).1

namespace Store
variable {st : Store P} {key : Bytes} {Inv : Nat → Shard P → Prop}

def EachShard (Inv : Nat → Shard P → Prop) (st : Store P) : Prop :=
  ∀ i (sh : Shard P), st.shards[i]? = some sh → Inv i sh

theorem EachShard.shardFor (h : st.EachShard Inv) (key : Bytes) : Inv (st.shardIndex key) (st.shardFor key) :=
  h _ _ (List.getElem?_eq_getElem (st.shardIndex_lt key))

theorem EachShard.putShard (h : st.EachShard Inv) {sh : Shard P} (hsh : Inv (st.shardIndex key) sh) :
    (st.putShard key sh).EachShard Inv := by
  intro i sh' hi
  change (st.shards.set (st.shardIndex key) sh)[i]? = some sh' at hi
  by_cases heq : st.shardIndex key = i
  · rw [← heq, List.getElem?_set_self (st.shardIndex_lt key)] at hi
    cases hi
    exact heq ▸ hsh
  · rw [List.getElem?_set_ne heq] at hi
    exact h i sh' hi

theorem EachShard.sweepExpired (hkeep : ∀ now m i sh, Inv i sh → Inv i (sh.sweep now m).1)
    (h : st.EachShard Inv) (now : Int) (m : Nat) : (st.sweepExpired now m).1.EachShard Inv := by
  intro i sh' hi
  rw [shards_sweepExpired, List.getElem?_map] at hi
  obtain ⟨sh, hsh, rfl⟩ := Option.map_eq_some_iff.mp hi
  exact hkeep now m i sh (h i sh hsh)

theorem EachShard.call (hkeep : SectionsKeep st.shardIndex Inv) (h : st.EachShard Inv) (c : StoreCall) :
    (st.call c).1.EachShard Inv := by
  obtain ⟨now, op⟩ := c
  cases op with
  | set key value => exact h.putShard (hkeep.set key value _ (h.shardFor key))
  | get key => exact h.putShard (hkeep.readLive now key _ (h.shardFor key))
  | del key => exact h.putShard (hkeep.del now key _ (h.shardFor key))
  | exists_ key => exact h.putShard (hkeep.readLive now key _ (h.shardFor key))
  | expire key s => exact h.putShard (hkeep.expire now key s _ (h.shardFor key))
  | ttl key =>
    show (st.ttl now key).1.EachShard Inv
    rw [fst_ttl]
    exact h.putShard (hkeep.readLive now key _ (h.shardFor key))
  | sweepExpired m => exact h.sweepExpired hkeep.sweep now m

theorem shardIndex_putShard (key : Bytes) (sh : Shard P) : (st.putShard key sh).shardIndex = st.shardIndex := by
  funext k
  exact shardIndex_putShardAt ..

theorem shardIndex_call (c : StoreCall) : (st.call c).1.shardIndex = st.shardIndex := by
  obtain ⟨now, op⟩ := c
  cases op with
  | ttl key =>
    show (st.ttl now key).1.shardIndex = _
    rw [fst_ttl]
    exact shardIndex_putShard ..
  | sweepExpired m => exact shardIndex_sweepExpired ..
  | _ => exact shardIndex_putShard ..

theorem EachShard.after (hkeep : SectionsKeep st.shardIndex Inv) (h : st.EachShard Inv) (calls : List StoreCall) :
    (st.after calls).EachShard Inv := by
  induction calls generalizing st with
  | nil => exact h
  | cons c calls ih =>
    have hkeep' : SectionsKeep (st.call c).1.shardIndex Inv := by rw [shardIndex_call]; exact hkeep
    exact ih hkeep' (h.call hkeep c)

theorem shardIndex_after (calls : List StoreCall) : (st.after calls).shardIndex = st.shardIndex := by
  induction calls generalizing st with
  | nil => rfl
  | cons c calls ih => exact ih.trans (shardIndex_call c)

theorem EachShard.of_make {shardCount : Nat} (hst : Store.make P shardCount = .ok st)
    (hempty : ∀ i, Inv i (Shard.empty P)) : st.EachShard Inv := by
  obtain ⟨count, rfl⟩ := eq_ofCount_of_make hst
  intro i sh hi
  rw [List.eq_of_mem_replicate (List.mem_of_getElem? hi)]
  exact hempty i

/-- Every shard is well formed, and holds only keys that hash to it. -/
def WellFormed (st : Store P) : Prop :=
  ∀ i (sh : Shard P), st.shards[i]? = some sh → sh.WellFormed fun k => st.shardIndex k = i

theorem WellFormed.sectionsKeep (index : Bytes → Nat) :
    SectionsKeep index fun i (sh : Shard P) => sh.WellFormed fun k => index k = i where
  set _ value _ h := h.set rfl value
  readLive now key _ h := h.readLive now key
  del now key _ h := h.del now key
  expire now key s _ h := h.expire now key s
  sweep now m _ _ h := h.sweepLoop now m 0

theorem WellFormed.after (h : st.WellFormed) (calls : List StoreCall) : (st.after calls).WellFormed := by
  have heach : (st.after calls).EachShard fun i sh => sh.WellFormed fun k => st.shardIndex k = i :=
    EachShard.after (sectionsKeep st.shardIndex) h calls
  intro i sh hi
  rw [shardIndex_after]
  exact heach i sh hi

theorem WellFormed.of_make {shardCount : Nat} (hst : Store.make P shardCount = .ok st) : st.WellFormed :=
  EachShard.of_make hst fun _ => .empty _

end Store

/-- Whatever calls a store has answered, and at whatever clock readings, each of its shards is well formed. -/
theorem store_wellFormed (P : Platform) (shardCount : Nat) (st : Store P)
    (hst : Store.make P shardCount = .ok st) (calls : List StoreCall) : (st.after calls).WellFormed :=
  (Store.WellFormed.of_make hst).after calls

/-- A key that was scheduled twice and replaced, in a store asked for three shards. -/
theorem store_wellFormed_rescheduled :
    ((Store.ofCount (.reference .exact) ⟨bitCeil 3, bitCeil_eq_pow 3⟩).after
      [⟨0, .set (ascii "k") (ascii "v")⟩, ⟨1, .expire (ascii "k") 1⟩, ⟨2, .expire (ascii "k") 5⟩,
        ⟨3, .set (ascii "k") (ascii "w")⟩, ⟨1000000001, .sweepExpired 8⟩]).WellFormed :=
  store_wellFormed (.reference .exact) 3 _ rfl _

end KvStore
