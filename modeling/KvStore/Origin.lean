import KvStore.Service
import KvStore.Sweep
import KvStore.RoundTrip
import KvStore.ErrorReply

/-!
# Where the data in the store comes from

No operation of the store invents anything: what is stored after it under some key was stored under it before, or is
what the operation set (`has_dispatch`). Over whole runs this traces every entry, live or expired and not yet removed, and
every value that a `GET` returned back to a `SET` that a client sent, and the parser's limits on keys and values become
limits on what the store can hold (`stored_data_origin`).
-/

namespace KvStore
open ByteString Transition

/-- Some entry of the shard has this key and value; it may have expired. -/
def Shard.Has {P : Platform} (sh : Shard P) (key value : Bytes) : Prop :=
  ∃ e, sh.entries.lookup key = some e ∧ e.value = value

def Store.Has {P : Platform} (st : Store P) (key value : Bytes) : Prop := ∃ sh ∈ st.shards, sh.Has key value

/-! ### One operation -/

section
variable {P : Platform} {sh : Shard P} {st : Store P} {now : Int} {key k v : Bytes}

namespace Shard

theorem has_erase {n : Nat} {heap : P.heap.Rep} (h : Has ⟨sh.entries.erase key, n, heap⟩ k v) : sh.Has k v := by
  obtain ⟨e, he, hv⟩ := h
  by_cases hk : k = key
  · have hnone := Finmap.lookup_erase key sh.entries
    rw [hk, hnone] at he
    cases he
  · exact ⟨e, (Finmap.lookup_erase_ne hk).symm.trans he, hv⟩

theorem has_insert {e : Entry} {n : Nat} {heap : P.heap.Rep} (h : Has ⟨sh.entries.insert key e, n, heap⟩ k v) :
    (k = key ∧ v = e.value) ∨ sh.Has k v := by
  obtain ⟨e', he, hv⟩ := h
  by_cases hk : k = key
  · rw [hk, Finmap.lookup_insert] at he
    cases he
    exact .inl ⟨hk, hv.symm⟩
  · exact .inr ⟨e', (Finmap.lookup_insert_of_ne sh.entries hk).symm.trans he, hv⟩

theorem has_readLive (h : (sh.readLive now key).1.Has k v) : sh.Has k v := by
  unfold readLive at h
  cases hfind : sh.find now key with
  | live e => rw [hfind] at h; exact h
  | missing => rw [hfind] at h; exact h
  | expired =>
    rw [hfind] at h
    dsimp only at h
    unfold eraseExpired at h
    split at h
    · split_ifs at h
      · exact has_erase h
      · exact h
    · exact h

theorem has_del (h : (sh.del now key).1.Has k v) : sh.Has k v := by
  unfold del at h
  split at h
  · exact h
  · exact has_erase h

theorem has_expire {s : Int} (h : (sh.expire now key s).1.Has k v) : sh.Has k v := by
  unfold expire at h
  split at h
  · exact h
  · next e he =>
    split_ifs at h
    · exact has_erase h
    · rcases has_insert h with ⟨rfl, rfl⟩ | h
      · exact ⟨e, he, rfl⟩
      · exact h

theorem has_sweep {m : Nat} (h : (sh.sweep now m).1.Has k v) : sh.Has k v := by
  obtain ⟨e, he, hv⟩ := h
  obtain ⟨popped, hswept⟩ := sweep_swept now m sh
  rw [hswept.entries] at he
  exact ⟨e, (Option.filter_eq_some_iff.mp he).1, hv⟩

end Shard

namespace Store

theorem has_shardFor (h : (st.shardFor key).Has k v) : st.Has k v := ⟨_, List.get_mem .., h⟩

theorem has_putShard {sh' : Shard P} (h : (st.putShard key sh').Has k v) : sh'.Has k v ∨ st.Has k v := by
  obtain ⟨sh₁, hmem, hhas⟩ := h
  rcases List.mem_or_eq_of_mem_set hmem with hmem | rfl
  · exact .inr ⟨sh₁, hmem, hhas⟩
  · exact .inl hhas

theorem has_readLive (h : (st.readLive now key).1.Has k v) : st.Has k v :=
  (has_putShard h).elim (fun h => has_shardFor (Shard.has_readLive h)) id

theorem has_sweepExpired {m : Nat} (h : (st.sweepExpired now m).1.Has k v) : st.Has k v := by
  obtain ⟨sh', hmem, hhas⟩ := h
  rw [shards_sweepExpired] at hmem
  obtain ⟨sh, hsh, rfl⟩ := List.mem_map.mp hmem
  exact ⟨sh, hsh, Shard.has_sweep hhas⟩

theorem has_of_get (h : (st.get now key).2 = some v) : st.Has key v := by
  obtain ⟨e, he, rfl⟩ := Option.map_eq_some_iff.mp h
  have hread : ((st.shardFor key).readLive now key).2 = some e := he
  have hhas : (st.shardFor key).Has key e.value := by
    refine ⟨e, ?_, rfl⟩
    unfold Shard.readLive Shard.find at hread
    cases hlookup : (st.shardFor key).entries.lookup key with
    | none => simp [hlookup] at hread
    | some e' =>
      by_cases hexpired : isExpired e' now = true
      · simp [hlookup, hexpired] at hread
      · simp only [hlookup, hexpired, Bool.false_eq_true, if_false] at hread
        exact hread
  exact has_shardFor hhas

end Store

/-- Whatever a command leaves in the store was there before, or the command set it. -/
theorem has_dispatch {c : Command} (h : (dispatch st now c).1.Has k v) :
    st.Has k v ∨ (c.type = .kSet ∧ c.key = k ∧ c.value = v) := by
  unfold dispatch at h
  cases htype : c.type with
  | kPing => rw [htype] at h; exact .inl h
  | kSet =>
    rw [htype] at h
    rcases Store.has_putShard h with h | h
    · rcases Shard.has_insert h with ⟨rfl, rfl⟩ | h
      · exact .inr ⟨rfl, rfl, rfl⟩
      · exact .inl (Store.has_shardFor h)
    · exact .inl h
  | kGet =>
    rw [htype] at h
    have hfst : (dispatchGet st now c).1 = (st.readLive now c.key).1 := by
      unfold dispatchGet Store.get
      dsimp only
      split <;> rfl
    have hread : (dispatchGet st now c).1.Has k v := h
    rw [hfst] at hread
    exact .inl (Store.has_readLive hread)
  | kDel =>
    rw [htype] at h
    exact .inl ((Store.has_putShard h).elim (fun h => Store.has_shardFor (Shard.has_del h)) id)
  | kExists => rw [htype] at h; exact .inl (Store.has_readLive h)
  | kExpire =>
    rw [htype] at h
    exact .inl ((Store.has_putShard h).elim (fun h => Store.has_shardFor (Shard.has_expire h)) id)
  | kTtl =>
    rw [htype] at h
    have hread : (st.ttl now c.key).1.Has k v := h
    rw [Store.fst_ttl] at hread
    exact .inl (Store.has_readLive hread)

theorem dispatch_get {c : Command} (htype : c.type = .kGet) : (dispatch st now c).2 = encodeNullBulkString ∨
    ∃ v, (dispatch st now c).2 = encodeBulkString v ∧ st.Has c.key v := by
  unfold dispatch dispatchGet
  rw [htype]
  dsimp only
  cases hget : (st.get now c.key).2 with
  | none => exact .inl rfl
  | some v => exact .inr ⟨v, rfl, Store.has_of_get hget⟩

end

/-! ### Runs -/

section
variable {P : Platform} {cfg : ServerConfig} {store : Store P} {clock : Int} {log evs : List Event} {s s' : System P}
  {k v : Bytes}

/-- A `SET` of this key and value was executed. -/
def SetIn (log : List Event) (key value : Bytes) : Prop :=
  ∃ g q command reply, .dispatched g q command reply ∈ log ∧ command.type = .kSet ∧ command.key = key ∧
    command.value = value

theorem SetIn.mono (h : SetIn log k v) : SetIn (log ++ evs) k v := by
  obtain ⟨g, q, command, reply, hmem, hset⟩ := h
  exact ⟨g, q, command, reply, List.mem_append_left _ hmem, hset⟩

/-- What is stored, and what was read, was there at the start or had been set. -/
structure OriginInv (store : Store P) (log : List Event) (s : System P) : Prop where
  stored : ∀ k v, s.store.Has k v → store.Has k v ∨ SetIn log k v
  read : ∀ before g q command reply after, log = before ++ .dispatched g q command reply :: after →
    command.type = .kGet → reply = encodeNullBulkString ∨
      ∃ v, reply = encodeBulkString v ∧ (store.Has command.key v ∨ SetIn before command.key v)
  valid : ∀ g q command reply, .dispatched g q command reply ∈ log → command.Valid

theorem OriginInv.quiet (h : OriginInv store log s) (hevs : ∀ ev ∈ evs, ev.isDispatch = false)
    (hstore : ∀ k v, s'.store.Has k v → s.store.Has k v) : OriginInv store (log ++ evs) s' where
  stored k v hhas := (h.stored k v (hstore k v hhas)).imp_right SetIn.mono
  read before g q command reply after hlog hget := by
    obtain ⟨rest, hold⟩ := split_of_append hlog fun hmem => by cases hevs _ hmem
    exact h.read before g q command reply rest hold hget
  valid g q command reply hmem := by
    rcases List.mem_append.mp hmem with hmem | hmem
    · exact h.valid g q command reply hmem
    · cases hevs _ hmem

theorem OriginInv.dispatch {g q : Nat} {c : Command} (h : OriginInv store log s) (hvalid : c.Valid)
    (hstore : s'.store = (KvStore.dispatch s.store s.clock c).1) :
    OriginInv store (log ++ [.dispatched g q c (KvStore.dispatch s.store s.clock c).2]) s' where
  stored k v hhas := by
    rw [hstore] at hhas
    rcases has_dispatch hhas with hhas | ⟨hset, hkey, hvalue⟩
    · exact (h.stored k v hhas).imp_right SetIn.mono
    · exact .inr ⟨g, q, c, _, List.mem_append_right _ (List.mem_singleton_self _), hset, hkey, hvalue⟩
  read before g' q' command reply after hlog hget := by
    rcases concat_eq_append_cons hlog with ⟨rfl, heq, -⟩ | ⟨rest, -, hold⟩
    · cases heq
      refine (dispatch_get hget).imp_right ?_
      rintro ⟨v, hreply, hhas⟩
      exact ⟨v, hreply, h.stored _ v hhas⟩
    · exact h.read before g' q' command reply rest hold hget
  valid g' q' command reply hmem := by
    rcases List.mem_append.mp hmem with hmem | hmem
    · exact h.valid g' q' command reply hmem
    · cases List.mem_singleton.mp hmem
      exact hvalid

/-- Whatever waits for a worker came through the parser. -/
theorem System.Run.valid_waiting (h : System.Run cfg store clock log s) {item : WorkItem} (hitem : item ∈ s.waiting) :
    item.command.Valid := by
  obtain ⟨n, raw, hframe⟩ := h.serverInv.stream.itemOk hitem
  obtain ⟨q, htaken⟩ := exists_taken_of_frame hframe
  rcases h.sound _ htaken with hparse | ⟨-, e, -, heq⟩
  · exact valid_of_parseCommand hparse
  · cases heq

theorem System.Run.originInv (h : System.Run cfg store clock log s) : OriginInv store log s := by
  induction h with
  | refl => exact ⟨fun _ _ hhas => .inl hhas, fun before _ _ _ _ _ hlog => by simp at hlog, fun _ _ _ _ hmem => by cases hmem⟩
  | @tail log evs s s' hpre hstep hinv =>
    obtain ⟨choice, hstep⟩ := hstep
    have hnone : ∀ ev ∈ ([] : List Event), ev.isDispatch = false := fun _ hev => by cases hev
    cases systemMove_of_step hstep with
    | loop hl => exact hinv.quiet (loopStep_no_dispatch hl) fun _ _ hhas => hhas
    | @worker i w evs s' hw hmove =>
      cases hmove with
      | @dispatch item hph =>
        have hwaits : item ∈ s.waiting :=
          List.mem_append_left _ (List.mem_filterMap.mpr ⟨w, List.mem_of_getElem? hw, by rw [hph]; rfl⟩)
        exact hinv.dispatch (System.Run.valid_waiting hpre hwaits) rfl
      | _ => exact hinv.quiet hnone fun _ _ hhas => hhas
    | sweep => exact hinv.quiet hnone fun _ _ hhas => Store.has_sweepExpired hhas
    | _ => exact hinv.quiet hnone fun _ _ hhas => hhas

theorem Store.not_has_ofCount (count : ShardCount) (k v : Bytes) : ¬ (Store.ofCount P count).Has k v := by
  rintro ⟨sh, hmem, e, he, -⟩
  rw [List.eq_of_mem_replicate hmem] at he
  cases he

theorem OriginInv.limits (h : OriginInv store log s) (hset : SetIn log k v) :
    k.length ≤ kMaxKeyLength ∧ v.length ≤ kMaxValueLength := by
  obtain ⟨g, q, command, reply, hmem, -, rfl, rfl⟩ := hset
  have hvalid := h.valid g q command reply hmem
  exact ⟨hvalid.key_le, hvalid.value_le⟩

/-- In every run of a server that starts with an empty store, everything in the store, expired entries included, and
every value that a `GET` returned was sent by a client in a `SET` of that key that had been executed, and is within the
parser's limits. -/
theorem stored_data_origin (count : ShardCount) (h : System.Run cfg (Store.ofCount P count) clock log s) :
    (∀ k v, s.store.Has k v → SetIn log k v ∧ k.length ≤ kMaxKeyLength ∧ v.length ≤ kMaxValueLength) ∧
    ∀ before g q command reply after, log = before ++ .dispatched g q command reply :: after →
      command.type = .kGet → reply = encodeNullBulkString ∨
        ∃ v, reply = encodeBulkString v ∧ SetIn before command.key v ∧
          command.key.length ≤ kMaxKeyLength ∧ v.length ≤ kMaxValueLength := by
  have hinv := h.originInv
  refine ⟨fun k v hhas => ?_, fun before g q command reply after hlog hget => ?_⟩
  · have hset := (hinv.stored k v hhas).resolve_left (Store.not_has_ofCount count k v)
    exact ⟨hset, hinv.limits hset⟩
  · refine (hinv.read before g q command reply after hlog hget).imp_right ?_
    rintro ⟨v, hreply, hfrom⟩
    have hset := hfrom.resolve_left (Store.not_has_ofCount count command.key v)
    exact ⟨v, hreply, hset, hinv.limits (hlog ▸ hset.mono)⟩

end

theorem stored_data_origin_sample :
    sampleState.store.Has (ascii "k") (ascii "v") ∧ SetIn sampleLog (ascii "k") (ascii "v") := by
  have hany : (sampleState.store.shards.any fun sh =>
      decide ((sh.entries.lookup (ascii "k")).map (·.value) = some (ascii "v"))) = true := by decide +kernel
  obtain ⟨sh, hmem, hsh⟩ := List.any_eq_true.mp hany
  obtain ⟨e, he, hv⟩ := Option.map_eq_some_iff.mp (of_decide_eq_true hsh)
  have hhas : sampleState.store.Has (ascii "k") (ascii "v") := ⟨sh, hmem, e, he, hv⟩
  exact ⟨hhas, ((stored_data_origin _ sample_run).1 _ _ hhas).1⟩

end KvStore
