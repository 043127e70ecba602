import KvStore.ConcurrentStore

/-!
# Store operations are atomic

While the clock stands still during operations, the threads' interleaved sections look like whole operations
one after the other (`store_linearizable`). `LinInv` lists the operations that have taken effect: a write at
its section, a read at its shared-lock section, a sweep at its end, since no reader can see what it removes.
A read that met an expired entry has taken effect there; whatever is written before it gets the exclusive
lock comes later in the order.
-/

namespace KvStore
open ByteString Simulation Linearizable

/-- Calls and answers; the clock value of a call is the one that stands while it is in progress. -/
def StoreEvent.historyEvent : StoreEvent → Option (Linearizable.Event StoreCall StoreReply)
  | .called id clock op => some (.inv id ⟨clock, op⟩)
  | .sampled _ _ => none
  | .returned id _ _ reply => some (.res id reply)

def storeHistory (log : List StoreEvent) : List (Linearizable.Event StoreCall StoreReply) :=
  log.filterMap StoreEvent.historyEvent

theorem storeHistory_append (log evs : List StoreEvent) :
    storeHistory (log ++ evs) = storeHistory log ++ storeHistory evs :=
  List.filterMap_append

namespace ConcurrentStore
variable {P : Platform}

/-- The clock only moves while no operation is in progress. -/
def quietStep (s : ConcurrentStore P) : StoreChoice → Option (ConcurrentStore P × List StoreEvent)
  | .tick clock => if s.running = ∅ then s.step (.tick clock) else none
  | choice => s.step choice

abbrev QuietRun (s : ConcurrentStore P) := Transition.Exec (Transition.Step quietStep) s

end ConcurrentStore

/-! ### What a section does to the map -/

/-- A read between its two sections has taken effect; no other operation in progress has. -/
def Running.tookEffect : Running → Bool
  | .revalidating _ _ _ => true
  | _ => false

/-- What the next step of an operation does, for a store that looks like the map `m`: nothing, or all of the
operation. -/
inductive SectionEffect {P : Platform} (st : Store P) (clock : Int) (m : AbstractStore) :
    Running → Store P × (Running ⊕ StoreReply) → Prop
  /-- A clock reading, or the sweep of one more shard. -/
  | idle {r r' : Running} {st' : Store P} : r.tookEffect = false → r'.tookEffect = false → r'.op = r.op →
    r'.now? = some clock → SameLive clock st' m → SectionEffect st clock m r (st', .inl r')
  /-- The shared-lock section of a read finds an expired entry: the answer is fixed. -/
  | expired {rd : ReadOp} {key : Bytes} : rd.reply P clock none = (m.callOn P ⟨clock, rd.op key⟩).2 →
    SectionEffect st clock m (.reading rd key clock) (st, .inl (.revalidating rd key clock))
  | whole {r : Running} {st' : Store P} {reply : StoreReply} : r.tookEffect = false →
    reply = (m.callOn P ⟨clock, r.op⟩).2 → SameLive clock st' (m.callOn P ⟨clock, r.op⟩).1 →
    SectionEffect st clock m r (st', .inr reply)
  /-- The read returns; it has taken effect before. -/
  | revalidated {rd : ReadOp} {key : Bytes} {st' : Store P} : SameLive clock st' m →
    SectionEffect st clock m (.revalidating rd key clock) (st', .inr (rd.reply P clock none))

section
variable {P : Platform} {st : Store P} {clock : Int} {m : AbstractStore} {r : Running}

theorem AbstractStore.callOn_read (m : AbstractStore) (now : Int) (rd : ReadOp) (key : Bytes) :
    (m.callOn P ⟨now, rd.op key⟩).1 = m := by cases rd <;> rfl

theorem SectionEffect.reading (h : SameLive clock st m) (rd : ReadOp) (key : Bytes) :
    SectionEffect st clock m (.reading rd key clock) ((Running.reading rd key clock).advance st clock) := by
  have hanswer : rd.reply P clock ((st.shardFor key).readLive clock key).2 = (m.callOn P ⟨clock, rd.op key⟩).2 :=
    (Store.call_reply_read st clock key rd).symm.trans (SameLive.callOn ⟨clock, rd.op key⟩ h).1
  have hsame : SameLive clock st (m.callOn P ⟨clock, rd.op key⟩).1 := by
    rw [AbstractStore.callOn_read]; exact h
  unfold Shard.readLive at hanswer
  simp only [Running.advance]
  cases hf : (st.shardFor key).find clock key with
  | live e => rw [hf] at hanswer; exact .whole rfl hanswer hsame
  | missing => rw [hf] at hanswer; exact .whole rfl hanswer hsame
  | expired => rw [hf] at hanswer; exact .expired hanswer

/-- While the clock stands where the operation has read it, every step has one of these effects. -/
theorem Running.sectionEffect (h : SameLive clock st m) (hnow : ∀ now, r.now? = some now → now = clock) :
    SectionEffect st clock m r (r.advance st clock) := by
  cases r with
  | called op =>
    cases op with
    | set key value =>
      have hcall := SameLive.callOn ⟨clock, .set key value⟩ h
      exact .whole rfl hcall.1 hcall.2
    | _ => exact .idle rfl rfl rfl rfl h
  | reading rd key now =>
    obtain rfl := hnow now rfl
    exact .reading h rd key
  | revalidating rd key now =>
    obtain rfl := hnow now rfl
    exact .revalidated fun k => (Store.eraseExpired_liveAt le_rfl).trans (h k)
  | deleting key now =>
    obtain rfl := hnow now rfl
    have hcall := SameLive.callOn ⟨now, .del key⟩ h
    exact .whole rfl hcall.1 hcall.2
  | expiring key seconds now =>
    obtain rfl := hnow now rfl
    have hcall := SameLive.callOn ⟨now, .expire key seconds⟩ h
    exact .whole rfl hcall.1 hcall.2
  | sweeping m now i removed =>
    obtain rfl := hnow now rfl
    simp only [Running.advance]
    cases hi : st.shards[i]? with
    | some sh => exact .idle rfl rfl rfl rfl fun k => (Store.sweepShard_liveAt hi le_rfl).trans (h k)
    | none => exact .whole rfl rfl h

end

/-! ### The order -/

section
variable {P : Platform} {log : List StoreEvent} {s : ConcurrentStore P} {pts : List (Op StoreCall StoreReply)}
  {id : Nat} {r : Running}

def mapAfter (P : Platform) (pts : List (Op StoreCall StoreReply)) : AbstractStore :=
  stateAfter (AbstractStore.callOn P) ∅ (pts.map Op.call)

/-- A read between its two sections has taken effect; the others in progress have not. -/
def Placed (P : Platform) (pts : List (Op StoreCall StoreReply)) (id : Nat) : Running → Prop
  | .revalidating rd key now => ⟨id, ⟨now, rd.op key⟩, rd.reply P now none⟩ ∈ pts
  | _ => ∀ op ∈ pts, op.id ≠ id

theorem placed_iff (h : r.tookEffect = false) : Placed P pts id r ↔ ∀ op ∈ pts, op.id ≠ id := by
  cases r with
  | revalidating _ _ _ => cases h
  | _ => exact Iff.rfl

/-- An operation in progress in the history `h`. -/
structure InProgress (P : Platform) (h : List (Linearizable.Event StoreCall StoreReply)) (clock : Int)
    (pts : List (Op StoreCall StoreReply)) (id : Nat) (r : Running) : Prop where
  called : .inv id ⟨clock, r.op⟩ ∈ h
  sampled : ∀ now, r.now? = some now → now = clock
  unanswered : ∀ reply, .res id reply ∉ h
  placed : Placed P pts id r

theorem InProgress.frame {h evs : List (Linearizable.Event StoreCall StoreReply)} {clock : Int}
    {pts ops : List (Op StoreCall StoreReply)} (hp : InProgress P h clock pts id r)
    (hevs : ∀ reply, .res id reply ∉ evs) (hops : ∀ op ∈ ops, op.id ≠ id) :
    InProgress P (h ++ evs) clock (pts ++ ops) id r where
  called := List.mem_append_left _ hp.called
  sampled := hp.sampled
  unanswered reply hres := (List.mem_append.mp hres).elim (hp.unanswered reply) (hevs reply)
  placed := by
    have hp := hp.placed
    cases r with
    | revalidating rd key now => exact List.mem_append_left _ hp
    | _ => exact fun op hop => (List.mem_append.mp hop).elim (hp op) (hops op)

/-- The operations of `pts` have taken effect, in this order. -/
structure LinInv (log : List StoreEvent) (s : ConcurrentStore P) (pts : List (Op StoreCall StoreReply)) :
    Prop where
  points : Points (AbstractStore.callOn P) ∅ (storeHistory log) pts
  same : SameLive s.clock s.store (mapAfter P pts)
  point_lt : ∀ op ∈ pts, op.id < s.nextId
  running_lt : ∀ id r, s.running.lookup id = some r → id < s.nextId
  progress : ∀ id r, s.running.lookup id = some r → InProgress P (storeHistory log) s.clock pts id r
  done : ∀ op ∈ pts, s.running.lookup op.id = none → ∃ reply, .res op.id reply ∈ storeHistory log

theorem mapAfter_concat (pts : List (Op StoreCall StoreReply)) (op : Op StoreCall StoreReply) :
    mapAfter P (pts ++ [op]) = ((mapAfter P pts).callOn P op.call).1 := by
  unfold mapAfter
  rw [List.map_append]
  exact stateAfter_concat ..

namespace LinInv

theorem start (st : Store P) (clock : Int) (hst : ∀ k, st.liveAt clock k = none) :
    LinInv [] ⟨st, clock, ∅, 0⟩ [] where
  points := .nil
  same k := hst k
  point_lt op hop := by cases hop
  running_lt id r hl := by cases hl
  progress id r hl := by cases hl
  done op hop := by cases hop

theorem tick (h : LinInv log s pts) {clock : Int} (hquiet : s.running = ∅) (hle : s.clock ≤ clock) :
    LinInv log { s with clock } pts where
  points := h.points
  same := h.same.mono hle
  point_lt := h.point_lt
  running_lt := h.running_lt
  progress id r hl := by
    change s.running.lookup id = some r at hl
    rw [hquiet] at hl; cases hl
  done := h.done

theorem call (h : LinInv log s pts) (op : StoreOp) :
    LinInv (log ++ [.called s.nextId s.clock op])
      { s with running := s.running.insert s.nextId (.called op), nextId := s.nextId + 1 } pts := by
  have hhist : storeHistory (log ++ [.called s.nextId s.clock op]) =
      storeHistory log ++ [.inv s.nextId ⟨s.clock, op⟩] := storeHistory_append ..
  have hold : ∀ op ∈ pts, op.id ≠ s.nextId := fun op hop => (h.point_lt op hop).ne
  constructor
  case points => rw [hhist]; exact h.points.call _ hold
  case same => exact h.same
  case point_lt => exact fun op hop => Nat.lt_succ_of_lt (h.point_lt op hop)
  case running_lt =>
    intro id r hl
    rcases Finmap.lookup_insert_eq_some hl with ⟨rfl, -⟩ | ⟨-, hl⟩
    · exact Nat.lt_succ_self _
    · exact Nat.lt_succ_of_lt (h.running_lt id r hl)
  case progress =>
    intro id r hl
    rw [hhist]
    rcases Finmap.lookup_insert_eq_some hl with ⟨rfl, rfl⟩ | ⟨-, hl⟩
    · refine ⟨List.mem_append_right _ List.mem_cons_self, nofun, fun reply hres => ?_, hold⟩
      rcases List.mem_append.mp hres with hres | hres
      · obtain ⟨op', hop', hid, -⟩ := h.points.answered _ _ hres
        exact hold op' hop' hid
      · cases List.mem_singleton.mp hres
    · have hframe : InProgress P (storeHistory log ++ [.inv s.nextId ⟨s.clock, op⟩]) s.clock (pts ++ []) id r :=
        (h.progress id r hl).frame (by simp) (by simp)
      rwa [List.append_nil] at hframe
  case done =>
    intro op' hop' hl
    change (s.running.insert s.nextId _).lookup op'.id = none at hl
    rw [Finmap.lookup_insert_of_ne _ (hold op' hop')] at hl
    obtain ⟨reply, hreply⟩ := h.done op' hop' hl
    exact ⟨reply, hhist ▸ List.mem_append_left _ hreply⟩

section
variable {store : Store P} {evs : List StoreEvent} {ops pts' : List (Op StoreCall StoreReply)}

/-- An operation goes on; `ops` is empty, or the operation itself if it takes effect in this step. -/
theorem goOn (h : LinInv log s pts) (hl : s.running.lookup id = some r) {r' : Running}
    (hpts : pts ++ ops = pts') (hops : ∀ op ∈ ops, op.id = id) (hevs : storeHistory evs = [])
    (hpoints : Points (AbstractStore.callOn P) ∅ (storeHistory log) pts')
    (hsame : SameLive s.clock store (mapAfter P pts'))
    (hself : InProgress P (storeHistory log) s.clock pts' id r') :
    LinInv (log ++ evs) { s with store, running := s.running.insert id r' } pts' := by
  subst hpts
  have hhist : storeHistory (log ++ evs) = storeHistory log := by
    rw [storeHistory_append, hevs, List.append_nil]
  have hlt := h.running_lt id r hl
  constructor
  case points => rw [hhist]; exact hpoints
  case same => exact hsame
  case point_lt =>
    intro op hop
    rcases List.mem_append.mp hop with hop | hop
    · exact h.point_lt op hop
    · rw [hops op hop]; exact hlt
  case running_lt =>
    intro id' r₁ hl'
    rcases Finmap.lookup_insert_eq_some hl' with ⟨rfl, -⟩ | ⟨-, hl'⟩
    · exact hlt
    · exact h.running_lt id' r₁ hl'
  case progress =>
    intro id' r₁ hl'
    rw [hhist]
    rcases Finmap.lookup_insert_eq_some hl' with ⟨rfl, rfl⟩ | ⟨hne, hl'⟩
    · exact hself
    · have hframe : InProgress P (storeHistory log ++ []) s.clock (pts ++ ops) id' r₁ :=
        (h.progress id' r₁ hl').frame (by simp) fun op hop => (hops op hop).trans_ne hne.symm
      rwa [List.append_nil] at hframe
  case done =>
    intro op hop hl'
    rw [hhist]
    change (s.running.insert id r').lookup op.id = none at hl'
    rw [Finmap.lookup_insert_ite] at hl'
    split_ifs at hl' with hid
    rcases List.mem_append.mp hop with hop | hop
    · exact h.done op hop hl'
    · exact absurd (hops op hop) hid

theorem ended (h : LinInv log s pts) (hl : s.running.lookup id = some r) {op : StoreOp} {reply : StoreReply}
    (hpts : pts ++ ops = pts') (hops : ∀ op ∈ ops, op.id = id)
    (hpoints : Points (AbstractStore.callOn P) ∅ (storeHistory log ++ [.res id reply]) pts')
    (hsame : SameLive s.clock store (mapAfter P pts')) :
    LinInv (log ++ [.returned id s.clock op reply]) { s with store, running := s.running.erase id } pts' := by
  subst hpts
  have hhist : storeHistory (log ++ [.returned id s.clock op reply]) = storeHistory log ++ [.res id reply] :=
    storeHistory_append ..
  constructor
  case points => rw [hhist]; exact hpoints
  case same => exact hsame
  case point_lt =>
    intro op hop
    rcases List.mem_append.mp hop with hop | hop
    · exact h.point_lt op hop
    · rw [hops op hop]; exact h.running_lt id r hl
  case running_lt => exact fun id' r' hl' => h.running_lt id' r' (Finmap.lookup_erase_eq_some hl').2
  case progress =>
    intro id' r' hl'
    obtain ⟨hne, hl'⟩ := Finmap.lookup_erase_eq_some hl'
    rw [hhist]
    refine (h.progress id' r' hl').frame (fun reply' hres => ?_) fun op hop => (hops op hop).trans_ne hne.symm
    cases List.mem_singleton.mp hres
    exact hne rfl
  case done =>
    intro op hop hl'
    rw [hhist]
    by_cases hid : op.id = id
    · rw [hid]; exact ⟨reply, List.mem_append_right _ List.mem_cons_self⟩
    · change (s.running.erase id).lookup op.id = none at hl'
      rw [Finmap.lookup_erase_ne hid] at hl'
      rcases List.mem_append.mp hop with hop | hop
      · obtain ⟨reply', hreply'⟩ := h.done op hop hl'
        exact ⟨reply', List.mem_append_left _ hreply'⟩
      · exact absurd (hops op hop) hid

end

/-- A step without effect: a clock reading, or the sweep of one more shard. -/
theorem idle (h : LinInv log s pts) (hl : s.running.lookup id = some r)
    {store : Store P} {r' : Running} {evs : List StoreEvent} (hop : r'.op = r.op)
    (hnow : r'.now? = some s.clock) (hplaced : Placed P pts id r') (hsame : SameLive s.clock store (mapAfter P pts))
    (hevs : storeHistory evs = []) :
    LinInv (log ++ evs) { s with store, running := s.running.insert id r' } pts := by
  have hp := h.progress id r hl
  exact h.goOn hl (List.append_nil pts) (by simp) hevs h.points hsame
    ⟨hop ▸ hp.called, fun now hnow' => Option.some.inj (hnow'.symm.trans hnow), hp.unanswered, hplaced⟩

theorem finish (h : LinInv log s pts) (hl : s.running.lookup id = some r) (hr : ∀ op ∈ pts, op.id ≠ id)
    {store : Store P} {reply : StoreReply} (hreply : reply = ((mapAfter P pts).callOn P ⟨s.clock, r.op⟩).2)
    (hstore : SameLive s.clock store ((mapAfter P pts).callOn P ⟨s.clock, r.op⟩).1) :
    LinInv (log ++ [.returned id s.clock r.op reply]) { s with store, running := s.running.erase id }
      (pts ++ [⟨id, ⟨s.clock, r.op⟩, reply⟩]) := by
  have hp := h.progress id r hl
  have hpass := h.points.pass hp.called hr hp.unanswered
  refine h.ended hl rfl (by simp) ?_ ?_
  · subst hreply
    exact hpass.answer (List.mem_append_right _ List.mem_cons_self)
  · rw [mapAfter_concat]; exact hstore

/-- A read that finds an expired entry takes effect: its answer is fixed. -/
theorem expired (h : LinInv log s pts) {rd : ReadOp} {key : Bytes}
    (hl : s.running.lookup id = some (.reading rd key s.clock))
    (hreply : rd.reply P s.clock none = ((mapAfter P pts).callOn P ⟨s.clock, rd.op key⟩).2) :
    LinInv (log ++ []) { s with running := s.running.insert id (.revalidating rd key s.clock) }
      (pts ++ [⟨id, ⟨s.clock, rd.op key⟩, rd.reply P s.clock none⟩]) := by
  have hp := h.progress id _ hl
  have hpass := h.points.pass hp.called hp.placed hp.unanswered
  refine h.goOn hl rfl (by simp) rfl (hreply ▸ hpass) ?_ ⟨hp.called, hp.sampled, hp.unanswered, ?_⟩
  · rw [mapAfter_concat, AbstractStore.callOn_read]; exact h.same
  · exact List.mem_append_right _ List.mem_cons_self

theorem advance (h : LinInv log s pts) (hl : s.running.lookup id = some r) :
    ∃ pts', LinInv (log ++ (s.advance id r).2) (s.advance id r).1 pts' := by
  have hp := h.progress id r hl
  have heffect := Running.sectionEffect h.same hp.sampled
  unfold ConcurrentStore.advance
  generalize r.advance s.store s.clock = out at heffect ⊢
  cases heffect with
  | idle hr hr' hop hnow hsame =>
    refine ⟨pts, h.idle hl hop hnow ((placed_iff hr').mpr ((placed_iff hr).mp hp.placed)) hsame ?_⟩
    split_ifs <;> rfl
  | expired hreply => exact ⟨_, h.expired hl hreply⟩
  | whole hr hreply hsame => exact ⟨_, h.finish hl ((placed_iff hr).mp hp.placed) hreply hsame⟩
  | revalidated hsame => exact ⟨pts, h.ended hl (List.append_nil pts) (by simp) (h.points.answer hp.placed) hsame⟩

theorem step (h : LinInv log s pts) {evs : List StoreEvent} {s' : ConcurrentStore P}
    (hstep : Transition.Step ConcurrentStore.quietStep s evs s') : ∃ pts', LinInv (log ++ evs) s' pts' := by
  obtain ⟨choice, hc⟩ := hstep
  cases choice with
  | call op =>
    cases hc
    exact ⟨pts, h.call op⟩
  | advance id =>
    obtain ⟨r, hl, hadv⟩ := Option.map_eq_some_iff.mp hc
    obtain ⟨pts', h'⟩ := h.advance hl
    rw [hadv] at h'
    exact ⟨pts', h'⟩
  | tick clock =>
    simp only [ConcurrentStore.quietStep, ConcurrentStore.step] at hc
    split_ifs at hc with hquiet hle
    cases hc
    rw [List.append_nil]
    exact ⟨pts, h.tick hquiet hle⟩

/-- Operations that have taken effect and are still in progress are reads. -/
theorem isLinearization (h : LinInv log s pts) :
    IsLinearization (AbstractStore.callOn P) ∅ (storeHistory log)
      (pts.filter fun op => (s.running.lookup op.id).isNone) := by
  refine h.points.isLinearization (fun op hop => ?_) fun op hop hkeep m => ?_
  · constructor
    · intro hkeep
      exact h.done op hop (Option.isNone_iff_eq_none.mp hkeep)
    · rintro ⟨reply, hres⟩
      cases hl : s.running.lookup op.id with
      | none => rfl
      | some r => exact absurd hres ((h.progress _ r hl).unanswered reply)
  · cases hl : s.running.lookup op.id with
    | none => rw [hl] at hkeep; cases hkeep
    | some r =>
      have hplaced := (h.progress _ r hl).placed
      cases r with
      | revalidating rd key now =>
        rw [h.points.eq_of_id hop hplaced rfl]
        exact AbstractStore.callOn_read m now rd key
      | _ => exact absurd rfl (hplaced op hop)

end LinInv

theorem ConcurrentStore.QuietRun.linInv {st : Store P} {clock : Int} (hst : ∀ k, st.liveAt clock k = none)
    (h : QuietRun ⟨st, clock, ∅, 0⟩ log s) : ∃ pts, LinInv log s pts := by
  have hstep : ∀ log evs (s s' : ConcurrentStore P), (∃ pts, LinInv log s pts) →
      Transition.Step quietStep s evs s' → ∃ pts, LinInv (log ++ evs) s' pts :=
    fun _ _ _ _ ⟨_, hinv⟩ hstep => hinv.step hstep
  exact h.invariant ⟨[], LinInv.start st clock hst⟩ hstep

end

/-- Any number of threads on a fresh store, with the clock standing still while an operation is in progress:
the finished operations have a total order that respects precedence and in which every answer is the one of
the map with deadlines, in the platform's time arithmetic. -/
theorem store_linearizable (P : Platform) (shardCount : Nat) (st : Store P)
    (hst : Store.make P shardCount = .ok st) (clock : Int) (log : List StoreEvent) (s : ConcurrentStore P)
    (hrun : ConcurrentStore.QuietRun ⟨st, clock, ∅, 0⟩ log s) :
    ∃ order, IsLinearization (AbstractStore.callOn P) ∅ (storeHistory log) order ∧
      (P.chrono = .exact → IsLinearization AbstractStore.call ∅ (storeHistory log) order) := by
  obtain ⟨pts, h⟩ := hrun.linInv fun k => Store.make_liveAt hst clock k
  refine ⟨_, h.isLinearization, fun hP => ?_⟩
  rw [← AbstractStore.callOn_exact hP]
  exact h.isLinearization

/-- A `get` meets an expired key; while it waits for the exclusive lock the key is set and read again. -/
def overtakenRead : List StoreChoice :=
  [.call (.set (ascii "k") (ascii "v")), .advance 0, .call (.expire (ascii "k") 1), .advance 1, .advance 1,
    .tick 1000000000, .call (.get (ascii "k")), .advance 2, .advance 2, .call (.set (ascii "k") (ascii "w")),
    .advance 3, .call (.get (ascii "k")), .advance 4, .advance 4, .advance 2]

def overtakenStart : ConcurrentStore (.reference .exact) := ⟨Store.small, 0, ∅, 0⟩

theorem overtakenRead_isSome :
    (Transition.run ConcurrentStore.quietStep overtakenStart overtakenRead).isSome = true := by
  decide +kernel

/-- The overtaken `get` answers that the key is missing, after another one has answered `w`. -/
theorem store_linearizable_overtaken :
    let log := ((Transition.run ConcurrentStore.quietStep overtakenStart overtakenRead).get overtakenRead_isSome).2
    log.drop 11 = [.returned 4 1000000000 (.get (ascii "k")) (.value (some (ascii "w"))),
      .returned 2 1000000000 (.get (ascii "k")) (.value none)] ∧
    ∃ order, IsLinearization (AbstractStore.callOn (.reference .exact)) ∅ (storeHistory log) order ∧
      ((Platform.reference .exact).chrono = .exact →
        IsLinearization AbstractStore.call ∅ (storeHistory log) order) :=
  ⟨by decide +kernel, store_linearizable (.reference .exact) 2 Store.small rfl 0 _ _
    (Transition.exec_of_isSome overtakenRead_isSome)⟩

end KvStore
