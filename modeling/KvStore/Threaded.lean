import KvStore.ConcurrentStore
import KvStore.Pipeline

/-!
# The server with its threads inside the store

A dispatch is one step of `System`. Here it is cut where `ConcurrentStore` cuts the operations of the store: the
call, the clock reading and every lock-protected section are steps of their own, of the workers and of the
sweeper, and any other thread can move in between.

The routing of requests does not notice: a step is still a sequence of moves of the core
(`ThreadedSystem.Run.moves`), so what the moves keep holds here too. `System` is the special case in which nothing
comes between the sections of an operation (`System.Run.threaded`).
-/

namespace KvStore
open ByteString Transition

/-! ### A dispatch as one call of the store -/

/-- The call of the store that answers a command; `PING` makes none. -/
def Command.storeOp (c : Command) : Option StoreOp :=
  match c.type with
  | .kPing => none
  | .kSet => some (.set c.key c.value)
  | .kGet => some (.get c.key)
  | .kDel => some (.del c.key)
  | .kExists => some (.exists_ c.key)
  | .kExpire => some (.expire c.key c.seconds)
  | .kTtl => some (.ttl c.key)

def StoreReply.encode : StoreReply → Bytes
  | .done => encodeSimpleString (ascii "OK")
  | .value none => encodeNullBulkString
  | .value (some v) => encodeBulkString v
  | .flag b => encodeFlag b
  | .remaining r => encodeTtl r

/-- A machine for store calls as one for commands. -/
def serve {σ : Type} (call : σ → StoreCall → σ × StoreReply) (s : σ) (request : Int × Command) : σ × Bytes :=
  match request.2.storeOp with
  | none => (s, encodeSimpleString (ascii "PONG"))
  | some op => ((call s ⟨request.1, op⟩).1, (call s ⟨request.1, op⟩).2.encode)

section
variable {σ : Type} {call : σ → StoreCall → σ × StoreReply} {s : σ} {now : Int} {c : Command}

theorem serve_ping (h : c.storeOp = none) : serve call s (now, c) = (s, encodeSimpleString (ascii "PONG")) := by
  unfold serve
  rw [h]

theorem serve_op {op : StoreOp} (h : c.storeOp = some op) :
    serve call s (now, c) = ((call s ⟨now, op⟩).1, (call s ⟨now, op⟩).2.encode) := by
  unfold serve
  rw [h]

theorem dispatch_eq_call {P : Platform} (st : Store P) (now : Int) (c : Command) :
    dispatch st now c = serve Store.call st (now, c) := by
  unfold dispatch serve Command.storeOp
  cases c.type with
  | kGet =>
    show dispatchGet st now c = ((st.get now c.key).1, StoreReply.encode (.value (st.get now c.key).2))
    unfold dispatchGet
    rcases st.get now c.key with ⟨st', _ | value⟩ <;> rfl
  | _ => rfl

end

/-! ### The threads -/

/-- The threads that call the store. -/
inductive Thread where
  | worker (i : Nat)
  | sweeper
deriving DecidableEq, Repr

structure ThreadedSystem (P : Platform) where
  server : System P
  /-- The operations in progress, each under the thread that has called it. -/
  running : Finmap (fun _ : Thread => Running) := ∅

inductive ThreadChoice where
  /-- A step outside the store. -/
  | server (choice : Choice)
  /-- The next section of a worker's dispatch. -/
  | dispatch (i : Nat)
  | beginSweep (maxItemsPerShard : Nat)
  /-- The next section of `sweep_expired`. -/
  | sweep
deriving DecidableEq, Repr

/-- The steps that neither dispatch nor sweep. -/
def Choice.outside {P : Platform} (s : System P) : Choice → Bool
  | .worker i => (s.atHand i).isNone
  | .sweep _ => false
  | _ => true

namespace ThreadedSystem
variable {P : Platform}

/-- The dispatch of worker `i` is over and leaves the store as `store`. -/
def returned (s : ThreadedSystem P) (i : Nat) (w : Worker) (item : WorkItem) (store : Store P) (reply : Bytes) :
    ThreadedSystem P × List Event :=
  (⟨{ s.server with store }.setPhase i w (.done (item.completion reply)), s.running.erase (.worker i)⟩,
    [.dispatched item.connectionGeneration item.sequence item.command reply])

def dispatchStep (s : ThreadedSystem P) (i : Nat) : Option (ThreadedSystem P × List Event) :=
  match s.server.workers[i]? with
  | none => none
  | some w =>
    match w.phase with
    | .popped item =>
      match s.running.lookup (.worker i) with
      | none =>
        match item.command.storeOp with
        | none => some (s.returned i w item s.server.store (encodeSimpleString (ascii "PONG")))
        | some op => some ({ s with running := s.running.insert (.worker i) (.called op) }, [])
      | some r =>
        match r.advance s.server.store s.server.clock with
        | (store, .inl r') => some (⟨{ s.server with store }, s.running.insert (.worker i) r'⟩, [])
        | (store, .inr reply) => some (s.returned i w item store reply.encode)
    | _ => none

def sweepStep (s : ThreadedSystem P) : Option (ThreadedSystem P × List Event) :=
  match s.running.lookup .sweeper with
  | none => none
  | some r =>
    match r.advance s.server.store s.server.clock with
    | (store, .inl r') => some (⟨{ s.server with store }, s.running.insert .sweeper r'⟩, [])
    | (store, .inr _) => some (⟨{ s.server with store }, s.running.erase .sweeper⟩, [])

def step (cfg : EventLoopConfig) (s : ThreadedSystem P) : ThreadChoice → Option (ThreadedSystem P × List Event)
  | .server choice =>
    if choice.outside s.server then (s.server.step cfg choice).map fun r => ({ s with server := r.1 }, r.2) else none
  | .dispatch i => s.dispatchStep i
  | .beginSweep m =>
    match s.running.lookup .sweeper with
    | none => some ({ s with running := s.running.insert .sweeper (.called (.sweepExpired m)) }, [])
    | some _ => none
  | .sweep => s.sweepStep

/-- The clock only moves while no operation is in progress. -/
def quietStep (cfg : EventLoopConfig) (s : ThreadedSystem P) :
    ThreadChoice → Option (ThreadedSystem P × List Event)
  | .server (.tick elapsed) => if s.running = ∅ then s.step cfg (.server (.tick elapsed)) else none
  | choice => s.step cfg choice

def Run (cfg : ServerConfig) (store : Store P) (clock : Int) (log : List Event) (s : ThreadedSystem P) : Prop :=
  Exec (Step (ThreadedSystem.step cfg.toEventLoopConfig)) ⟨System.start cfg store clock, ∅⟩ log s

/-- The runs in which the clock stands still during an operation. -/
def QuietRun (cfg : ServerConfig) (store : Store P) (clock : Int) (log : List Event) (s : ThreadedSystem P) : Prop :=
  Exec (Step (ThreadedSystem.quietStep cfg.toEventLoopConfig)) ⟨System.start cfg store clock, ∅⟩ log s

end ThreadedSystem

/-! ### What a step can be -/

/-- A step of the threads with its guard. -/
inductive ThreadMove {P : Platform} (cfg : EventLoopConfig) (s : ThreadedSystem P) :
    ThreadChoice → List Event → ThreadedSystem P → Prop
  | outside {choice : Choice} {server : System P} {evs : List Event} : choice.outside s.server = true →
    s.server.step cfg choice = some (server, evs) → ThreadMove cfg s (.server choice) evs { s with server }
  | ping {i : Nat} {w : Worker} {item : WorkItem} : s.server.workers[i]? = some w → w.phase = .popped item →
    s.running.lookup (.worker i) = none → item.command.storeOp = none →
    ThreadMove cfg s (.dispatch i)
      (s.returned i w item s.server.store (encodeSimpleString (ascii "PONG"))).2
      (s.returned i w item s.server.store (encodeSimpleString (ascii "PONG"))).1
  | call {i : Nat} {w : Worker} {item : WorkItem} {op : StoreOp} : s.server.workers[i]? = some w →
    w.phase = .popped item → s.running.lookup (.worker i) = none → item.command.storeOp = some op →
    ThreadMove cfg s (.dispatch i) [] { s with running := s.running.insert (.worker i) (.called op) }
  | goOn {i : Nat} {w : Worker} {item : WorkItem} {r r' : Running} {store : Store P} :
    s.server.workers[i]? = some w → w.phase = .popped item → s.running.lookup (.worker i) = some r →
    r.advance s.server.store s.server.clock = (store, .inl r') →
    ThreadMove cfg s (.dispatch i) [] ⟨{ s.server with store }, s.running.insert (.worker i) r'⟩
  | finish {i : Nat} {w : Worker} {item : WorkItem} {r : Running} {store : Store P} {reply : StoreReply} :
    s.server.workers[i]? = some w → w.phase = .popped item → s.running.lookup (.worker i) = some r →
    r.advance s.server.store s.server.clock = (store, .inr reply) →
    ThreadMove cfg s (.dispatch i) (s.returned i w item store reply.encode).2
      (s.returned i w item store reply.encode).1
  | beginSweep {m : Nat} : s.running.lookup .sweeper = none →
    ThreadMove cfg s (.beginSweep m) [] { s with running := s.running.insert .sweeper (.called (.sweepExpired m)) }
  | sweepOn {r r' : Running} {store : Store P} : s.running.lookup .sweeper = some r →
    r.advance s.server.store s.server.clock = (store, .inl r') →
    ThreadMove cfg s .sweep [] ⟨{ s.server with store }, s.running.insert .sweeper r'⟩
  | sweepEnd {r : Running} {store : Store P} {reply : StoreReply} : s.running.lookup .sweeper = some r →
    r.advance s.server.store s.server.clock = (store, .inr reply) →
    ThreadMove cfg s .sweep [] ⟨{ s.server with store }, s.running.erase .sweeper⟩

section
variable {P : Platform} {cfg : EventLoopConfig} {s s' : ThreadedSystem P} {choice : ThreadChoice} {evs : List Event}

theorem threadMove_of_dispatchStep {i : Nat} (h : s.dispatchStep i = some (s', evs)) :
    ThreadMove cfg s (.dispatch i) evs s' := by
  unfold ThreadedSystem.dispatchStep at h
  cases hw : s.server.workers[i]? with
  | none => rw [hw] at h; cases h
  | some w =>
    rw [hw] at h; dsimp only at h
    cases hph : w.phase with
    | popped item =>
      rw [hph] at h; dsimp only at h
      cases hr : s.running.lookup (.worker i) with
      | none =>
        rw [hr] at h; dsimp only at h
        cases hop : item.command.storeOp with
        | none => rw [hop] at h; cases h; exact .ping hw hph hr hop
        | some op => rw [hop] at h; cases h; exact .call hw hph hr hop
      | some r =>
        rw [hr] at h; dsimp only at h
        rcases hadv : r.advance s.server.store s.server.clock with ⟨store, r' | reply⟩
        · rw [hadv] at h; cases h; exact .goOn hw hph hr hadv
        · rw [hadv] at h; cases h; exact .finish hw hph hr hadv
    | _ => rw [hph] at h; cases h

theorem threadMove_of_step (h : s.step cfg choice = some (s', evs)) : ThreadMove cfg s choice evs s' := by
  cases choice with
  | server choice =>
    unfold ThreadedSystem.step at h
    dsimp only at h
    split_ifs at h with hout
    obtain ⟨⟨server, evs'⟩, hstep, heq⟩ := Option.map_eq_some_iff.mp h
    cases heq
    exact .outside hout hstep
  | dispatch i => exact threadMove_of_dispatchStep h
  | beginSweep m =>
    unfold ThreadedSystem.step at h
    dsimp only at h
    cases hr : s.running.lookup .sweeper with
    | none => rw [hr] at h; cases h; exact .beginSweep hr
    | some r => rw [hr] at h; cases h
  | sweep =>
    change s.sweepStep = _ at h
    unfold ThreadedSystem.sweepStep at h
    cases hr : s.running.lookup .sweeper with
    | none => rw [hr] at h; cases h
    | some r =>
      rw [hr] at h; dsimp only at h
      rcases hadv : r.advance s.server.store s.server.clock with ⟨store, r' | reply⟩
      · rw [hadv] at h; cases h; exact .sweepOn hr hadv
      · rw [hadv] at h; cases h; exact .sweepEnd hr hadv

/-- A quiet step is a step, and its clock stands still unless nothing is in progress. -/
theorem step_of_quietStep (h : s.quietStep cfg choice = some (s', evs)) :
    s.step cfg choice = some (s', evs) ∧ (s.running = ∅ ∨ ∀ elapsed, choice ≠ .server (.tick elapsed)) := by
  unfold ThreadedSystem.quietStep at h
  split at h
  · split_ifs at h with hquiet
    exact ⟨h, .inl hquiet⟩
  · rename_i hne
    exact ⟨h, .inr hne⟩

end

/-! ### Who is inside the store -/

/-- An operation in progress is that of a request in a worker's hands, or a sweep. -/
structure InsideInv {P : Platform} (s : ThreadedSystem P) : Prop where
  worker : ∀ i r, s.running.lookup (.worker i) = some r →
    ∃ item, s.server.atHand i = some item ∧ item.command.storeOp = some r.op
  sweeper : ∀ r, s.running.lookup .sweeper = some r → ∃ m, r.op = .sweepExpired m

section
variable {P : Platform} {cfg : EventLoopConfig} {s s' : ThreadedSystem P} {choice : ThreadChoice} {evs : List Event}

theorem System.atHand_eq_some_iff {s : System P} {i : Nat} {item : WorkItem} :
    s.atHand i = some item ↔ ∃ w, s.workers[i]? = some w ∧ w.phase = .popped item := by
  unfold System.atHand
  rw [Option.bind_eq_some_iff]
  refine exists_congr fun w => and_congr_right fun _ => ?_
  rw [WorkerPhase.item?_eq_some_iff]
  cases w.phase <;> simp [WorkerPhase.hand]

theorem System.atHand_setPhase (s : System P) (i : Nat) (w : Worker) (phase : WorkerPhase) {j : Nat} (hne : i ≠ j) :
    (s.setPhase i w phase).atHand j = s.atHand j := by
  unfold System.atHand System.setPhase
  rw [List.getElem?_set_ne hne]

/-- A step outside the store leaves every worker that dispatches with its request. -/
theorem SystemMove.atHand {s s' : System P} {choice : Choice} {i : Nat} {item : WorkItem}
    (h : SystemMove cfg s choice evs s') (hout : choice.outside s = true) (hi : s.atHand i = some item) :
    s'.atHand i = some item := by
  cases h with
  | @worker j w _ _ hw hmove =>
    have hne : j ≠ i := by
      rintro rfl
      rw [Choice.outside, hi] at hout
      cases hout
    cases hmove <;> exact (System.atHand_setPhase _ j w _ hne).trans hi
  | @requestStop j w hw _ =>
    obtain ⟨w', hw', hph⟩ := System.atHand_eq_some_iff.mp hi
    refine System.atHand_eq_some_iff.mpr ?_
    show ∃ w₁, (s.workers.set j { w with stopRequested := true })[i]? = some w₁ ∧ _
    by_cases hne : j = i
    · subst hne
      cases hw.symm.trans hw'
      exact ⟨_, List.getElem?_set_self (List.getElem?_eq_some_iff.mp hw).1, hph⟩
    · exact ⟨w', (List.getElem?_set_ne hne).trans hw', hph⟩
  | sweep => cases hout
  | _ => exact hi

theorem Running.op_advance {st st' : Store P} {clock : Int} {r r' : Running}
    (h : r.advance st clock = (st', .inl r')) : r'.op = r.op := by
  cases r with
  | called op =>
    cases op <;> cases h <;> rfl
  | reading rd key now =>
    simp only [Running.advance] at h
    split at h <;> cases h
    rfl
  | sweeping m now i removed =>
    simp only [Running.advance] at h
    split at h <;> cases h
    rfl
  | _ => cases h

theorem InsideInv.storeOp_eq {i : Nat} {w : Worker} {item : WorkItem} {r : Running} (h : InsideInv s)
    (hw : s.server.workers[i]? = some w) (hph : w.phase = .popped item)
    (hrun : s.running.lookup (.worker i) = some r) : item.command.storeOp = some r.op := by
  obtain ⟨item', hitem', hop⟩ := h.worker i r hrun
  cases (System.atHand_eq_some_iff.mpr ⟨w, hw, hph⟩).symm.trans hitem'
  exact hop

theorem InsideInv.insert {t : Thread} {r : Running} {server : System P} (h : InsideInv s)
    (hhand : server.atHand = s.server.atHand)
    (hworker : ∀ i, t = .worker i → ∃ item, s.server.atHand i = some item ∧ item.command.storeOp = some r.op)
    (hsweeper : t = .sweeper → ∃ m, r.op = .sweepExpired m) : InsideInv ⟨server, s.running.insert t r⟩ where
  worker i r' hl := by
    rw [hhand]
    rcases Finmap.lookup_insert_eq_some hl with ⟨ht, rfl⟩ | ⟨-, hl⟩
    · exact hworker i ht.symm
    · exact h.worker i r' hl
  sweeper r' hl := by
    rcases Finmap.lookup_insert_eq_some hl with ⟨ht, rfl⟩ | ⟨-, hl⟩
    · exact hsweeper ht.symm
    · exact h.sweeper r' hl

theorem InsideInv.returned (h : InsideInv s) (i : Nat) (w : Worker) (item : WorkItem) (store : Store P)
    (reply : Bytes) : InsideInv (s.returned i w item store reply).1 where
  worker j r hl := by
    obtain ⟨hne, hl⟩ := Finmap.lookup_erase_eq_some hl
    obtain ⟨item', hitem', hop⟩ := h.worker j r hl
    have hij : i ≠ j := fun hij => hne (congrArg Thread.worker hij.symm)
    exact ⟨item', (System.atHand_setPhase _ i w _ hij).trans hitem', hop⟩
  sweeper r hl := h.sweeper r (Finmap.lookup_erase_eq_some hl).2

theorem InsideInv.move (h : InsideInv s) (hmove : ThreadMove cfg s choice evs s') : InsideInv s' := by
  cases hmove with
  | outside hout hstep =>
    refine ⟨fun i r hl => ?_, h.sweeper⟩
    obtain ⟨item, hitem, hop⟩ := h.worker i r hl
    exact ⟨item, (systemMove_of_step hstep).atHand hout hitem, hop⟩
  | ping _ _ _ _ => exact h.returned ..
  | call hw hph _ hop =>
    refine h.insert rfl (fun j hj => ?_) nofun
    cases hj
    exact ⟨_, System.atHand_eq_some_iff.mpr ⟨_, hw, hph⟩, hop⟩
  | goOn _ _ hr hadv =>
    refine h.insert rfl (fun j hj => ?_) nofun
    cases hj
    rw [Running.op_advance hadv]
    exact h.worker _ _ hr
  | finish _ _ _ _ => exact h.returned ..
  | beginSweep _ => exact h.insert rfl nofun fun _ => ⟨_, rfl⟩
  | sweepOn hr hadv => exact h.insert rfl nofun fun _ => Running.op_advance hadv ▸ h.sweeper _ hr
  | sweepEnd _ _ =>
    exact ⟨fun i r hl => h.worker i r (Finmap.lookup_erase_eq_some hl).2,
      fun r hl => absurd rfl (Finmap.lookup_erase_eq_some hl).1⟩

end

/-! ### The moves of the core -/

section
variable {P : Platform} {cfg : EventLoopConfig} {s s' : ThreadedSystem P} {choice : ThreadChoice} {evs : List Event}

/-- What an operation returns is an answer of the store to its call, if not always of the store it leaves. -/
theorem Running.reply_advance {st st' : Store P} {clock : Int} {r : Running} {reply : StoreReply}
    (h : r.advance st clock = (st', .inr reply)) : ∃ (st₀ : Store P) (now : Int), reply = (st₀.call ⟨now, r.op⟩).2 := by
  cases r with
  | called op =>
    cases op with
    | set key value => cases h; exact ⟨st, 0, rfl⟩
    | _ => cases h
  | reading rd key now =>
    refine ⟨st, now, ?_⟩
    show reply = (st.call ⟨now, rd.op key⟩).2
    rw [Store.call_reply_read, Shard.readLive]
    simp only [Running.advance] at h
    cases hf : (st.shardFor key).find now key <;> rw [hf] at h <;> cases h <;> rfl
  | revalidating rd key now =>
    -- an empty store gives the answer the read has settled on
    cases h
    have hnone : (((Store.ofCount P ⟨1, 0, rfl⟩).shardFor key).readLive now key).2 = none :=
      Option.map_eq_none_iff.mp (Shard.readLive_result.trans (Store.ofCount_liveAt P ⟨1, 0, rfl⟩ now key))
    refine ⟨Store.ofCount P ⟨1, 0, rfl⟩, now, ?_⟩
    show _ = ((Store.ofCount P ⟨1, 0, rfl⟩).call ⟨now, rd.op key⟩).2
    rw [Store.call_reply_read, hnone]
  | deleting key now => cases h; exact ⟨st, now, rfl⟩
  | expiring key seconds now => cases h; exact ⟨st, now, rfl⟩
  | sweeping m now i removed =>
    simp only [Running.advance] at h
    split at h <;> cases h
    exact ⟨st, now, rfl⟩

theorem ThreadedSystem.returned_moves {i : Nat} {w : Worker} {item : WorkItem} (hw : s.server.workers[i]? = some w)
    (hph : w.phase = .popped item) (store : Store P) {reply : Bytes} (hreply : IsReply item.command reply) :
    Moves cfg s.server.core (s.returned i w item store reply).2 (s.returned i w item store reply).1.server.core := by
  have hhand := hands_getElem? hw
  rw [hph] at hhand
  show Moves cfg s.server.core _ (System.setPhase _ i w _).core
  rw [core_setPhase]
  exact .single (.dispatch hhand hreply)

theorem ThreadMove.moves (hinv : InsideInv s) (h : ThreadMove cfg s choice evs s') :
    Moves cfg s.server.core evs s'.server.core := by
  cases h with
  | outside _ hstep => exact step_moves hstep
  | ping hw hph _ hop =>
    refine ThreadedSystem.returned_moves hw hph _ ⟨P, s.server.store, s.server.clock, ?_⟩
    rw [dispatch_eq_call, serve_ping hop]
  | finish hw hph hr hadv =>
    obtain ⟨st₀, now, rfl⟩ := Running.reply_advance hadv
    refine ThreadedSystem.returned_moves hw hph _ ⟨P, st₀, now, ?_⟩
    rw [dispatch_eq_call, serve_op (hinv.storeOp_eq hw hph hr)]
  | _ => exact .refl

end

namespace ThreadedSystem
section
variable {P : Platform} {cfg : ServerConfig} {store : Store P} {clock : Int} {log : List Event} {s : ThreadedSystem P}

theorem Run.moves (h : Run cfg store clock log s) :
    InsideInv s ∧ Moves cfg.toEventLoopConfig (System.start cfg store clock).core log s.server.core := by
  induction h with
  | refl => exact ⟨⟨nofun, nofun⟩, .refl⟩
  | tail _ hstep ih =>
    obtain ⟨hinv, hmoves⟩ := ih
    obtain ⟨choice, hstep⟩ := hstep
    have hmove := threadMove_of_step hstep
    exact ⟨hinv.move hmove, hmoves.trans (hmove.moves hinv)⟩

theorem Run.serverInv (h : Run cfg store clock log s) : ServerInv log s.server.core := by
  have hmoves := h.moves.2
  rw [core_start] at hmoves
  exact hmoves.invariant ⟨.start cfg, .start cfg⟩ fun _ _ _ _ => ServerInv.move

theorem QuietRun.run (h : QuietRun cfg store clock log s) : Run cfg store clock log s := by
  refine Exec.map id (fun s evs s' hstep => ?_) h
  obtain ⟨choice, hstep⟩ := hstep
  exact .single ⟨choice, (step_of_quietStep hstep).1⟩

end
end ThreadedSystem

/-! ### Operations that nothing interrupts -/

section
variable {P : Platform} {clock : Int} {st st' : Store P} {r : Running} {reply : StoreReply}

theorem Running.Alone.exec {σ : Type} {R : σ → List Event → σ → Prop} {f : Store P → Running → σ} {final : σ}
    {evs : List Event} (h : Running.Alone clock st r st' reply)
    (hon : ∀ (st st₁ : Store P) (r r₁ : Running), r.advance st clock = (st₁, .inl r₁) → R (f st r) [] (f st₁ r₁))
    (hend : ∀ (st : Store P) (r : Running), r.advance st clock = (st', .inr reply) → R (f st r) evs final) :
    Exec R (f st r) evs final := by
  induction h with
  | finish hadv => exact .single (hend _ _ hadv)
  | next hadv _ ih => exact (Exec.single (hon _ _ _ _ hadv)).trans (ih hend)

end

section
variable {P : Platform} {cfg : EventLoopConfig} {s s' : System P} {evs : List Event}

def ThreadedSystem.only (s : System P) (t : Thread) (st : Store P) (r : Running) : ThreadedSystem P :=
  ⟨{ s with store := st }, (∅ : Finmap fun _ : Thread => Running).insert t r⟩

theorem erase_insert_empty (t : Thread) (r : Running) :
    ((∅ : Finmap fun _ : Thread => Running).insert t r).erase t = ∅ :=
  Finmap.ext_lookup fun t' => by
    rw [Finmap.lookup_erase_ite, Finmap.lookup_insert_ite]
    split_ifs <;> rfl

theorem exec_dispatch {i : Nat} {w : Worker} {item : WorkItem} (hw : s.workers[i]? = some w)
    (hph : w.phase = .popped item) :
    Exec (Step (ThreadedSystem.quietStep cfg)) ⟨s, ∅⟩
      [.dispatched item.connectionGeneration item.sequence item.command (dispatch s.store s.clock item.command).2]
      ⟨{ s with store := (dispatch s.store s.clock item.command).1 }.setPhase i w
        (.done (item.completion (dispatch s.store s.clock item.command).2)), ∅⟩ := by
  rw [dispatch_eq_call]
  cases hop : item.command.storeOp with
  | none =>
    rw [serve_ping hop]
    refine .single ⟨.dispatch i, ?_⟩
    show ThreadedSystem.dispatchStep _ i = _
    simp only [ThreadedSystem.dispatchStep, hw, hph, hop, Finmap.lookup_empty, ThreadedSystem.returned]
    rfl
  | some op =>
    rw [serve_op hop]
    have hbegin : Step (ThreadedSystem.quietStep cfg) ⟨s, ∅⟩ [] (.only s (.worker i) s.store (.called op)) := by
      refine ⟨.dispatch i, ?_⟩
      show ThreadedSystem.dispatchStep _ i = _
      simp only [ThreadedSystem.dispatchStep, hw, hph, hop, Finmap.lookup_empty]
      rfl
    refine (Exec.single hbegin).trans ((Running.alone_call s.store s.clock op).exec
      (f := ThreadedSystem.only s (.worker i)) (fun st st₁ r r₁ hadv => ⟨.dispatch i, ?_⟩)
      fun st r hadv => ⟨.dispatch i, ?_⟩)
    · show ThreadedSystem.dispatchStep _ i = _
      simp only [ThreadedSystem.dispatchStep, ThreadedSystem.only, hw, hph, Finmap.lookup_insert, hadv,
        Finmap.insert_insert]
    · show ThreadedSystem.dispatchStep _ i = _
      simp only [ThreadedSystem.dispatchStep, ThreadedSystem.only, hw, hph, Finmap.lookup_insert, hadv,
        ThreadedSystem.returned, erase_insert_empty]

theorem exec_sweep (m : Nat) :
    Exec (Step (ThreadedSystem.quietStep cfg)) ⟨s, ∅⟩ []
      ⟨{ s with store := (s.store.sweepExpired s.clock m).1 }, ∅⟩ := by
  have hbegin : Step (ThreadedSystem.quietStep cfg) ⟨s, ∅⟩ []
      (.only s .sweeper s.store (.called (.sweepExpired m))) := ⟨.beginSweep m, rfl⟩
  refine (Exec.single hbegin).trans ((Running.alone_call s.store s.clock (.sweepExpired m)).exec
    (f := ThreadedSystem.only s .sweeper) (fun st st₁ r r₁ hadv => ⟨.sweep, ?_⟩) fun st r hadv => ⟨.sweep, ?_⟩)
  · simp only [ThreadedSystem.quietStep, ThreadedSystem.step, ThreadedSystem.sweepStep, ThreadedSystem.only,
      Finmap.lookup_insert, hadv, Finmap.insert_insert]
  · simp only [ThreadedSystem.quietStep, ThreadedSystem.step, ThreadedSystem.sweepStep, ThreadedSystem.only,
      Finmap.lookup_insert, hadv, erase_insert_empty]
    rfl

/-- A server whose dispatches and sweeps are single steps is one of these. -/
theorem System.Run.threaded {cfg : ServerConfig} {store : Store P} {clock : Int} {log : List Event}
    (h : System.Run cfg store clock log s) : ThreadedSystem.QuietRun cfg store clock log ⟨s, ∅⟩ := by
  refine Exec.map (fun s : System P => (⟨s, ∅⟩ : ThreadedSystem P)) (fun s evs s' hstep => ?_) h
  obtain ⟨choice, hstep⟩ := hstep
  have houtside : choice.outside s = true →
      Exec (Step (ThreadedSystem.quietStep cfg.toEventLoopConfig)) ⟨s, ∅⟩ evs ⟨s', ∅⟩ := by
    intro hout
    have hthread : ThreadedSystem.step cfg.toEventLoopConfig ⟨s, ∅⟩ (.server choice) = some (⟨s', ∅⟩, evs) := by
      simp only [ThreadedSystem.step, hout, if_true, hstep, Option.map_some]
    refine .single ⟨.server choice, ?_⟩
    cases choice with
    | tick elapsed => rw [ThreadedSystem.quietStep, if_pos rfl]; exact hthread
    | _ => exact hthread
  cases systemMove_of_step hstep with
  | @worker i w _ _ hw hmove =>
    cases hat : s.atHand i with
    | none => exact houtside (by rw [Choice.outside, hat]; rfl)
    | some item =>
      obtain ⟨w', hw', hph⟩ := System.atHand_eq_some_iff.mp hat
      cases hw.symm.trans hw'
      cases hmove with
      | dispatch hph => exact exec_dispatch hw hph
      | pop hph' _ => cases hph.symm.trans hph'
      | leave hph' _ _ => cases hph.symm.trans hph'
      | push _ hph' _ => cases hph.symm.trans hph'
      | drop hph' _ => cases hph.symm.trans hph'
      | notify hph' => cases hph.symm.trans hph'
  | sweep => exact exec_sweep _
  | _ => exact houtside rfl

end
end KvStore
