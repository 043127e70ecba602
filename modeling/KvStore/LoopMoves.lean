import KvStore.EventLoop

/-!
# What a step of the loop thread can be

`LoopMove` lists the steps of `LoopState.step`, each with the task it works on, its guard and the state it
leads to; `loopMove_of_step` says that there are no others. `LoopMove.origin` reads it for one connection:
where a connection that is open after a step comes from. Results about the loop thread are case analyses on
one of the two.
-/

namespace KvStore
open ByteString

/-- The loop answers the next frame of `c` itself, with this verdict, length and reply; `goOn` tells
whether the connection survives that. -/
inductive OwnAnswer (c : Connection) : ParseResult → Nat → Bytes → Bool → Prop
  | refused {command : Command} {n : Nat} {reply : Bytes} :
    parseCommand c.input.data = .parsedCommand command n →
    reply = busyReply ∨ reply = shuttingDownReply →
    OwnAnswer c (.parsedCommand command n) n reply true
  | recoverable {e : ProtocolError} : parseCommand c.input.data = .protocolError e → e.recoverable = true →
    OwnAnswer c (.protocolError e) e.consumedBytes (encodeError e.message) true
  | fatal {e : ProtocolError} : parseCommand c.input.data = .protocolError e → e.recoverable = false →
    OwnAnswer c (.protocolError e) 0 (encodeError e.message) false

/-- The reply that `process_input` gives to the next frame of `c` itself. -/
def Connection.ownReply (c : Connection) (workQueue : BoundedQueue WorkItem) : Option Bytes :=
  match parseCommand c.input.data with
  | .needMoreData => none
  | .parsedCommand command _ =>
    match (workQueue.tryPush ⟨c.id, c.generation, c.sequencer.nextRequestSequence, command⟩).1 with
    | .kOk => none
    | status => some (refusal status)
  | .protocolError e => some (encodeError e.message)

/-- A connection with this output is closed: after a last partial send, or without one. -/
inductive CloseEvents (g : Nat) (output : Bytes) : List Event → Prop
  | quiet : CloseEvents g output [.closed g output]
  | flushed {n : Nat} : n ≤ output.length →
    CloseEvents g output [.sent g (output.take n), .closed g (output.drop n)]

def Connection.takenEvent (c : Connection) (verdict : ParseResult) (n : Nat) (own : Option Bytes) : Event :=
  .taken c.generation c.sequencer.nextRequestSequence verdict (c.input.data.take n) own

def Connection.workItem (c : Connection) (command : Command) : WorkItem :=
  ⟨c.id, c.generation, c.sequencer.nextRequestSequence, command⟩

/-- The task has lost its connection and ends without doing anything. -/
inductive Task.Gone (r : ConnectionRegistry) : Task → Prop
  | readable {id : Nat} : r.findCurrent id = none → Gone r (.readable id)
  | writable {id : Nat} : r.findCurrent id = none → Gone r (.writable id)
  | read {id g : Nat} : r.find id g = none → Gone r (.read id g)
  | process {id g : Nat} : r.find id g = none → Gone r (.process id g)
  | write {id g : Nat} : r.find id g = none → Gone r (.write id g)

/-- A step of the loop thread in the state `l`, when the system calls answer `io`. -/
inductive LoopMove (cfg : EventLoopConfig) (l : LoopState) (io : Io) : List Event → LoopState → Prop
  -- the head of the loop in `run`
  | stop : l.tasks = [] → l.stopRequested = true → LoopMove cfg l io [] { l with exited := true }
  | poll {batch : List PollEvent} : l.tasks = [] → l.stopRequested = false → io.poll = .events batch →
    LoopMove cfg l io [] { l with tasks := [.events batch] }
  | interrupted : l.tasks = [] → l.stopRequested = false → io.poll = .interrupted → LoopMove cfg l io [] l
  | pollFailed : l.tasks = [] → l.stopRequested = false → io.poll = .failed →
    LoopMove cfg l io [] { l with exited := true }
  -- the loop over a batch
  | batchDone {rest : List Task} : l.tasks = .events [] :: rest → LoopMove cfg l io [] { l with tasks := rest }
  | wakeup {batch : List PollEvent} {rest : List Task} : l.tasks = .events (.wakeup :: batch) :: rest →
    LoopMove cfg l io [] { l with wakeup := 0, tasks := .drain :: .events batch :: rest }
  | listener {batch : List PollEvent} {rest : List Task} : l.tasks = .events (.listener :: batch) :: rest →
    LoopMove cfg l io [] { l with tasks := .accept :: .events batch :: rest }
  | client {fd : Nat} {r w : Bool} {batch : List PollEvent} {rest : List Task} :
    l.tasks = .events (.client fd false r w :: batch) :: rest →
    LoopMove cfg l io []
      { l with
        tasks := (if r then [.readable fd] else []) ++ (if w then [.writable fd] else []) ++ .events batch :: rest }
  | hangupGone {fd : Nat} {r w : Bool} {batch : List PollEvent} {rest : List Task} :
    l.tasks = .events (.client fd true r w :: batch) :: rest → l.registry.findCurrent fd = none →
    LoopMove cfg l io [] { l with tasks := .events batch :: rest }
  | hangup {fd : Nat} {r w : Bool} {batch : List PollEvent} {rest : List Task} {c : Connection}
      {evs : List Event} :
    l.tasks = .events (.client fd true r w :: batch) :: rest → l.registry.findCurrent fd = some c →
    CloseEvents c.generation c.output.data evs →
    LoopMove cfg l io evs
      { l with registry := l.registry.close fd c.generation, tasks := .events batch :: rest }
  -- `handle_listener_readable`
  | acceptDone {rest : List Task} : l.tasks = .accept :: rest → io.accept = .wouldBlock →
    LoopMove cfg l io [] { l with tasks := rest }
  | acceptRetry {rest : List Task} : l.tasks = .accept :: rest → io.accept = .retry → LoopMove cfg l io [] l
  | acceptFailed {rest : List Task} : l.tasks = .accept :: rest → io.accept = .failed →
    LoopMove cfg l io [] { l with tasks := [], exited := true }
  | accept {fd : Nat} {rest : List Task} : l.tasks = .accept :: rest → io.accept = .client fd true →
    l.registry.findCurrent fd = none →
    LoopMove cfg l io [.accepted fd l.registry.nextGeneration]
      { l with registry := l.registry.add fd cfg.maxInputBytes cfg.maxOutputBytes }
  | acceptUnregistered {fd : Nat} {rest : List Task} : l.tasks = .accept :: rest →
    io.accept = .client fd false → l.registry.findCurrent fd = none →
    LoopMove cfg l io [.accepted fd l.registry.nextGeneration, .closed l.registry.nextGeneration []]
      { l with
        registry := (l.registry.add fd cfg.maxInputBytes cfg.maxOutputBytes).close fd l.registry.nextGeneration }
  -- the handlers of a connection look it up
  | readable {id : Nat} {rest : List Task} {c : Connection} : l.tasks = .readable id :: rest →
    l.registry.findCurrent id = some c →
    LoopMove cfg l io [] { l with tasks := .read id c.generation :: rest }
  | writable {id : Nat} {rest : List Task} {c : Connection} : l.tasks = .writable id :: rest →
    l.registry.findCurrent id = some c →
    LoopMove cfg l io [] { l with tasks := .write id c.generation :: rest }
  | gone {task : Task} {rest : List Task} : l.tasks = task :: rest → task.Gone l.registry →
    LoopMove cfg l io [] { l with tasks := rest }
  -- `read_into`
  | readFull {id g : Nat} {rest : List Task} {c : Connection} {evs : List Event} :
    l.tasks = .read id g :: rest → l.registry.find id g = some c →
    c.input.capacity - c.input.data.length = 0 → CloseEvents g c.output.data evs →
    LoopMove cfg l io evs { l with registry := l.registry.close id g, tasks := rest }
  | received {id g : Nat} {rest : List Task} {c : Connection} {chunk : Bytes} {input : BoundedBuffer} :
    l.tasks = .read id g :: rest → l.registry.find id g = some c →
    io.recv = .bytes chunk → chunk ≠ [] →
    chunk.length ≤ min (c.input.capacity - c.input.data.length) kReadChunkSize →
    c.input.append chunk = some input →
    LoopMove cfg l io [.received g chunk]
      { l with registry := l.registry.put id { c with input }, tasks := .process id g :: .read id g :: rest }
  | readBlocked {id g : Nat} {rest : List Task} {c : Connection} : l.tasks = .read id g :: rest →
    l.registry.find id g = some c → c.input.capacity - c.input.data.length ≠ 0 → io.recv = .wouldBlock →
    LoopMove cfg l io [] { l with tasks := .writable id :: rest }
  | readEnded {id g : Nat} {rest : List Task} {c : Connection} {evs : List Event} :
    l.tasks = .read id g :: rest → l.registry.find id g = some c →
    c.input.capacity - c.input.data.length ≠ 0 → io.recv = .closed ∨ io.recv = .failed →
    CloseEvents g c.output.data evs →
    LoopMove cfg l io evs { l with registry := l.registry.close id g, tasks := rest }
  -- `process_input`
  | processDone {id g : Nat} {rest : List Task} {c : Connection} : l.tasks = .process id g :: rest →
    l.registry.find id g = some c →
    cfg.maxInFlightPerConnection ≤ c.sequencer.inFlightCount ∨ parseCommand c.input.data = .needMoreData →
    LoopMove cfg l io [] { l with tasks := rest }
  | handOver {id g n : Nat} {rest : List Task} {c : Connection} {command : Command}
      (hroom : l.workQueue.items.length < l.workQueue.capacity) :
    l.tasks = .process id g :: rest → l.registry.find id g = some c →
    c.sequencer.inFlightCount < cfg.maxInFlightPerConnection → l.workQueue.closed = false →
    parseCommand c.input.data = .parsedCommand command n →
    LoopMove cfg l io [c.takenEvent (.parsedCommand command n) n none]
      { l with
        registry := l.registry.put id (c.takeFrame n)
        workQueue := l.workQueue.enqueue (c.workItem command) hroom }
  | answer {id g n : Nat} {rest : List Task} {c c' : Connection} {verdict : ParseResult} {reply : Bytes} :
    l.tasks = .process id g :: rest → l.registry.find id g = some c →
    c.sequencer.inFlightCount < cfg.maxInFlightPerConnection → OwnAnswer c verdict n reply true →
    (c.takeFrame n).respond c.sequencer.nextRequestSequence reply = (c', true) →
    c.ownReply l.workQueue = some reply →
    LoopMove cfg l io [c.takenEvent verdict n (some reply)] { l with registry := l.registry.put id c' }
  | answerClose {id g n : Nat} {rest : List Task} {c c' : Connection} {verdict : ParseResult} {reply : Bytes}
      {goOn ok : Bool} {evs : List Event} :
    l.tasks = .process id g :: rest → l.registry.find id g = some c →
    c.sequencer.inFlightCount < cfg.maxInFlightPerConnection → OwnAnswer c verdict n reply goOn →
    (c.takeFrame n).respond c.sequencer.nextRequestSequence reply = (c', ok) → (ok && goOn) = false →
    CloseEvents g c'.output.data evs → c.ownReply l.workQueue = some reply →
    LoopMove cfg l io (c.takenEvent verdict n (some reply) :: evs)
      { l with registry := (l.registry.put id c').close id g, tasks := rest }
  -- `handle_connection_writable`
  | writeDone {id g : Nat} {rest : List Task} {c : Connection} : l.tasks = .write id g :: rest →
    l.registry.find id g = some c → c.output.data = [] ∨ io.send = .wouldBlock →
    LoopMove cfg l io [] { l with tasks := rest }
  | sent {id g n : Nat} {rest : List Task} {c : Connection} : l.tasks = .write id g :: rest →
    l.registry.find id g = some c → io.send = .wrote n → 0 < n → n ≤ c.output.data.length →
    LoopMove cfg l io [.sent g (c.output.data.take n)]
      { l with registry := l.registry.put id { c with output := c.output.consume n } }
  | writeFailed {id g : Nat} {rest : List Task} {c : Connection} {evs : List Event} :
    l.tasks = .write id g :: rest → l.registry.find id g = some c → c.output.data ≠ [] → io.send = .failed →
    CloseEvents g c.output.data evs →
    LoopMove cfg l io evs { l with registry := l.registry.close id g, tasks := rest }
  -- `drain_completions`
  | drained {rest : List Task} : l.tasks = .drain :: rest → l.completionQueue.items = [] →
    LoopMove cfg l io [] { l with tasks := rest }
  | stale {rest : List Task} {completion : Completion} {queue : List Completion} : l.tasks = .drain :: rest →
    l.completionQueue.items = completion :: queue →
    l.registry.find completion.connectionId completion.connectionGeneration = none →
    LoopMove cfg l io [] { l with completionQueue := l.completionQueue.dequeue }
  | complete {rest : List Task} {completion : Completion} {queue : List Completion} {c c' : Connection} :
    l.tasks = .drain :: rest → l.completionQueue.items = completion :: queue →
    l.registry.find completion.connectionId completion.connectionGeneration = some c →
    c.respond completion.sequence completion.response = (c', true) →
    LoopMove cfg l io []
      { l with
        registry := l.registry.put completion.connectionId c'
        completionQueue := l.completionQueue.dequeue
        tasks := .process completion.connectionId completion.connectionGeneration ::
          .writable completion.connectionId :: .drain :: rest }
  | overflow {rest : List Task} {completion : Completion} {queue : List Completion} {c c' : Connection}
      {evs : List Event} :
    l.tasks = .drain :: rest → l.completionQueue.items = completion :: queue →
    l.registry.find completion.connectionId completion.connectionGeneration = some c →
    c.respond completion.sequence completion.response = (c', false) →
    CloseEvents completion.connectionGeneration c'.output.data evs →
    LoopMove cfg l io evs
      { l with
        registry := (l.registry.put completion.connectionId c').close completion.connectionId
          completion.connectionGeneration
        completionQueue := l.completionQueue.dequeue
        tasks := .drain :: rest }

section
variable {cfg : EventLoopConfig} {l l' : LoopState} {tasks : List Task} {io : Io} {evs : List Event}
  {id g : Nat} {c : Connection}

/-- `close_connection` closes an open connection and leaves a log alone otherwise. -/
theorem closeConnection_cases {r r' : ConnectionRegistry} {flush : SendResult}
    (h : closeConnection r id g flush = some (r', evs)) :
    (r.find id g = none ∧ r' = r ∧ evs = []) ∨
      ∃ c, r.find id g = some c ∧ r' = r.close id g ∧ CloseEvents g c.output.data evs := by
  unfold closeConnection at h
  cases hf : r.find id g with
  | none => rw [hf] at h; cases h; exact .inl ⟨rfl, rfl, rfl⟩
  | some c =>
    rw [hf] at h; dsimp only at h
    refine .inr ⟨c, rfl, ?_⟩
    split_ifs at h with hempty
    · cases h
      refine ⟨rfl, ?_⟩
      rw [hempty]; exact .quiet
    · obtain ⟨n, hn, heq⟩ := Option.map_eq_some_iff.mp h
      cases heq
      refine ⟨rfl, .flushed ?_⟩
      cases flush with
      | wrote m =>
        simp only [SendResult.count] at hn
        split_ifs at hn with hm
        cases hn; exact hm.2
      | wouldBlock => cases hn; exact Nat.zero_le _
      | failed => cases hn; exact Nat.zero_le _

theorem closing_cases {flush : SendResult} {evs' : List Event} (hf : l.registry.find id g = some c)
    (h : l.closing id g flush tasks evs' = some (l', evs)) :
    ∃ closeEvs, CloseEvents g c.output.data closeEvs ∧ evs = evs' ++ closeEvs ∧
      l' = { l with registry := l.registry.close id g, tasks } := by
  obtain ⟨⟨r, evs₁⟩, hr, heq⟩ := Option.map_eq_some_iff.mp h
  cases heq
  rcases closeConnection_cases hr with ⟨hnone, -⟩ | ⟨c', hf', rfl, hevs⟩
  · rw [hf] at hnone; cases hnone
  · rw [hf] at hf'; cases hf'
    exact ⟨evs₁, hevs, rfl, rfl⟩

theorem handleEvent_move {event : PollEvent} {batch : List PollEvent} {rest : List Task}
    (ht : l.tasks = .events (event :: batch) :: rest)
    (h : l.handleEvent event (.events batch :: rest) io = some (l', evs)) : LoopMove cfg l io evs l' := by
  unfold LoopState.handleEvent at h
  rcases event with _ | _ | ⟨fd, _ | _, readable, writable⟩
  · cases h; exact .wakeup ht
  · cases h; exact .listener ht
  · cases h; exact .client ht
  · dsimp only at h
    cases hf : l.registry.findCurrent fd with
    | none => rw [hf] at h; cases h; exact .hangupGone ht hf
    | some c =>
      rw [hf] at h
      obtain ⟨closeEvs, hclose, rfl, rfl⟩ :=
        closing_cases (ConnectionRegistry.find_eq_some_iff.mpr ⟨hf, rfl⟩) h
      exact .hangup ht hf hclose

theorem handleListenerReadable_move (ht : l.tasks = .accept :: tasks)
    (h : l.handleListenerReadable cfg tasks io = some (l', evs)) : LoopMove cfg l io evs l' := by
  unfold LoopState.handleListenerReadable at h
  cases ha : io.accept with
  | wouldBlock => rw [ha] at h; cases h; exact .acceptDone ht ha
  | retry => rw [ha] at h; cases h; exact .acceptRetry ht ha
  | failed => rw [ha] at h; cases h; exact .acceptFailed ht ha
  | client fd registered =>
    rw [ha] at h; dsimp only at h
    split_ifs at h with hopen hreg
    · cases h
      rw [hreg] at ha
      exact .accept ht ha (Option.not_isSome_iff_eq_none.mp hopen)
    · cases h
      rw [Bool.not_eq_true] at hreg
      rw [hreg] at ha
      exact .acceptUnregistered ht ha (Option.not_isSome_iff_eq_none.mp hopen)

theorem handleConnectionReadable_move (ht : l.tasks = .read id g :: tasks)
    (h : l.handleConnectionReadable id g tasks io = some (l', evs)) : LoopMove cfg l io evs l' := by
  unfold LoopState.handleConnectionReadable at h
  cases hf : l.registry.find id g with
  | none => rw [hf] at h; cases h; exact .gone ht (.read hf)
  | some c =>
    rw [hf] at h; dsimp only at h
    split_ifs at h with hfull
    · obtain ⟨closeEvs, hclose, rfl, rfl⟩ := closing_cases hf h
      exact .readFull ht hf hfull hclose
    cases hr : io.recv with
    | bytes chunk =>
      rw [hr] at h; dsimp only at h
      split_ifs at h with hchunk
      obtain ⟨input, hin, heq⟩ := Option.map_eq_some_iff.mp h
      cases heq
      rw [not_or, not_lt] at hchunk
      exact .received ht hf hr hchunk.1 hchunk.2 hin
    | wouldBlock => rw [hr] at h; cases h; exact .readBlocked ht hf hfull hr
    | closed =>
      rw [hr] at h
      obtain ⟨closeEvs, hclose, rfl, rfl⟩ := closing_cases hf h
      exact .readEnded ht hf hfull (.inl hr) hclose
    | failed =>
      rw [hr] at h
      obtain ⟨closeEvs, hclose, rfl, rfl⟩ := closing_cases hf h
      exact .readEnded ht hf hfull (.inr hr) hclose

theorem handleConnectionWritable_move (ht : l.tasks = .write id g :: tasks)
    (h : l.handleConnectionWritable id g tasks io = some (l', evs)) : LoopMove cfg l io evs l' := by
  unfold LoopState.handleConnectionWritable at h
  cases hf : l.registry.find id g with
  | none => rw [hf] at h; cases h; exact .gone ht (.write hf)
  | some c =>
    rw [hf] at h; dsimp only at h
    split_ifs at h with hempty
    · cases h; exact .writeDone ht hf (.inl hempty)
    cases hs : io.send with
    | wrote n =>
      rw [hs] at h; dsimp only at h
      split_ifs at h with hn
      cases h
      exact .sent ht hf hs hn.1 hn.2
    | wouldBlock => rw [hs] at h; cases h; exact .writeDone ht hf (.inr hs)
    | failed =>
      rw [hs] at h
      obtain ⟨closeEvs, hclose, rfl, rfl⟩ := closing_cases hf h
      exact .writeFailed ht hf hempty hs hclose

theorem respond_identity (c : Connection) (q : Nat) (r : Bytes) :
    (c.respond q r).1.id = c.id ∧ (c.respond q r).1.generation = c.generation := ⟨rfl, rfl⟩

theorem respond_id_generation {c c' : Connection} {q : Nat} {r : Bytes} {ok : Bool}
    (h : c.respond q r = (c', ok)) : c'.id = c.id ∧ c'.generation = c.generation := by
  have := respond_identity c q r
  rw [h] at this; exact this

/-- A round of `process_input` stops without a frame, hands one over, or answers one. -/
theorem processInput_cases (maxInFlight : Nat) (c : Connection) (q : BoundedQueue WorkItem) :
    ((maxInFlight ≤ c.sequencer.inFlightCount ∨ parseCommand c.input.data = .needMoreData) ∧
      processInput maxInFlight c q = ⟨c, q, [], .returnTrue⟩) ∨
    (c.sequencer.inFlightCount < maxInFlight ∧ ∃ command n hroom, q.closed = false ∧
      parseCommand c.input.data = .parsedCommand command n ∧ processInput maxInFlight c q =
        ⟨c.takeFrame n, q.enqueue (c.workItem command) hroom,
          [c.takenEvent (.parsedCommand command n) n none], .more⟩) ∨
    (c.sequencer.inFlightCount < maxInFlight ∧ ∃ verdict n reply goOn, OwnAnswer c verdict n reply goOn ∧
      c.ownReply q = some reply ∧ processInput maxInFlight c q = answerFrame c q n verdict reply goOn) := by
  unfold processInput
  split_ifs with hcap
  · exact .inl ⟨.inl hcap, rfl⟩
  have hlt : c.sequencer.inFlightCount < maxInFlight := Nat.lt_of_not_le hcap
  cases hp : parseCommand c.input.data with
  | needMoreData => exact .inl ⟨.inr rfl, rfl⟩
  | parsedCommand command n =>
    dsimp only
    rcases q.tryPush_cases (c.workItem command) with ⟨hroom, hopen, hpush⟩ | ⟨hpush, -⟩ | ⟨hpush, -⟩
    · refine .inr (.inl ⟨hlt, command, n, hroom, hopen, rfl, ?_⟩)
      rw [Connection.workItem] at hpush
      rw [hpush]; rfl
    · rw [Connection.workItem] at hpush
      refine .inr (.inr ⟨hlt, _, n, shuttingDownReply, true, .refused hp (.inr rfl), ?_, ?_⟩)
      · simp only [Connection.ownReply, hp, hpush, refusal]
      · rw [hpush]; rfl
    · rw [Connection.workItem] at hpush
      refine .inr (.inr ⟨hlt, _, n, busyReply, true, .refused hp (.inl rfl), ?_, ?_⟩)
      · simp only [Connection.ownReply, hp, hpush, refusal]
      · rw [hpush]; rfl
  | protocolError e =>
    dsimp only
    have hreply : c.ownReply q = some (encodeError e.message) := by simp only [Connection.ownReply, hp]
    split_ifs with hrec
    · exact .inr (.inr ⟨hlt, _, _, _, true, .recoverable hp hrec, hreply, rfl⟩)
    · exact .inr (.inr ⟨hlt, _, _, _, false, .fatal hp (by simpa using hrec), hreply, rfl⟩)

theorem handleProcess_move (ht : l.tasks = .process id g :: tasks)
    (h : l.handleProcess cfg id g tasks io = some (l', evs)) : LoopMove cfg l io evs l' := by
  unfold LoopState.handleProcess at h
  cases hf : l.registry.find id g with
  | none => rw [hf] at h; cases h; exact .gone ht (.process hf)
  | some c =>
    rw [hf] at h; dsimp only at h
    have hgen : c.generation = g := (ConnectionRegistry.find_eq_some_iff.mp hf).2
    rcases processInput_cases cfg.maxInFlightPerConnection c l.workQueue with
      ⟨hwhy, hr⟩ | ⟨hlt, command, n, hroom, hopen, hp, hr⟩ | ⟨hlt, verdict, n, reply, goOn, hown, hreply, hr⟩
    · rw [hr] at h
      dsimp only at h
      rw [ConnectionRegistry.put_self (ConnectionRegistry.find_eq_some_iff.mp hf).1] at h
      cases h
      exact .processDone ht hf hwhy
    · rw [hr] at h; cases h
      exact .handOver hroom ht hf hlt hopen hp
    · rw [hr] at h
      unfold answerFrame at h
      dsimp only at h
      cases hresp : (c.takeFrame n).respond c.sequencer.nextRequestSequence reply with
      | mk c' ok =>
        rw [hresp] at h; dsimp only at h
        have hgen' : c'.generation = g := by
          have := (respond_identity (c.takeFrame n) c.sequencer.nextRequestSequence reply).2
          rw [hresp] at this; exact this.trans hgen
        split_ifs at h with hgo
        · obtain ⟨rfl, rfl⟩ : ok = true ∧ goOn = true := by simpa using hgo
          cases h
          exact .answer ht hf hlt hown hresp hreply
        · obtain ⟨closeEvs, hclose, rfl, rfl⟩ := closing_cases (ConnectionRegistry.find_put_self hgen') h
          exact .answerClose ht hf hlt hown hresp (Bool.eq_false_iff.mpr hgo) hclose hreply

theorem drainCompletions_move (ht : l.tasks = .drain :: tasks)
    (h : l.drainCompletions tasks io = some (l', evs)) : LoopMove cfg l io evs l' := by
  unfold LoopState.drainCompletions at h
  rcases l.completionQueue.tryPop_cases with ⟨hnil, hpop⟩ | ⟨completion, queue, hitems, hpop⟩
  · rw [hpop] at h; cases h; exact .drained ht hnil
  · rw [hpop] at h; dsimp only at h
    cases hf : l.registry.find completion.connectionId completion.connectionGeneration with
    | none => rw [hf] at h; cases h; exact .stale ht hitems hf
    | some c =>
      rw [hf] at h; dsimp only at h
      cases hresp : c.respond completion.sequence completion.response with
      | mk c' ok =>
        have hgen' : c'.generation = completion.connectionGeneration := by
          have := (respond_identity c completion.sequence completion.response).2
          rw [hresp] at this; exact this.trans (ConnectionRegistry.find_eq_some_iff.mp hf).2
        rw [hresp] at h; dsimp only at h
        split_ifs at h with hok
        · rw [hok] at hresp
          cases h
          exact .complete ht hitems hf hresp
        · rw [Bool.not_eq_true] at hok
          rw [hok] at hresp
          obtain ⟨closeEvs, hclose, rfl, rfl⟩ := closing_cases (ConnectionRegistry.find_put_self hgen') h
          exact .overflow ht hitems hf hresp hclose

theorem loopMove_of_step (h : l.step cfg io = some (l', evs)) : l.exited = false ∧ LoopMove cfg l io evs l' := by
  unfold LoopState.step at h
  split_ifs at h with hexited
  refine ⟨Bool.eq_false_iff.mpr hexited, ?_⟩
  rcases ht : l.tasks with _ | ⟨task, tasks⟩
  · rw [ht] at h
    unfold LoopState.poll at h
    dsimp only at h
    split_ifs at h with hstop
    · cases h; exact .stop ht hstop
    · rw [Bool.not_eq_true] at hstop
      rcases hp : io.poll with batch | _ | _ <;> rw [hp] at h <;> cases h
      · exact .poll ht hstop hp
      · exact .interrupted ht hstop hp
      · exact .pollFailed ht hstop hp
  · rw [ht] at h
    rcases task with (_ | ⟨event, batch⟩) | _ | id | ⟨id, g⟩ | ⟨id, g⟩ | id | ⟨id, g⟩ | _
    · cases h; exact .batchDone ht
    · exact handleEvent_move ht h
    · exact handleListenerReadable_move ht h
    · dsimp only at h
      rcases hf : l.registry.findCurrent id with _ | c <;> rw [hf] at h <;> cases h
      · exact .gone ht (.readable hf)
      · exact .readable ht hf
    · exact handleConnectionReadable_move ht h
    · exact handleProcess_move ht h
    · dsimp only at h
      rcases hf : l.registry.findCurrent id with _ | c <;> rw [hf] at h <;> cases h
      · exact .gone ht (.writable hf)
      · exact .writable ht hf
    · exact handleConnectionWritable_move ht h
    · exact drainCompletions_move ht h

/-! ### One connection -/

/-- How a step changes connection `id`, which is `c` before it and stays open. -/
inductive LoopTouched (l : LoopState) (io : Io) (l' : LoopState) (id : Nat) (c : Connection) : Connection → Prop
  | received {chunk : Bytes} {input : BoundedBuffer} {rest : List Task} :
    l.tasks = .read id c.generation :: rest → io.recv = .bytes chunk → c.input.append chunk = some input →
    l'.tasks = .process id c.generation :: .read id c.generation :: rest →
    LoopTouched l io l' id c { c with input }
  | handOver {n : Nat} {command : Command} : parseCommand c.input.data = .parsedCommand command n →
    LoopTouched l io l' id c (c.takeFrame n)
  | answer {n : Nat} {verdict : ParseResult} {reply : Bytes} {c' : Connection} {rest : List Task} :
    l.tasks = .process id c.generation :: rest → OwnAnswer c verdict n reply true →
    (c.takeFrame n).respond c.sequencer.nextRequestSequence reply = (c', true) → l'.tasks = l.tasks →
    LoopTouched l io l' id c c'
  | sent {n : Nat} {rest : List Task} : l.tasks = .write id c.generation :: rest → io.send = .wrote n →
    LoopTouched l io l' id c { c with output := c.output.consume n }
  | complete {q : Nat} {response : Bytes} {c' : Connection} {rest : List Task} : l.tasks = .drain :: rest →
    c.respond q response = (c', true) →
    l'.tasks = .process id c.generation :: .writable id :: .drain :: rest → LoopTouched l io l' id c c'

theorem LoopTouched.generation {c' : Connection} (h : LoopTouched l io l' id c c') :
    c'.generation = c.generation := by
  cases h with
  | answer _ _ hresp _ => exact (respond_id_generation hresp).2
  | complete _ hresp _ => exact (respond_id_generation hresp).2
  | _ => rfl

/-- Where a connection that is open after a step comes from. A round of `process_input` that leaves it alone
has found the in-flight cap reached or no complete frame. -/
inductive LoopOrigin (cfg : EventLoopConfig) (l : LoopState) (io : Io) (l' : LoopState) (id : Nat)
    (c' : Connection) : Prop
  | fresh {rest : List Task} : l.tasks = .accept :: rest → io.accept = .client id true →
    c' = l.registry.fresh id cfg.maxInputBytes cfg.maxOutputBytes → LoopOrigin cfg l io l' id c'
  | kept : l.registry.findCurrent id = some c' →
    (∀ rest, l.tasks = .process id c'.generation :: rest →
      cfg.maxInFlightPerConnection ≤ c'.sequencer.inFlightCount ∨ parseCommand c'.input.data = .needMoreData) →
    LoopOrigin cfg l io l' id c'
  | touched {c : Connection} : l.registry.findCurrent id = some c → LoopTouched l io l' id c c' →
    LoopOrigin cfg l io l' id c'

theorem LoopOrigin.other {task : Task} {rest : List Task} (ht : l.tasks = task :: rest)
    (htask : ∀ g, task ≠ .process id g) (hc : l.registry.findCurrent id = some c) :
    LoopOrigin cfg l io l' id c :=
  .kept hc fun _ ht' => absurd (List.cons.inj (ht.symm.trans ht')).1 (htask _)

theorem LoopMove.origin {c' : Connection} (h : LoopMove cfg l io evs l')
    (hc' : l'.registry.findCurrent id = some c') : LoopOrigin cfg l io l' id c' := by
  have hidle : ∀ (_ : l.tasks = []) (_ : l.registry.findCurrent id = some c'), LoopOrigin cfg l io l' id c' :=
    fun ht hc => .kept hc fun rest ht' => by cases ht.symm.trans ht'
  cases h with
  | stop ht _ => exact hidle ht hc'
  | poll ht _ _ => exact hidle ht hc'
  | interrupted ht _ _ => exact hidle ht hc'
  | pollFailed ht _ _ => exact hidle ht hc'
  | batchDone ht => exact .other ht nofun hc'
  | wakeup ht => exact .other ht nofun hc'
  | listener ht => exact .other ht nofun hc'
  | client ht => exact .other ht nofun hc'
  | hangupGone ht _ => exact .other ht nofun hc'
  | hangup ht hcur _ =>
    have hf := ConnectionRegistry.find_eq_some_iff.mpr ⟨hcur, rfl⟩
    exact .other ht nofun (ConnectionRegistry.of_findCurrent_close hf hc').2
  | acceptDone ht _ => exact .other ht nofun hc'
  | acceptRetry ht _ => exact .other ht nofun hc'
  | acceptFailed ht _ => exact .other ht nofun hc'
  | accept ht hio _ =>
    rcases ConnectionRegistry.of_findCurrent_add hc' with ⟨rfl, rfl⟩ | ⟨-, hold⟩
    · exact .fresh ht hio rfl
    · exact .other ht nofun hold
  | acceptUnregistered ht _ _ => exact .other ht nofun (ConnectionRegistry.of_findCurrent_add_close hc').2
  | readable ht _ => exact .other ht nofun hc'
  | writable ht _ => exact .other ht nofun hc'
  | gone ht hgone =>
    refine .kept hc' fun rest ht' => ?_
    obtain ⟨rfl, -⟩ := List.cons.inj (ht.symm.trans ht')
    cases hgone with
    | process hnone => cases hnone.symm.trans (ConnectionRegistry.find_eq_some_iff.mpr ⟨hc', rfl⟩)
  | readFull ht hf _ _ => exact .other ht nofun (ConnectionRegistry.of_findCurrent_close hf hc').2
  | received ht hf hrecv _ _ happ =>
    rcases ConnectionRegistry.of_findCurrent_put hc' with ⟨rfl, rfl⟩ | ⟨-, hold⟩
    · obtain ⟨hc, rfl⟩ := ConnectionRegistry.find_eq_some_iff.mp hf
      exact .touched hc (.received ht hrecv happ rfl)
    · exact .other ht nofun hold
  | readBlocked ht _ _ _ => exact .other ht nofun hc'
  | readEnded ht hf _ _ _ => exact .other ht nofun (ConnectionRegistry.of_findCurrent_close hf hc').2
  | processDone ht hf hwhy =>
    refine .kept hc' fun rest ht' => ?_
    cases ht.symm.trans ht'
    cases (ConnectionRegistry.find_eq_some_iff.mp hf).1.symm.trans hc'
    exact hwhy
  | handOver _ ht hf _ _ hparse =>
    rcases ConnectionRegistry.of_findCurrent_put hc' with ⟨rfl, rfl⟩ | ⟨hne, hold⟩
    · exact .touched (ConnectionRegistry.find_eq_some_iff.mp hf).1 (.handOver hparse)
    · exact .other ht (fun g h => hne (Task.process.inj h).1.symm) hold
  | answer ht hf _ hown hresp _ =>
    rcases ConnectionRegistry.of_findCurrent_put hc' with ⟨rfl, rfl⟩ | ⟨hne, hold⟩
    · obtain ⟨hc, rfl⟩ := ConnectionRegistry.find_eq_some_iff.mp hf
      exact .touched hc (.answer ht hown hresp rfl)
    · exact .other ht (fun g h => hne (Task.process.inj h).1.symm) hold
  | answerClose ht hf _ _ hresp _ _ =>
    obtain ⟨hne, hold⟩ := ConnectionRegistry.of_findCurrent_put_close hf (respond_id_generation hresp).2 hc'
    exact .other ht (fun g h => hne (Task.process.inj h).1.symm) hold
  | writeDone ht _ _ => exact .other ht nofun hc'
  | sent ht hf hio _ _ =>
    rcases ConnectionRegistry.of_findCurrent_put hc' with ⟨rfl, rfl⟩ | ⟨-, hold⟩
    · obtain ⟨hc, rfl⟩ := ConnectionRegistry.find_eq_some_iff.mp hf
      exact .touched hc (.sent ht hio)
    · exact .other ht nofun hold
  | writeFailed ht hf _ _ _ => exact .other ht nofun (ConnectionRegistry.of_findCurrent_close hf hc').2
  | drained ht _ => exact .other ht nofun hc'
  | stale ht _ _ => exact .other ht nofun hc'
  | complete ht _ hf hresp =>
    rcases ConnectionRegistry.of_findCurrent_put hc' with ⟨rfl, rfl⟩ | ⟨-, hold⟩
    · obtain ⟨hc, hg⟩ := ConnectionRegistry.find_eq_some_iff.mp hf
      exact .touched hc (.complete ht hresp (by rw [hg]))
    · exact .other ht nofun hold
  | overflow ht _ hf hresp _ =>
    exact .other ht nofun (ConnectionRegistry.of_findCurrent_put_close hf (respond_id_generation hresp).2 hc').2

end
end KvStore
