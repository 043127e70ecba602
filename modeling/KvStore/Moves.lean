import KvStore.History
import KvStore.Lib.Slots
import KvStore.LoopMoves
import KvStore.Steps

/-!
# What a step of the server can do

The invariants of the server only look at the registry, the three places a request can wait in and the
events. `Core` is that part of the state, and `Move` lists everything that can happen to it: fifteen
moves, each with its guard. `step_moves` says that a step of any thread is a sequence of moves with the
same events, so an invariant kept by every move holds in every run (`System.Run.invariant`).
-/

namespace KvStore
open ByteString Transition Slots

/-- What a worker has in its hands. -/
inductive Hand where
  | free
  | item (item : WorkItem)
  | completion (completion : Completion)
deriving DecidableEq, Repr

def WorkerPhase.hand : WorkerPhase → Hand
  | .popped item => .item item
  | .done completion => .completion completion
  | _ => .free

/-- The part of the state that the routing of requests and responses depends on. -/
structure Core where
  registry : ConnectionRegistry
  work : List WorkItem
  hands : List Hand
  completions : List Completion
  /-- The completion queue is closed: completions are dropped from now on. -/
  lossy : Bool

def LoopState.core (l : LoopState) (hands : List Hand) : Core where
  registry := l.registry
  work := l.workQueue.items
  hands
  completions := l.completionQueue.items
  lossy := l.completionQueue.closed

def System.core {P : Platform} (s : System P) : Core := s.loop.core (s.workers.map (·.phase.hand))

/-- Some store answers `command` with `reply`. -/
def IsReply (command : Command) (reply : Bytes) : Prop :=
  ∃ (P : Platform) (st : Store P) (now : Int), reply = (dispatch st now command).2

inductive Move (cfg : EventLoopConfig) (k : Core) : List Event → Core → Prop
  | accept {fd : Nat} : k.registry.findCurrent fd = none →
    Move cfg k [.accepted fd k.registry.nextGeneration]
      { k with registry := k.registry.add fd cfg.maxInputBytes cfg.maxOutputBytes }
  | close {id g : Nat} {c : Connection} {evs : List Event} : k.registry.find id g = some c →
    CloseEvents g c.output.data evs → Move cfg k evs { k with registry := k.registry.close id g }
  | send {id g n : Nat} {c : Connection} : k.registry.find id g = some c → n ≤ c.output.data.length →
    Move cfg k [.sent g (c.output.data.take n)]
      { k with registry := k.registry.put id { c with output := c.output.consume n } }
  | receive {id g : Nat} {c : Connection} {chunk : Bytes} {input : BoundedBuffer} :
    k.registry.find id g = some c → c.input.append chunk = some input →
    Move cfg k [.received g chunk] { k with registry := k.registry.put id { c with input } }
  | handOver {id g n : Nat} {c : Connection} {command : Command} : k.registry.find id g = some c →
    c.sequencer.inFlightCount < cfg.maxInFlightPerConnection →
    parseCommand c.input.data = .parsedCommand command n →
    Move cfg k [c.takenEvent (.parsedCommand command n) n none]
      { k with registry := k.registry.put id (c.takeFrame n), work := k.work ++ [c.workItem command] }
  | answer {id g n : Nat} {c c' : Connection} {verdict : ParseResult} {reply : Bytes} :
    k.registry.find id g = some c → c.sequencer.inFlightCount < cfg.maxInFlightPerConnection →
    OwnAnswer c verdict n reply true →
    (c.takeFrame n).respond c.sequencer.nextRequestSequence reply = (c', true) →
    Move cfg k [c.takenEvent verdict n (some reply)] { k with registry := k.registry.put id c' }
  | answerClose {id g n : Nat} {c c' : Connection} {verdict : ParseResult} {reply : Bytes} {goOn ok : Bool}
      {evs : List Event} :
    k.registry.find id g = some c → c.sequencer.inFlightCount < cfg.maxInFlightPerConnection →
    OwnAnswer c verdict n reply goOn →
    (c.takeFrame n).respond c.sequencer.nextRequestSequence reply = (c', ok) →
    CloseEvents g c'.output.data evs →
    Move cfg k (c.takenEvent verdict n (some reply) :: evs)
      { k with registry := (k.registry.put id c').close id g }
  | complete {completion : Completion} {rest : List Completion} {c c' : Connection} :
    k.completions = completion :: rest →
    k.registry.find completion.connectionId completion.connectionGeneration = some c →
    c.respond completion.sequence completion.response = (c', true) →
    Move cfg k [] { k with registry := k.registry.put completion.connectionId c', completions := rest }
  | completeClose {completion : Completion} {rest : List Completion} {c c' : Connection} {ok : Bool}
      {evs : List Event} :
    k.completions = completion :: rest →
    k.registry.find completion.connectionId completion.connectionGeneration = some c →
    c.respond completion.sequence completion.response = (c', ok) →
    CloseEvents completion.connectionGeneration c'.output.data evs →
    Move cfg k evs
      { k with
        registry := (k.registry.put completion.connectionId c').close completion.connectionId
          completion.connectionGeneration
        completions := rest }
  | stale {completion : Completion} {rest : List Completion} : k.completions = completion :: rest →
    k.registry.find completion.connectionId completion.connectionGeneration = none →
    Move cfg k [] { k with completions := rest }
  | pop {i : Nat} {item : WorkItem} {rest : List WorkItem} : k.work = item :: rest →
    k.hands[i]? = some .free → Move cfg k [] { k with work := rest, hands := k.hands.set i (.item item) }
  | dispatch {i : Nat} {item : WorkItem} {reply : Bytes} : k.hands[i]? = some (.item item) →
    IsReply item.command reply →
    Move cfg k [.dispatched item.connectionGeneration item.sequence item.command reply]
      { k with hands := k.hands.set i (.completion (item.completion reply)) }
  | push {i : Nat} {completion : Completion} : k.hands[i]? = some (.completion completion) →
    k.lossy = false →
    Move cfg k [] { k with hands := k.hands.set i .free, completions := k.completions ++ [completion] }
  | lose {i : Nat} {completion : Completion} : k.hands[i]? = some (.completion completion) →
    k.lossy = true → Move cfg k [] { k with hands := k.hands.set i .free }
  | closeCompletions : Move cfg k [] { k with lossy := true }

abbrev Moves (cfg : EventLoopConfig) := Exec (Move cfg)

/-! ### The loop thread -/

section Loop
variable {cfg : EventLoopConfig} {l l' : LoopState} {io : Io} {evs : List Event}

/-- The completion queue stays open or closed, and a closed work queue takes nothing. -/
structure QueuesKept (l l' : LoopState) : Prop where
  capacity : l'.completionQueue.capacity = l.completionQueue.capacity
  completions : l'.completionQueue.closed = l.completionQueue.closed
  work : l.workQueue.closed = true → l'.workQueue = l.workQueue

theorem QueuesKept.of_eq (hwork : l'.workQueue = l.workQueue)
    (hcompletions : l'.completionQueue = l.completionQueue) : QueuesKept l l' :=
  ⟨by rw [hcompletions], by rw [hcompletions], fun _ => hwork⟩

/-- What a step of the loop thread does, whatever the workers hold. -/
structure LoopEffect (cfg : EventLoopConfig) (l : LoopState) (evs : List Event) (l' : LoopState) : Prop where
  moves : ∀ hands, Moves cfg (l.core hands) evs (l'.core hands)
  queues : QueuesKept l l'

theorem LoopEffect.idle (hregistry : l'.registry = l.registry) (hwork : l'.workQueue = l.workQueue)
    (hcompletions : l'.completionQueue = l.completionQueue) : LoopEffect cfg l [] l' := by
  refine ⟨fun hands => ?_, .of_eq hwork hcompletions⟩
  unfold LoopState.core
  rw [hregistry, hwork, hcompletions]; exact .refl

theorem LoopEffect.single (hmove : ∀ hands, Move cfg (l.core hands) evs (l'.core hands))
    (hqueues : QueuesKept l l') : LoopEffect cfg l evs l' :=
  ⟨fun hands => .single (hmove hands), hqueues⟩

theorem LoopMove.effect (h : LoopMove cfg l io evs l') : LoopEffect cfg l evs l' := by
  have hqueue : ∀ {completion queue}, l.completionQueue.items = completion :: queue →
      l.completionQueue.dequeue.items = queue := fun hitems => by rw [BoundedQueue.items_dequeue, hitems]; rfl
  cases h with
  | hangup _ hf hclose =>
    exact .single (fun _ => .close (ConnectionRegistry.find_eq_some_iff.mpr ⟨hf, rfl⟩) hclose) (.of_eq rfl rfl)
  | accept _ _ hnone => exact .single (fun _ => .accept hnone) (.of_eq rfl rfl)
  | @acceptUnregistered fd rest _ _ hnone =>
    have hadd : ∀ hands, Move cfg (l.core hands) [.accepted fd l.registry.nextGeneration]
        { l.core hands with registry := l.registry.add fd cfg.maxInputBytes cfg.maxOutputBytes } :=
      fun _ => .accept hnone
    have hfind := l.registry.find_add_self fd cfg.maxInputBytes cfg.maxOutputBytes
    exact ⟨fun hands => (Exec.single (hadd hands)).trans (Exec.single (.close hfind .quiet)), .of_eq rfl rfl⟩
  | readFull _ hf _ hclose => exact .single (fun _ => .close hf hclose) (.of_eq rfl rfl)
  | received _ hf _ _ _ hin => exact .single (fun _ => .receive hf hin) (.of_eq rfl rfl)
  | readEnded _ hf _ _ hclose => exact .single (fun _ => .close hf hclose) (.of_eq rfl rfl)
  | handOver hroom _ hf hlt hopen hp =>
    refine .single (fun _ => .handOver hf hlt hp) ⟨rfl, rfl, fun hclosed => ?_⟩
    rw [hopen] at hclosed; cases hclosed
  | answer _ hf hlt hown hresp => exact .single (fun _ => .answer hf hlt hown hresp) (.of_eq rfl rfl)
  | answerClose _ hf hlt hown hresp _ hclose =>
    exact .single (fun _ => .answerClose hf hlt hown hresp hclose) (.of_eq rfl rfl)
  | sent _ hf _ _ hn => exact .single (fun _ => .send hf hn) (.of_eq rfl rfl)
  | writeFailed _ hf _ _ hclose => exact .single (fun _ => .close hf hclose) (.of_eq rfl rfl)
  | stale _ hitems hf =>
    refine .single (fun hands => ?_) ⟨rfl, rfl, fun _ => rfl⟩
    have hmove : Move cfg (l.core hands) _ _ := .stale hitems hf
    rwa [← hqueue hitems] at hmove
  | complete _ hitems hf hresp =>
    refine .single (fun hands => ?_) ⟨rfl, rfl, fun _ => rfl⟩
    have hmove : Move cfg (l.core hands) _ _ := .complete hitems hf hresp
    rwa [← hqueue hitems] at hmove
  | overflow _ hitems hf hresp hclose =>
    refine .single (fun hands => ?_) ⟨rfl, rfl, fun _ => rfl⟩
    have hmove : Move cfg (l.core hands) _ _ := .completeClose hitems hf hresp hclose
    rwa [← hqueue hitems] at hmove
  -- the remaining steps only move the loop thread on
  | _ => exact .idle rfl rfl rfl

theorem loopStep_effect (h : l.step cfg io = some (l', evs)) : LoopEffect cfg l evs l' :=
  (loopMove_of_step h).2.effect

end Loop

/-! ### The workers and the rest -/

section Workers
variable {P : Platform} {cfg : EventLoopConfig} {s s' : System P} {evs : List Event}

theorem core_setPhase (s : System P) (i : Nat) (w : Worker) (phase : WorkerPhase) :
    (s.setPhase i w phase).core = { s.core with hands := s.core.hands.set i phase.hand } := by
  unfold System.core System.setPhase LoopState.core
  rw [List.map_set]

theorem hands_getElem? {i : Nat} {w : Worker} (h : s.workers[i]? = some w) :
    s.core.hands[i]? = some w.phase.hand := by
  show (s.workers.map (·.phase.hand))[i]? = _
  rw [List.getElem?_map, h]; rfl

theorem core_setPhase_free {i : Nat} {w : Worker} {phase : WorkerPhase} (h : s.workers[i]? = some w)
    (hw : w.phase.hand = .free) (hphase : phase.hand = .free) : (s.setPhase i w phase).core = s.core := by
  rw [core_setPhase, hphase, ← hw, set_of_getElem? (hands_getElem? h)]

theorem WorkerMove.moves {i : Nat} {w : Worker} (h : WorkerMove s i w evs s') (hw : s.workers[i]? = some w) :
    Moves cfg s.core evs s'.core := by
  have hhand := hands_getElem? hw
  cases h with
  | @pop item rest hph hitems =>
    rw [hph] at hhand
    rw [core_setPhase]
    have hk : s.core.work = item :: rest := hitems
    have := Exec.single (Move.pop hk hhand : Move cfg _ _ _)
    have hrest : s.loop.workQueue.dequeue.items = rest := by
      rw [BoundedQueue.items_dequeue, hitems]; rfl
    rwa [← hrest] at this
  | leave hph _ _ =>
    rw [core_setPhase_free hw (by rw [hph]; rfl) rfl]; exact .refl
  | dispatch hph =>
    rw [hph] at hhand
    rw [core_setPhase]
    exact .single (.dispatch hhand ⟨P, s.store, s.clock, rfl⟩)
  | push hroom hph hopen =>
    rw [hph] at hhand
    rw [core_setPhase]
    exact .single (.push hhand hopen)
  | drop hph hclosed =>
    rw [hph] at hhand
    rw [core_setPhase]
    exact .single (.lose hhand hclosed)
  | notify hph =>
    have hsame : (s.setPhase i w .idle).core = s.core := core_setPhase_free hw (by rw [hph]; rfl) rfl
    show Moves cfg s.core [] (s.setPhase i w .idle).core
    rw [hsame]; exact .refl

theorem step_moves {choice : Choice} (h : s.step cfg choice = some (s', evs)) :
    Moves cfg s.core evs s'.core := by
  cases systemMove_of_step h with
  | loop hl => exact (loopStep_effect hl).moves _
  | worker hw hmove => exact hmove.moves hw
  | @requestStop i w hw _ =>
    have hsame : (s.workers.set i { w with stopRequested := true }).map (·.phase.hand) =
        s.workers.map (·.phase.hand) := by
      have hhand : (s.workers.map (·.phase.hand))[i]? = some w.phase.hand := hands_getElem? hw
      rw [List.map_set]
      exact set_of_getElem? hhand
    show Moves cfg s.core [] (s.loop.core _)
    rw [hsame]; exact .refl
  | closeCompletions => exact .single .closeCompletions
  | _ => exact .refl

def Core.start (cfg : ServerConfig) : Core := ⟨{}, [], List.replicate cfg.workerCount .free, [], false⟩

theorem core_start (cfg : ServerConfig) (store : Store P) (clock : Int) :
    (System.start cfg store clock).core = Core.start cfg := by
  unfold System.core System.start
  rw [List.map_replicate]; rfl

theorem System.Run.invariant {cfg : ServerConfig} {store : Store P} {clock : Int} {log : List Event}
    {Inv : List Event → Core → Prop} (hinit : Inv [] (Core.start cfg))
    (hmove : ∀ log evs k k', Inv log k → Move cfg.toEventLoopConfig k evs k' → Inv (log ++ evs) k')
    (h : System.Run cfg store clock log s) : Inv log s.core := by
  have hmoves : Moves cfg.toEventLoopConfig (System.start cfg store clock).core log s.core :=
    Exec.map System.core (fun _ _ _ ⟨_, hs⟩ => step_moves hs) h
  rw [core_start] at hmoves
  exact hmoves.invariant hinit hmove

end Workers
end KvStore
