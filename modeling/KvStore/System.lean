import KvStore.Dispatcher
import KvStore.EventLoop
import KvStore.Lib.Transition

/-!
# The server as a transition system

The loop thread, the workers of `worker/worker_pool.cpp`, the store, the clock and the sweeper, in any
interleaving. A worker's life is `pop`, `dispatch`, `push`, wake the loop; each is one step. `Choice` says
who moves next and what its system calls answer, `System.step` what then happens, `System.Run` collects
the runs from a freshly started server.
-/

namespace KvStore
open ByteString Transition

/-- Where a worker stands in `worker_main`. -/
inductive WorkerPhase where
  | idle
  | popped (item : WorkItem)
  | done (completion : Completion)
  /-- The completion is in the queue and the callback that wakes the loop has not been called yet. -/
  | notifying
  | exited
deriving DecidableEq, Repr

structure Worker where
  phase : WorkerPhase := .idle
  stopRequested : Bool := false
deriving DecidableEq, Repr

structure System (P : Platform) where
  loop : LoopState
  workers : List Worker
  store : Store P
  clock : Int

/-- The sizes a server is started with; the constructors of the queues and of the pool refuse zeros. -/
structure ServerConfig extends EventLoopConfig where
  workCapacity : Nat
  completionCapacity : Nat
  workerCount : Nat
  workCapacity_pos : 0 < workCapacity
  completionCapacity_pos : 0 < completionCapacity
  workerCount_pos : 0 < workerCount

/-- The defaults of `EventLoopConfig` and `Options`. -/
def ServerConfig.default : ServerConfig :=
  ⟨⟨kDefaultMaxInputBufferBytes, kDefaultMaxOutputBufferBytes, 64, by decide, by decide⟩, 1024, 1024, 4,
    by decide, by decide, by decide⟩

/-- Who takes the next step. -/
inductive Choice where
  | loop (io : Io)
  | worker (i : Nat)
  /-- `EventLoop::stop()`. -/
  | stop
  /-- `~WorkerPool` closes the work queue. -/
  | closeWork
  /-- The `jthread` destructor that follows requests a stop on one worker. -/
  | requestStop (i : Nat)
  | closeCompletions
  | tick (elapsed : Nat)
  | sweep (maxItemsPerShard : Nat)
deriving DecidableEq, Repr

namespace System
variable {P : Platform}

def start (cfg : ServerConfig) (store : Store P) (clock : Int) : System P where
  loop :=
    { workQueue := .make cfg.workCapacity cfg.workCapacity_pos
      completionQueue := .make cfg.completionCapacity cfg.completionCapacity_pos }
  workers := List.replicate cfg.workerCount {}
  store
  clock

def setPhase (s : System P) (i : Nat) (w : Worker) (phase : WorkerPhase) : System P :=
  { s with workers := s.workers.set i { w with phase } }

/-- One step of `worker_main`. A whole dispatch is one, from its clock reading to its last lock-protected section:
what other threads do in between is left to `ThreadedSystem`. -/
def workerStep (s : System P) (i : Nat) : Option (System P × List Event) :=
  match s.workers[i]? with
  | none => none
  | some w =>
    match w.phase with
    | .idle =>
      match s.loop.workQueue.pop w.stopRequested with
      | none => none
      | some (.kOk item workQueue) =>
        some ({ s with loop := { s.loop with workQueue } }.setPhase i w (.popped item), [])
      | some _ => some (s.setPhase i w .exited, [])
    | .popped item =>
      let (store, reply) := dispatch s.store s.clock item.command
      some ({ s with store }.setPhase i w
          (.done ⟨item.connectionId, item.connectionGeneration, item.sequence, reply⟩),
        [.dispatched item.connectionGeneration item.sequence item.command reply])
    | .done completion =>
      match s.loop.completionQueue.push completion with
      | none => none
      | some (.kOk, completionQueue) =>
        some ({ s with loop := { s.loop with completionQueue } }.setPhase i w .notifying, [])
      | some _ => some (s.setPhase i w .exited, [])
    | .notifying =>
      some ({ s with loop := { s.loop with wakeup := s.loop.wakeup + 1 } }.setPhase i w .idle, [])
    | .exited => none

def step (cfg : EventLoopConfig) (s : System P) : Choice → Option (System P × List Event)
  | .loop io => (s.loop.step cfg io).map fun r => ({ s with loop := r.1 }, r.2)
  | .worker i => s.workerStep i
  | .stop => some ({ s with loop := { s.loop with stopRequested := true, wakeup := s.loop.wakeup + 1 } }, [])
  | .closeWork => some ({ s with loop := { s.loop with workQueue := s.loop.workQueue.close } }, [])
  | .requestStop i =>
    match s.workers[i]? with
    | none => none
    | some w =>
      if s.loop.workQueue.closed then some ({ s with workers := s.workers.set i { w with stopRequested := true } }, [])
      else none
  | .closeCompletions =>
    some ({ s with loop := { s.loop with completionQueue := s.loop.completionQueue.close } }, [])
  | .tick elapsed => some ({ s with clock := s.clock + elapsed }, [])
  | .sweep m => some ({ s with store := (s.store.sweepExpired s.clock m).1 }, [])

def Run (cfg : ServerConfig) (store : Store P) (clock : Int) (log : List Event) (s : System P) : Prop :=
  Exec (Step (System.step cfg.toEventLoopConfig)) (start cfg store clock) log s

end System

/-! ### A run to look at -/

/-- A server with queues of four and the given number of workers. -/
def ServerConfig.small (workers : Nat) (h : 0 < workers) : ServerConfig :=
  ⟨⟨1024, 1024, 64, by decide, by decide⟩, 4, 4, workers, by decide, by decide, h⟩

/-- A client connects as fd 7 and sends `bytes`, which the loop reads in one piece. -/
def Choice.connect (bytes : Bytes) : List Choice :=
  [.loop { poll := .events [.listener] }, .loop {}, .loop { accept := .client 7 true }, .loop {}, .loop {},
    .loop { poll := .events [.client 7 false true false] }, .loop {}, .loop {}, .loop { recv := .bytes bytes }]

/-- `SET k v` and `GET k` in one read; the second worker overtakes the first, and the client gets both
replies in one send. -/
def sampleChoices : List Choice :=
  Choice.connect (ascii "*3\r\n$3\r\nSET\r\n$1\r\nk\r\n$1\r\nv\r\n*2\r\n$3\r\nGET\r\n$1\r\nk\r\n") ++
    ([.loop {}, .loop {}, .loop {}, .loop {}, .loop {}, .loop {}, .loop {},
      .worker 0, .worker 1, .worker 1, .worker 1, .worker 0, .worker 0, .worker 0,
      .loop { poll := .events [.wakeup] }, .loop {}, .loop {}, .loop {}, .loop {}, .loop {}, .loop {},
      .loop {}, .loop {}, .loop { send := .wrote 10 }] : List Choice)

def sampleResult : Option (System (.reference .exact) × List Event) :=
  run (System.step (ServerConfig.small 2 Nat.two_pos).toEventLoopConfig)
    (System.start (ServerConfig.small 2 Nat.two_pos) Store.small 0) sampleChoices

theorem sampleResult_isSome : sampleResult.isSome = true := by decide +kernel

def sampleLog : List Event := (sampleResult.get sampleResult_isSome).2

def sampleState : System (.reference .exact) := (sampleResult.get sampleResult_isSome).1

theorem sample_run : System.Run (ServerConfig.small 2 Nat.two_pos) Store.small 0 sampleLog sampleState :=
  exec_of_isSome sampleResult_isSome

end KvStore
