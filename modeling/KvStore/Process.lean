import KvStore.Lib.Lifetimes
import KvStore.Steps

/-!
# The whole process

`main.cpp` from the `try` block on. The block declares the store, the sweeper, the two queues, the event loop,
the pool and the signal thread, each of which may refer to those before it and some of which run threads. The
main thread builds them in this order, runs the loop, and leaves the block in the reverse order, normally or
because of an exception; meanwhile the sweeper thread, the workers and the signal thread use the objects.
`Process.step` is one step of one of these threads, on top of the server of `System`.
-/

namespace KvStore
open ByteString Transition Lifetimes

/-- The objects of the `try` block, in the order of their declarations. -/
inductive ServerObject where
  | store
  | sweeper
  | workQueue
  | completionQueue
  | loop
  | pool
  | signalThread
deriving DecidableEq, Repr

/-- How many objects the block has when this one is the last. -/
def ServerObject.depth : ServerObject → Nat
  | .store => 1
  | .sweeper => 2
  | .workQueue => 3
  | .completionQueue => 4
  | .loop => 5
  | .pool => 6
  | .signalThread => 7

/-- Where the main thread is. Leaving the block, `failed` says that an exception is on its way. -/
inductive MainPhase where
  | building
  /-- In the constructor of `WorkerPool`, which starts one thread after the other. -/
  | spawning
  /-- The log line that asks the loop for its port. -/
  | announcing
  | startingSignalThread
  /-- In `loop.run()`. -/
  | running
  /-- In `signal_thread.join()`. -/
  | joiningSignalThread
  | unwinding (failed : Bool)
  /-- The threads of the pool are stopped and joined one after the other; `next` is the one that is due. -/
  | joiningPool (failed : Bool) (next : Nat)
  | joiningSweeper (failed : Bool)
  | returned (code : Nat)
  /-- `std::terminate`. -/
  | terminated
deriving DecidableEq, Repr

/-- The thread of `TtlSweeper::run`. -/
inductive SweeperPhase where
  | absent
  | checking
  | sweeping
  | waiting
  | exited
deriving DecidableEq, Repr

/-- The thread that waits for SIGINT or SIGTERM and then stops the loop. -/
inductive SignalPhase where
  | absent
  | waiting
  | stopping
  | exited
deriving DecidableEq, Repr

structure Process (P : Platform) where
  server : System P
  phase : MainPhase := .building
  /-- The innermost object that exists; all objects declared before it exist as well. -/
  innermost : Option ServerObject := none
  sweeper : SweeperPhase := .absent
  sweeperStop : Bool := false
  signal : SignalPhase := .absent

inductive ProcessEvent where
  | life (event : Life ServerObject)
  | server (event : Event)
  /-- An exception leaves `loop.run()`. -/
  | runThrew
deriving Repr

inductive ProcessChoice where
  /-- The main thread goes on in a constructor; without `ok` it throws. -/
  | build (ok : Bool)
  /-- The main thread goes on in `loop.run()`. -/
  | loop (io : Io)
  /-- The main thread goes on leaving the block. -/
  | leave
  | worker (i : Nat)
  | sweeper
  | signal
  | tick (elapsed : Nat)
deriving DecidableEq, Repr

/-- `TtlSweeperConfig::max_items_per_shard`. -/
def kMaxItemsPerShard : Nat := 20

/-- `main` is over and with it every thread. -/
def MainPhase.over : MainPhase → Bool
  | .returned _ | .terminated => true
  | _ => false

/-- What a worker uses in its next step. The callback only has the loop. -/
def WorkerPhase.uses : WorkerPhase → List ServerObject
  | .idle => [.pool, .workQueue]
  | .popped _ => [.pool, .store]
  | .done _ => [.pool, .completionQueue]
  | .notifying => [.loop]
  | .exited => []

def ServerObject.used (objects : List ServerObject) : List ProcessEvent := objects.map fun o => .life (.uses o)

namespace Process
variable {P : Platform}

/-- No thread of the pool has been started. -/
def start (cfg : ServerConfig) (store : Store P) (clock : Int) : Process P where
  server := { System.start cfg store clock with workers := [] }

def setWorkers (s : Process P) (workers : List Worker) : Process P := { s with server := { s.server with workers } }

def build (cfg : ServerConfig) (s : Process P) (ok : Bool) : Option (Process P × List ProcessEvent) :=
  match s.phase with
  | .building =>
    if ok = false then some ({ s with phase := .unwinding true }, [])
    else match s.innermost with
      | none => some ({ s with innermost := some .store }, [.life (.starts .store)])
      | some .store =>
        some ({ s with innermost := some .sweeper, sweeper := .checking }, [.life (.starts .sweeper)])
      | some .sweeper => some ({ s with innermost := some .workQueue }, [.life (.starts .workQueue)])
      | some .workQueue =>
        some ({ s with innermost := some .completionQueue }, [.life (.starts .completionQueue)])
      -- the constructor registers its callback last
      | some .completionQueue =>
        some ({ s with innermost := some .loop }, [.life (.uses .completionQueue), .life (.starts .loop)])
      | some .loop => some ({ s with innermost := some .pool, phase := .spawning }, [.life (.starts .pool)])
      | _ => none
  | .spawning =>
    if s.server.workers.length < cfg.workerCount then
      if ok then some (s.setWorkers (s.server.workers ++ [({} : Worker)]), [])
      -- the body of ~WorkerPool does not run, the destructor of its vector of threads does
      else some ({ s with phase := .joiningPool true 0 }, [])
    else some ({ s with phase := .announcing }, [])
  | .announcing =>
    some ({ s with phase := if ok then .startingSignalThread else .unwinding true }, [.life (.uses .loop)])
  | .startingSignalThread =>
    if ok then
      some ({ s with innermost := some .signalThread, signal := .waiting, phase := .running },
        [.life (.starts .signalThread)])
    else some ({ s with phase := .unwinding true }, [])
  | _ => none

/-- `run` returns when it finds the stop request between two batches; any other way out is an exception. -/
def runLoop (cfg : ServerConfig) (s : Process P) (io : Io) : Option (Process P × List ProcessEvent) :=
  if s.phase = .running then
    match s.server.loop.step cfg.toEventLoopConfig io with
    | none => none
    | some (loop, evs) =>
      let log := ServerObject.used [.loop, .workQueue, .completionQueue] ++ evs.map .server
      let s' := { s with server := { s.server with loop } }
      if loop.exited then
        if s.server.loop.tasks = [] ∧ s.server.loop.stopRequested = true then
          some ({ s' with phase := .joiningSignalThread }, log)
        else some ({ s' with phase := .unwinding true }, log ++ [.runThrew])
      else some (s', log)
  else none

def leave (s : Process P) : Option (Process P × List ProcessEvent) :=
  match s.phase with
  | .joiningSignalThread => if s.signal = .exited then some ({ s with phase := .unwinding false }, []) else none
  | .unwinding failed =>
    match s.innermost with
    | none => some ({ s with phase := .returned (if failed then 1 else 0) }, [])
    | some .store => some ({ s with innermost := none }, [.life (.ends .store)])
    | some .sweeper => some ({ s with sweeperStop := true, phase := .joiningSweeper failed }, [])
    | some .workQueue => some ({ s with innermost := some .sweeper }, [.life (.ends .workQueue)])
    | some .completionQueue => some ({ s with innermost := some .workQueue }, [.life (.ends .completionQueue)])
    | some .loop =>
      some ({ s with innermost := some .completionQueue }, [.life (.uses .completionQueue), .life (.ends .loop)])
    | some .pool =>
      let workQueue := s.server.loop.workQueue.close
      some ({ s with server := { s.server with loop := { s.server.loop with workQueue } },
                     phase := .joiningPool failed 0 },
        [.life (.uses .workQueue)])
    -- the destructor of a thread that has not been joined
    | some .signalThread =>
      if failed then some ({ s with phase := .terminated }, [])
      else some ({ s with innermost := some .pool }, [.life (.ends .signalThread)])
  | .joiningPool failed next =>
    match s.server.workers[next]? with
    | none => some ({ s with innermost := some .loop, phase := .unwinding failed }, [.life (.ends .pool)])
    | some w =>
      if w.stopRequested = false then
        some (s.setWorkers (s.server.workers.set next { w with stopRequested := true }), [])
      else if w.phase = .exited then some ({ s with phase := .joiningPool failed (next + 1) }, [])
      else none
  | .joiningSweeper failed =>
    if s.sweeper = .exited then
      some ({ s with innermost := some .store, phase := .unwinding failed }, [.life (.ends .sweeper)])
    else none
  | _ => none

def runWorker (s : Process P) (i : Nat) : Option (Process P × List ProcessEvent) :=
  match s.server.workers[i]?, s.server.workerStep i with
  | some w, some (server, evs) => some ({ s with server }, ServerObject.used w.phase.uses ++ evs.map .server)
  | _, _ => none

/-- A whole `sweep_expired` is one step, as a whole dispatch is. -/
def runSweeper (s : Process P) : Option (Process P × List ProcessEvent) :=
  match s.sweeper with
  | .checking => some ({ s with sweeper := if s.sweeperStop then .exited else .sweeping }, [])
  | .sweeping =>
    let store := (s.server.store.sweepExpired s.server.clock kMaxItemsPerShard).1
    some ({ s with server := { s.server with store }, sweeper := .waiting }, ServerObject.used [.sweeper, .store])
  -- the interval is over or a stop was requested
  | .waiting => some ({ s with sweeper := .checking }, [])
  | _ => none

def runSignal (s : Process P) : Option (Process P × List ProcessEvent) :=
  match s.signal with
  | .waiting => some ({ s with signal := .stopping }, [])
  | .stopping =>
    let loop := { s.server.loop with stopRequested := true, wakeup := s.server.loop.wakeup + 1 }
    some ({ s with server := { s.server with loop }, signal := .exited }, ServerObject.used [.loop])
  | _ => none

def step (cfg : ServerConfig) (s : Process P) (choice : ProcessChoice) : Option (Process P × List ProcessEvent) :=
  if s.phase.over then none
  else match choice with
    | .build ok => s.build cfg ok
    | .loop io => s.runLoop cfg io
    | .leave => s.leave
    | .worker i => s.runWorker i
    | .sweeper => s.runSweeper
    | .signal => s.runSignal
    | .tick elapsed => some ({ s with server := { s.server with clock := s.server.clock + elapsed } }, [])

def Run (cfg : ServerConfig) (store : Store P) (clock : Int) (log : List ProcessEvent) (s : Process P) : Prop :=
  Exec (Step (Process.step cfg)) (start cfg store clock) log s

end Process

/-! ### What a step can be -/

section
variable {P : Platform} {cfg : ServerConfig}

/-- The steps of the process with their guards. -/
inductive ProcessMove (cfg : ServerConfig) (s : Process P) : List ProcessEvent → Process P → Prop
  | throws : s.phase = .building ∨ s.phase = .startingSignalThread →
    ProcessMove cfg s [] { s with phase := .unwinding true }
  | buildStore : s.phase = .building → s.innermost = none →
    ProcessMove cfg s [.life (.starts .store)] { s with innermost := some .store }
  | buildSweeper : s.phase = .building → s.innermost = some .store →
    ProcessMove cfg s [.life (.starts .sweeper)] { s with innermost := some .sweeper, sweeper := .checking }
  | buildWorkQueue : s.phase = .building → s.innermost = some .sweeper →
    ProcessMove cfg s [.life (.starts .workQueue)] { s with innermost := some .workQueue }
  | buildCompletionQueue : s.phase = .building → s.innermost = some .workQueue →
    ProcessMove cfg s [.life (.starts .completionQueue)] { s with innermost := some .completionQueue }
  | buildLoop : s.phase = .building → s.innermost = some .completionQueue →
    ProcessMove cfg s [.life (.uses .completionQueue), .life (.starts .loop)] { s with innermost := some .loop }
  | buildPool : s.phase = .building → s.innermost = some .loop →
    ProcessMove cfg s [.life (.starts .pool)] { s with innermost := some .pool, phase := .spawning }
  | spawn : s.phase = .spawning → s.server.workers.length < cfg.workerCount →
    ProcessMove cfg s [] (s.setWorkers (s.server.workers ++ [({} : Worker)]))
  | spawnThrows : s.phase = .spawning → s.server.workers.length < cfg.workerCount →
    ProcessMove cfg s [] { s with phase := .joiningPool true 0 }
  | spawned : s.phase = .spawning → cfg.workerCount ≤ s.server.workers.length →
    ProcessMove cfg s [] { s with phase := .announcing }
  | announce {phase : MainPhase} : s.phase = .announcing →
    phase = .startingSignalThread ∨ phase = .unwinding true →
    ProcessMove cfg s [.life (.uses .loop)] { s with phase }
  | startSignalThread : s.phase = .startingSignalThread →
    ProcessMove cfg s [.life (.starts .signalThread)]
      { s with innermost := some .signalThread, signal := .waiting, phase := .running }
  | loop {io : Io} {loop : LoopState} {evs : List Event} : s.phase = .running →
    s.server.loop.step cfg.toEventLoopConfig io = some (loop, evs) → loop.exited = false →
    ProcessMove cfg s (ServerObject.used [.loop, .workQueue, .completionQueue] ++ evs.map .server)
      { s with server := { s.server with loop } }
  | loopReturns {io : Io} {loop : LoopState} {evs : List Event} : s.phase = .running →
    s.server.loop.step cfg.toEventLoopConfig io = some (loop, evs) → loop.exited = true →
    s.server.loop.stopRequested = true →
    ProcessMove cfg s (ServerObject.used [.loop, .workQueue, .completionQueue] ++ evs.map .server)
      { s with server := { s.server with loop }, phase := .joiningSignalThread }
  | loopThrows {io : Io} {loop : LoopState} {evs : List Event} : s.phase = .running →
    s.server.loop.step cfg.toEventLoopConfig io = some (loop, evs) → loop.exited = true →
    ProcessMove cfg s (ServerObject.used [.loop, .workQueue, .completionQueue] ++ evs.map .server ++ [.runThrew])
      { s with server := { s.server with loop }, phase := .unwinding true }
  | joinSignalThread : s.phase = .joiningSignalThread → s.signal = .exited →
    ProcessMove cfg s [] { s with phase := .unwinding false }
  | endSignalThread : s.phase = .unwinding false → s.innermost = some .signalThread →
    ProcessMove cfg s [.life (.ends .signalThread)] { s with innermost := some .pool }
  | terminate : s.phase = .unwinding true → s.innermost = some .signalThread →
    ProcessMove cfg s [] { s with phase := .terminated }
  | closePool {failed : Bool} : s.phase = .unwinding failed → s.innermost = some .pool →
    ProcessMove cfg s [.life (.uses .workQueue)]
      { s with
        server := { s.server with loop := { s.server.loop with workQueue := s.server.loop.workQueue.close } }
        phase := .joiningPool failed 0 }
  | requestStop {failed : Bool} {next : Nat} {w : Worker} : s.phase = .joiningPool failed next →
    s.server.workers[next]? = some w →
    ProcessMove cfg s [] (s.setWorkers (s.server.workers.set next { w with stopRequested := true }))
  | joinWorker {failed : Bool} {next : Nat} {w : Worker} : s.phase = .joiningPool failed next →
    s.server.workers[next]? = some w → w.phase = .exited →
    ProcessMove cfg s [] { s with phase := .joiningPool failed (next + 1) }
  | endPool {failed : Bool} {next : Nat} : s.phase = .joiningPool failed next → s.server.workers[next]? = none →
    ProcessMove cfg s [.life (.ends .pool)] { s with innermost := some .loop, phase := .unwinding failed }
  | endLoop {failed : Bool} : s.phase = .unwinding failed → s.innermost = some .loop →
    ProcessMove cfg s [.life (.uses .completionQueue), .life (.ends .loop)]
      { s with innermost := some .completionQueue }
  | endCompletionQueue {failed : Bool} : s.phase = .unwinding failed → s.innermost = some .completionQueue →
    ProcessMove cfg s [.life (.ends .completionQueue)] { s with innermost := some .workQueue }
  | endWorkQueue {failed : Bool} : s.phase = .unwinding failed → s.innermost = some .workQueue →
    ProcessMove cfg s [.life (.ends .workQueue)] { s with innermost := some .sweeper }
  | stopSweeper {failed : Bool} : s.phase = .unwinding failed → s.innermost = some .sweeper →
    ProcessMove cfg s [] { s with sweeperStop := true, phase := .joiningSweeper failed }
  | endSweeper {failed : Bool} : s.phase = .joiningSweeper failed → s.sweeper = .exited →
    ProcessMove cfg s [.life (.ends .sweeper)] { s with innermost := some .store, phase := .unwinding failed }
  | endStore {failed : Bool} : s.phase = .unwinding failed → s.innermost = some .store →
    ProcessMove cfg s [.life (.ends .store)] { s with innermost := none }
  | returns {failed : Bool} : s.phase = .unwinding failed → s.innermost = none →
    ProcessMove cfg s [] { s with phase := .returned (if failed then 1 else 0) }
  | worker {i : Nat} {w : Worker} {evs : List Event} {server : System P} : s.server.workers[i]? = some w →
    WorkerMove s.server i w evs server →
    ProcessMove cfg s (ServerObject.used w.phase.uses ++ evs.map .server) { s with server }
  | check : s.sweeper = .checking →
    ProcessMove cfg s [] { s with sweeper := if s.sweeperStop then .exited else .sweeping }
  | sweep : s.sweeper = .sweeping →
    ProcessMove cfg s (ServerObject.used [.sweeper, .store])
      { s with
        server := { s.server with store := (s.server.store.sweepExpired s.server.clock kMaxItemsPerShard).1 }
        sweeper := .waiting }
  | awake : s.sweeper = .waiting → ProcessMove cfg s [] { s with sweeper := .checking }
  | signalled : s.signal = .waiting → ProcessMove cfg s [] { s with signal := .stopping }
  | stop : s.signal = .stopping →
    ProcessMove cfg s (ServerObject.used [.loop])
      { s with
        server := { s.server with
          loop := { s.server.loop with stopRequested := true, wakeup := s.server.loop.wakeup + 1 } }
        signal := .exited }
  | tick {elapsed : Nat} :
    ProcessMove cfg s [] { s with server := { s.server with clock := s.server.clock + elapsed } }

variable {s s' : Process P} {evs : List ProcessEvent}

theorem ProcessMove.of_build {ok : Bool} (h : s.build cfg ok = some (s', evs)) : ProcessMove cfg s evs s' := by
  obtain ⟨server, phase, innermost, sweeper, sweeperStop, signal⟩ := s
  unfold Process.build at h
  cases phase with
  | building =>
    dsimp only at h
    split_ifs at h with hok
    · cases h; exact .throws (.inl rfl)
    · cases innermost with
      | none => cases h; exact .buildStore rfl rfl
      | some o =>
        cases o with
        | store => cases h; exact .buildSweeper rfl rfl
        | sweeper => cases h; exact .buildWorkQueue rfl rfl
        | workQueue => cases h; exact .buildCompletionQueue rfl rfl
        | completionQueue => cases h; exact .buildLoop rfl rfl
        | loop => cases h; exact .buildPool rfl rfl
        | pool => cases h
        | signalThread => cases h
  | spawning =>
    dsimp only at h
    split_ifs at h with hlt hok
    · cases h; exact .spawn rfl hlt
    · cases h; exact .spawnThrows rfl hlt
    · cases h; exact .spawned rfl (Nat.le_of_not_lt hlt)
  | announcing =>
    cases h
    refine .announce rfl ?_
    split_ifs
    · exact .inl rfl
    · exact .inr rfl
  | startingSignalThread =>
    dsimp only at h
    split_ifs at h with hok
    · cases h; exact .startSignalThread rfl
    · cases h; exact .throws (.inr rfl)
  | _ => cases h

theorem ProcessMove.of_runLoop {io : Io} (h : s.runLoop cfg io = some (s', evs)) : ProcessMove cfg s evs s' := by
  unfold Process.runLoop at h
  rw [Option.ite_none_right_eq_some] at h
  obtain ⟨hphase, h⟩ := h
  cases hl : s.server.loop.step cfg.toEventLoopConfig io with
  | none => rw [hl] at h; cases h
  | some r =>
    obtain ⟨loop, evs'⟩ := r
    rw [hl] at h; dsimp only at h
    split_ifs at h with hexited hstop
    · cases h; exact .loopReturns hphase hl hexited hstop.2
    · cases h; exact .loopThrows hphase hl hexited
    · cases h; exact .loop hphase hl (Bool.eq_false_iff.mpr hexited)

theorem ProcessMove.of_leave (h : s.leave = some (s', evs)) : ProcessMove cfg s evs s' := by
  obtain ⟨server, phase, innermost, sweeper, sweeperStop, signal⟩ := s
  unfold Process.leave at h
  cases phase with
  | joiningSignalThread =>
    dsimp only at h
    split_ifs at h with hsignal
    cases h; exact .joinSignalThread rfl hsignal
  | unwinding failed =>
    cases innermost with
    | none => cases h; exact .returns rfl rfl
    | some o =>
      cases o with
      | store => cases h; exact .endStore rfl rfl
      | sweeper => cases h; exact .stopSweeper rfl rfl
      | workQueue => cases h; exact .endWorkQueue rfl rfl
      | completionQueue => cases h; exact .endCompletionQueue rfl rfl
      | loop => cases h; exact .endLoop rfl rfl
      | pool => cases h; exact .closePool rfl rfl
      | signalThread =>
        cases failed with
        | true => cases h; exact .terminate rfl rfl
        | false => cases h; exact .endSignalThread rfl rfl
  | joiningPool failed next =>
    dsimp only at h
    cases hw : server.workers[next]? with
    | none => rw [hw] at h; cases h; exact .endPool rfl hw
    | some w =>
      rw [hw] at h; dsimp only at h
      split_ifs at h with hstop hexited
      · cases h; exact .requestStop rfl hw
      · cases h; exact .joinWorker rfl hw hexited
  | joiningSweeper failed =>
    dsimp only at h
    split_ifs at h with hexited
    cases h; exact .endSweeper rfl hexited
  | _ => cases h

theorem ProcessMove.of_runWorker {i : Nat} (h : s.runWorker i = some (s', evs)) : ProcessMove cfg s evs s' := by
  unfold Process.runWorker at h
  cases hw : s.server.workers[i]? with
  | none => rw [hw] at h; cases h
  | some w =>
    cases hstep : s.server.workerStep i with
    | none => rw [hw, hstep] at h; cases h
    | some r =>
      obtain ⟨server, evs'⟩ := r
      rw [hw, hstep] at h
      obtain ⟨w', hw', hmove⟩ := workerMove_of_step hstep
      rw [hw] at hw'
      cases hw'; cases h
      exact .worker hw hmove

theorem ProcessMove.of_runSweeper (h : s.runSweeper = some (s', evs)) : ProcessMove cfg s evs s' := by
  obtain ⟨server, phase, innermost, sweeper, sweeperStop, signal⟩ := s
  cases sweeper with
  | checking => cases h; exact .check rfl
  | sweeping => cases h; exact .sweep rfl
  | waiting => cases h; exact .awake rfl
  | absent => cases h
  | exited => cases h

theorem ProcessMove.of_runSignal (h : s.runSignal = some (s', evs)) : ProcessMove cfg s evs s' := by
  obtain ⟨server, phase, innermost, sweeper, sweeperStop, signal⟩ := s
  cases signal with
  | waiting => cases h; exact .signalled rfl
  | stopping => cases h; exact .stop rfl
  | absent => cases h
  | exited => cases h

theorem processMove_of_step {choice : ProcessChoice} (h : s.step cfg choice = some (s', evs)) :
    s.phase.over = false ∧ ProcessMove cfg s evs s' := by
  unfold Process.step at h
  split_ifs at h with hover
  refine ⟨Bool.eq_false_iff.mpr hover, ?_⟩
  cases choice with
  | build ok => exact .of_build h
  | loop io => exact .of_runLoop h
  | leave => exact .of_leave h
  | worker i => exact .of_runWorker h
  | sweeper => exact .of_runSweeper h
  | signal => exact .of_runSignal h
  | tick elapsed => cases h; exact .tick

end

/-! ### Two runs to look at -/

/-- `main` starts a server with one worker. -/
def ProcessChoice.startUp : List ProcessChoice := List.replicate 10 (.build true)

/-- SIGINT comes while the loop runs; `main` leaves the block and returns. -/
def ProcessChoice.interrupted : List ProcessChoice :=
  ProcessChoice.startUp ++ ([.signal, .signal, .loop {}, .leave, .leave, .leave, .leave, .worker 0, .leave, .leave,
    .leave, .leave, .leave, .leave, .sweeper, .leave, .leave, .leave] : List ProcessChoice)

def stoppedResult : Option (Process (.reference .exact) × List ProcessEvent) :=
  run (Process.step (ServerConfig.small 1 Nat.one_pos))
    (Process.start (ServerConfig.small 1 Nat.one_pos) Store.small 0) ProcessChoice.interrupted

theorem stoppedResult_isSome : stoppedResult.isSome = true := by decide +kernel

def stoppedLog : List ProcessEvent := (stoppedResult.get stoppedResult_isSome).2

def stoppedMain : Process (.reference .exact) := (stoppedResult.get stoppedResult_isSome).1

theorem run_stopped : Process.Run (ServerConfig.small 1 Nat.one_pos) Store.small 0 stoppedLog stoppedMain :=
  exec_of_isSome stoppedResult_isSome

theorem phase_stopped : stoppedMain.phase = .returned 0 := by decide +kernel

/-- The first `epoll_wait` fails: an exception leaves `loop.run()`. -/
def crashedResult : Option (Process (.reference .exact) × List ProcessEvent) :=
  run (Process.step (ServerConfig.small 1 Nat.one_pos))
    (Process.start (ServerConfig.small 1 Nat.one_pos) Store.small 0)
    (ProcessChoice.startUp ++ [.loop { poll := .failed }, .leave])

theorem crashedResult_isSome : crashedResult.isSome = true := by decide +kernel

def crashedLog : List ProcessEvent := (crashedResult.get crashedResult_isSome).2

def crashedMain : Process (.reference .exact) := (crashedResult.get crashedResult_isSome).1

theorem run_crashed : Process.Run (ServerConfig.small 1 Nat.one_pos) Store.small 0 crashedLog crashedMain :=
  exec_of_isSome crashedResult_isSome

theorem phase_crashed : crashedMain.phase = .terminated := by decide +kernel

end KvStore
