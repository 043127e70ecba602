import KvStore.ProcessLives
import KvStore.Shutdown

/-!
# What `main` makes of the server

`main_refines_system`: once the pool is complete, whatever the process does is a run of the server of `System`,
so that what holds for every run of the server holds for the program. `main_outcomes` says how a process can
end: with 0 after a stop request, with every request that was queued worked off; with 1 if an exception came
before the loop ran; and by `std::terminate` if it came out of `loop.run()`, because the signal thread is then
still joinable. The handler in `main` never sees that exception.
-/

namespace KvStore
open ByteString Transition

section
variable {P : Platform} {cfg : ServerConfig} {s s' : Process P} {evs : List ProcessEvent}

def ProcessEvent.server? : ProcessEvent → Option Event
  | .server e => some e
  | _ => none

/-- The part of the log that is about the server. -/
def serverEvents (log : List ProcessEvent) : List Event := log.filterMap ProcessEvent.server?

@[simp] theorem serverEvents_append (log log' : List ProcessEvent) :
    serverEvents (log ++ log') = serverEvents log ++ serverEvents log' := List.filterMap_append

@[simp] theorem serverEvents_server (evs : List Event) : serverEvents (evs.map .server) = evs := by
  rw [serverEvents, List.filterMap_map]
  exact (congrFun List.filterMap_eq_map evs).trans (List.map_id evs)

@[simp] theorem serverEvents_used (objects : List ServerObject) : serverEvents (ServerObject.used objects) = [] := by
  rw [serverEvents, ServerObject.used, List.filterMap_map]
  exact List.filterMap_eq_nil_iff.mpr fun _ _ => rfl

/-! ### Threads that have not been started -/

/-- The server with some more workers that have not moved yet. -/
def System.withMore (t : System P) (more : List Worker) : System P := { t with workers := t.workers ++ more }

theorem WorkerMove.withMore {t t' : System P} {i : Nat} {w : Worker} {evs : List Event}
    (h : WorkerMove t i w evs t') (hw : t.workers[i]? = some w) (more : List Worker) :
    WorkerMove (t.withMore more) i w evs (t'.withMore more) := by
  have hi : i < t.workers.length := (List.getElem?_eq_some_iff.mp hw).1
  have hset : ∀ (loop : LoopState) (store : Store P) (phase : WorkerPhase),
      ({ t with loop, store }.setPhase i w phase).withMore more =
        ({ t with loop, store }.withMore more).setPhase i w phase := fun loop store phase => by
    simp only [System.setPhase, System.withMore, List.set_append_left _ _ hi]
  cases h with
  | pop hph hitems => rw [hset]; exact .pop hph hitems
  | leave hph hnil hwhy => rw [hset]; exact .leave hph hnil hwhy
  | dispatch hph => rw [hset]; exact .dispatch hph
  | push hroom hph hopen => rw [hset]; exact .push (s := t.withMore more) hroom hph hopen
  | drop hph hclosed => rw [hset]; exact .drop hph hclosed
  | notify hph => rw [hset]; exact .notify hph

/-- The server with all the threads the pool is going to have. -/
def Process.pooled (cfg : ServerConfig) (s : Process P) : System P :=
  s.server.withMore (List.replicate (cfg.workerCount - s.server.workers.length) {})

theorem Process.pooled_of_full (h : s.server.workers.length = cfg.workerCount) : s.pooled cfg = s.server := by
  rw [pooled, h, Nat.sub_self, List.replicate_zero, System.withMore, List.append_nil]

theorem Process.pooled_spawn (h : s.server.workers.length < cfg.workerCount) :
    (s.setWorkers (s.server.workers ++ [({} : Worker)])).pooled cfg = s.pooled cfg := by
  have hcount : cfg.workerCount - s.server.workers.length =
      cfg.workerCount - (s.server.workers.length + 1) + 1 := by omega
  simp only [pooled, System.withMore, setWorkers, List.length_append, List.length_singleton, hcount,
    List.replicate_succ, List.append_assoc, List.singleton_append]

/-! ### What a step does to the server -/

/-- What a step of the process does to the server: nothing, one step of it, or the two things only the pool
does. -/
inductive ServerEffect (cfg : ServerConfig) (s : Process P) (evs : List Event) (t : System P) : Prop
  | none : evs = [] → t = s.server → ServerEffect cfg s evs t
  | step {choice : Choice} : SystemMove cfg.toEventLoopConfig s.server choice evs t → choice ≠ .closeCompletions →
    ServerEffect cfg s evs t
  | spawn : s.phase = .spawning → s.server.workers.length < cfg.workerCount → evs = [] →
    t = { s.server with workers := s.server.workers ++ [({} : Worker)] } → ServerEffect cfg s evs t
  | requestStop {failed : Bool} {next : Nat} {w : Worker} : s.phase = .joiningPool failed next →
    s.server.workers[next]? = some w → evs = [] →
    t = { s.server with workers := s.server.workers.set next { w with stopRequested := true } } →
    ServerEffect cfg s evs t

theorem ProcessMove.effect (h : ProcessMove cfg s evs s') : ServerEffect cfg s (serverEvents evs) s'.server := by
  cases h with
  | spawn hphase hlt => exact .spawn hphase hlt rfl rfl
  | requestStop hphase hw => exact .requestStop hphase hw rfl rfl
  | loop _ hl | loopReturns _ hl =>
    rw [serverEvents_append, serverEvents_used, serverEvents_server, List.nil_append]
    exact .step (.loop hl) (by simp)
  | loopThrows _ hl =>
    rw [serverEvents_append, serverEvents_append, serverEvents_used, serverEvents_server]
    rw [List.nil_append, show serverEvents [.runThrew] = [] from rfl, List.append_nil]
    exact .step (.loop hl) (by simp)
  | worker hw hmove =>
    rw [serverEvents_append, serverEvents_used, serverEvents_server, List.nil_append]
    exact .step (.worker hw hmove) (by simp)
  | closePool => exact .step .closeWork (by simp)
  | sweep => exact .step .sweep (by simp)
  | stop => exact .step .stop (by simp)
  | tick => exact .step .tick (by simp)
  | _ => exact .none rfl rfl

theorem SystemMove.workers_length {c : EventLoopConfig} {t t' : System P} {choice : Choice} {evs : List Event}
    (h : SystemMove c t choice evs t') : t'.workers.length = t.workers.length := by
  cases h with
  | worker _ hmove =>
    obtain ⟨-, w', hset⟩ := hmove.workers_eq
    rw [hset, List.length_set]
  | requestStop => exact List.length_set ..
  | _ => rfl

/-- A step of the server is one with more workers as well. -/
theorem SystemMove.withMore {c : EventLoopConfig} {t t' : System P} {choice : Choice} {evs : List Event}
    (h : SystemMove c t choice evs t') (more : List Worker) :
    (t.withMore more).step c choice = some (t'.withMore more, evs) := by
  cases h with
  | loop hl => exact System.step_loop hl
  | worker hw hmove =>
    have hi := (List.getElem?_eq_some_iff.mp hw).1
    refine step_of_workerMove ?_ (hmove.withMore hw more)
    exact (List.getElem?_append_left hi).trans hw
  | @requestStop i w hw hclosed =>
    have hi := (List.getElem?_eq_some_iff.mp hw).1
    have hw' : (t.withMore more).workers[i]? = some w := (List.getElem?_append_left hi).trans hw
    rw [System.step, hw']; dsimp only
    rw [if_pos (show (t.withMore more).loop.workQueue.closed = true from hclosed)]
    simp only [System.withMore, List.set_append_left _ _ hi]
  | _ => rfl

/-! ### The pool -/

/-- Whether the main thread is on its way out, and if so, whether because of an exception. -/
def MainPhase.leaving : MainPhase → Option Bool
  | .unwinding failed | .joiningPool failed _ | .joiningSweeper failed => some failed
  | .returned code => some (code != 0)
  | .terminated => some true
  | _ => none

/-- The constructor of the pool has returned. -/
def MainPhase.launched : MainPhase → Bool
  | .announcing | .startingSignalThread | .running | .joiningSignalThread => true
  | phase => phase.leaving == some false

structure LaunchInv (cfg : ServerConfig) (s : Process P) : Prop where
  length_le : s.server.workers.length ≤ cfg.workerCount
  full : s.phase.launched = true → s.server.workers.length = cfg.workerCount
  /-- A pool that was complete has closed the work queue before it joins its threads. -/
  closed : ∀ failed next, s.phase = .joiningPool failed next → s.server.workers.length = cfg.workerCount →
    s.server.loop.workQueue.closed = true

theorem LaunchInv.start (cfg : ServerConfig) (store : Store P) (clock : Int) :
    LaunchInv cfg (Process.start cfg store clock) where
  length_le := Nat.zero_le _
  full h := by cases h
  closed _ _ h := by cases h

theorem ServerEffect.length_eq {log : List Event} {t : System P} (h : ServerEffect cfg s log t)
    (hphase : s.phase ≠ .spawning) : t.workers.length = s.server.workers.length := by
  cases h with
  | none _ ht => rw [ht]
  | step hmove => exact hmove.workers_length
  | spawn hspawning => exact absurd hspawning hphase
  | requestStop _ _ _ ht => rw [ht]; exact List.length_set ..

theorem ServerEffect.length_le {log : List Event} {t : System P} (h : ServerEffect cfg s log t)
    (hle : s.server.workers.length ≤ cfg.workerCount) : t.workers.length ≤ cfg.workerCount := by
  by_cases hphase : s.phase = .spawning
  · cases h with
    | none _ ht => rwa [ht]
    | step hmove => rwa [hmove.workers_length]
    | spawn _ hlt _ ht => rw [ht, List.length_append]; exact hlt
    | requestStop hjoining => cases hphase.symm.trans hjoining
  · rwa [h.length_eq hphase]

theorem ProcessMove.of_launched (hmove : ProcessMove cfg s evs s') (h : s'.phase.launched = true) :
    s.phase.launched = true ∨ cfg.workerCount ≤ s.server.workers.length ∧ s'.server = s.server := by
  cases hmove with
  | spawned _ hge => exact .inr ⟨hge, rfl⟩
  | throws | buildPool | spawnThrows | loopThrows | terminate => cases h
  | announce hphase | startSignalThread hphase | loopReturns hphase | joinSignalThread hphase =>
    rw [hphase]; exact .inl rfl
  | closePool hphase | joinWorker hphase | endPool hphase | stopSweeper hphase | endSweeper hphase =>
    rw [hphase]; exact .inl h
  | @returns failed hphase =>
    rw [hphase]
    cases failed with
    | false => exact .inl rfl
    | true => cases h
  | _ => exact .inl h

theorem MainPhase.launched_ne {phase : MainPhase} (h : phase.launched = true) : phase ≠ .spawning := by
  rintro rfl; cases h

theorem WorkerMove.workQueue_closed {t t' : System P} {i : Nat} {w : Worker} {evs : List Event}
    (h : WorkerMove t i w evs t') : t'.loop.workQueue.closed = t.loop.workQueue.closed := by
  cases h <;> rfl

theorem LaunchInv.closed_move (h : LaunchInv cfg s) (hmove : ProcessMove cfg s evs s') {failed : Bool} {next : Nat}
    (hphase' : s'.phase = .joiningPool failed next) (hfull : s'.server.workers.length = cfg.workerCount) :
    s'.server.loop.workQueue.closed = true := by
  cases hmove with
  | closePool => rfl
  | spawnThrows _ hlt => exact absurd hfull (Nat.ne_of_lt hlt)
  | joinWorker hphase => exact h.closed _ _ hphase hfull
  | spawn hphase => cases hphase.symm.trans hphase'
  | loop hphase => cases hphase.symm.trans hphase'
  | requestStop hphase =>
    refine h.closed _ _ hphase ?_
    rw [← hfull]; exact (List.length_set ..).symm
  | worker hw hstep =>
    obtain ⟨-, w', hset⟩ := hstep.workers_eq
    rw [hset, List.length_set] at hfull
    exact hstep.workQueue_closed.trans (h.closed _ _ hphase' hfull)
  | announce _ hnext => rcases hnext with rfl | rfl <;> cases hphase'
  | throws | buildPool | spawned | startSignalThread | loopReturns | loopThrows | joinSignalThread | terminate
  | endPool | stopSweeper | endSweeper | returns => cases hphase'
  | _ => exact h.closed _ _ hphase' hfull

theorem LaunchInv.move (h : LaunchInv cfg s) (hmove : ProcessMove cfg s evs s') : LaunchInv cfg s' := by
  refine ⟨hmove.effect.length_le h.length_le, fun hlaunched => ?_, fun _ _ => h.closed_move hmove⟩
  rcases hmove.of_launched hlaunched with hold | ⟨hge, hserver⟩
  · rw [hmove.effect.length_eq (MainPhase.launched_ne hold)]
    exact h.full hold
  · rw [hserver]; exact h.length_le.antisymm hge

/-! ### The process runs the server -/

theorem ProcessMove.leaving (hmove : ProcessMove cfg s evs s') (h : s.phase.leaving.isSome = true) :
    s'.phase.leaving.isSome = true := by
  cases hmove with
  | buildPool hphase | spawned hphase | announce hphase | startSignalThread hphase | loopReturns hphase =>
    rw [hphase] at h; cases h
  | throws | spawnThrows | loopThrows | joinSignalThread | terminate | closePool | joinWorker | endPool | stopSweeper
  | endSweeper | returns => rfl
  | _ => exact h

variable {store : Store P} {clock : Int} {log : List ProcessEvent}

/-- The process has run the server with all its threads, unless the pool's constructor has failed. -/
structure RefineInv (cfg : ServerConfig) (store : Store P) (clock : Int) (log : List ProcessEvent) (s : Process P) :
    Prop where
  pool : LaunchInv cfg s
  reached : s.phase.leaving.isSome = true ∧ s.server.workers.length < cfg.workerCount ∨
    System.Run cfg store clock (serverEvents log) (s.pooled cfg)

theorem RefineInv.move (h : RefineInv cfg store clock log s) (hmove : ProcessMove cfg s evs s') :
    RefineInv cfg store clock (log ++ evs) s' := by
  refine ⟨h.pool.move hmove, ?_⟩
  have heffect := hmove.effect
  rw [serverEvents_append]
  rcases h.reached with ⟨hleaving, hlt⟩ | hrun
  · refine .inl ⟨hmove.leaving hleaving, ?_⟩
    rw [heffect.length_eq (by rintro hphase; rw [hphase] at hleaving; cases hleaving)]
    exact hlt
  · cases heffect with
    | none hevs hserver =>
      rw [hevs, List.append_nil, Process.pooled, hserver]; exact .inr hrun
    | spawn _ hlt hevs hserver =>
      refine .inr ?_
      rw [hevs, List.append_nil, ← Process.pooled_spawn hlt] at *
      rw [Process.pooled, hserver]; exact hrun
    | @step choice hstep =>
      refine .inr (hrun.tail ⟨choice, ?_⟩)
      rw [Process.pooled, Process.pooled, hstep.workers_length]
      exact hstep.withMore _
    | @requestStop failed next w hphase hw hevs hserver =>
      rcases h.pool.length_le.lt_or_eq with hlt | hfull
      · refine .inl ⟨hmove.leaving (by rw [hphase]; rfl), ?_⟩
        rw [hserver, List.length_set]; exact hlt
      · have hstep : SystemMove cfg.toEventLoopConfig s.server (.requestStop next) []
            { s.server with workers := s.server.workers.set next { w with stopRequested := true } } :=
          .requestStop hw (h.pool.closed _ _ hphase hfull)
        refine .inr (hrun.tail ⟨.requestStop next, ?_⟩)
        rw [Process.pooled, Process.pooled, hserver, hstep.workers_length, hevs]
        exact hstep.withMore _

theorem Process.Run.refineInv (h : Process.Run cfg store clock log s) : RefineInv cfg store clock log s := by
  have hstep : ∀ (log evs : List ProcessEvent) (s s' : Process P), RefineInv cfg store clock log s →
      Step (Process.step cfg) s evs s' → RefineInv cfg store clock (log ++ evs) s' :=
    fun _ _ _ _ h ⟨_, hs⟩ => h.move (processMove_of_step hs).2
  exact Exec.invariant ⟨.start cfg store clock, .inr .refl⟩ hstep h

theorem RefineInv.run (h : RefineInv cfg store clock log s) (hpool : s.server.workers.length = cfg.workerCount) :
    System.Run cfg store clock (serverEvents log) s.server := by
  rcases h.reached with ⟨-, hlt⟩ | hserver
  · exact absurd hpool (Nat.ne_of_lt hlt)
  · rwa [Process.pooled_of_full hpool] at hserver

/-- Once the pool has all its threads, the process has done a run of the server. Both take a dispatch and a sweep as
one step. -/
theorem main_refines_system (hrun : Process.Run cfg store clock log s)
    (hpool : s.server.workers.length = cfg.workerCount) :
    System.Run cfg store clock (serverEvents log) s.server :=
  hrun.refineInv.run hpool

theorem main_refines_system_stopped :
    System.Run (ServerConfig.small 1 Nat.one_pos) Store.small 0 (serverEvents stoppedLog) stoppedMain.server :=
  main_refines_system run_stopped (by decide +kernel)

/-! ### How the process ends -/

/-- The main thread has not reached `loop.run()`. -/
def MainPhase.preparing : MainPhase → Bool
  | .building | .spawning | .announcing | .startingSignalThread => true
  | _ => false

/-- The loop has returned because it was asked to stop. -/
def Process.Stopped (s : Process P) : Prop := s.server.loop.exited = true ∧ s.server.loop.stopRequested = true

/-- The loop was never run, and there was no thread to stop it. -/
def Process.Unstarted (s : Process P) : Prop := s.signal = .absent ∧ s.server.loop.exited = false

theorem LoopMove.stopRequested_eq {c : EventLoopConfig} {l l' : LoopState} {io : Io} {evs : List Event}
    (h : LoopMove c l io evs l') : l'.stopRequested = l.stopRequested := by
  cases h <;> rfl

theorem ProcessMove.loopKept (h : ProcessMove cfg s evs s') (hphase : s.phase ≠ .running) :
    LoopKept s.server.loop s'.server.loop := by
  cases h with
  | loop hrunning | loopReturns hrunning | loopThrows hrunning => exact absurd hrunning hphase
  | worker _ hstep => exact hstep.loopKept.1
  | stop => exact ⟨rfl, rfl, rfl, fun _ => rfl⟩
  | _ => exact ⟨rfl, rfl, rfl, id⟩

theorem Process.Stopped.move (h : s.Stopped) (hmove : ProcessMove cfg s evs s') (hphase : s.phase ≠ .running) :
    s'.Stopped :=
  ⟨(hmove.loopKept hphase).exited.trans h.1, (hmove.loopKept hphase).stopRequested h.2⟩

theorem Process.Unstarted.move (h : s.Unstarted) (hmove : ProcessMove cfg s evs s') (hphase : s.phase ≠ .running)
    (hphase' : s'.phase ≠ .running) : s'.Unstarted := by
  refine ⟨?_, (hmove.loopKept hphase).exited.trans h.2⟩
  cases hmove with
  | startSignalThread => exact absurd rfl hphase'
  | signalled hwaiting => cases h.1.symm.trans hwaiting
  | stop hstopping => cases h.1.symm.trans hstopping
  | _ => exact h.1

theorem ProcessMove.completions_closed (h : ProcessMove cfg s evs s') :
    s'.server.loop.completionQueue.closed = s.server.loop.completionQueue.closed := by
  cases h with
  | loop _ hl | loopReturns _ hl | loopThrows _ hl => exact (loopStep_effect hl).queues.completions
  | worker _ hstep => cases hstep <;> rfl
  | _ => rfl

/-- An exception out of `loop.run()` is logged when it happens. -/
theorem ProcessMove.of_runThrew (h : ProcessMove cfg s evs s') (hmem : .runThrew ∈ evs) :
    s.phase = .running ∧ s'.phase = .unwinding true ∧ s'.innermost = s.innermost := by
  have hnot : ∀ (objects : List ServerObject) (l : List Event),
      .runThrew ∉ ServerObject.used objects ++ l.map .server := fun objects l => by simp [ServerObject.used]
  cases h with
  | loopThrows hphase => exact ⟨hphase, rfl, rfl⟩
  | loop | loopReturns | worker => exact absurd hmem (hnot _ _)
  | sweep | stop => simp [ServerObject.used] at hmem
  | _ => simp at hmem

/-- What is known of the loop and of the signal thread in the phases of the main thread. -/
structure OutcomeInv (log : List ProcessEvent) (s : Process P) : Prop where
  preparing : s.phase.preparing = true → s.Unstarted
  joining : s.phase = .joiningSignalThread → s.Stopped
  clean : s.phase.leaving = some false → s.Stopped
  failed : s.phase.leaving = some true → .runThrew ∈ log ∨ s.Unstarted
  threw : .runThrew ∈ log → s.innermost = some .signalThread ∧ (s.phase = .unwinding true ∨ s.phase = .terminated)
  terminated : s.phase = .terminated → .runThrew ∈ log
  code : ∀ code, s.phase = .returned code → code = 0 ∨ code = 1
  signal : s.innermost = some .signalThread → s.signal ≠ .absent
  completions : s.server.loop.completionQueue.closed = false

theorem OutcomeInv.start (cfg : ServerConfig) (store : Store P) (clock : Int) :
    OutcomeInv [] (Process.start cfg store clock) where
  preparing _ := ⟨rfl, rfl⟩
  joining h := by cases h
  clean h := by cases h
  failed h := by cases h
  threw h := by cases h
  terminated h := by cases h
  code _ h := by cases h
  signal h := by cases h
  completions := rfl

theorem OutcomeInv.preparing_move (h : OutcomeInv log s) (hmove : ProcessMove cfg s evs s')
    (hpreparing : s'.phase.preparing = true) : s'.Unstarted := by
  have hold : s.phase.preparing = true := by
    cases hmove with
    | throws | spawnThrows | startSignalThread | loopReturns | loopThrows | joinSignalThread | terminate | closePool
    | joinWorker | endPool | stopSweeper | endSweeper | returns => cases hpreparing
    | buildPool hphase | spawned hphase | announce hphase => rw [hphase]; rfl
    | _ => exact hpreparing
  refine (h.preparing hold).move hmove ?_ ?_
  · intro hphase; rw [hphase] at hold; cases hold
  · intro hphase; rw [hphase] at hpreparing; cases hpreparing

theorem OutcomeInv.joining_move (h : OutcomeInv log s) (hmove : ProcessMove cfg s evs s')
    (hjoining : s'.phase = .joiningSignalThread) : s'.Stopped := by
  have hkept : s.phase = .joiningSignalThread → s'.Stopped := fun hphase =>
    (h.joining hphase).move hmove (by rw [hphase]; simp)
  cases hmove with
  | loopReturns _ hl hexited hstop => exact ⟨hexited, (loopMove_of_step hl).2.stopRequested_eq.trans hstop⟩
  | announce _ hnext => rcases hnext with rfl | rfl <;> cases hjoining
  | throws | buildPool | spawnThrows | spawned | startSignalThread | loopThrows | joinSignalThread | terminate
  | closePool | joinWorker | endPool | stopSweeper | endSweeper | returns => cases hjoining
  | _ => exact hkept hjoining

theorem OutcomeInv.clean_move (h : OutcomeInv log s) (hmove : ProcessMove cfg s evs s')
    (hclean : s'.phase.leaving = some false) : s'.Stopped := by
  have hkept : s.phase.leaving = some false → s'.Stopped := fun hold =>
    (h.clean hold).move hmove (by intro hphase; rw [hphase] at hold; cases hold)
  cases hmove with
  | joinSignalThread hphase => exact h.joining hphase
  | announce _ hnext => rcases hnext with rfl | rfl <;> cases hclean
  | throws | buildPool | spawnThrows | spawned | startSignalThread | loopReturns | loopThrows | terminate =>
    cases hclean
  | closePool hphase | joinWorker hphase | endPool hphase | stopSweeper hphase | endSweeper hphase =>
    exact hkept (by rw [hphase]; exact hclean)
  | @returns failed hphase =>
    refine hkept ?_
    cases failed with
    | false => rw [hphase]; rfl
    | true => cases hclean
  | _ => exact hkept hclean

theorem OutcomeInv.failed_move (h : OutcomeInv log s) (hmove : ProcessMove cfg s evs s')
    (hfailed : s'.phase.leaving = some true) : .runThrew ∈ log ++ evs ∨ s'.Unstarted := by
  have hkept : s.phase.leaving = some true → .runThrew ∈ log ++ evs ∨ s'.Unstarted := fun hold =>
    (h.failed hold).imp (List.mem_append_left evs) fun hun => hun.move hmove
      (by intro hphase; rw [hphase] at hold; cases hold) (by intro hphase; rw [hphase] at hfailed; cases hfailed)
  -- the exceptions of constructors
  have hthrown : s.phase.preparing = true → .runThrew ∈ log ++ evs ∨ s'.Unstarted := fun hold =>
    .inr ((h.preparing hold).move hmove
      (by intro hphase; rw [hphase] at hold; cases hold) (by intro hphase; rw [hphase] at hfailed; cases hfailed))
  cases hmove with
  | throws hphase => rcases hphase with hphase | hphase <;> exact hthrown (by rw [hphase]; rfl)
  | spawnThrows hphase | announce hphase => exact hthrown (by rw [hphase]; rfl)
  | loopThrows => exact .inl (by simp)
  | buildPool | spawned | startSignalThread | loopReturns | joinSignalThread => cases hfailed
  | terminate hphase => exact hkept (by rw [hphase]; rfl)
  | closePool hphase | joinWorker hphase | endPool hphase | stopSweeper hphase | endSweeper hphase =>
    exact hkept (by rw [hphase]; exact hfailed)
  | @returns failed hphase =>
    refine hkept ?_
    cases failed with
    | true => rw [hphase]; rfl
    | false => cases hfailed
  | _ => exact hkept hfailed

/-- With an exception out of `loop.run()` on its way, the main thread only gets to `std::terminate`. -/
theorem OutcomeInv.threw_move (h : OutcomeInv log s) (hover : s.phase.over = false)
    (hmove : ProcessMove cfg s evs s') (hthrew : .runThrew ∈ log) :
    s'.innermost = some .signalThread ∧ (s'.phase = .unwinding true ∨ s'.phase = .terminated) := by
  obtain ⟨hin, hphase⟩ := h.threw hthrew
  have hphase : s.phase = .unwinding true := by
    refine hphase.resolve_right fun hterminated => ?_
    rw [hterminated] at hover; cases hover
  have hnot : ∀ {phase : MainPhase}, s.phase = phase → phase = .unwinding true := fun h => h.symm.trans hphase
  cases hmove with
  | throws hold => rcases hold with hold | hold <;> cases hnot hold
  | buildStore hold | buildSweeper hold | buildWorkQueue hold | buildCompletionQueue hold | buildLoop hold
  | buildPool hold | spawn hold | spawnThrows hold | spawned hold | announce hold | startSignalThread hold
  | loop hold | loopReturns hold | loopThrows hold | joinSignalThread hold | endSignalThread hold
  | requestStop hold | joinWorker hold | endPool hold | endSweeper hold => cases hnot hold
  | closePool _ hin' | endLoop _ hin' | endCompletionQueue _ hin' | endWorkQueue _ hin' | stopSweeper _ hin'
  | endStore _ hin' | returns _ hin' => cases hin.symm.trans hin'
  | terminate => exact ⟨hin, .inr rfl⟩
  | _ => exact ⟨hin, .inl hphase⟩

theorem OutcomeInv.signal_move (h : OutcomeInv log s) (hmove : ProcessMove cfg s evs s')
    (hin : s'.innermost = some .signalThread) : s'.signal ≠ .absent := by
  cases hmove with
  | startSignalThread | signalled | stop => simp
  | buildStore | buildSweeper | buildWorkQueue | buildCompletionQueue | buildLoop | buildPool | endSignalThread
  | endPool | endLoop | endCompletionQueue | endWorkQueue | endSweeper | endStore => cases hin
  | _ => exact h.signal hin

theorem OutcomeInv.terminated_move (h : OutcomeInv log s) (hover : s.phase.over = false)
    (hmove : ProcessMove cfg s evs s') (hterminated : s'.phase = .terminated) : .runThrew ∈ log := by
  have hnot : s.phase ≠ .terminated := fun hphase => by rw [hphase] at hover; cases hover
  cases hmove with
  | terminate hphase hin =>
    exact (h.failed (by rw [hphase]; rfl)).resolve_right fun hun => h.signal hin hun.1
  | announce _ hnext => rcases hnext with rfl | rfl <;> cases hterminated
  | throws | buildPool | spawnThrows | spawned | startSignalThread | loopReturns | loopThrows | joinSignalThread
  | closePool | joinWorker | endPool | stopSweeper | endSweeper | returns => cases hterminated
  | _ => exact absurd hterminated hnot

theorem OutcomeInv.code_move (h : OutcomeInv log s) (hmove : ProcessMove cfg s evs s') {code : Nat}
    (hreturned : s'.phase = .returned code) : code = 0 ∨ code = 1 := by
  cases hmove with
  | @returns failed =>
    cases hreturned
    cases failed with
    | true => exact .inr rfl
    | false => exact .inl rfl
  | announce _ hnext => rcases hnext with rfl | rfl <;> cases hreturned
  | throws | buildPool | spawnThrows | spawned | startSignalThread | loopReturns | loopThrows | joinSignalThread
  | terminate | closePool | joinWorker | endPool | stopSweeper | endSweeper => cases hreturned
  | _ => exact h.code code hreturned

theorem OutcomeInv.move (h : OutcomeInv log s) (hlife : LifeInv s) (hover : s.phase.over = false)
    (hmove : ProcessMove cfg s evs s') : OutcomeInv (log ++ evs) s' where
  preparing := h.preparing_move hmove
  joining := h.joining_move hmove
  clean := h.clean_move hmove
  failed := h.failed_move hmove
  threw hmem := by
    rcases List.mem_append.mp hmem with hold | hnew
    · exact h.threw_move hover hmove hold
    · obtain ⟨hphase, hphase', hin⟩ := hmove.of_runThrew hnew
      have hfits := hlife.fits
      rw [hphase] at hfits
      exact ⟨hin.trans hfits, .inl hphase'⟩
  terminated hterminated := List.mem_append_left evs (h.terminated_move hover hmove hterminated)
  code _ := h.code_move hmove
  signal := h.signal_move hmove
  completions := hmove.completions_closed.trans h.completions

theorem Process.Run.outcomeInv (h : Process.Run cfg store clock log s) : OutcomeInv log s := by
  have hstep : ∀ (log evs : List ProcessEvent) (s s' : Process P), LifeInv s ∧ OutcomeInv log s →
      Step (Process.step cfg) s evs s' → LifeInv s' ∧ OutcomeInv (log ++ evs) s' := by
    rintro log evs s s' ⟨hlife, hinv⟩ ⟨_, hs⟩
    obtain ⟨hover, hmove⟩ := processMove_of_step hs
    exact ⟨hlife.move hmove, hinv.move hlife hover hmove⟩
  have hboth : LifeInv s ∧ OutcomeInv log s :=
    Exec.invariant ⟨.start cfg store clock, .start cfg store clock⟩ hstep h
  exact hboth.2

/-- `main` returns 0 only after a stop request and with no request left in the work queue, and 1 only if an
exception came before the loop was run. An exception out of `loop.run()` ends in `std::terminate`, and nothing
else does. -/
theorem main_outcomes (hrun : Process.Run cfg store clock log s) :
    (∀ code, s.phase = .returned code →
      .runThrew ∉ log ∧ (code = 0 ∧ s.Stopped ∧ s.server.loop.workQueue.items = [] ∨ code = 1 ∧ s.Unstarted)) ∧
    (.runThrew ∈ log → s.innermost = some .signalThread ∧ (s.phase = .unwinding true ∨ s.phase = .terminated)) ∧
    (s.phase = .terminated → .runThrew ∈ log) := by
  have hinv := hrun.outcomeInv
  refine ⟨fun code hphase => ?_, hinv.threw, hinv.terminated⟩
  have hnot : .runThrew ∉ log := fun hthrew => by
    rcases (hinv.threw hthrew).2 with h | h <;> cases hphase.symm.trans h
  refine ⟨hnot, (hinv.code code hphase).imp (fun hzero => ⟨hzero, ?_⟩) fun hone => ⟨hone, ?_⟩⟩
  · subst hzero
    have hclean : s.phase.leaving = some false := by rw [hphase]; rfl
    refine ⟨hinv.clean hclean, ?_⟩
    -- a worker has left, so the queue was closed and empty
    have hfull := hrun.refineInv.pool.full (by rw [hphase]; rfl)
    have hserver := hrun.refineInv.run hfull
    have hpos : 0 < s.server.workers.length := hfull ▸ cfg.workerCount_pos
    obtain ⟨w, hw⟩ := List.exists_mem_of_length_pos hpos
    have hexited : w.phase = .exited := by
      by_contra hactive
      have hdepth := hrun.logInv.life.workers w hw hactive
      have hfits := hrun.logInv.life.fits
      rw [hphase] at hfits
      rw [Process.depth, hfits] at hdepth
      exact absurd hdepth (by decide)
    exact (hserver.exitInv.exited hinv.completions w hw hexited).2
  · subst hone
    exact (hinv.failed (by rw [hphase]; rfl)).resolve_left hnot

theorem main_outcomes_crashed : crashedMain.phase = .terminated ∧ .runThrew ∈ crashedLog :=
  ⟨phase_crashed, (main_outcomes run_crashed).2.2 phase_crashed⟩

end
end KvStore
