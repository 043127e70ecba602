import Mathlib.Algebra.Order.BigOperators.Group.List
import KvStore.Moves

/-!
# Shutting down

After the loop has left `run` nobody takes completions out of their queue any more, `main` never closes that
queue, and `~WorkerPool` lets the workers finish the work that is queued. Every request that is still on its
way needs a place in the completion queue: `shutdown_iff` says that the workers can always go on exactly if
the queue has enough places. Otherwise a worker waits in `push` for ever (`shutdown_blocked`).
-/

namespace KvStore
open ByteString Transition Slots

/-! ### Workers that have left -/

section
variable {P : Platform} {cfg : ServerConfig} {s s' : System P} {evs : List Event}

/-- A worker is stopped only after the work queue was closed, and leaves only when it is empty. -/
structure ExitInv (cfg : ServerConfig) (s : System P) : Prop where
  capacity : s.loop.completionQueue.capacity = cfg.completionCapacity
  workers : s.workers.length = cfg.workerCount
  stopped : ∀ w ∈ s.workers, w.stopRequested = true → s.loop.workQueue.closed = true
  exited : s.loop.completionQueue.closed = false → ∀ w ∈ s.workers, w.phase = .exited →
    s.loop.workQueue.closed = true ∧ s.loop.workQueue.items = []

theorem ExitInv.start (cfg : ServerConfig) (store : Store P) (clock : Int) :
    ExitInv cfg (System.start cfg store clock) := by
  have hfresh : ∀ w ∈ List.replicate cfg.workerCount ({} : Worker), w = {} := fun w => List.eq_of_mem_replicate
  refine ⟨rfl, List.length_replicate, fun w hw hstop => ?_, fun _ w hw hexit => ?_⟩
  · rw [hfresh w hw] at hstop; cases hstop
  · rw [hfresh w hw] at hexit; cases hexit

theorem ExitInv.setPhase (h : ExitInv cfg s) {i : Nat} {w : Worker} {phase : WorkerPhase} {loop : LoopState}
    {store : Store P} (hw : s.workers[i]? = some w) (hphase : phase ≠ .exited)
    (hcapacity : loop.completionQueue.capacity = s.loop.completionQueue.capacity)
    (hcompletions : loop.completionQueue.closed = s.loop.completionQueue.closed)
    (hclosed : loop.workQueue.closed = s.loop.workQueue.closed)
    (hitems : s.loop.workQueue.items = [] → loop.workQueue.items = []) :
    ExitInv cfg ({ s with loop, store }.setPhase i w phase) := by
  refine ⟨hcapacity.trans h.capacity, (List.length_set ..).trans h.workers, fun w' hw' hstop => ?_,
    fun hopen w' hw' hexit => ?_⟩
  · show loop.workQueue.closed = true
    rw [hclosed]
    rcases List.mem_or_eq_of_mem_set hw' with hw' | rfl
    · exact h.stopped w' hw' hstop
    · exact h.stopped w (List.mem_of_getElem? hw) hstop
  · rcases List.mem_or_eq_of_mem_set hw' with hw' | rfl
    · obtain ⟨h1, h2⟩ := h.exited (hcompletions ▸ hopen) w' hw' hexit
      exact ⟨hclosed.trans h1, hitems h2⟩
    · exact absurd hexit hphase

theorem ExitInv.worker (h : ExitInv cfg s) {i : Nat} {w : Worker} (hw : s.workers[i]? = some w)
    (hmove : WorkerMove s i w evs s') : ExitInv cfg s' := by
  have hleft : s.loop.workQueue.closed = true ∧ s.loop.workQueue.items = [] ∨
      s.loop.completionQueue.closed = true → ExitInv cfg (s.setPhase i w .exited) := by
    intro hwhy
    refine ⟨h.capacity, (List.length_set ..).trans h.workers, fun w' hw' hstop => ?_, fun hopen w' hw' hexit => ?_⟩
    · rcases List.mem_or_eq_of_mem_set hw' with hw' | rfl
      · exact h.stopped w' hw' hstop
      · exact h.stopped w (List.mem_of_getElem? hw) hstop
    · rcases hwhy with hwhy | hclosed
      · exact hwhy
      · rw [show s.loop.completionQueue.closed = false from hopen] at hclosed; cases hclosed
  cases hmove with
  | pop _ hitems =>
    refine h.setPhase hw (by simp) rfl rfl rfl fun hnil => ?_
    rw [hnil] at hitems; cases hitems
  | leave _ hnil hwhy =>
    refine hleft (.inl ⟨?_, hnil⟩)
    rcases hwhy with hclosed | hstop
    · exact hclosed
    · exact h.stopped w (List.mem_of_getElem? hw) hstop
  | dispatch _ => exact h.setPhase hw (by simp) rfl rfl rfl id
  | push _ _ _ => exact h.setPhase hw (by simp) rfl rfl rfl id
  | drop _ hclosed => exact hleft (.inr hclosed)
  | notify _ => exact h.setPhase hw (by simp) rfl rfl rfl id

theorem ExitInv.loop (h : ExitInv cfg s) {loop : LoopState} {store : Store P} {clock : Int}
    (hcapacity : loop.completionQueue.capacity = s.loop.completionQueue.capacity)
    (hcompletions : loop.completionQueue.closed = false → s.loop.completionQueue.closed = false)
    (hwork : s.loop.workQueue.closed = true → loop.workQueue = s.loop.workQueue) :
    ExitInv cfg { s with loop, store, clock } := by
  refine ⟨hcapacity.trans h.capacity, h.workers, fun w hw hstop => ?_, fun hopen w hw hexit => ?_⟩
  · have hclosed := h.stopped w hw hstop
    show loop.workQueue.closed = true
    rw [hwork hclosed]; exact hclosed
  · obtain ⟨hclosed, hnil⟩ := h.exited (hcompletions hopen) w hw hexit
    show loop.workQueue.closed = true ∧ loop.workQueue.items = []
    rw [hwork hclosed]; exact ⟨hclosed, hnil⟩

theorem ExitInv.closeWork (h : ExitInv cfg s) :
    ExitInv cfg { s with loop := { s.loop with workQueue := s.loop.workQueue.close } } := by
  refine h.loop rfl id fun hclosed => ?_
  unfold BoundedQueue.close
  rw [← hclosed]

theorem ExitInv.closeCompletions (h : ExitInv cfg s) :
    ExitInv cfg { s with loop := { s.loop with completionQueue := s.loop.completionQueue.close } } :=
  h.loop rfl (fun hopen => by cases hopen) fun _ => rfl

theorem ExitInv.requestStop (h : ExitInv cfg s) {i : Nat} {w : Worker} (hw : s.workers[i]? = some w)
    (hclosed : s.loop.workQueue.closed = true) :
    ExitInv cfg { s with workers := s.workers.set i { w with stopRequested := true } } := by
  refine ⟨h.capacity, (List.length_set ..).trans h.workers, fun _ _ _ => hclosed, fun hopen w' hw' hexit => ?_⟩
  rcases List.mem_or_eq_of_mem_set hw' with hw' | rfl
  · exact h.exited hopen w' hw' hexit
  · exact h.exited hopen w (List.mem_of_getElem? hw) hexit

theorem ExitInv.step (h : ExitInv cfg s) {choice : Choice}
    (hstep : s.step cfg.toEventLoopConfig choice = some (s', evs)) : ExitInv cfg s' := by
  cases systemMove_of_step hstep with
  | loop hl =>
    have hkept := (loopStep_effect hl).queues
    exact h.loop hkept.capacity (fun hopen => hkept.completions ▸ hopen) hkept.work
  | worker hw hmove => exact h.worker hw hmove
  | closeWork => exact h.closeWork
  | requestStop hw hclosed => exact h.requestStop hw hclosed
  | closeCompletions => exact h.closeCompletions
  | stop => exact h.loop rfl id fun _ => rfl
  | tick => exact h.loop rfl id fun _ => rfl
  | sweep => exact h.loop rfl id fun _ => rfl

theorem System.Run.exitInv {store : Store P} {clock : Int} {log : List Event}
    (h : System.Run cfg store clock log s) : ExitInv cfg s := by
  have hstep : ∀ (log evs : List Event) (s s' : System P), ExitInv cfg s →
      Step (System.step cfg.toEventLoopConfig) s evs s' → ExitInv cfg s' :=
    fun _ _ _ _ hinv ⟨_, hs⟩ => hinv.step hs
  exact Exec.invariant (ExitInv.start cfg store clock) hstep h

end

/-! ### Requests on their way -/

/-- Requests a worker has in its hands. -/
def WorkerPhase.load : WorkerPhase → Nat
  | .popped _ | .done _ => 1
  | _ => 0

/-- Steps a worker can take before it has to ask the work queue again. -/
def WorkerPhase.rank : WorkerPhase → Nat
  | .exited => 0
  | .idle => 1
  | .notifying => 2
  | .done _ => 3
  | .popped _ => 4

section
variable {P : Platform} {cfg : ServerConfig} {s s' : System P} {evs log : List Event}

namespace System

/-- The requests on their way: queued, in a worker's hands, or completed and not taken by the loop. -/
def load (s : System P) : Nat :=
  s.loop.workQueue.items.length + (s.workers.map (·.phase.load)).sum + s.loop.completionQueue.items.length

def rank (s : System P) : Nat := 4 * s.loop.workQueue.items.length + (s.workers.map (·.phase.rank)).sum

def Busy (s : System P) : Prop := ∃ w ∈ s.workers, w.phase ≠ .exited

/-- Any step but closing the completion queue, which `main` does not do. -/
def ShutdownStep (cfg : ServerConfig) (s : System P) (evs : List Event) (s' : System P) : Prop :=
  ∃ choice, choice ≠ .closeCompletions ∧ s.step cfg.toEventLoopConfig choice = some (s', evs)

/-- No state from here on leaves a worker behind that nothing can move. -/
def ShutsDown (cfg : ServerConfig) (s : System P) : Prop :=
  ∀ log s', Exec (ShutdownStep cfg) s log s' → s'.Busy → ∃ i, (s'.workerStep i).isSome = true

end System

theorem sum_setPhase (f : WorkerPhase → Nat) {i : Nat} {w : Worker} {old : WorkerPhase}
    (hw : s.workers[i]? = some w) (hold : w.phase = old) (new : WorkerPhase) :
    ((s.workers.set i { w with phase := new }).map (f ·.phase)).sum + f old =
      (s.workers.map (f ·.phase)).sum + f new :=
  hold ▸ sum_map_set_add (f ·.phase) { w with phase := new } hw

theorem WorkerMove.rank_lt {i : Nat} {w : Worker} (hw : s.workers[i]? = some w) (h : WorkerMove s i w evs s') :
    s'.rank < s.rank := by
  unfold System.rank
  cases h with
  | @pop item rest hph hitems =>
    have hset : _ + 1 = _ + 4 := sum_setPhase WorkerPhase.rank hw hph (.popped item)
    have htail : s.loop.workQueue.dequeue.items.length + 1 = s.loop.workQueue.items.length := by
      rw [BoundedQueue.items_dequeue, hitems]; rfl
    dsimp only [System.setPhase]
    omega
  | leave hph _ _ =>
    have hset : _ + 1 = _ + 0 := sum_setPhase WorkerPhase.rank hw hph .exited
    dsimp only [System.setPhase]
    omega
  | @dispatch item hph =>
    have hset : _ + 4 = _ + 3 := sum_setPhase WorkerPhase.rank hw hph
      (.done (item.completion (KvStore.dispatch s.store s.clock item.command).2))
    dsimp only [System.setPhase]
    omega
  | push _ hph _ =>
    have hset : _ + 3 = _ + 2 := sum_setPhase WorkerPhase.rank hw hph .notifying
    dsimp only [System.setPhase]
    omega
  | drop hph _ =>
    have hset : _ + 3 = _ + 0 := sum_setPhase WorkerPhase.rank hw hph .exited
    dsimp only [System.setPhase]
    omega
  | notify hph =>
    have hset : _ + 2 = _ + 1 := sum_setPhase WorkerPhase.rank hw hph .idle
    dsimp only [System.setPhase]
    omega

/-- While the completion queue is open a worker's step loses no request. -/
theorem WorkerMove.load_eq {i : Nat} {w : Worker} (hw : s.workers[i]? = some w) (h : WorkerMove s i w evs s')
    (hopen : s.loop.completionQueue.closed = false) : s'.load = s.load := by
  unfold System.load
  cases h with
  | @pop item rest hph hitems =>
    have hset : _ + 0 = _ + 1 := sum_setPhase WorkerPhase.load hw hph (.popped item)
    have htail : s.loop.workQueue.dequeue.items.length + 1 = s.loop.workQueue.items.length := by
      rw [BoundedQueue.items_dequeue, hitems]; rfl
    dsimp only [System.setPhase]
    omega
  | leave hph _ _ =>
    have hset : _ + 0 = _ + 0 := sum_setPhase WorkerPhase.load hw hph .exited
    dsimp only [System.setPhase]
    omega
  | @dispatch item hph =>
    have hset : _ + 1 = _ + 1 := sum_setPhase WorkerPhase.load hw hph
      (.done (item.completion (KvStore.dispatch s.store s.clock item.command).2))
    dsimp only [System.setPhase]
    omega
  | @push completion hroom hph _ =>
    have hset : _ + 1 = _ + 0 := sum_setPhase WorkerPhase.load hw hph .notifying
    have hlen : (s.loop.completionQueue.enqueue completion hroom).items.length =
        s.loop.completionQueue.items.length + 1 := by
      rw [BoundedQueue.items_enqueue, List.length_append]; rfl
    dsimp only [System.setPhase]
    omega
  | drop _ hclosed => rw [hopen] at hclosed; cases hclosed
  | notify hph =>
    have hset : _ + 0 = _ + 0 := sum_setPhase WorkerPhase.load hw hph .idle
    dsimp only [System.setPhase]
    omega

/-! ### The end of a server -/

/-- The loop has left, the work queue is closed, and `n` requests are on their way. -/
structure Stopping (n : Nat) (s : System P) : Prop where
  loop : s.loop.exited = true
  work : s.loop.workQueue.closed = true
  completions : s.loop.completionQueue.closed = false
  load : s.load = n

theorem Stopping.worker {n i : Nat} {w : Worker} (h : Stopping n s) (hw : s.workers[i]? = some w)
    (hmove : WorkerMove s i w evs s') : Stopping n s' := by
  have hload := (hmove.load_eq hw h.completions).trans h.load
  cases hmove with
  | drop _ hclosed => rw [h.completions] at hclosed; cases hclosed
  | _ => exact ⟨h.loop, h.work, h.completions, hload⟩

theorem Stopping.step {n : Nat} (h : Stopping n s) (hstep : System.ShutdownStep cfg s evs s') :
    Stopping n s' := by
  obtain ⟨choice, hne, hstep⟩ := hstep
  cases systemMove_of_step hstep with
  | loop hl =>
    unfold LoopState.step at hl
    rw [if_pos h.loop] at hl; cases hl
  | worker hw hmove => exact h.worker hw hmove
  | closeWork => exact ⟨h.loop, rfl, h.completions, h.load⟩
  | @requestStop i w hw _ =>
    refine ⟨h.loop, h.work, h.completions, ?_⟩
    have hset := sum_map_set_add (·.phase.load) { w with stopRequested := true } hw
    rw [← h.load]
    unfold System.load
    dsimp only at hset ⊢
    omega
  | closeCompletions => exact absurd rfl hne
  | _ => exact ⟨h.loop, h.work, h.completions, h.load⟩

theorem Stopping.run {n : Nat} (h : Stopping n s) (hrun : Exec (System.ShutdownStep cfg) s log s') :
    Stopping n s' := by
  have hstep : ∀ (log evs : List Event) (s s' : System P), Stopping n s → System.ShutdownStep cfg s evs s' →
      Stopping n s' := fun _ _ _ _ hinv hs => hinv.step hs
  exact hrun.invariant h hstep

/-- A worker that has not left can go on, or waits for room in a full completion queue. -/
theorem Stopping.move_or_blocked {n i : Nat} {w : Worker} (h : Stopping n s) (hphase : w.phase ≠ .exited) :
    (∃ evs s', WorkerMove s i w evs s') ∨ (w.phase.load = 1 ∧
      s.loop.completionQueue.capacity ≤ s.loop.completionQueue.items.length) := by
  cases hph : w.phase with
  | idle =>
    cases hitems : s.loop.workQueue.items with
    | nil => exact .inl ⟨_, _, .leave hph hitems (.inl h.work)⟩
    | cons item rest => exact .inl ⟨_, _, .pop hph hitems⟩
  | popped item => exact .inl ⟨_, _, .dispatch hph⟩
  | done completion =>
    by_cases hroom : s.loop.completionQueue.items.length < s.loop.completionQueue.capacity
    · exact .inl ⟨_, _, .push hroom hph h.completions⟩
    · exact .inr ⟨rfl, Nat.le_of_not_lt hroom⟩
  | notifying => exact .inl ⟨_, _, .notify hph⟩
  | exited => exact absurd hph hphase

theorem isSome_workerStep_iff {i : Nat} :
    (s.workerStep i).isSome = true ↔ ∃ w evs s', s.workers[i]? = some w ∧ WorkerMove s i w evs s' := by
  constructor
  · intro h
    obtain ⟨⟨s', evs⟩, hs⟩ := Option.isSome_iff_exists.mp h
    obtain ⟨w, hw, hmove⟩ := workerStep_iff.mp hs
    exact ⟨w, evs, s', hw, hmove⟩
  · rintro ⟨w, evs, s', hw, hmove⟩
    rw [step_of_workerMove hw hmove]; rfl

theorem Stopping.enabled {n : Nat} (h : Stopping n s) (hroom : n ≤ s.loop.completionQueue.capacity)
    (hbusy : s.Busy) : ∃ i, (s.workerStep i).isSome = true := by
  obtain ⟨w, hmem, hphase⟩ := hbusy
  obtain ⟨i, hw⟩ := List.mem_iff_getElem?.mp hmem
  refine ⟨i, isSome_workerStep_iff.mpr ?_⟩
  rcases h.move_or_blocked hphase with ⟨evs, s', hmove⟩ | ⟨hload, hfull⟩
  · exact ⟨w, evs, s', hw, hmove⟩
  · -- the completion in its hands is one of the `n`
    exfalso
    have hone : w.phase.load ≤ (s.workers.map (·.phase.load)).sum :=
      List.single_le_sum (fun _ _ => Nat.zero_le _) _ (List.mem_map.mpr ⟨w, hmem, rfl⟩)
    have := h.load
    unfold System.load at this
    omega

/-- When no worker can go on and all of them have left, all requests are in the completion queue. -/
theorem Stopping.busy_of_lt {n : Nat} (h : Stopping n s) (hinv : ExitInv cfg s)
    (hfull : cfg.completionCapacity < n) : s.Busy := by
  by_contra hnone
  have hexited : ∀ w ∈ s.workers, w.phase = .exited := fun w hw => by_contra fun hne => hnone ⟨w, hw, hne⟩
  have hpos : 0 < s.workers.length := hinv.workers ▸ cfg.workerCount_pos
  have hempty := (hinv.exited h.completions _ (List.getElem_mem hpos) (hexited _ (List.getElem_mem hpos))).2
  have hsum : (s.workers.map (·.phase.load)).sum = 0 := by
    refine List.sum_eq_zero fun x hx => ?_
    obtain ⟨w, hw, rfl⟩ := List.mem_map.mp hx
    rw [hexited w hw]; rfl
  have hle := s.loop.completionQueue.length_le
  have hload := h.load
  unfold System.load at hload
  rw [hempty, hsum, List.length_nil] at hload
  rw [hinv.capacity] at hle
  omega

theorem shutdown_of_workers (h : Exec (Step System.workerStep) s log s') :
    Exec (System.ShutdownStep cfg) s log s' := by
  refine Exec.map id (fun s₀ evs s₁ hstep => ?_) h
  obtain ⟨i, hs⟩ := hstep
  exact .single ⟨.worker i, by simp, hs⟩

theorem run_of_shutdown (h : Exec (System.ShutdownStep cfg) s log s') :
    Exec (Step (System.step cfg.toEventLoopConfig)) s log s' :=
  Exec.map id (fun _ _ _ ⟨choice, _, hs⟩ => .single ⟨choice, hs⟩) h

/-- In every state in which the loop has left and the work queue is closed: from here on a worker that has
not left can always go on (or another one can) exactly if the completion queue has room for every request
that is still on its way. -/
theorem shutdown_iff (P : Platform) (cfg : ServerConfig) (store : Store P) (clock : Int) (log : List Event)
    (s : System P) (h : System.Run cfg store clock log s) (hloop : s.loop.exited = true)
    (hwork : s.loop.workQueue.closed = true) (hopen : s.loop.completionQueue.closed = false) :
    s.ShutsDown cfg ↔ s.load ≤ cfg.completionCapacity := by
  have hstop : Stopping s.load s := ⟨hloop, hwork, hopen, rfl⟩
  constructor
  · intro hdown
    by_contra hfull
    -- let the workers run until none of them can go on
    have hrank : ∀ (s : System P) evs s', Step System.workerStep s evs s' → s'.rank < s.rank :=
      fun s evs s' ⟨i, hs⟩ => by
        obtain ⟨w, hw, hmove⟩ := workerMove_of_step hs
        exact hmove.rank_lt hw
    obtain ⟨log', s', hexec, hfinal⟩ := Exec.exists_final System.rank hrank s
    have hshut : Exec (System.ShutdownStep cfg) s log' s' := shutdown_of_workers hexec
    have hinv : ExitInv cfg s' := System.Run.exitInv (Exec.trans h (run_of_shutdown hshut))
    obtain ⟨i, hi⟩ := hdown log' s' hshut ((hstop.run hshut).busy_of_lt hinv (Nat.lt_of_not_le hfull))
    obtain ⟨⟨s'', evs⟩, hs⟩ := Option.isSome_iff_exists.mp hi
    exact hfinal evs s'' ⟨i, hs⟩
  · intro hroom log' s' hshut hbusy
    have hinv : ExitInv cfg s' := System.Run.exitInv (Exec.trans h (run_of_shutdown hshut))
    exact (hstop.run hshut).enabled (hinv.capacity ▸ hroom) hbusy

end

/-- All queues have room for one item, and there is one worker. -/
def ServerConfig.tiny : ServerConfig :=
  { ServerConfig.small 1 Nat.one_pos with
    workCapacity := 1
    completionCapacity := 1
    workCapacity_pos := Nat.one_pos
    completionCapacity_pos := Nat.one_pos }

/-- Two PINGs arrive, the first one is popped before the second one is queued. Then the server is stopped and the
work queue is closed. -/
def loadedStop : List Choice :=
  Choice.connect (ascii "*1\r\n$4\r\nPING\r\n*1\r\n$4\r\nPING\r\n") ++
    ([.loop {}, .worker 0, .loop {}, .loop {}, .loop {}, .loop {}, .loop {}, .loop {}, .stop, .loop {}, .closeWork] :
      List Choice)

def loadedStopResult (cfg : ServerConfig) : Option (System (.reference .exact) × List Event) :=
  run (System.step cfg.toEventLoopConfig) (System.start cfg Store.small 0) loadedStop

theorem loadedStop_state : ∀ cfg ∈ [ServerConfig.small 1 Nat.one_pos, ServerConfig.tiny],
    (loadedStopResult cfg).map (fun r => decide (r.1.loop.exited = true ∧ r.1.loop.workQueue.closed = true ∧
      r.1.loop.completionQueue.closed = false ∧ r.1.load = 2)) = some true := by
  decide +kernel

/-- Two requests are on the way: four completions have room, one does not. -/
theorem shutdown_iff_loaded : ∃ (log log' : List Event) (s s' : System (.reference .exact)),
    (System.Run (ServerConfig.small 1 Nat.one_pos) Store.small 0 log s ∧ s.load = 2 ∧
      s.ShutsDown (ServerConfig.small 1 Nat.one_pos)) ∧
    System.Run ServerConfig.tiny Store.small 0 log' s' ∧ s'.load = 2 ∧ ¬ s'.ShutsDown ServerConfig.tiny := by
  obtain ⟨⟨s, log⟩, hrun, hstate⟩ :=
    Option.map_eq_some_iff.mp (loadedStop_state (ServerConfig.small 1 Nat.one_pos) (by simp))
  obtain ⟨⟨s', log'⟩, hrun', hstate'⟩ := Option.map_eq_some_iff.mp (loadedStop_state ServerConfig.tiny (by simp))
  obtain ⟨hexited, hwork, hopen, hload⟩ := of_decide_eq_true hstate
  obtain ⟨hexited', hwork', hopen', hload'⟩ := of_decide_eq_true hstate'
  have hdown := shutdown_iff _ (ServerConfig.small 1 Nat.one_pos) Store.small 0 log s (exec_of_run hrun) hexited hwork
    hopen
  have hdown' := shutdown_iff _ ServerConfig.tiny Store.small 0 log' s' (exec_of_run hrun') hexited' hwork' hopen'
  refine ⟨log, log', s, s', ⟨exec_of_run hrun, hload, hdown.mpr ?_⟩, exec_of_run hrun', hload', fun h => ?_⟩
  · rw [hload]; decide
  · exact absurd (hload' ▸ hdown'.mp h) (by decide)

/-- With room for one completion the worker goes on until it holds the second one. -/
def tinyStop : List Choice :=
  loadedStop ++ ([.requestStop 0, .worker 0, .worker 0, .worker 0, .worker 0, .worker 0] : List Choice)

def tinyStopResult : Option (System (.reference .exact) × List Event) :=
  run (System.step ServerConfig.tiny.toEventLoopConfig) (System.start ServerConfig.tiny Store.small 0) tinyStop

/-- The loop has exited, and the one worker holds a completion the full queue does not take. -/
theorem tinyStop_state : tinyStopResult.map (fun r => decide (r.1.loop.exited = true ∧
    r.1.loop.workQueue.closed = true ∧ r.1.loop.completionQueue.closed = false ∧
    (∃ w ∈ r.1.workers, w.phase ≠ .exited) ∧ r.1.workers.length = 1 ∧ (r.1.workerStep 0).isNone)) = some true := by
  decide +kernel

/-- The server is down but for its worker, which waits in `push` and cannot go on. -/
theorem shutdown_blocked : ∃ log s, System.Run ServerConfig.tiny Store.small 0 log s ∧
    s.loop.exited = true ∧ s.loop.workQueue.closed = true ∧ s.loop.completionQueue.closed = false ∧
    s.Busy ∧ ∀ i, s.workerStep i = none := by
  obtain ⟨⟨s, log⟩, hrun, hstate⟩ := Option.map_eq_some_iff.mp tinyStop_state
  obtain ⟨hexited, hwork, hcompletions, hbusy, hone, hblocked⟩ := of_decide_eq_true hstate
  refine ⟨log, s, exec_of_run hrun, hexited, hwork, hcompletions, hbusy, fun i => ?_⟩
  cases i with
  | zero => exact Option.isNone_iff_eq_none.mp hblocked
  | succ i =>
    have hnone : s.workers[i + 1]? = none := List.getElem?_eq_none (by dsimp only at hone; omega)
    unfold System.workerStep
    rw [hnone]

end KvStore
