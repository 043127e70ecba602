import KvStore.LoopMoves
import KvStore.System

/-!
# What a step can be

`WorkerMove` lists the steps of `worker_main` with their guards, and `workerStep_iff` says that these are all
of them. A worker that has no move is blocked in `pop` or in `push`, or has left. `SystemMove` does the same
for the steps of the whole server; a result about every step is a case analysis on it. `System.RunIf` are the
runs in which every step of the loop meets a condition, with the induction for them.
-/

namespace KvStore
open ByteString Transition

def WorkItem.completion (item : WorkItem) (reply : Bytes) : Completion :=
  ⟨item.connectionId, item.connectionGeneration, item.sequence, reply⟩

/-- A step of worker `i`, which is `w`. -/
inductive WorkerMove {P : Platform} (s : System P) (i : Nat) (w : Worker) : List Event → System P → Prop
  | pop {item : WorkItem} {rest : List WorkItem} : w.phase = .idle → s.loop.workQueue.items = item :: rest →
    WorkerMove s i w []
      ({ s with loop := { s.loop with workQueue := s.loop.workQueue.dequeue } }.setPhase i w (.popped item))
  | leave : w.phase = .idle → s.loop.workQueue.items = [] →
    s.loop.workQueue.closed = true ∨ w.stopRequested = true → WorkerMove s i w [] (s.setPhase i w .exited)
  | dispatch {item : WorkItem} : w.phase = .popped item →
    WorkerMove s i w
      [.dispatched item.connectionGeneration item.sequence item.command
        (dispatch s.store s.clock item.command).2]
      ({ s with store := (dispatch s.store s.clock item.command).1 }.setPhase i w
        (.done (item.completion (dispatch s.store s.clock item.command).2)))
  | push {completion : Completion}
      (hroom : s.loop.completionQueue.items.length < s.loop.completionQueue.capacity) :
    w.phase = .done completion → s.loop.completionQueue.closed = false →
    WorkerMove s i w []
      ({ s with loop := { s.loop with
          completionQueue := s.loop.completionQueue.enqueue completion hroom } }.setPhase i w .notifying)
  | drop {completion : Completion} : w.phase = .done completion → s.loop.completionQueue.closed = true →
    WorkerMove s i w [] (s.setPhase i w .exited)
  | notify : w.phase = .notifying →
    WorkerMove s i w []
      ({ s with loop := { s.loop with wakeup := s.loop.wakeup + 1 } }.setPhase i w .idle)

theorem workerMove_of_step {P : Platform} {s s' : System P} {i : Nat} {evs : List Event}
    (h : s.workerStep i = some (s', evs)) : ∃ w, s.workers[i]? = some w ∧ WorkerMove s i w evs s' := by
  unfold System.workerStep at h
  cases hw : s.workers[i]? with
  | none => rw [hw] at h; cases h
  | some w =>
    rw [hw] at h; dsimp only at h
    refine ⟨w, rfl, ?_⟩
    cases hph : w.phase with
    | idle =>
      rw [hph] at h; dsimp only at h
      cases hpop : s.loop.workQueue.pop w.stopRequested with
      | none => rw [hpop] at h; cases h
      | some r =>
        rw [hpop] at h
        rcases BoundedQueue.pop_cases hpop with ⟨item, rest, hitems, rfl⟩ | ⟨hnil, hclosed, rfl⟩ | ⟨hnil, -, hstop, rfl⟩
        · cases h; exact .pop hph hitems
        · cases h; exact .leave hph hnil (.inl hclosed)
        · cases h; exact .leave hph hnil (.inr hstop)
    | popped item => rw [hph] at h; cases h; exact .dispatch hph
    | done completion =>
      rw [hph] at h; dsimp only at h
      cases hpush : s.loop.completionQueue.push completion with
      | none => rw [hpush] at h; cases h
      | some r =>
        obtain ⟨status, q⟩ := r
        rw [hpush] at h
        rcases BoundedQueue.push_cases hpush with ⟨hclosed, rfl, rfl⟩ | ⟨hopen, rfl, hroom, rfl⟩
        · cases h; exact .drop hph hclosed
        · cases h; exact .push hroom hph hopen
    | notifying => rw [hph] at h; cases h; exact .notify hph
    | exited => rw [hph] at h; cases h

theorem step_of_workerMove {P : Platform} {s s' : System P} {i : Nat} {w : Worker} {evs : List Event}
    (hw : s.workers[i]? = some w) (h : WorkerMove s i w evs s') : s.workerStep i = some (s', evs) := by
  unfold System.workerStep
  rw [hw]; dsimp only
  cases h with
  | pop hph hitems => rw [hph, BoundedQueue.pop, hitems]
  | leave hph hnil hwhy =>
    rw [hph, BoundedQueue.pop, hnil]; dsimp only
    rcases hwhy with hclosed | hstop
    · rw [if_pos hclosed]
    · rw [hstop, if_pos rfl]
      split_ifs <;> rfl
  | dispatch hph => rw [hph]; rfl
  | @push completion hroom hph hopen =>
    have hpush : s.loop.completionQueue.push completion =
        some (.kOk, s.loop.completionQueue.enqueue completion hroom) := by
      unfold BoundedQueue.push
      rw [if_neg (by rw [hopen]; exact Bool.false_ne_true), dif_pos hroom]
    rw [hph]; dsimp only
    rw [hpush]
  | @drop completion hph hclosed =>
    have hpush : s.loop.completionQueue.push completion = some (.kClosed, s.loop.completionQueue) := by
      unfold BoundedQueue.push
      rw [if_pos hclosed]
    rw [hph]; dsimp only
    rw [hpush]
  | notify hph => rw [hph]

theorem workerStep_iff {P : Platform} {s s' : System P} {i : Nat} {evs : List Event} :
    s.workerStep i = some (s', evs) ↔ ∃ w, s.workers[i]? = some w ∧ WorkerMove s i w evs s' :=
  ⟨workerMove_of_step, fun ⟨_, hw, h⟩ => step_of_workerMove hw h⟩

/-- A step of the server. -/
inductive SystemMove {P : Platform} (cfg : EventLoopConfig) (s : System P) :
    Choice → List Event → System P → Prop
  | loop {io : Io} {l : LoopState} {evs : List Event} : s.loop.step cfg io = some (l, evs) →
    SystemMove cfg s (.loop io) evs { s with loop := l }
  | worker {i : Nat} {w : Worker} {evs : List Event} {s' : System P} : s.workers[i]? = some w →
    WorkerMove s i w evs s' → SystemMove cfg s (.worker i) evs s'
  | stop : SystemMove cfg s .stop []
    { s with loop := { s.loop with stopRequested := true, wakeup := s.loop.wakeup + 1 } }
  | closeWork : SystemMove cfg s .closeWork []
    { s with loop := { s.loop with workQueue := s.loop.workQueue.close } }
  | requestStop {i : Nat} {w : Worker} : s.workers[i]? = some w → s.loop.workQueue.closed = true →
    SystemMove cfg s (.requestStop i) [] { s with workers := s.workers.set i { w with stopRequested := true } }
  | closeCompletions : SystemMove cfg s .closeCompletions []
    { s with loop := { s.loop with completionQueue := s.loop.completionQueue.close } }
  | tick {elapsed : Nat} : SystemMove cfg s (.tick elapsed) [] { s with clock := s.clock + elapsed }
  | sweep {m : Nat} : SystemMove cfg s (.sweep m) [] { s with store := (s.store.sweepExpired s.clock m).1 }

theorem systemMove_of_step {P : Platform} {cfg : EventLoopConfig} {s s' : System P} {choice : Choice}
    {evs : List Event} (h : s.step cfg choice = some (s', evs)) : SystemMove cfg s choice evs s' := by
  cases choice with
  | loop io =>
    obtain ⟨⟨l, evs'⟩, hl, heq⟩ := Option.map_eq_some_iff.mp h
    cases heq
    exact .loop hl
  | worker i =>
    obtain ⟨w, hw, hmove⟩ := workerMove_of_step h
    exact .worker hw hmove
  | stop => cases h; exact .stop
  | closeWork => cases h; exact .closeWork
  | requestStop i =>
    unfold System.step at h
    dsimp only at h
    cases hw : s.workers[i]? with
    | none => rw [hw] at h; cases h
    | some w =>
      rw [hw] at h; dsimp only at h
      split_ifs at h with hclosed
      cases h
      exact .requestStop hw hclosed
  | closeCompletions => cases h; exact .closeCompletions
  | tick elapsed => cases h; exact .tick
  | sweep m => cases h; exact .sweep

def Choice.isLoop : Choice → Bool
  | .loop _ => true
  | _ => false

theorem System.step_loop {P : Platform} {cfg : EventLoopConfig} {s : System P} {io : Io} {l' : LoopState}
    {evs : List Event} (h : s.loop.step cfg io = some (l', evs)) :
    s.step cfg (.loop io) = some ({ s with loop := l' }, evs) := by
  rw [System.step, h]; rfl

/-- What a step of another thread leaves of the loop: its own data, and a request to stop. -/
structure LoopKept (l l' : LoopState) : Prop where
  registry : l'.registry = l.registry
  tasks : l'.tasks = l.tasks
  exited : l'.exited = l.exited
  stopRequested : l.stopRequested = true → l'.stopRequested = true

/-- The events of the other threads. -/
def OnlyDispatches (evs : List Event) : Prop := ∀ e ∈ evs, ∃ g q command reply, e = .dispatched g q command reply

theorem OnlyDispatches.nil : OnlyDispatches [] := fun _ he => absurd he List.not_mem_nil

theorem WorkerMove.loopKept {P : Platform} {s s' : System P} {i : Nat} {w : Worker} {evs : List Event}
    (h : WorkerMove s i w evs s') : LoopKept s.loop s'.loop ∧ OnlyDispatches evs := by
  cases h with
  | dispatch _ => exact ⟨⟨rfl, rfl, rfl, id⟩, fun e he => ⟨_, _, _, _, List.mem_singleton.mp he⟩⟩
  | _ => exact ⟨⟨rfl, rfl, rfl, id⟩, .nil⟩

theorem SystemMove.loop_or_kept {P : Platform} {cfg : EventLoopConfig} {s s' : System P} {choice : Choice}
    {evs : List Event} (h : SystemMove cfg s choice evs s') :
    (∃ io, choice = .loop io ∧ s.loop.step cfg io = some (s'.loop, evs)) ∨
      choice.isLoop = false ∧ LoopKept s.loop s'.loop ∧ OnlyDispatches evs := by
  cases h with
  | loop hl => exact .inl ⟨_, rfl, hl⟩
  | worker _ hmove => exact .inr ⟨rfl, hmove.loopKept⟩
  | stop => exact .inr ⟨rfl, ⟨rfl, rfl, rfl, fun _ => rfl⟩, .nil⟩
  | _ => exact .inr ⟨rfl, ⟨rfl, rfl, rfl, id⟩, .nil⟩

/-! ### Runs under a condition -/

/-- The loop only takes the steps that `ok` allows. -/
def Choice.allowed (ok : LoopState → Io → Bool) (l : LoopState) : Choice → Bool
  | .loop io => ok l io
  | _ => true

variable {P : Platform}

def System.stepIf (ok : LoopState → Io → Bool) (cfg : EventLoopConfig) (s : System P) (choice : Choice) :
    Option (System P × List Event) :=
  if choice.allowed ok s.loop then s.step cfg choice else none

/-- The runs of a server in which every step of the loop meets the condition `ok`. -/
def System.RunIf (ok : LoopState → Io → Bool) (cfg : ServerConfig) (store : Store P) (clock : Int)
    (log : List Event) (s : System P) : Prop :=
  Exec (Step (System.stepIf ok cfg.toEventLoopConfig)) (System.start cfg store clock) log s

theorem System.step_of_stepIf {ok : LoopState → Io → Bool} {cfg : EventLoopConfig} {s s' : System P}
    {choice : Choice} {evs : List Event} (h : s.stepIf ok cfg choice = some (s', evs)) :
    choice.allowed ok s.loop = true ∧ s.step cfg choice = some (s', evs) := by
  unfold stepIf at h
  split_ifs at h with hallowed
  exact ⟨hallowed, h⟩

theorem System.RunIf.run {ok : LoopState → Io → Bool} {cfg : ServerConfig} {store : Store P} {clock : Int}
    {log : List Event} {s : System P} (h : System.RunIf ok cfg store clock log s) :
    System.Run cfg store clock log s := by
  induction h with
  | refl => exact .refl
  | tail _ hs ih =>
    obtain ⟨choice, hs⟩ := hs
    exact .tail ih ⟨choice, (System.step_of_stepIf hs).2⟩

theorem System.Run.runIf {cfg : ServerConfig} {store : Store P} {clock : Int} {log : List Event} {s : System P}
    (h : System.Run cfg store clock log s) : System.RunIf (fun _ _ => true) cfg store clock log s := by
  induction h with
  | refl => exact .refl
  | @tail log evs s₁ s₂ _ hs ih =>
    obtain ⟨choice, hs⟩ := hs
    have hallowed : choice.allowed (fun _ _ => true) s₁.loop = true := by cases choice <;> rfl
    exact .tail ih ⟨choice, by rw [System.stepIf, if_pos hallowed, hs]⟩

theorem System.RunIf.mono {ok ok' : LoopState → Io → Bool} (hok : ∀ l io, ok l io = true → ok' l io = true)
    {cfg : ServerConfig} {store : Store P} {clock : Int} {log : List Event} {s : System P}
    (h : System.RunIf ok cfg store clock log s) : System.RunIf ok' cfg store clock log s := by
  induction h with
  | refl => exact .refl
  | @tail log evs s₁ s₂ _ hs ih =>
    obtain ⟨choice, hs⟩ := hs
    obtain ⟨hallowed, hs⟩ := System.step_of_stepIf hs
    refine .tail ih ⟨choice, ?_⟩
    have hallowed' : choice.allowed ok' s₁.loop = true := by
      cases choice with
      | loop io => exact hok _ io hallowed
      | _ => rfl
    rw [System.stepIf, if_pos hallowed', hs]

/-- What a step under the condition keeps holds in every such run; the run so far may be used. -/
theorem System.RunIf.invariant {ok : LoopState → Io → Bool} {cfg : ServerConfig} {store : Store P} {clock : Int}
    {log : List Event} {s : System P} {Inv : List Event → LoopState → Prop}
    (h : System.RunIf ok cfg store clock log s) (hinit : Inv [] (System.start cfg store clock).loop)
    (hloop : ∀ (log evs : List Event) (s₁ : System P) (l' : LoopState) (io : Io),
      System.RunIf ok cfg store clock log s₁ → Inv log s₁.loop → ok s₁.loop io = true →
      LoopMove cfg.toEventLoopConfig s₁.loop io evs l' → Inv (log ++ evs) l')
    (hkept : ∀ (log evs : List Event) (l l' : LoopState), Inv log l → LoopKept l l' → OnlyDispatches evs →
      Inv (log ++ evs) l') :
    Inv log s.loop := by
  induction h with
  | refl => exact hinit
  | @tail log evs s₁ s₂ hexec hs ih =>
    have hrun : System.RunIf ok cfg store clock log s₁ := hexec
    obtain ⟨choice, hs⟩ := hs
    obtain ⟨hallowed, hs⟩ := System.step_of_stepIf hs
    rcases (systemMove_of_step hs).loop_or_kept with ⟨io, rfl, hl⟩ | ⟨-, hk, hevs⟩
    · exact hloop log evs s₁ s₂.loop io hrun ih hallowed (loopMove_of_step hl).2
    · exact hkept log evs s₁.loop s₂.loop ih hk hevs

end KvStore
