import KvStore.Batch

/-!
# No completion is left without a wake-up

A worker puts its completion into the queue and then, outside the lock, calls the callback that adds to the
counter of the wake-up descriptor. The loop reads the counter until it is zero and then pops completions until
there are none. `System.stepReading` takes each of these `read`s as a step of its own; the runs of
`System.Run`, where they are one step, are among its runs (`System.Run.reading`).

`WakeInv` says where the wake-up of an undelivered completion is: in the counter, with a worker that has still
to call the callback, or with the loop, which is inside `drain_wakeup`.
-/

namespace KvStore
open ByteString Transition Slots

/-- The next thing the loop does is the `read` of `drain_wakeup`. -/
def LoopState.readsWakeup (l : LoopState) : Bool :=
  match l.tasks with
  | .events (.wakeup :: _) :: _ => !l.exited
  | _ => false

/-- The loop is inside `drain_wakeup` and has not yet found the completion queue empty. -/
def LoopState.drainsWakeup (l : LoopState) : Prop := l.readsWakeup = true ∨ Task.drain ∈ l.tasks

def LoopState.waits (l : LoopState) : Prop := l.tasks = [] ∧ l.exited = false ∧ l.stopRequested = false

section
variable {P : Platform}

/-- A step of the server in which a `read` that finds the counter above zero is a step; the loop then reads
again. -/
def System.stepReading (cfg : EventLoopConfig) (s : System P) (choice : Choice) : Option (System P × List Event) :=
  if choice.isLoop && s.loop.readsWakeup && decide (0 < s.loop.wakeup) then
    some ({ s with loop := { s.loop with wakeup := 0 } }, [])
  else s.step cfg choice

def System.ReadingRun (cfg : ServerConfig) (store : Store P) (clock : Int) (log : List Event) (s : System P) : Prop :=
  Exec (Step (System.stepReading cfg.toEventLoopConfig)) (System.start cfg store clock) log s

theorem System.stepReading_cases {cfg : EventLoopConfig} {s s' : System P} {choice : Choice} {evs : List Event}
    (h : s.stepReading cfg choice = some (s', evs)) :
    (s.loop.readsWakeup = true ∧ s' = { s with loop := { s.loop with wakeup := 0 } } ∧ evs = []) ∨
      SystemMove cfg s choice evs s' := by
  unfold stepReading at h
  split_ifs at h with hread
  · simp only [Bool.and_eq_true] at hread
    cases h
    exact .inl ⟨hread.1.2, rfl, rfl⟩
  · exact .inr (systemMove_of_step h)

theorem LoopState.tasks_of_readsWakeup {l : LoopState} (h : l.readsWakeup = true) :
    ∃ batch rest, l.tasks = .events (.wakeup :: batch) :: rest := by
  unfold readsWakeup at h
  split at h
  · exact ⟨_, _, by assumption⟩
  · cases h

/-- Where `drain_wakeup` begins, the counter is read and then the step is the one with the counter at zero. -/
theorem LoopState.step_of_readsWakeup {cfg : EventLoopConfig} {l : LoopState} {io : Io} (h : l.readsWakeup = true) :
    l.step cfg io = LoopState.step cfg { l with wakeup := 0 } io := by
  obtain ⟨batch, rest, ht⟩ := tasks_of_readsWakeup h
  unfold LoopState.step
  rw [ht]
  rfl

theorem System.reading_of_step {cfg : EventLoopConfig} {s s' : System P} {choice : Choice} {evs : List Event}
    (h : s.step cfg choice = some (s', evs)) : Exec (Step (System.stepReading cfg)) s evs s' := by
  by_cases hread : (choice.isLoop && s.loop.readsWakeup && decide (0 < s.loop.wakeup)) = true
  · have hreads : choice.isLoop = true ∧ s.loop.readsWakeup = true := by
      simp only [Bool.and_eq_true] at hread
      exact hread.1
    obtain ⟨io, rfl⟩ : ∃ io, choice = .loop io := by
      cases choice with
      | loop io => exact ⟨io, rfl⟩
      | _ => cases hreads.1
    have hfirst : Step (System.stepReading cfg) s [] { s with loop := { s.loop with wakeup := 0 } } :=
      ⟨.loop io, by rw [stepReading, if_pos hread]⟩
    have hsecond : Step (System.stepReading cfg) { s with loop := { s.loop with wakeup := 0 } } evs s' := by
      refine ⟨.loop io, ?_⟩
      rw [stepReading, if_neg (by simp), ← h, System.step, System.step, LoopState.step_of_readsWakeup hreads.2]
    exact (Exec.single hfirst).trans (.single hsecond)
  · exact .single ⟨choice, by rw [stepReading, if_neg hread]; exact h⟩

theorem System.Run.reading {cfg : ServerConfig} {store : Store P} {clock : Int} {log : List Event} {s : System P}
    (h : System.Run cfg store clock log s) : System.ReadingRun cfg store clock log s :=
  Exec.map id (fun _ _ _ ⟨_, hstep⟩ => System.reading_of_step hstep) h

end

/-! ### The stack of the loop -/

/-- Tasks that stand on the bottom of the stack: nothing is being drained below them. -/
def Task.isBottom : Task → Bool
  | .events _ | .accept => true
  | _ => false

def Stacked (tasks : List Task) : Prop := tasks.Pairwise fun a b => a.isBottom = true → b ≠ .drain

theorem Follows.isBottom {r : ConnectionRegistry} {task next : Task} (h : Follows r task next)
    (hnext : next.isBottom = true) : next = task := by
  cases h with
  | same => rfl
  | _ => cases hnext

theorem PollEvent.tasks_stacked (e : PollEvent) :
    ∀ a ∈ e.tasks, ∀ b ∈ e.tasks, a.isBottom = true → b ≠ .drain := by
  cases e <;> simp [PollEvent.tasks, Task.isBottom]

theorem Stacked.taskStep {r : ConnectionRegistry} {tasks tasks' : List Task} (h : Stacked tasks)
    (hstep : TaskStep r tasks tasks') : Stacked tasks' := by
  cases hstep with
  | stay => exact h
  | poll => exact List.pairwise_singleton _ _
  | batchDone => exact (List.pairwise_cons.mp h).2
  | @event e batch new rest hnew _ =>
    obtain ⟨htop, hrest⟩ := List.pairwise_cons.mp h
    have hbelow : ∀ b ∈ Task.events batch :: rest, b ≠ .drain := by
      intro b hb
      rcases List.mem_cons.mp hb with rfl | hb
      · nofun
      · exact htop b hb rfl
    refine List.pairwise_append.mpr ⟨?_, List.pairwise_cons.mpr ⟨fun b hb _ => ?_, hrest⟩, fun a _ b hb _ => hbelow b hb⟩
    · exact List.pairwise_of_forall_mem_list fun a ha b hb => e.tasks_stacked a (hnew a ha) b (hnew b hb)
    · exact hbelow b (List.mem_cons_of_mem _ hb)
  | @task task new rest hne hnew haccept =>
    obtain ⟨htop, hrest⟩ := List.pairwise_cons.mp h
    refine List.pairwise_append.mpr ⟨?_, hrest, fun a ha b hb hbottom => ?_⟩
    · refine List.pairwise_of_forall_mem_list fun a ha b hb hbottom => ?_
      -- only `accept` can be on the bottom here, and then it is alone
      obtain rfl := (hnew a ha).isBottom hbottom
      cases a with
      | events batch => exact absurd rfl (hne batch)
      | accept =>
        rcases haccept rfl with rfl | rfl
        · cases ha
        · rw [List.mem_singleton.mp hb]; nofun
      | _ => cases hbottom
    · obtain rfl := (hnew a ha).isBottom hbottom
      exact htop b hb hbottom
  | exit => exact List.Pairwise.nil

/-! ### Where the wake-up is -/

theorem TaskStep.drain_mem {r : ConnectionRegistry} {tasks tasks' : List Task} (h : TaskStep r tasks tasks')
    (hdrain : ∀ rest, tasks ≠ .drain :: rest) (haccept : ∀ rest, tasks ≠ .accept :: rest)
    (hmem : Task.drain ∈ tasks) : Task.drain ∈ tasks' := by
  cases h with
  | stay => exact hmem
  | poll => cases hmem
  | batchDone => exact (List.mem_cons.mp hmem).resolve_left nofun
  | event _ _ => exact List.mem_append_right _ (List.mem_cons_of_mem _ ((List.mem_cons.mp hmem).resolve_left nofun))
  | @task task new rest _ _ _ =>
    refine List.mem_append_right _ ((List.mem_cons.mp hmem).resolve_left fun htop => ?_)
    exact hdrain rest (by rw [htop])
  | exit => exact absurd rfl (haccept _)

/-- What a step of the loop does to an undelivered completion: the loop is left draining or with an empty queue,
or the step was not part of `drain_wakeup` and leaves the queue and the counter alone. -/
theorem LoopMove.wake {cfg : EventLoopConfig} {l l' : LoopState} {io : Io} {evs : List Event}
    (h : LoopMove cfg l io evs l') :
    Task.drain ∈ l'.tasks ∨ l'.completionQueue.items = [] ∨
      (l'.completionQueue = l.completionQueue ∧ l'.wakeup = l.wakeup ∧ l.readsWakeup = false ∧
        ∀ rest, l.tasks ≠ .drain :: rest) := by
  cases h with
  | wakeup ht => exact .inl List.mem_cons_self
  | drained _ hnil => exact .inr (.inl hnil)
  | stale ht _ _ => exact .inl (ht ▸ List.mem_cons_self)
  | complete _ _ _ _ => exact .inl (List.mem_cons_of_mem _ (List.mem_cons_of_mem _ List.mem_cons_self))
  | overflow _ _ _ _ _ => exact .inl List.mem_cons_self
  | gone ht hgone => exact .inr (.inr (by cases hgone <;> simp [LoopState.readsWakeup, ht]))
  | _ => exact .inr (.inr (by simp [LoopState.readsWakeup, *]))

section
variable {P : Platform} {s s' : System P} {evs : List Event} {cfg : EventLoopConfig}

/-- A worker stands between its enqueue and the callback. -/
def System.notifies (s : System P) : Prop := ∃ w ∈ s.workers, w.phase = .notifying

structure WakeInv (s : System P) : Prop where
  stacked : Stacked s.loop.tasks
  awake : s.loop.completionQueue.items ≠ [] → s.loop.wakeup ≠ 0 ∨ s.notifies ∨ s.loop.drainsWakeup

theorem WakeInv.loopMove {io : Io} {l : LoopState} (h : WakeInv s) (hmove : LoopMove cfg s.loop io evs l) :
    WakeInv { s with loop := l } := by
  refine ⟨h.stacked.taskStep hmove.taskStep, fun hitems => ?_⟩
  rcases hmove.wake with hdrain | hnil | ⟨hqueue, hwakeup, hreads, hnot⟩
  · exact .inr (.inr (.inr hdrain))
  · exact absurd hnil hitems
  · rw [hwakeup]
    rcases h.awake (hqueue ▸ hitems) with hcount | hnotify | hread | hdrain
    · exact .inl hcount
    · exact .inr (.inl hnotify)
    · rw [hreads] at hread
      cases hread
    · refine .inr (.inr (.inr (hmove.taskStep.drain_mem hnot (fun rest ht => ?_) hdrain)))
      -- nothing is drained below `accept`
      have hstacked := h.stacked
      rw [ht] at hstacked hdrain
      rcases List.mem_cons.mp hdrain with hdrain | hdrain
      · cases hdrain
      · exact absurd rfl ((List.pairwise_cons.mp hstacked).1 _ hdrain rfl)

theorem WakeInv.workerMove {i : Nat} {w : Worker} (h : WakeInv s) (hw : s.workers[i]? = some w)
    (hmove : WorkerMove s i w evs s') : WakeInv s' := by
  -- a worker that was not about to notify changes nobody's promise
  have hothers : ∀ {phase : WorkerPhase}, w.phase ≠ .notifying → s.notifies →
      ∃ w' ∈ s.workers.set i { w with phase }, w'.phase = .notifying :=
    fun hne hnotify => exists_mem_set hnotify hw hne
  cases hmove with
  | pop hph _ | leave hph _ _ | dispatch hph | drop hph _ =>
    refine ⟨h.stacked, fun hitems => (h.awake hitems).imp_right (Or.imp_left (hothers ?_))⟩
    rw [hph]; nofun
  | push _ _ _ =>
    have hself := List.mem_set (List.getElem?_eq_some_iff.mp hw).1 { w with phase := .notifying }
    exact ⟨h.stacked, fun _ => .inr (.inl ⟨_, hself, rfl⟩)⟩
  | notify _ => exact ⟨h.stacked, fun _ => .inl (Nat.succ_ne_zero _)⟩

theorem WakeInv.step {choice : Choice} (h : WakeInv s) (hstep : s.stepReading cfg choice = some (s', evs)) :
    WakeInv s' := by
  rcases System.stepReading_cases hstep with ⟨hreads, rfl, -⟩ | hmove
  · -- the loop goes on reading
    exact ⟨h.stacked, fun _ => .inr (.inr (.inl hreads))⟩
  cases hmove with
  | loop hl => exact h.loopMove (loopMove_of_step hl).2
  | worker hw hworker => exact h.workerMove hw hworker
  | stop => exact ⟨h.stacked, fun _ => .inl (Nat.succ_ne_zero _)⟩
  | @requestStop i w hw _ =>
    refine ⟨h.stacked, fun hitems => (h.awake hitems).imp_right (Or.imp_left ?_)⟩
    rintro ⟨w', hw', hph⟩
    by_cases hphase : w.phase = .notifying
    · have hself := List.mem_set (List.getElem?_eq_some_iff.mp hw).1 { w with stopRequested := true }
      exact ⟨_, hself, hphase⟩
    · exact exists_mem_set ⟨w', hw', hph⟩ hw hphase
  | _ => exact ⟨h.stacked, h.awake⟩

theorem System.ReadingRun.wakeInv {cfg : ServerConfig} {store : Store P} {clock : Int} {log : List Event}
    (h : System.ReadingRun cfg store clock log s) : WakeInv s := by
  induction h with
  | refl => exact ⟨List.Pairwise.nil, fun h => absurd rfl h⟩
  | tail _ hstep ih =>
    obtain ⟨choice, hstep⟩ := hstep
    exact ih.step hstep

end

variable {P : Platform}

/-- Whenever a completion waits, the counter is above zero, a worker is about to call the callback, or the loop
is inside `drain_wakeup`; so the loop never blocks in `epoll_wait` with a completion waiting and no wake-up
pending. -/
theorem completion_wakes (cfg : ServerConfig) (store : Store P) (clock : Int) (log : List Event) (s : System P)
    (hrun : System.ReadingRun cfg store clock log s) (hitems : s.loop.completionQueue.items ≠ []) :
    (0 < s.loop.wakeup ∨ s.notifies ∨ s.loop.drainsWakeup) ∧
      (s.loop.waits → 0 < s.loop.wakeup ∨ s.notifies) := by
  have hawake := (hrun.wakeInv.awake hitems).imp_left Nat.pos_of_ne_zero
  refine ⟨hawake, fun hwaits => hawake.imp_right fun hrest => hrest.resolve_right ?_⟩
  rintro (hreads | hdrain)
  · obtain ⟨batch, rest, ht⟩ := s.loop.tasks_of_readsWakeup hreads
    cases ht.symm.trans hwaits.1
  · rw [hwaits.1] at hdrain
    cases hdrain

/-- `PING` is answered; the loop has read the counter and not yet popped the completion. -/
def wakeChoices : List Choice :=
  Choice.connect (ascii "*1\r\n$4\r\nPING\r\n") ++
    ([.loop {}, .loop {}, .loop {}, .loop {}, .loop {}, .loop {}, .worker 0, .worker 0, .worker 0, .worker 0,
      .loop { poll := .events [.wakeup] }, .loop {}] : List Choice)

def wakeResult : Option (System (.reference .exact) × List Event) :=
  run (System.stepReading (ServerConfig.small 2 Nat.two_pos).toEventLoopConfig)
    (System.start (ServerConfig.small 2 Nat.two_pos) Store.small 0) wakeChoices

theorem wakeResult_isSome : wakeResult.isSome = true := by decide +kernel

theorem completion_wakes_reading : ∃ (log : List Event) (s : System (.reference .exact)),
    System.ReadingRun (ServerConfig.small 2 Nat.two_pos) Store.small 0 log s ∧
      s.loop.completionQueue.items.length = 1 ∧ s.loop.wakeup = 0 ∧ s.workers = [{}, {}] ∧
      (0 < s.loop.wakeup ∨ s.notifies ∨ s.loop.drainsWakeup) := by
  have hrun := exec_of_isSome wakeResult_isSome
  obtain ⟨hone, hwakeup, hidle⟩ : (wakeResult.get wakeResult_isSome).1.loop.completionQueue.items.length = 1 ∧
      (wakeResult.get wakeResult_isSome).1.loop.wakeup = 0 ∧
      (wakeResult.get wakeResult_isSome).1.workers = [{}, {}] := by
    decide +kernel
  refine ⟨_, _, hrun, hone, hwakeup, hidle, ?_⟩
  refine (completion_wakes _ _ _ _ _ hrun fun hnil => ?_).1
  exact absurd (hone.symm.trans (congrArg List.length hnil)) Nat.one_ne_zero

end KvStore
