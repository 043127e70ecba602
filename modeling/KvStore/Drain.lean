import KvStore.Shutdown

/-!
# The worker pool drains its queue

The pool seen from outside: anybody may push work, take completions and use the store; the workers do what
`worker_main` does; the owner closes the work queue and then requests a stop. `pool_drained`: once all workers
have left, and unless the completion queue was closed, every accepted item was dispatched once and has its
completion in the completion queue, or had. Every run of the server is such a run (`System.Run.poolRun`).
-/

namespace KvStore
open ByteString Transition Slots

inductive PoolEvent where
  /-- `push` or `try_push` returned `kOk`. -/
  | accepted (item : WorkItem)
  | dispatched (item : WorkItem) (reply : Bytes)
  /-- The `push` to the completion queue returned `kOk`. -/
  | pushed (completion : Completion)
deriving DecidableEq, Repr

section Events

def PoolEvent.accepted? : PoolEvent → Option WorkItem
  | .accepted item => some item
  | _ => none

def PoolEvent.dispatched? : PoolEvent → Option (WorkItem × Bytes)
  | .dispatched item reply => some (item, reply)
  | _ => none

def PoolEvent.pushed? : PoolEvent → Option Completion
  | .pushed completion => some completion
  | _ => none

def acceptedOf (log : List PoolEvent) : List WorkItem := log.filterMap PoolEvent.accepted?

def dispatchedOf (log : List PoolEvent) : List (WorkItem × Bytes) := log.filterMap PoolEvent.dispatched?

def pushedOf (log : List PoolEvent) : List Completion := log.filterMap PoolEvent.pushed?

@[simp] theorem acceptedOf_append (log evs : List PoolEvent) :
    acceptedOf (log ++ evs) = acceptedOf log ++ acceptedOf evs := List.filterMap_append

@[simp] theorem dispatchedOf_append (log evs : List PoolEvent) :
    dispatchedOf (log ++ evs) = dispatchedOf log ++ dispatchedOf evs := List.filterMap_append

@[simp] theorem pushedOf_append (log evs : List PoolEvent) :
    pushedOf (log ++ evs) = pushedOf log ++ pushedOf evs := List.filterMap_append

@[simp] theorem acceptedOf_singleton (ev : PoolEvent) : acceptedOf [ev] = ev.accepted?.toList := by cases ev <;> rfl

@[simp] theorem dispatchedOf_singleton (ev : PoolEvent) : dispatchedOf [ev] = ev.dispatched?.toList := by
  cases ev <;> rfl

@[simp] theorem pushedOf_singleton (ev : PoolEvent) : pushedOf [ev] = ev.pushed?.toList := by cases ev <;> rfl

end Events

variable {P : Platform}

/-- What a step of worker `w` means for the pool. -/
def System.poolEvents (s : System P) (w : Worker) : List PoolEvent :=
  match w.phase with
  | .popped item => [.dispatched item (dispatch s.store s.clock item.command).2]
  | .done completion => if s.loop.completionQueue.closed then [] else [.pushed completion]
  | _ => []

inductive PoolMove (s : System P) : List PoolEvent → System P → Prop
  | push {item : WorkItem} {workQueue : BoundedQueue WorkItem} :
    s.loop.workQueue.push item = some (.kOk, workQueue) →
    PoolMove s [.accepted item] { s with loop := { s.loop with workQueue } }
  | tryPush {item : WorkItem} {workQueue : BoundedQueue WorkItem} :
    s.loop.workQueue.tryPush item = (.kOk, workQueue) →
    PoolMove s [.accepted item] { s with loop := { s.loop with workQueue } }
  | worker {i : Nat} {w : Worker} {evs : List Event} {s' : System P} : s.workers[i]? = some w →
    WorkerMove s i w evs s' → PoolMove s (s.poolEvents w) s'
  | take {completion : Completion} {completionQueue : BoundedQueue Completion} :
    s.loop.completionQueue.tryPop = some (completion, completionQueue) →
    PoolMove s [] { s with loop := { s.loop with completionQueue } }
  | closeWork : PoolMove s [] { s with loop := { s.loop with workQueue := s.loop.workQueue.close } }
  | requestStop {i : Nat} {w : Worker} : s.workers[i]? = some w → s.loop.workQueue.closed = true →
    PoolMove s [] { s with workers := s.workers.set i { w with stopRequested := true } }
  | closeCompletions :
    PoolMove s [] { s with loop := { s.loop with completionQueue := s.loop.completionQueue.close } }
  /-- Anything that leaves the queues and the workers alone. -/
  | other {s' : System P} : s'.workers = s.workers → s'.loop.workQueue = s.loop.workQueue →
    s'.loop.completionQueue = s.loop.completionQueue → PoolMove s [] s'

def PoolRun (cfg : ServerConfig) (store : Store P) (clock : Int) (log : List PoolEvent) (s : System P) : Prop :=
  Exec PoolMove (System.start cfg store clock) log s

section
variable {s s' : System P} {log evs : List PoolEvent} {cfg : ServerConfig}

/-- As long as no completion can be lost, each accepted item is queued, in a worker's hands or dispatched, and
each dispatched one is in a worker's hands or pushed. -/
structure PoolInv (log : List PoolEvent) (s : System P) : Prop where
  items : ∀ x, (acceptedOf log).count x = ((dispatchedOf log).map Prod.fst).count x +
    s.workers.countP (fun w => w.phase = .popped x) + s.loop.workQueue.items.count x
  completions : ∀ c, ((dispatchedOf log).map fun d => d.1.completion d.2).count c =
    (pushedOf log).count c + s.workers.countP (fun w => w.phase = .done c)

theorem PoolInv.start (cfg : ServerConfig) (store : Store P) (clock : Int) :
    PoolInv [] (System.start cfg store clock) := by
  have hfresh : ∀ (p : Worker → Bool), p {} = false →
      (System.start cfg store clock).workers.countP p = 0 := fun p hp => by
    show (List.replicate cfg.workerCount ({} : Worker)).countP p = 0
    rw [List.countP_replicate, hp]; rfl
  constructor
  · intro x
    rw [hfresh _ (by simp)]
    rfl
  · intro c
    rw [hfresh _ (by simp)]
    rfl

/-- Worker `i` goes on to another phase; what it had in its hands, what it has now and what the step logs balance. -/
theorem PoolInv.setPhase (h : PoolInv log s) {i : Nat} {w : Worker} (hw : s.workers[i]? = some w)
    {phase : WorkerPhase} (hworkers : s'.workers = s.workers.set i { w with phase })
    (hitems : ∀ x, (acceptedOf evs).count x + (decide (w.phase = .popped x)).toNat +
      s.loop.workQueue.items.count x = ((dispatchedOf evs).map Prod.fst).count x +
        (decide (phase = .popped x)).toNat + s'.loop.workQueue.items.count x)
    (hcompletions : ∀ c, ((dispatchedOf evs).map fun d => d.1.completion d.2).count c +
      (decide (w.phase = .done c)).toNat = (pushedOf evs).count c + (decide (phase = .done c)).toNat) :
    PoolInv (log ++ evs) s' := by
  constructor
  · intro x
    have hset := countP_set_add (fun w : Worker => decide (w.phase = .popped x)) { w with phase } hw
    have hbefore := h.items x
    have hbalance := hitems x
    rw [acceptedOf_append, dispatchedOf_append, List.map_append, List.count_append, List.count_append, hworkers]
    dsimp only at hset
    omega
  · intro c
    have hset := countP_set_add (fun w : Worker => decide (w.phase = .done c)) { w with phase } hw
    have hbefore := h.completions c
    have hbalance := hcompletions c
    rw [pushedOf_append, dispatchedOf_append, List.map_append, List.count_append, List.count_append, hworkers]
    dsimp only at hset
    omega

theorem count_singleton_toNat {α : Type} [DecidableEq α] (a x : α) : [a].count x = (decide (a = x)).toNat := by
  rw [List.count_singleton]
  by_cases h : a = x
  · simp [h]
  · simp [h]

theorem PoolInv.worker (h : PoolInv log s) {i : Nat} {w : Worker} {evs : List Event}
    (hw : s.workers[i]? = some w) (hmove : WorkerMove s i w evs s') (hopen : s.loop.completionQueue.closed = false) :
    PoolInv (log ++ s.poolEvents w) s' := by
  unfold System.poolEvents
  cases hmove with
  | @pop item rest hph hitems =>
    rw [hph]
    refine h.setPhase hw rfl (fun x => ?_) fun c => by simp [hph, dispatchedOf, pushedOf]
    show _ = _ + _ + s.loop.workQueue.items.tail.count x
    have hqueue : s.loop.workQueue.items.count x = rest.count x + (decide (item = x)).toNat := by
      rw [hitems, List.count_cons]
      by_cases hx : item = x <;> simp [hx]
    rw [hqueue, hitems, List.tail_cons]
    simp [hph, acceptedOf, dispatchedOf, Nat.add_comm]
  | leave hph hnil hwhy =>
    rw [hph]
    exact h.setPhase hw rfl (fun x => by simp [hph, acceptedOf, dispatchedOf, System.setPhase])
      fun c => by simp [hph, dispatchedOf, pushedOf]
  | @dispatch item hph =>
    rw [hph]
    refine h.setPhase hw rfl (fun x => ?_) fun c => ?_
    · simp [hph, PoolEvent.accepted?, PoolEvent.dispatched?, System.setPhase, count_singleton_toNat]
    · simp [hph, PoolEvent.dispatched?, PoolEvent.pushed?, count_singleton_toNat]
  | push hroom hph hopen' =>
    rw [hph]
    dsimp only
    rw [if_neg (by rw [hopen]; exact Bool.false_ne_true)]
    refine h.setPhase hw rfl (fun x => ?_) fun c => ?_
    · simp [hph, PoolEvent.accepted?, PoolEvent.dispatched?, System.setPhase]
    · simp [hph, PoolEvent.dispatched?, PoolEvent.pushed?, count_singleton_toNat]
  | drop hph hclosed => rw [hopen] at hclosed; cases hclosed
  | notify hph =>
    rw [hph]
    exact h.setPhase hw rfl (fun x => by simp [hph, acceptedOf, dispatchedOf, System.setPhase])
      fun c => by simp [hph, dispatchedOf, pushedOf]

theorem PoolInv.frame (h : PoolInv log s) (hdispatched : dispatchedOf evs = []) (hpushed : pushedOf evs = [])
    (hworkers : ∀ phase, s'.workers.countP (fun w => w.phase = phase) = s.workers.countP (fun w => w.phase = phase))
    (hitems : ∀ x, s'.loop.workQueue.items.count x = s.loop.workQueue.items.count x + (acceptedOf evs).count x) :
    PoolInv (log ++ evs) s' := by
  constructor
  · intro x
    have hbefore := h.items x
    rw [acceptedOf_append, dispatchedOf_append, hdispatched, List.append_nil, List.count_append, hworkers, hitems]
    omega
  · intro c
    rw [pushedOf_append, dispatchedOf_append, hdispatched, hpushed, List.append_nil, List.append_nil, hworkers]
    exact h.completions c

theorem PoolMove.was_open (h : PoolMove s evs s') (hopen : s'.loop.completionQueue.closed = false) :
    s.loop.completionQueue.closed = false := by
  cases h with
  | worker hw hmove => cases hmove <;> exact hopen
  | @take completion q hpop =>
    rcases s.loop.completionQueue.tryPop_cases with ⟨-, hnone⟩ | ⟨out, rest, -, hsome⟩
    · rw [hnone] at hpop; cases hpop
    · rw [hsome] at hpop; cases hpop; exact hopen
  | closeCompletions => cases hopen
  | other _ _ hcompletions => rw [← hcompletions]; exact hopen
  | _ => exact hopen

theorem PoolInv.step (h : s.loop.completionQueue.closed = false → PoolInv log s) (hmove : PoolMove s evs s')
    (hopen' : s'.loop.completionQueue.closed = false) : PoolInv (log ++ evs) s' := by
  have hopen := hmove.was_open hopen'
  have h := h hopen
  have henqueue : ∀ item hroom x, (s.loop.workQueue.enqueue item hroom).items.count x =
      s.loop.workQueue.items.count x + (acceptedOf [.accepted item]).count x := fun item hroom x => by
    simp [PoolEvent.accepted?]
  cases hmove with
  | push hpush =>
    rcases BoundedQueue.push_cases hpush with ⟨-, hstatus, -⟩ | ⟨-, -, hroom, rfl⟩
    · cases hstatus
    · exact h.frame rfl rfl (fun _ => rfl) (henqueue _ hroom)
  | @tryPush item q hpush =>
    rcases s.loop.workQueue.tryPush_cases item with ⟨hroom, -, hq⟩ | ⟨hq, -⟩ | ⟨hq, -⟩ <;> rw [hpush] at hq
    · cases hq; exact h.frame rfl rfl (fun _ => rfl) (henqueue _ hroom)
    · cases hq
    · cases hq
  | worker hw hmove => exact h.worker hw hmove hopen
  | take hpop => exact h.frame rfl rfl (fun _ => rfl) fun _ => rfl
  | closeWork => exact h.frame rfl rfl (fun _ => rfl) fun _ => rfl
  | @requestStop i w hw hclosed =>
    refine h.frame rfl rfl (fun phase => ?_) fun _ => rfl
    have := countP_set_add (fun w : Worker => decide (w.phase = phase)) { w with stopRequested := true } hw
    dsimp only at this ⊢
    omega
  | closeCompletions => cases hopen'
  | other hworkers hwork _ => exact h.frame rfl rfl (fun _ => by rw [hworkers]) fun _ => by rw [hwork]; rfl

theorem ExitInv.poolMove (h : ExitInv cfg s) (hmove : PoolMove s evs s') : ExitInv cfg s' := by
  cases hmove with
  | push hpush =>
    rcases BoundedQueue.push_cases hpush with ⟨-, hstatus, -⟩ | ⟨hopen, -⟩
    · cases hstatus
    · exact h.loop rfl id fun hclosed => by rw [hopen] at hclosed; cases hclosed
  | @tryPush item q hpush =>
    rcases s.loop.workQueue.tryPush_cases item with ⟨-, hopen, -⟩ | ⟨hq, -⟩ | ⟨hq, -⟩
    · exact h.loop rfl id fun hclosed => by rw [hopen] at hclosed; cases hclosed
    · rw [hpush] at hq; cases hq
    · rw [hpush] at hq; cases hq
  | worker hw hmove => exact h.worker hw hmove
  | @take completion q hpop =>
    rcases s.loop.completionQueue.tryPop_cases with ⟨-, hnone⟩ | ⟨out, rest, -, hsome⟩
    · rw [hnone] at hpop; cases hpop
    · rw [hsome] at hpop; cases hpop; exact h.loop rfl id fun _ => rfl
  | closeWork => exact h.closeWork
  | requestStop hw hclosed => exact h.requestStop hw hclosed
  | closeCompletions => exact h.closeCompletions
  | other hworkers hwork hcompletions =>
    obtain ⟨h1, h2, h3, h4⟩ := h
    rw [← hworkers, ← hwork, ← hcompletions] at *
    exact ⟨h1, h2, h3, h4⟩

theorem PoolRun.inv {store : Store P} {clock : Int} (h : PoolRun cfg store clock log s) :
    ExitInv cfg s ∧ (s.loop.completionQueue.closed = false → PoolInv log s) := by
  have hstep : ∀ log evs (s s' : System P),
      ExitInv cfg s ∧ (s.loop.completionQueue.closed = false → PoolInv log s) → PoolMove s evs s' →
      ExitInv cfg s' ∧ (s'.loop.completionQueue.closed = false → PoolInv (log ++ evs) s') :=
    fun _ _ _ _ ⟨hexit, hpool⟩ hmove => ⟨hexit.poolMove hmove, PoolInv.step hpool hmove⟩
  exact Exec.invariant ⟨ExitInv.start cfg store clock, fun _ => PoolInv.start cfg store clock⟩ hstep h

end

/-- All workers have left and the completion queue was never closed: nothing is queued, the dispatched items
are the accepted ones, each as often as it was accepted, and the completions that were pushed are theirs. -/
theorem pool_drained (cfg : ServerConfig) (store : Store P) (clock : Int) (log : List PoolEvent) (s : System P)
    (hrun : PoolRun cfg store clock log s) (hopen : s.loop.completionQueue.closed = false)
    (hexited : ∀ w ∈ s.workers, w.phase = .exited) :
    s.loop.workQueue.closed = true ∧ s.loop.workQueue.items = [] ∧
      ((dispatchedOf log).map Prod.fst).Perm (acceptedOf log) ∧
      (pushedOf log).Perm ((dispatchedOf log).map fun d => d.1.completion d.2) := by
  obtain ⟨hexit, hpool⟩ := hrun.inv
  obtain ⟨w, hw⟩ : ∃ w, w ∈ s.workers := by
    refine List.exists_mem_of_length_pos ?_
    rw [hexit.workers]; exact cfg.workerCount_pos
  obtain ⟨hclosed, hnil⟩ := hexit.exited hopen w hw (hexited w hw)
  have hnone : ∀ phase, phase ≠ .exited → s.workers.countP (fun w => w.phase = phase) = 0 := fun phase hne =>
    List.countP_eq_zero.mpr fun w hw hphase => hne ((of_decide_eq_true hphase).symm.trans (hexited w hw))
  refine ⟨hclosed, hnil, List.perm_iff_count.mpr fun x => ?_, List.perm_iff_count.mpr fun c => ?_⟩
  · have := (hpool hopen).items x
    rw [hnone _ (by simp), hnil] at this
    simpa using this.symm
  · have := (hpool hopen).completions c
    rw [hnone _ (by simp)] at this
    exact this.symm

def pingItem : WorkItem := ⟨7, 1, 0, { type := .kPing }⟩

/-- One worker gets a `PING`, and is done with it when the pool is destroyed. -/
theorem pool_drained_ping :
    ∃ (log : List PoolEvent) (s : System (.reference .exact)), acceptedOf log = [pingItem] ∧
      s.loop.workQueue.closed = true ∧ s.loop.workQueue.items = [] ∧
      ((dispatchedOf log).map Prod.fst).Perm (acceptedOf log) ∧
      (pushedOf log).Perm ((dispatchedOf log).map fun d => d.1.completion d.2) := by
  have h0 : PoolRun (ServerConfig.small 1 Nat.one_pos) Store.small 0 [] _ := .refl
  have h1 := h0.tail (.tryPush (show BoundedQueue.tryPush _ pingItem = (.kOk, _) from rfl))
  have h2 := h1.tail (.worker (i := 0) rfl (.pop rfl rfl))
  have h3 := h2.tail (.worker (i := 0) rfl (.dispatch rfl))
  have h4 := h3.tail (.worker (i := 0) rfl (.push (by decide) rfl rfl))
  have h5 := h4.tail (.worker (i := 0) rfl (.notify rfl))
  have h6 := h5.tail .closeWork
  have h7 := h6.tail (.worker (i := 0) rfl (.leave rfl rfl (.inl rfl)))
  exact ⟨_, _, rfl, pool_drained _ _ _ _ _ h7 rfl (by simp [System.setPhase, System.start, ServerConfig.small])⟩

/-! ### The server's pool -/

section
variable {cfg : EventLoopConfig} {l l' : LoopState} {io : Io} {evs : List Event}

/-- What a step of the loop thread does to the queues. -/
inductive QueueUse (l l' : LoopState) : Prop
  | untouched : l'.workQueue = l.workQueue → l'.completionQueue = l.completionQueue → QueueUse l l'
  | pushed {item : WorkItem} : l.workQueue.tryPush item = (.kOk, l'.workQueue) →
    l'.completionQueue = l.completionQueue → QueueUse l l'
  | popped {completion : Completion} : l.completionQueue.tryPop = some (completion, l'.completionQueue) →
    l'.workQueue = l.workQueue → QueueUse l l'

theorem LoopMove.queueUse (h : LoopMove cfg l io evs l') : QueueUse l l' := by
  have hpop : ∀ {completion queue}, l.completionQueue.items = completion :: queue →
      l.completionQueue.tryPop = some (completion, l.completionQueue.dequeue) := fun hitems => by
    rw [BoundedQueue.tryPop, hitems]
  cases h with
  | @handOver _ _ _ _ c command hroom _ _ _ hopen _ =>
    refine .pushed (show l.workQueue.tryPush (c.workItem command) = _ from ?_) rfl
    unfold BoundedQueue.tryPush
    rw [if_neg (by rw [hopen]; exact Bool.false_ne_true), dif_pos hroom]
  | stale _ hitems _ => exact .popped (hpop hitems) rfl
  | complete _ hitems _ _ => exact .popped (hpop hitems) rfl
  | overflow _ hitems _ _ _ => exact .popped (hpop hitems) rfl
  | _ => exact .untouched rfl rfl

end

section
variable {s s' : System P} {cfg : ServerConfig} {evs : List Event}

theorem SystemMove.poolMoves {choice : Choice} (h : SystemMove cfg.toEventLoopConfig s choice evs s') :
    ∃ pool, Exec PoolMove s pool s' := by
  cases h with
  | @loop io l evs hl =>
    cases (loopMove_of_step hl).2.queueUse with
    | untouched hwork hcompletions => exact ⟨_, .single (.other rfl hwork hcompletions)⟩
    | pushed hpush hcompletions =>
      have hfirst := Exec.single (PoolMove.tryPush hpush)
      exact ⟨_, hfirst.trans (.single (.other rfl rfl hcompletions))⟩
    | popped hpop hwork =>
      have hfirst := Exec.single (PoolMove.take hpop)
      exact ⟨_, hfirst.trans (.single (.other rfl hwork rfl))⟩
  | worker hw hmove => exact ⟨_, .single (.worker hw hmove)⟩
  | stop => exact ⟨_, .single (.other rfl rfl rfl)⟩
  | closeWork => exact ⟨_, .single .closeWork⟩
  | requestStop hw hclosed => exact ⟨_, .single (.requestStop hw hclosed)⟩
  | closeCompletions => exact ⟨_, .single .closeCompletions⟩
  | tick => exact ⟨_, .single (.other rfl rfl rfl)⟩
  | sweep => exact ⟨_, .single (.other rfl rfl rfl)⟩

/-- The server uses its pool as `PoolRun` describes. -/
theorem System.Run.poolRun {store : Store P} {clock : Int} {log : List Event}
    (h : System.Run cfg store clock log s) : ∃ pool, PoolRun cfg store clock pool s := by
  have hstep : ∀ (log evs : List Event) (s s' : System P), (∃ pool, PoolRun cfg store clock pool s) →
      Step (System.step cfg.toEventLoopConfig) s evs s' → ∃ pool, PoolRun cfg store clock pool s' := by
    rintro _ _ _ _ ⟨pool, hpool⟩ ⟨choice, hs⟩
    obtain ⟨pool', hpool'⟩ := (systemMove_of_step hs).poolMoves
    exact ⟨_, hpool.trans hpool'⟩
  exact Exec.invariant ⟨[], .refl⟩ hstep h

end

end KvStore
