import KvStore.Failures
import KvStore.RegistryInv

/-!
# The events of one batch

`epoll_wait` reports an event by its descriptor. `run` handles the events of a batch one after the other and
looks the descriptor up each time, so what an event does to a connection depends on who has the descriptor by
then. `BatchView` remembers who had it when the batch was returned and which event is being handled.

`TaskStep` says how a step changes the stack of the loop thread: only the task on top is replaced, by tasks
that follow from it. While no client is accepted on a descriptor that has an event left in the batch, every
event acts on the connection it was reported for (`batch_faithful`). A listener event in the middle of a batch
may do just that (`batch_confused`).
-/

namespace KvStore
open ByteString Transition

/-! ### The stack of the loop thread -/

/-- The tasks an event of a batch is turned into, at most. -/
def PollEvent.tasks : PollEvent → List Task
  | .wakeup => [.drain]
  | .listener => [.accept]
  | .client fd _ _ _ => [.readable fd, .writable fd]

/-- `next` is what `task` goes on with, or one of the tasks it leads to. -/
inductive Follows (r : ConnectionRegistry) : Task → Task → Prop
  | same {task : Task} : Follows r task task
  | readable {id : Nat} {c : Connection} : r.findCurrent id = some c →
    Follows r (.readable id) (.read id c.generation)
  | writable {id : Nat} {c : Connection} : r.findCurrent id = some c →
    Follows r (.writable id) (.write id c.generation)
  | process {id g : Nat} : Follows r (.read id g) (.process id g)
  | flush {id g : Nat} : Follows r (.read id g) (.writable id)
  | resume {id g : Nat} : Follows r .drain (.process id g)
  | respond {id : Nat} : Follows r .drain (.writable id)

/-- How a step changes the tasks. -/
inductive TaskStep (r : ConnectionRegistry) : List Task → List Task → Prop
  | stay : TaskStep r [] []
  | poll {batch : List PollEvent} : TaskStep r [] [.events batch]
  | batchDone {rest : List Task} : TaskStep r (.events [] :: rest) rest
  | event {e : PollEvent} {batch : List PollEvent} {new rest : List Task} : (∀ task ∈ new, task ∈ e.tasks) →
    (e = .listener → new = [.accept]) →
    TaskStep r (.events (e :: batch) :: rest) (new ++ .events batch :: rest)
  | task {task : Task} {new rest : List Task} : (∀ batch, task ≠ .events batch) →
    (∀ next ∈ new, Follows r task next) → (task = .accept → new = [] ∨ new = [.accept]) →
    TaskStep r (task :: rest) (new ++ rest)
  | exit {rest : List Task} : TaskStep r (.accept :: rest) []

section
variable {cfg : EventLoopConfig} {l l' : LoopState} {io : Io} {evs : List Event}

theorem TaskStep.keep {r : ConnectionRegistry} {task : Task} {rest : List Task}
    (hne : ∀ batch, task ≠ .events batch) : TaskStep r (task :: rest) (task :: rest) :=
  have hsame : ∀ next ∈ [task], Follows r task next := fun _ hnext => List.mem_singleton.mp hnext ▸ .same
  .task hne hsame fun haccept => .inr (congrArg (fun t => [t]) haccept)

theorem TaskStep.done {r : ConnectionRegistry} {task : Task} {rest : List Task}
    (hne : ∀ batch, task ≠ .events batch) : TaskStep r (task :: rest) rest :=
  have hnone : ∀ next ∈ [], Follows r task next := nofun
  .task hne hnone fun _ => .inl rfl

theorem TaskStep.become {r : ConnectionRegistry} {task next : Task} {rest : List Task}
    (h : Follows r task next) (hne : ∀ batch, task ≠ .events batch) (haccept : task ≠ .accept) :
    TaskStep r (task :: rest) (next :: rest) :=
  have hone : ∀ next' ∈ [next], Follows r task next' := fun _ hnext => List.mem_singleton.mp hnext ▸ h
  .task hne hone fun h => absurd h haccept

theorem LoopMove.taskStep (h : LoopMove cfg l io evs l') : TaskStep l.registry l.tasks l'.tasks := by
  cases h with
  | stop ht _ => simp only [ht]; exact .stay
  | poll ht _ _ => rw [ht]; exact .poll
  | interrupted ht _ _ => rw [ht]; exact .stay
  | pollFailed ht _ _ => simp only [ht]; exact .stay
  | batchDone ht => rw [ht]; exact .batchDone
  | @wakeup batch rest ht =>
    rw [ht]
    have hnew : ∀ task ∈ [Task.drain], task ∈ PollEvent.wakeup.tasks := fun _ htask => htask
    exact .event hnew nofun
  | @listener batch rest ht =>
    rw [ht]
    have hnew : ∀ task ∈ [Task.accept], task ∈ PollEvent.listener.tasks := fun _ htask => htask
    exact .event hnew fun _ => rfl
  | @client fd r w batch rest ht =>
    rw [ht]
    refine .event (fun task htask => ?_) nofun
    have hr : ∀ (b : Bool) (t : Task), t ∈ (if b then [Task.readable fd] else []) → t = .readable fd := by
      intro b t; cases b <;> simp
    have hw : ∀ (b : Bool) (t : Task), t ∈ (if b then [Task.writable fd] else []) → t = .writable fd := by
      intro b t; cases b <;> simp
    rcases List.mem_append.mp htask with htask | htask
    · rw [hr r task htask]; exact List.mem_cons_self
    · rw [hw w task htask]; exact List.mem_cons_of_mem _ List.mem_cons_self
  | hangupGone ht _ => rw [ht]; exact .event (fun _ h => absurd h List.not_mem_nil) nofun
  | hangup ht _ _ => rw [ht]; exact .event (fun _ h => absurd h List.not_mem_nil) nofun
  | acceptDone ht _ => rw [ht]; exact .done nofun
  | acceptRetry ht _ => rw [ht]; exact .keep nofun
  | acceptFailed ht _ => rw [ht]; exact .exit
  | accept ht _ _ => simp only [ht]; exact .keep nofun
  | acceptUnregistered ht _ _ => simp only [ht]; exact .keep nofun
  | readable ht hf => rw [ht]; exact .become (.readable hf) nofun nofun
  | writable ht hf => rw [ht]; exact .become (.writable hf) nofun nofun
  | gone ht hgone =>
    rw [ht]
    exact .done (by cases hgone <;> exact nofun)
  | readFull ht _ _ _ => rw [ht]; exact .done nofun
  | @received id g rest _ _ _ ht _ _ _ _ _ =>
    rw [ht]
    have hnew : ∀ next ∈ [Task.process id g, .read id g], Follows l.registry (.read id g) next := by
      simp only [List.mem_cons, List.not_mem_nil, or_false, forall_eq_or_imp, forall_eq]
      exact ⟨.process, .same⟩
    exact .task (by nofun) hnew nofun
  | readBlocked ht _ _ _ => rw [ht]; exact .become .flush nofun nofun
  | readEnded ht _ _ _ _ => rw [ht]; exact .done nofun
  | processDone ht _ _ => rw [ht]; exact .done nofun
  | handOver _ ht _ _ _ _ => simp only [ht]; exact .keep nofun
  | answer ht _ _ _ _ => simp only [ht]; exact .keep nofun
  | answerClose ht _ _ _ _ _ _ => rw [ht]; exact .done nofun
  | writeDone ht _ _ => rw [ht]; exact .done nofun
  | sent ht _ _ _ _ => simp only [ht]; exact .keep nofun
  | writeFailed ht _ _ _ _ => rw [ht]; exact .done nofun
  | drained ht _ => rw [ht]; exact .done nofun
  | stale ht _ _ => simp only [ht]; exact .keep nofun
  | @complete rest completion _ _ _ ht _ _ _ =>
    rw [ht]
    have hnew : ∀ next ∈ [.process completion.connectionId completion.connectionGeneration,
        .writable completion.connectionId, .drain], Follows l.registry .drain next := by
      simp only [List.mem_cons, List.not_mem_nil, or_false, forall_eq_or_imp, forall_eq]
      exact ⟨.resume, .respond, .same⟩
    exact .task (by nofun) hnew nofun
  | overflow ht _ _ _ _ => rw [ht]; exact .keep nofun

theorem LoopMove.generation_before (h : LoopMove cfg l io evs l') {id : Nat} {c' : Connection}
    (hc' : l'.registry.findCurrent id = some c') :
    (∃ c, l.registry.findCurrent id = some c ∧ c'.generation = c.generation) ∨
      ∃ rest, l.tasks = .accept :: rest ∧ io.accept = .client id true := by
  cases h.origin hc' with
  | fresh ht hio _ => exact .inr ⟨_, ht, hio⟩
  | kept hc _ => exact .inl ⟨c', hc, rfl⟩
  | touched hc htouch => exact .inl ⟨_, hc, htouch.generation⟩

end

/-! ### Who an event is about -/

def PollEvent.isFor (fd : Nat) : PollEvent → Bool
  | .client fd' _ _ _ => fd' = fd
  | _ => false

structure BatchView where
  /-- The generation registered at a descriptor when the batch was returned. -/
  reported : Nat → Option Nat := fun _ => none
  /-- The descriptor of the client event that is being handled. -/
  current : Option Nat := none

def BatchView.next (v : BatchView) (l : LoopState) : BatchView :=
  match l.tasks with
  | [] => { reported := fun fd => (l.registry.findCurrent fd).map (·.generation) }
  | .events (.client fd _ _ _ :: _) :: _ => { v with current := some fd }
  | .events _ :: _ => { v with current := none }
  | _ => v

/-- No client is accepted on a descriptor for which the batch still holds an event, unless it is dropped at once
because epoll does not take it. -/
def LoopState.acceptsFresh (l : LoopState) (io : Io) : Bool :=
  match l.tasks, io.accept with
  | .accept :: .events batch :: _, .client fd true => batch.all fun e => !e.isFor fd
  | _, _ => true

variable {P : Platform}

def System.batchStep (ok : LoopState → Io → Bool) (cfg : EventLoopConfig) (sv : System P × BatchView)
    (choice : Choice) : Option ((System P × BatchView) × List Event) :=
  if choice.allowed ok sv.1.loop then
    (sv.1.step cfg choice).map fun r => ((r.1, if choice.isLoop then sv.2.next sv.1.loop else sv.2), r.2)
  else none

def System.BatchRun (ok : LoopState → Io → Bool) (cfg : ServerConfig) (store : Store P) (clock : Int)
    (log : List Event) (sv : System P × BatchView) : Prop :=
  Exec (Step (System.batchStep ok cfg.toEventLoopConfig)) (System.start cfg store clock, {}) log sv

/-- The task may stand above a batch: it belongs to the event being handled, and to the connection that
event was reported for. -/
def BatchView.Owns (v : BatchView) : Task → Prop
  | .readable id | .writable id => ∀ fd, v.current = some fd → id = fd
  | .read id g | .process id g | .write id g => ∀ fd, v.current = some fd → id = fd ∧ v.reported fd = some g
  | .drain => v.current = none
  | .accept | .events _ => False

/-- An event about `fd` is being handled or still to come. -/
def BatchView.Watched (v : BatchView) (batch : List PollEvent) (fd : Nat) : Prop :=
  v.current = some fd ∨ ∃ e ∈ batch, e.isFor fd = true

/-- Whoever has the descriptor `fd` had it when the batch was returned. -/
def BatchView.Faithful (v : BatchView) (r : ConnectionRegistry) (fd : Nat) : Prop :=
  ∀ c, r.findCurrent fd = some c → v.reported fd = some c.generation

inductive BatchInv (l : LoopState) (v : BatchView) : Prop
  | idle : l.tasks = [] → BatchInv l v
  | batch {front : List Task} {batch : List PollEvent} : l.tasks = front ++ [.events batch] →
    (front = [.accept] ∧ v.current = none ∨ ∀ task ∈ front, v.Owns task) →
    (∀ fd, v.Watched batch fd → v.Faithful l.registry fd) → BatchInv l v

section
variable {cfg : EventLoopConfig} {l l' : LoopState} {io : Io} {evs : List Event} {v : BatchView}

theorem BatchView.Owns.follows {r : ConnectionRegistry} {task next : Task} (h : v.Owns task)
    (hf : Follows r task next) (hfaithful : ∀ fd, v.current = some fd → v.Faithful r fd) : v.Owns next := by
  cases hf with
  | same => exact h
  | readable hc =>
    intro fd hfd
    obtain rfl := h fd hfd
    exact ⟨rfl, hfaithful _ hfd _ hc⟩
  | writable hc =>
    intro fd hfd
    obtain rfl := h fd hfd
    exact ⟨rfl, hfaithful _ hfd _ hc⟩
  | process => exact h
  | flush => exact fun fd hfd => (h fd hfd).1
  | resume =>
    intro fd hfd
    rw [show v.current = none from h] at hfd
    cases hfd
  | respond =>
    intro fd hfd
    rw [show v.current = none from h] at hfd
    cases hfd

/-- The view does not change while the tasks above the batch run. -/
theorem BatchView.next_of_task {task : Task} {rest : List Task} (ht : l.tasks = task :: rest)
    (hne : ∀ batch, task ≠ .events batch) : v.next l = v := by
  rw [next, ht]
  cases task with
  | events batch => exact absurd rfl (hne batch)
  | _ => rfl

/-- Descriptors stay with their owners, except for one that `accept` returns. -/
theorem BatchView.Faithful.loopMove {fd : Nat} (h : v.Faithful l.registry fd) (hmove : LoopMove cfg l io evs l')
    (haccept : ∀ rest, l.tasks = .accept :: rest → io.accept ≠ .client fd true) :
    v.Faithful l'.registry fd := by
  intro c' hc'
  rcases hmove.generation_before hc' with ⟨c, hc, hg⟩ | ⟨rest, ht, ha⟩
  · rw [h c hc, hg]
  · exact absurd ha (haccept rest ht)

theorem BatchInv.event {e : PollEvent} {batch : List PollEvent} {new : List Task}
    (ht : l.tasks = [.events (e :: batch)]) (ht' : l'.tasks = new ++ [.events batch])
    (hnew : ∀ task ∈ new, task ∈ e.tasks) (hlistener : e = .listener → new = [.accept])
    (hfaithful : ∀ fd, (∃ e' ∈ e :: batch, e'.isFor fd = true) → v.Faithful l'.registry fd) :
    BatchInv l' (v.next l) := by
  have hpending : ∀ fd, (∃ e' ∈ batch, e'.isFor fd = true) → v.Faithful l'.registry fd :=
    fun fd ⟨e', he', hfd⟩ => hfaithful fd ⟨e', List.mem_cons_of_mem e he', hfd⟩
  cases e with
  | wakeup =>
    have hnext : v.next l = { v with current := none } := by rw [BatchView.next, ht]
    refine .batch ht' (.inr fun task htask => ?_) fun fd hw => ?_
    · rw [hnext, List.mem_singleton.mp (hnew task htask)]; rfl
    · rw [hnext] at hw ⊢
      exact hpending fd (hw.resolve_left nofun)
  | listener =>
    have hnext : v.next l = { v with current := none } := by rw [BatchView.next, ht]
    refine .batch ht' (.inl ⟨hlistener rfl, by rw [hnext]⟩) fun fd hw => ?_
    rw [hnext] at hw ⊢
    exact hpending fd (hw.resolve_left nofun)
  | client fd hangup readable writable =>
    have hnext : v.next l = { v with current := some fd } := by rw [BatchView.next, ht]
    refine .batch ht' (.inr fun task htask => ?_) fun fd' hw => ?_
    · rw [hnext]
      rcases List.mem_cons.mp (hnew task htask) with rfl | htask
      · exact fun _ hfd => Option.some.inj hfd
      · rw [List.mem_singleton.mp htask]
        exact fun _ hfd => Option.some.inj hfd
    · rw [hnext] at hw ⊢
      rcases hw with hfd | hpend
      · cases hfd
        exact hfaithful fd ⟨_, List.mem_cons_self, decide_eq_true rfl⟩
      · exact hpending fd' hpend

theorem BatchInv.task {task : Task} {front new : List Task} {batch : List PollEvent}
    (ht : l.tasks = task :: front ++ [.events batch]) (ht' : l'.tasks = new ++ (front ++ [.events batch]))
    (howns : task :: front = [.accept] ∧ v.current = none ∨ ∀ task' ∈ task :: front, v.Owns task')
    (hne : ∀ batch, task ≠ .events batch) (hnew : ∀ next ∈ new, Follows l.registry task next)
    (haccept : task = .accept → new = [] ∨ new = [.accept])
    (hbefore : ∀ fd, v.Watched batch fd → v.Faithful l.registry fd)
    (hafter : ∀ fd, v.Watched batch fd → v.Faithful l'.registry fd) : BatchInv l' (v.next l) := by
  rw [BatchView.next_of_task ht hne]
  refine .batch (ht'.trans (List.append_assoc new front _).symm) ?_ hafter
  rcases howns with ⟨hfront, hnone⟩ | hall
  · obtain ⟨rfl, rfl⟩ := List.cons.inj hfront
    rw [List.append_nil]
    rcases haccept rfl with rfl | rfl
    · exact .inr nofun
    · exact .inl ⟨rfl, hnone⟩
  · refine .inr fun task' htask' => ?_
    rcases List.mem_append.mp htask' with htask' | htask'
    · exact (hall task List.mem_cons_self).follows (hnew task' htask') fun fd hfd => hbefore fd (.inl hfd)
    · exact hall task' (List.mem_cons_of_mem task htask')

theorem BatchInv.loopMove (h : BatchInv l v) (hmove : LoopMove cfg l io evs l')
    (hfresh : l.acceptsFresh io = true) : BatchInv l' (v.next l) := by
  have hstep := hmove.taskStep
  generalize hT : l.tasks = T at hstep
  generalize hT' : l'.tasks = T' at hstep
  cases h with
  | idle ht =>
    rw [ht] at hT
    subst hT
    cases hstep with
    | stay => exact .idle hT'
    | poll =>
      have hnext : v.next l = { reported := fun fd => (l.registry.findCurrent fd).map (·.generation) } := by
        rw [BatchView.next, ht]
      rw [hnext]
      have hnow : ∀ fd, BatchView.Faithful { reported := fun fd => (l.registry.findCurrent fd).map (·.generation) }
          l.registry fd := fun fd c hc => by dsimp only; rw [hc]; rfl
      have hshape : l'.tasks = [] ++ [.events _] := hT'
      exact .batch hshape (.inr fun _ htask => absurd htask List.not_mem_nil) fun fd _ =>
        (hnow fd).loopMove hmove fun _ hne => by rw [ht] at hne; cases hne
  | @batch front batch ht howns hfaithful =>
    rw [ht] at hT
    subst hT
    cases front with
    | nil =>
      have hkept : ∀ fd, (∃ e ∈ batch, e.isFor fd = true) → v.Faithful l'.registry fd := fun fd hfd =>
        (hfaithful fd (.inr hfd)).loopMove hmove fun _ hne => by rw [ht] at hne; cases hne
      cases hstep with
      | batchDone => exact .idle hT'
      | event hnew hlistener => exact .event ht hT' hnew hlistener hkept
      | task hne _ _ => exact absurd rfl (hne batch)
    | cons task front =>
      -- a client that is accepted gets a descriptor without an event in the batch
      have hkept : ∀ fd, v.Watched batch fd → v.Faithful l'.registry fd := by
        refine fun fd hw => (hfaithful fd hw).loopMove hmove fun rest haccept hio => ?_
        rw [ht] at haccept
        obtain ⟨rfl, -⟩ := List.cons.inj haccept
        rcases howns with ⟨hfront, hnone⟩ | hall
        · obtain ⟨-, rfl⟩ := List.cons.inj hfront
          obtain ⟨e, he, hfd⟩ := hw.resolve_left (by rw [hnone]; nofun)
          simp only [LoopState.acceptsFresh, ht, hio, List.cons_append, List.nil_append, List.all_eq_true] at hfresh
          have := hfresh e he
          rw [hfd] at this
          cases this
        · exact hall _ List.mem_cons_self
      cases hstep with
      | batchDone =>
        rcases howns with ⟨hfront, -⟩ | hall
        · cases hfront
        · exact (hall _ List.mem_cons_self).elim
      | event _ _ =>
        rcases howns with ⟨hfront, -⟩ | hall
        · cases hfront
        · exact (hall _ List.mem_cons_self).elim
      | task hne hnew haccept => exact .task ht hT' howns hne hnew haccept hfaithful hkept
      | exit => exact .idle hT'

/-- The step handles only the connection its event was reported for. -/
theorem BatchInv.reported {fd g : Nat} (h : BatchInv l v) (hfd : (v.next l).current = some fd)
    (hg : l.handles g) : (v.next l).reported fd = some g := by
  cases h with
  | idle ht =>
    rw [LoopState.handles, ht] at hg
    exact hg.elim
  | @batch front batch ht howns hfaithful =>
    cases front with
    | nil =>
      rw [List.nil_append] at ht
      rw [LoopState.handles, ht] at hg
      rcases batch with _ | ⟨_ | _ | ⟨fd', _ | _, r, w⟩, batch⟩
      · exact hg.elim
      · exact hg.elim
      · exact hg.elim
      · exact hg.elim
      · -- a hangup closes the connection at once
        obtain ⟨c, hc, rfl⟩ := hg
        rw [BatchView.next, ht] at hfd ⊢
        cases hfd
        exact hfaithful fd (.inr ⟨_, List.mem_cons_self, decide_eq_true rfl⟩) c hc
    | cons task front =>
      rcases howns with ⟨hfront, -⟩ | hall
      · obtain ⟨rfl, rfl⟩ := List.cons.inj hfront
        rw [LoopState.handles, ht] at hg
        exact hg.elim
      · have howns := hall task List.mem_cons_self
        have hne : ∀ batch, task ≠ .events batch := by
          rintro b rfl
          exact howns
        rw [BatchView.next_of_task ht hne] at hfd ⊢
        rw [LoopState.handles, ht] at hg
        cases task with
        | read id g' | process id g' | write id g' =>
          obtain ⟨rfl, -⟩ := hg
          exact (howns fd hfd).2
        | drain =>
          rw [show v.current = none from howns] at hfd
          cases hfd
        | events b => exact howns.elim
        | _ => exact hg.elim

end

/-! ### The result -/

theorem BatchInv.of_kept {l l' : LoopState} {v : BatchView} (h : BatchInv l v) (hkept : LoopKept l l') :
    BatchInv l' v := by
  cases h with
  | idle ht => exact .idle (hkept.tasks.trans ht)
  | batch ht howns hfaithful => exact .batch (hkept.tasks.trans ht) howns (hkept.registry.symm ▸ hfaithful)

theorem BatchInv.batchStep {cfg : EventLoopConfig} {sv sv' : System P × BatchView} {evs : List Event}
    (h : BatchInv sv.1.loop sv.2)
    (hs : Step (System.batchStep LoopState.acceptsFresh cfg) sv evs sv') : BatchInv sv'.1.loop sv'.2 := by
  obtain ⟨choice, hs⟩ := hs
  unfold System.batchStep at hs
  split_ifs at hs with hallowed hloop
  all_goals
    obtain ⟨⟨s', evs'⟩, hstep, heq⟩ := Option.map_eq_some_iff.mp hs
    cases heq
  · rcases (systemMove_of_step hstep).loop_or_kept with ⟨io, rfl, hl⟩ | ⟨hne, -⟩
    · exact h.loopMove (loopMove_of_step hl).2 hallowed
    · rw [hne] at hloop
      cases hloop
  · rcases (systemMove_of_step hstep).loop_or_kept with ⟨io, rfl, -⟩ | ⟨-, hkept, -⟩
    · exact absurd rfl hloop
    · exact h.of_kept hkept

/-- If no client is accepted and registered on a descriptor that has an event left in the batch, then handling an
event reads from, writes to or closes the connection it was reported for, and leaves every other connection as it
is. -/
theorem batch_faithful (cfg : ServerConfig) (store : Store P) (clock : Int) (log : List Event) (s : System P)
    (v : BatchView) (hrun : System.BatchRun LoopState.acceptsFresh cfg store clock log (s, v)) (fd : Nat)
    (hfd : (v.next s.loop).current = some fd) :
    (∀ g, s.loop.handles g → (v.next s.loop).reported fd = some g) ∧
      ∀ (io : Io) (s' : System P) (evs : List Event), s.step cfg.toEventLoopConfig (.loop io) = some (s', evs) →
        ∀ id c, s.loop.registry.findCurrent id = some c → (v.next s.loop).reported fd ≠ some c.generation →
          s'.loop.registry.findCurrent id = some c := by
  have hstart : BatchInv (System.start cfg store clock).loop {} := .idle rfl
  have hinv : BatchInv s.loop v := by
    have hall := hrun.invariant hstart fun _ _ _ _ h hs => BatchInv.batchStep h hs
    exact hall
  refine ⟨fun g hg => hinv.reported hfd hg, fun io s' evs hs id c hc hne => ?_⟩
  rcases (systemMove_of_step hs).loop_or_kept with ⟨io', -, hl⟩ | ⟨hnot, -⟩
  · exact (loopMove_of_step hl).2.untouched hc fun hg => hne (hinv.reported hfd hg)
  · cases hnot

/-! ### A descriptor changes hands -/

/-- A client sends `PING` as fd 7 and goes away. One batch reports the completion, another client and the
hangup: sending the reply fails, and the new client gets fd 7. -/
def reuseChoices (fd : Nat) : List Choice :=
  Choice.connect (ascii "*1\r\n$4\r\nPING\r\n") ++
    ([.loop {}, .loop {}, .loop {}, .loop {}, .loop {}, .loop {},
      .worker 0, .worker 0, .worker 0, .worker 0,
      .loop { poll := .events [.wakeup, .listener, .client 7 true false false] }, .loop {}, .loop {}, .loop {},
      .loop {}, .loop { send := .failed }, .loop {}, .loop {}, .loop { accept := .client fd true }, .loop {}] :
      List Choice)

def reuseResult (ok : LoopState → Io → Bool) (fd : Nat) :
    Option ((System (.reference .exact) × BatchView) × List Event) :=
  run (System.batchStep ok (ServerConfig.small 1 Nat.one_pos).toEventLoopConfig)
    (System.start (ServerConfig.small 1 Nat.one_pos) Store.small 0, {}) (reuseChoices fd)

theorem freshResult_isSome : (reuseResult LoopState.acceptsFresh 8).isSome = true := by decide +kernel

theorem reuseResult_isSome : (reuseResult (fun _ _ => true) 7).isSome = true := by decide +kernel

/-- On another descriptor the new client survives the hangup. -/
theorem batch_faithful_fresh : ∃ (log : List Event) (s : System (.reference .exact)) (v : BatchView),
    System.BatchRun LoopState.acceptsFresh (ServerConfig.small 1 Nat.one_pos) Store.small 0 log (s, v) ∧
      (v.next s.loop).current = some 7 ∧ (v.next s.loop).reported 7 = some 1 ∧
      ∃ c, s.loop.registry.findCurrent 8 = some c ∧ c.generation = 2 ∧
        ∀ (io : Io) (s' : System (.reference .exact)) (evs : List Event),
          s.step (ServerConfig.small 1 Nat.one_pos).toEventLoopConfig (.loop io) = some (s', evs) →
          s'.loop.registry.findCurrent 8 = some c := by
  have hrun := exec_of_isSome freshResult_isSome
  generalize hsv : (run _ _ _).get freshResult_isSome = r at hrun
  obtain ⟨hfd, hreported, hopen⟩ : (r.1.2.next r.1.1.loop).current = some 7 ∧
      (r.1.2.next r.1.1.loop).reported 7 = some 1 ∧
      (r.1.1.loop.registry.findCurrent 8).map (·.generation) = some 2 := by
    rw [← hsv]
    decide +kernel
  obtain ⟨c, hc, hg⟩ := Option.map_eq_some_iff.mp hopen
  refine ⟨_, _, _, hrun, hfd, hreported, c, hc, hg, fun io s' evs hs => ?_⟩
  refine (batch_faithful _ _ _ _ _ _ hrun 7 hfd).2 io s' evs hs 8 c hc ?_
  rw [hreported, hg]
  decide

/-- The hangup of the client that had fd 7 before closes the client that has it now. -/
theorem batch_confused : ∃ (log : List Event) (s : System (.reference .exact)) (v : BatchView),
    System.BatchRun (fun _ _ => true) (ServerConfig.small 1 Nat.one_pos) Store.small 0 log (s, v) ∧
      (v.next s.loop).current = some 7 ∧ (v.next s.loop).reported 7 = some 1 ∧
      (s.loop.registry.findCurrent 7).map (·.generation) = some 2 ∧
      (s.step (ServerConfig.small 1 Nat.one_pos).toEventLoopConfig (.loop {})).map
        (fun r => (r.2, (r.1.loop.registry.findCurrent 7).isSome)) = some ([.closed 2 []], false) :=
  ⟨_, _, _, exec_of_isSome reuseResult_isSome, by decide +kernel⟩

end KvStore
