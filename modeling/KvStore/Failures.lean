import KvStore.LoopMoves
import KvStore.Steps

/-!
# Failing system calls

`net/listener.cpp`, `net/io.cpp` and `run` sort the errors of their system calls; `RawIo` is what the calls
return, `RawIo.io` what the loop makes of it. The results of the `epoll_ctl` calls that change or remove a
registration, and of the `write` in `wake`, are ignored by the source and do not appear.

A step touches only the connection it handles (`LoopMove.untouched`). An error that concerns no connection
comes from `epoll_wait` or `accept4`. `accept_one` knows four errors of `accept4`; with these the loop goes on
(`loop_survives`), but every other one, a full descriptor table included, ends it (`loop_dies_on_emfile`).
-/

namespace KvStore
open ByteString Transition

/-- The error numbers the sources tell apart, and some they do not. -/
inductive Errno where
  | EAGAIN | EWOULDBLOCK | EINTR | ECONNABORTED | EPIPE | ECONNRESET | EMFILE
  | other (code : Nat)
deriving DecidableEq, Repr

/-- `epoll_wait` in `run`. -/
def PollResult.ofCall : Except Errno (List PollEvent) → PollResult
  | .ok batch => .events batch
  | .error .EINTR => .interrupted
  | .error _ => .failed

/-- `accept4` in `accept_one`, and the `epoll_ctl(ADD)` of `handle_listener_readable`. -/
def AcceptResult.ofCall (registration : Except Errno Unit) : Except Errno Nat → AcceptResult
  | .ok fd => .client fd registration.isOk
  | .error .EAGAIN | .error .EWOULDBLOCK => .wouldBlock
  | .error .EINTR | .error .ECONNABORTED => .retry
  | .error _ => .failed

/-- `recv` in `read_into`; no bytes mean the end of the stream. -/
def RecvResult.ofCall : Except Errno Bytes → RecvResult
  | .ok [] => .closed
  | .ok chunk => .bytes chunk
  | .error .EAGAIN | .error .EWOULDBLOCK | .error .EINTR => .wouldBlock
  | .error _ => .failed

/-- `send` in `write_from`; its callers treat `kClosed` and `kError` alike. -/
def SendResult.ofCall : Except Errno Nat → SendResult
  | .ok 0 => .wouldBlock
  | .ok n => .wrote n
  | .error .EAGAIN | .error .EWOULDBLOCK | .error .EINTR => .wouldBlock
  | .error _ => .failed

/-- What the system calls of one step return. -/
structure RawIo where
  epollWait : Except Errno (List PollEvent) := .error .EINTR
  accept4 : Except Errno Nat := .error .EAGAIN
  registration : Except Errno Unit := .ok ()
  recv : Except Errno Bytes := .error .EAGAIN
  send : Except Errno Nat := .error .EAGAIN
  flush : Except Errno Nat := .error .EAGAIN

def RawIo.io (raw : RawIo) : Io where
  poll := .ofCall raw.epollWait
  accept := .ofCall raw.registration raw.accept4
  recv := .ofCall raw.recv
  send := .ofCall raw.send
  flush := .ofCall raw.flush

/-- The calls whose failure concerns no connection. -/
inductive LoopCall where
  | epollWait (result : Except Errno (List PollEvent))
  | accept4 (result : Except Errno Nat)

/-- `epoll_wait` failed, and not because of a signal. -/
def LoopCall.waitFailed : LoopCall → Bool
  | .epollWait (.error e) => e ≠ .EINTR
  | _ => false

/-- `accept4` returned a client or one of the errors `accept_one` knows. -/
def LoopCall.acceptHandled : LoopCall → Bool
  | .accept4 (.error e) => e = .EAGAIN ∨ e = .EWOULDBLOCK ∨ e = .EINTR ∨ e = .ECONNABORTED
  | _ => true

/-- Which of these calls the next step of the loop makes. -/
def LoopState.loopCalls (l : LoopState) (raw : RawIo) : List LoopCall :=
  match l.tasks with
  | [] => if l.stopRequested then [] else [.epollWait raw.epollWait]
  | .accept :: _ => [.accept4 raw.accept4]
  | _ => []

inductive RawChoice where
  | loop (raw : RawIo)
  | other (choice : Choice)

variable {P : Platform}

def System.rawStep (cfg : EventLoopConfig) (s : System P) : RawChoice → Option (System P × List LoopCall)
  | .loop raw => (s.step cfg (.loop raw.io)).map fun r => (r.1, s.loop.loopCalls raw)
  | .other choice => if choice.isLoop then none else (s.step cfg choice).map fun r => (r.1, [])

def System.RawRun (cfg : ServerConfig) (store : Store P) (clock : Int) (calls : List LoopCall) (s : System P) :
    Prop :=
  Exec (Step (System.rawStep cfg.toEventLoopConfig)) (System.start cfg store clock) calls s

/-! ### What a step touches -/

/-- The next step of the loop handles the open connection of generation `g`: it reads from it, parses its
input, writes to it, answers it or closes it. -/
def LoopState.handles (l : LoopState) (g : Nat) : Prop :=
  match l.tasks with
  | .events (.client fd true _ _ :: _) :: _ => ∃ c, l.registry.findCurrent fd = some c ∧ c.generation = g
  | .read id g' :: _ | .process id g' :: _ | .write id g' :: _ => g' = g ∧ (l.registry.find id g').isSome
  | .drain :: _ => ∃ completion queue, l.completionQueue.items = completion :: queue ∧
      completion.connectionGeneration = g ∧
      (l.registry.find completion.connectionId completion.connectionGeneration).isSome
  | _ => False

section
variable {cfg : EventLoopConfig} {l l' : LoopState} {io : Io} {evs : List Event} {id id' g : Nat}
  {c c' : Connection} {r : ConnectionRegistry}

theorem LoopState.handles_hangup {fd : Nat} {readable writable : Bool} {batch : List PollEvent} {rest : List Task}
    (ht : l.tasks = .events (.client fd true readable writable :: batch) :: rest)
    (hf : l.registry.findCurrent fd = some c) : l.handles c.generation := by
  rw [handles, ht]
  exact ⟨c, hf, rfl⟩

theorem LoopState.handles_task {task : Task} {rest : List Task} (ht : l.tasks = task :: rest)
    (htask : task = .read id g ∨ task = .process id g ∨ task = .write id g)
    (hf : l.registry.find id g = some c) : l.handles g := by
  rcases htask with rfl | rfl | rfl
  all_goals
    rw [handles, ht]
    exact ⟨rfl, Option.isSome_iff_exists.mpr ⟨c, hf⟩⟩

theorem LoopState.handles_drain {completion : Completion} {queue : List Completion} {rest : List Task}
    (ht : l.tasks = .drain :: rest) (hitems : l.completionQueue.items = completion :: queue)
    (hf : l.registry.find completion.connectionId completion.connectionGeneration = some c) :
    l.handles completion.connectionGeneration := by
  rw [handles, ht]
  exact ⟨completion, queue, hitems, rfl, Option.isSome_iff_exists.mpr ⟨c, hf⟩⟩

theorem ne_of_not_handles (hf : r.find id g = some c) (hg : l.handles g) (hf' : r.findCurrent id' = some c')
    (hnot : ¬ l.handles c'.generation) : id' ≠ id := by
  rintro rfl
  obtain ⟨hcur, hgen⟩ := ConnectionRegistry.find_eq_some_iff.mp hf
  rw [hcur] at hf'
  cases hf'
  exact hnot (hgen ▸ hg)

theorem LoopMove.untouched (h : LoopMove cfg l io evs l') (hf : l.registry.findCurrent id' = some c')
    (hnot : ¬ l.handles c'.generation) : l'.registry.findCurrent id' = some c' := by
  -- the four ways a step changes the registry
  have hput : ∀ {id g c} c₁, l.registry.find id g = some c → l.handles g →
      (l.registry.put id c₁).findCurrent id' = some c' := by
    intro id g c c₁ hfind hg
    rw [ConnectionRegistry.findCurrent_put, if_neg (ne_of_not_handles hfind hg hf hnot)]
    exact hf
  have hclose : ∀ {id g c} (r : ConnectionRegistry), l.registry.find id g = some c → l.handles g →
      r.findCurrent id' = some c' → (r.close id g).findCurrent id' = some c' := by
    intro id g c r hfind hg hr
    rw [ConnectionRegistry.findCurrent_close_ne r _ (ne_of_not_handles hfind hg hf hnot)]
    exact hr
  have hfresh : ∀ {fd}, l.registry.findCurrent fd = none → id' ≠ fd := by
    rintro fd hnone rfl
    rw [hf] at hnone
    cases hnone
  have hadd : ∀ {fd}, l.registry.findCurrent fd = none →
      (l.registry.add fd cfg.maxInputBytes cfg.maxOutputBytes).findCurrent id' = some c' := by
    intro fd hnone
    rw [ConnectionRegistry.findCurrent_add, if_neg (hfresh hnone)]
    exact hf
  cases h with
  | hangup ht hcur _ =>
    exact hclose _ (ConnectionRegistry.find_eq_some_iff.mpr ⟨hcur, rfl⟩) (l.handles_hangup ht hcur) hf
  | accept _ _ hnone => exact hadd hnone
  | acceptUnregistered _ _ hnone =>
    exact (ConnectionRegistry.findCurrent_close_ne _ _ (hfresh hnone)).trans (hadd hnone)
  | readFull ht hfind _ _ => exact hclose _ hfind (l.handles_task ht (.inl rfl) hfind) hf
  | received ht hfind _ _ _ _ => exact hput _ hfind (l.handles_task ht (.inl rfl) hfind)
  | readEnded ht hfind _ _ _ => exact hclose _ hfind (l.handles_task ht (.inl rfl) hfind) hf
  | handOver _ ht hfind _ _ _ => exact hput _ hfind (l.handles_task ht (.inr (.inl rfl)) hfind)
  | answer ht hfind _ _ _ => exact hput _ hfind (l.handles_task ht (.inr (.inl rfl)) hfind)
  | answerClose ht hfind _ _ _ _ _ =>
    have hg := l.handles_task ht (.inr (.inl rfl)) hfind
    exact hclose _ hfind hg (hput _ hfind hg)
  | sent ht hfind _ _ _ => exact hput _ hfind (l.handles_task ht (.inr (.inr rfl)) hfind)
  | writeFailed ht hfind _ _ _ => exact hclose _ hfind (l.handles_task ht (.inr (.inr rfl)) hfind) hf
  | complete ht hitems hfind _ => exact hput _ hfind (l.handles_drain ht hitems hfind)
  | overflow ht hitems hfind _ _ =>
    have hg := l.handles_drain ht hitems hfind
    exact hclose _ hfind hg (hput _ hfind hg)
  | _ => exact hf

/-- The loop ends when it is asked to, or when `epoll_wait` or `accept4` fails. -/
theorem LoopMove.exits (h : LoopMove cfg l io evs l') (hbefore : l.exited = false) (hafter : l'.exited = true) :
    l'.stopRequested = true ∨ (l.tasks = [] ∧ l.stopRequested = false ∧ io.poll = .failed) ∨
      ∃ rest, l.tasks = .accept :: rest ∧ io.accept = .failed := by
  cases h with
  | stop _ hstop => exact .inl hstop
  | pollFailed ht hstop hp => exact .inr (.inl ⟨ht, hstop, hp⟩)
  | acceptFailed ht ha => exact .inr (.inr ⟨_, ht, ha⟩)
  | _ => exact absurd (hbefore.symm.trans hafter) Bool.false_ne_true

end

/-! ### The result -/

theorem PollResult.failed_iff (result : Except Errno (List PollEvent)) :
    PollResult.ofCall result = .failed ↔ (LoopCall.epollWait result).waitFailed = true := by
  rcases result with e | batch
  · cases e <;> simp [PollResult.ofCall, LoopCall.waitFailed]
  · simp [PollResult.ofCall, LoopCall.waitFailed]

theorem AcceptResult.failed_iff (registration : Except Errno Unit) (result : Except Errno Nat) :
    AcceptResult.ofCall registration result = .failed ↔ (LoopCall.accept4 result).acceptHandled = false := by
  rcases result with e | fd
  · cases e <;> simp [AcceptResult.ofCall, LoopCall.acceptHandled]
  · simp [AcceptResult.ofCall, LoopCall.acceptHandled]

/-- An ended loop was asked to end, or one of its waits failed. -/
def EndedByRequest (s : System P) (calls : List LoopCall) : Prop :=
  s.loop.exited = true → s.loop.stopRequested = true ∨ ∃ call ∈ calls, call.waitFailed = true

theorem rawStep_cases {cfg : EventLoopConfig} {s s' : System P} {new : List LoopCall}
    (h : Step (System.rawStep cfg) s new s') :
    (∃ raw evs, new = s.loop.loopCalls raw ∧ s.loop.step cfg raw.io = some (s'.loop, evs)) ∨
      new = [] ∧ LoopKept s.loop s'.loop := by
  obtain ⟨choice, h⟩ := h
  cases choice with
  | loop raw =>
    obtain ⟨⟨s₁, evs⟩, hstep, heq⟩ := Option.map_eq_some_iff.mp h
    cases heq
    rcases (systemMove_of_step hstep).loop_or_kept with ⟨io, hio, hl⟩ | ⟨hne, -⟩
    · cases hio
      exact .inl ⟨raw, evs, rfl, hl⟩
    · cases hne
  | other choice =>
    simp only [System.rawStep] at h
    split_ifs at h with hloop
    obtain ⟨⟨s₁, evs⟩, hstep, heq⟩ := Option.map_eq_some_iff.mp h
    cases heq
    rcases (systemMove_of_step hstep).loop_or_kept with ⟨io, rfl, -⟩ | ⟨-, hkept, -⟩
    · exact absurd rfl hloop
    · exact .inr ⟨rfl, hkept⟩

theorem EndedByRequest.rawStep {cfg : EventLoopConfig} {s s' : System P} {calls new : List LoopCall}
    (h : EndedByRequest s calls) (hs : Step (System.rawStep cfg) s new s')
    (hnew : ∀ call ∈ new, call.acceptHandled = true) : EndedByRequest s' (calls ++ new) := by
  intro hexited
  rcases rawStep_cases hs with ⟨raw, evs, rfl, hl⟩ | ⟨rfl, hkept⟩
  · obtain ⟨hbefore, hmove⟩ := loopMove_of_step hl
    rcases hmove.exits hbefore hexited with hstop | ⟨ht, hstop, hpoll⟩ | ⟨rest, ht, haccept⟩
    · exact .inl hstop
    · refine .inr ⟨.epollWait raw.epollWait, ?_, (PollResult.failed_iff _).mp hpoll⟩
      simp [LoopState.loopCalls, ht, hstop]
    · have hmem : .accept4 raw.accept4 ∈ s.loop.loopCalls raw := by simp [LoopState.loopCalls, ht]
      have hunhandled := (AcceptResult.failed_iff _ _).mp haccept
      rw [hnew _ hmem] at hunhandled
      cases hunhandled
  · rw [List.append_nil]
    rcases h (hkept.exited ▸ hexited) with hstop | hfailed
    · exact .inl (hkept.stopRequested hstop)
    · exact .inr hfailed

/-- While `accept4` returns clients or one of the errors `accept_one` handles, the loop ends only because
it was asked to or because `epoll_wait` failed, and whatever a call returns, a step changes or closes only
the connection it handles. -/
theorem loop_survives (cfg : ServerConfig) (store : Store P) (clock : Int) (calls : List LoopCall) (s : System P)
    (hrun : System.RawRun cfg store clock calls s) (haccept : ∀ call ∈ calls, call.acceptHandled = true) :
    EndedByRequest s calls ∧
      ∀ (raw : RawIo) (s' : System P) (evs : List Event),
        s.step cfg.toEventLoopConfig (.loop raw.io) = some (s', evs) →
        ∀ id c, s.loop.registry.findCurrent id = some c → ¬ s.loop.handles c.generation →
          s'.loop.registry.findCurrent id = some c := by
  constructor
  · have hstep : ∀ calls new s₁ s₂, ((∀ call ∈ calls, call.acceptHandled = true) → EndedByRequest s₁ calls) →
        Step (System.rawStep cfg.toEventLoopConfig) s₁ new s₂ →
        (∀ call ∈ calls ++ new, call.acceptHandled = true) → EndedByRequest (P := P) s₂ (calls ++ new) := by
      intro calls new s₁ s₂ ih hs hall
      exact (ih fun call hc => hall call (List.mem_append_left _ hc)).rawStep hs
        fun call hc => hall call (List.mem_append_right _ hc)
    exact hrun.invariant (fun _ hexited => by cases hexited) hstep haccept
  · intro raw s' evs hs id c hc hnot
    rcases (systemMove_of_step hs).loop_or_kept with ⟨io, -, hl⟩ | ⟨hne, -⟩
    · exact (loopMove_of_step hl).2.untouched hc hnot
    · cases hne

/-! ### Two runs -/

/-- A client connects as fd 7 and sends `PING`; the next `accept4` fails with `e`. -/
def acceptErrorChoices (e : Errno) : List RawChoice :=
  [.loop { epollWait := .ok [.listener] }, .loop {}, .loop { accept4 := .ok 7 }, .loop {}, .loop {},
    .loop { epollWait := .ok [.client 7 false true false, .listener] }, .loop {}, .loop {},
    .loop { recv := .ok (ascii "*1\r\n$4\r\nPING\r\n") }, .loop {}, .loop {}, .loop {}, .loop {}, .loop {},
    .loop {}, .loop { accept4 := .error e }]

def acceptErrorResult (e : Errno) : Option (System (.reference .exact) × List LoopCall) :=
  run (System.rawStep (ServerConfig.small 1 Nat.one_pos).toEventLoopConfig)
    (System.start (ServerConfig.small 1 Nat.one_pos) Store.small 0) (acceptErrorChoices e)

theorem abortedResult_isSome : (acceptErrorResult .ECONNABORTED).isSome = true := by decide +kernel

theorem emfileResult_isSome : (acceptErrorResult .EMFILE).isSome = true := by decide +kernel

theorem loop_survives_aborted : ∃ (calls : List LoopCall) (s : System (.reference .exact)),
    System.RawRun (ServerConfig.small 1 Nat.one_pos) Store.small 0 calls s ∧
      (∀ call ∈ calls, call.acceptHandled = true) ∧ s.loop.exited = false ∧ EndedByRequest s calls := by
  have hrun := exec_of_isSome abortedResult_isSome
  obtain ⟨haccept, hruns⟩ : (∀ call ∈ ((acceptErrorResult .ECONNABORTED).get abortedResult_isSome).2,
      call.acceptHandled = true) ∧
      ((acceptErrorResult .ECONNABORTED).get abortedResult_isSome).1.loop.exited = false := by
    decide +kernel
  exact ⟨_, _, hrun, haccept, hruns, (loop_survives _ _ _ _ _ hrun haccept).1⟩

/-- A full descriptor table ends the loop, although nobody asked it to stop and no wait failed; the request
of the client that is connected stays in the work queue. -/
theorem loop_dies_on_emfile : ∃ (calls : List LoopCall) (s : System (.reference .exact)),
    System.RawRun (ServerConfig.small 1 Nat.one_pos) Store.small 0 calls s ∧ s.loop.exited = true ∧
      s.loop.stopRequested = false ∧ (∀ call ∈ calls, call.waitFailed = false) ∧
      s.loop.workQueue.items.length = 1 ∧ (s.loop.registry.findCurrent 7).isSome = true :=
  ⟨_, _, exec_of_isSome emfileResult_isSome, by decide +kernel⟩

end KvStore
