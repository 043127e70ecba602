import KvStore.Framing
import KvStore.Interest
import KvStore.Lib.Descent
import KvStore.Lib.Totals
import KvStore.Shutdown
import KvStore.Wakeup

/-!
# The server comes to rest

Left alone by its peers, the server does not run for ever, and it does not stop early: where neither the loop nor a
worker has a step left, every complete request of an open connection has been answered and the answers are sent as
far as the peers take them (`server_settles`).

Both halves need the reactor to be right. A level-triggered `epoll_wait` that reports something nobody acts upon
would return at once, again and again. `Task.promises` says what a pending task can act upon; what the kernel
reports after `epoll_wait` is such a promise, and a task that ends without keeping one has not made any. The
measures are ordered by importance (`Host.measures`).
-/

namespace KvStore
open ByteString Transition Descent

/-! ### What a task can act upon -/

/-- The connection is open and its socket has something to read. -/
def readPromise (r : ConnectionRegistry) (sockets : Finmap fun _ : Nat => Socket) (id : Nat) : Bool :=
  r.isOpen id && (sockets.lookup id).any (·.readable)

/-- The connection has output and its socket takes some. -/
def writePromise (r : ConnectionRegistry) (sockets : Finmap fun _ : Nat => Socket) (id : Nat) : Bool :=
  (r.findCurrent id).any (fun c => decide (c.output.data ≠ [])) && (sockets.lookup id).any (·.writable)

section
variable (r : ConnectionRegistry) (sockets : Finmap fun _ : Nat => Socket) (backlog wakeup : Nat)

def PollEvent.promises : PollEvent → Bool
  | .wakeup => 0 < wakeup
  | .listener => 0 < backlog
  | .client fd true _ _ => r.isOpen fd
  | .client fd false readable writable =>
    (readable && readPromise r sockets fd) || (writable && writePromise r sockets fd)

def Task.promises : Task → Bool
  | .events batch => batch.any (PollEvent.promises r sockets backlog wakeup)
  | .accept => 0 < backlog
  | .readable id => readPromise r sockets id
  | .read id g => (r.find id g).isSome && readPromise r sockets id
  | .writable id => writePromise r sockets id
  | .write id g => (r.find id g).isSome && writePromise r sockets id
  | .process _ _ | .drain => false

end

/-- An upper bound for the steps of a task that does nothing else. -/
def Task.weight : Task → Nat
  | .events batch => 1 + 8 * batch.length
  | .readable _ => 4
  | .read _ _ => 3
  | .writable _ => 2
  | _ => 1

/-! ### The measures -/

namespace Host
variable {P : Platform}

def running (h : Host P) : Nat := (!h.system.loop.exited).toNat

def unaccepted (h : Host P) : Nat := h.kernel.backlog

def connected (h : Host P) : Nat := h.system.loop.registry.connections.keys.card

def unread (h : Host P) : Nat := Finmap.total (·.inbox.length) h.kernel.sockets

/-- A frame has at least four bytes and becomes one item of work. -/
def unanswered (h : Host P) : Nat :=
  2 * Finmap.total (·.input.data.length) h.system.loop.registry.connections + h.system.rank

def undelivered (h : Host P) : Nat := h.system.loop.completionQueue.items.length

def signalled (h : Host P) : Nat := (decide (0 < h.system.loop.wakeup)).toNat

def unsent (h : Host P) : Nat := Finmap.total (·.output.data.length) h.system.loop.registry.connections

/-- 1 if no pending task can act upon anything. -/
def aimless (h : Host P) : Nat :=
  (!h.system.loop.tasks.any (Task.promises h.system.loop.registry h.kernel.sockets h.kernel.backlog
    h.system.loop.wakeup)).toNat

def ahead (h : Host P) : Nat := (h.system.loop.tasks.map Task.weight).sum

/-- What the server uses up, the most important first. -/
def measures : List (Host P → Nat) :=
  [running, unaccepted, connected, unread, unanswered, undelivered, signalled, unsent, aimless, ahead]

end Host

/-! ### How the parts of the state change -/

section
variable {r r' : ConnectionRegistry} {id g fd : Nat} {c c' : Connection}

theorem ConnectionRegistry.mem_keys_iff : fd ∈ r.connections.keys ↔ r.isOpen fd = true :=
  Finmap.mem_keys.trans Finmap.lookup_isSome.symm

theorem ConnectionRegistry.card_congr (h : ∀ fd, r'.isOpen fd = r.isOpen fd) :
    r'.connections.keys.card = r.connections.keys.card := by
  congr 1
  ext fd
  rw [mem_keys_iff, mem_keys_iff, h]

theorem ConnectionRegistry.card_close (hopen : r.isOpen fd = true)
    (h : ∀ fd', r'.isOpen fd' = (decide (fd' ≠ fd) && r.isOpen fd')) :
    r'.connections.keys.card < r.connections.keys.card := by
  have herase : r'.connections.keys = r.connections.keys.erase fd := by
    ext fd'
    rw [Finset.mem_erase, mem_keys_iff, mem_keys_iff, h, Bool.and_eq_true, decide_eq_true_eq]
  rw [herase]
  exact Finset.card_erase_lt_of_mem (mem_keys_iff.mpr hopen)

theorem ConnectionRegistry.total_put (f : Connection → Nat) (h : r.find id g = some c) (c' : Connection) :
    Finmap.total f (r.put id c').connections + f c = Finmap.total f r.connections + f c' :=
  Finmap.total_insert_add f c' (find_eq_some_iff.mp h).1

end

namespace Kernel
variable {k : Kernel} {fd : Nat} {s : Socket}

theorem total_update (f : Socket → Nat) (h : k.sockets.lookup fd = some s) (g : Socket → Socket) :
    Finmap.total f (k.update fd g).sockets + f s = Finmap.total f k.sockets + f (g s) := by
  unfold update
  rw [h]
  exact Finmap.total_insert_add f (g s) h

theorem epollMod_kept (k : Kernel) (fd : Nat) (out : Bool) :
    (k.run [.epollMod fd out]).sockets = k.sockets ∧ (k.run [.epollMod fd out]).backlog = k.backlog := by
  show (k.call (.epollMod fd out)).sockets = _ ∧ (k.call (.epollMod fd out)).backlog = _
  unfold call
  dsimp only
  split_ifs <;> exact ⟨rfl, rfl⟩

end Kernel

/-! ### Steps of the loop -/

section
variable {P : Platform} {cfg : EventLoopConfig} {s : System P} {k k' : Kernel} {l' : LoopState} {io : Io}
  {evs : List Event}

/-- Right after `epoll_wait` every event can be acted upon; for `EPOLLOUT` this is `InterestInv`. -/
theorem promises_of_reports {l : LoopState} (hinv : HostInv l k) (ht : l.tasks = []) {event : PollEvent}
    (h : k.reports l.wakeup event = true) :
    event.promises l.registry k.sockets k.backlog l.wakeup = true := by
  cases event with
  | wakeup => exact h
  | listener => exact h
  | client fd hangup readable writable =>
    unfold Kernel.reports at h
    dsimp only at h
    cases hout : k.interest.lookup fd with
    | none => rw [hout] at h; cases h
    | some out =>
      cases hs : k.sockets.lookup fd with
      | none => rw [hout, hs] at h; cases h
      | some s =>
        rw [hout, hs] at h
        obtain ⟨-, hread, hwrite, hany⟩ := of_decide_eq_true h
        have hopen : l.registry.isOpen fd = true := by
          rw [← hinv.descriptors.sockets fd, hs]; rfl
        obtain ⟨c, hc⟩ := ConnectionRegistry.findCurrent_of_isOpen hopen
        cases hangup with
        | true => exact hopen
        | false =>
          rw [Bool.false_or, Bool.or_eq_true] at hany
          rcases hany with rfl | rfl
          · simp [PollEvent.promises, readPromise, hopen, hs, ← hread]
          · have hboth : out = true ∧ s.writable = true := by simpa using hwrite.symm
            have hinterest := (hinv.interest fd c hc).resolve_left (by rw [ht]; exact id)
            rw [hout, hboth.1, Option.some.injEq, eq_comm, decide_eq_true_eq] at hinterest
            simp [PollEvent.promises, writePromise, hc, hinterest, hs, hboth.2]

/-- A step that only works on the stack: what its task could act upon, the tasks in its place can. -/
theorem tasks_descend {task : Task} {rest : List Task} (new : List Task) (ht : s.loop.tasks = task :: rest)
    (hl' : l' = { s.loop with tasks := new ++ rest }) (hk : k'.sockets = k.sockets ∧ k'.backlog = k.backlog)
    (hpromise : task.promises s.loop.registry k.sockets k.backlog s.loop.wakeup = true →
      new.any (Task.promises s.loop.registry k.sockets k.backlog s.loop.wakeup) = true)
    (hweight : (new.map Task.weight).sum < task.weight) :
    Descends Host.measures (⟨s, k⟩ : Host P) ⟨{ s with loop := l' }, k'⟩ := by
  subst hl'
  have hunread : Host.unread (⟨{ s with loop := { s.loop with tasks := new ++ rest } }, k'⟩ : Host P) =
      Host.unread (⟨s, k⟩ : Host P) := by
    unfold Host.unread
    rw [hk.1]
  have haimless : Host.aimless (⟨{ s with loop := { s.loop with tasks := new ++ rest } }, k'⟩ : Host P) ≤
      Host.aimless (⟨s, k⟩ : Host P) := by
    unfold Host.aimless
    dsimp only
    rw [hk.1, hk.2, ht, List.any_append, List.any_cons]
    cases htask : task.promises s.loop.registry k.sockets k.backlog s.loop.wakeup with
    | true => rw [hpromise htask]
    | false =>
      rw [Bool.false_or]
      cases rest.any _
      · exact Bool.toNat_le _
      · simp
  have hahead : Host.ahead (⟨{ s with loop := { s.loop with tasks := new ++ rest } }, k'⟩ : Host P) <
      Host.ahead (⟨s, k⟩ : Host P) := by
    unfold Host.ahead
    dsimp only
    rw [ht, List.map_append, List.sum_append, List.map_cons, List.sum_cons]
    omega
  exact .inr ⟨le_rfl, .inr ⟨hk.2.le, .inr ⟨le_rfl, .inr ⟨hunread.le, .inr ⟨le_rfl, .inr ⟨le_rfl, .inr ⟨le_rfl,
    .inr ⟨le_rfl, .inr ⟨haimless, .inl hahead⟩⟩⟩⟩⟩⟩⟩⟩⟩

theorem KernelMove.backlog_le {l : LoopState} {calls : List KernelCall} (h : KernelMove l l' calls) (k : Kernel) :
    (k.run calls).backlog ≤ k.backlog := by
  cases h with
  | silent _ => exact le_rfl
  | accept _ _ => exact Nat.sub_le _ _
  | refuse _ _ => exact Nat.sub_le _ _
  | recv _ => exact (k.backlog_update _ _).le
  | send _ => exact (k.backlog_update _ _).le
  | interest _ _ _ => exact (k.epollMod_kept _ _).2.le
  | close _ _ hsends =>
    rw [Kernel.run_append]
    exact (Kernel.run_sends hsends k).2.2.le

theorem running_le (hexited : s.loop.exited = false) :
    Host.running (⟨{ s with loop := l' }, k'⟩ : Host P) ≤ Host.running (⟨s, k⟩ : Host P) := by
  unfold Host.running
  dsimp only
  rw [hexited]
  exact Bool.toNat_le _

/-- A step of the loop that leaves the sockets alone takes something off what has to be answered or delivered. -/
theorem answer_descends (hexited : s.loop.exited = false)
    (hopen : ∀ fd, l'.registry.isOpen fd = s.loop.registry.isOpen fd) (hwork : Descends
      [Host.unanswered, Host.undelivered] (⟨s, k⟩ : Host P) ⟨{ s with loop := l' }, k⟩) :
    Descends Host.measures (⟨s, k⟩ : Host P) ⟨{ s with loop := l' }, k⟩ := by
  refine .inr ⟨running_le hexited, .inr ⟨le_rfl, .inr ⟨(ConnectionRegistry.card_congr hopen).le, .inr ⟨le_rfl, ?_⟩⟩⟩⟩
  rcases hwork with hlt | ⟨hle, hlt | ⟨-, hfalse⟩⟩
  · exact .inl hlt
  · exact .inr ⟨hle, .inl hlt⟩
  · exact hfalse.elim

/-- Taking a frame off a connection's input pays for the item it becomes. -/
theorem unanswered_takeFrame {id g n : Nat} {c c' : Connection} {l : LoopState} (hf : l.registry.find id g = some c)
    (hn : (parseCommand c.input.data).consumed = some n) (hinput : c'.input = (c.takeFrame n).input) :
    2 * Finmap.total (·.input.data.length) (l.registry.put id c').connections + 8 ≤
      2 * Finmap.total (·.input.data.length) l.registry.connections := by
  have htotal := ConnectionRegistry.total_put (·.input.data.length) hf c'
  have hlen : c'.input.data.length = c.input.data.length - n := by
    rw [hinput]
    exact List.length_drop
  obtain ⟨hfour, hle⟩ := consumed_bounds hn
  omega

theorem close_descends {id g : Nat} {c : Connection} (hstep : s.loop.step cfg io = some (l', evs))
    (hf : s.loop.registry.find id g = some c)
    (hafter : ∀ fd, l'.registry.isOpen fd = (decide (fd ≠ id) && s.loop.registry.isOpen fd)) :
    Descends Host.measures (⟨s, k⟩ : Host P) ⟨{ s with loop := l' }, k.run (s.loop.calls cfg io)⟩ := by
  have hbacklog := (kernelMove_of_step hstep).backlog_le k
  have hcard := ConnectionRegistry.card_close (ConnectionRegistry.isOpen_of_find hf) hafter
  exact .inr ⟨running_le (loopMove_of_step hstep).1, .inr ⟨hbacklog, .inl hcard⟩⟩

theorem silent_descends {task : Task} {rest : List Task} (new : List Task) (ht : s.loop.tasks = task :: rest)
    (hcalls : s.loop.calls cfg io = []) (hl' : l' = { s.loop with tasks := new ++ rest })
    (hpromise : task.promises s.loop.registry k.sockets k.backlog s.loop.wakeup = true →
      new.any (Task.promises s.loop.registry k.sockets k.backlog s.loop.wakeup) = true)
    (hweight : (new.map Task.weight).sum < task.weight) :
    Descends Host.measures (⟨s, k⟩ : Host P) ⟨{ s with loop := l' }, k.run (s.loop.calls cfg io)⟩ := by
  rw [hcalls]
  exact tasks_descend new ht hl' ⟨rfl, rfl⟩ hpromise hweight

/-! #### `run` and its batches -/

/-- `epoll_wait` reports something that can be acted upon. -/
theorem poll_descends (hinv : HostInv s.loop k) (hanswers : k.answers s.loop io = true) (ht : s.loop.tasks = [])
    (hstop : s.loop.stopRequested = false) {batch : List PollEvent} (hio : io.poll = .events batch) :
    Descends Host.measures (⟨s, k⟩ : Host P)
      ⟨{ s with loop := { s.loop with tasks := [.events batch] } }, k.run (s.loop.calls cfg io)⟩ := by
  have hcalls : s.loop.calls cfg io = [] := by simp only [LoopState.calls, ht]
  simp only [Kernel.answers, ht, hstop, hio, Bool.false_or, Bool.and_eq_true, decide_eq_true_eq,
    List.all_eq_true] at hanswers
  obtain ⟨hne, hall⟩ := hanswers
  obtain ⟨event, hevent⟩ := List.exists_mem_of_ne_nil batch hne
  have hany : batch.any (PollEvent.promises s.loop.registry k.sockets k.backlog s.loop.wakeup) = true :=
    List.any_eq_true.mpr ⟨event, hevent, promises_of_reports hinv ht (hall event hevent)⟩
  have haimless : Host.aimless (⟨{ s with loop := { s.loop with tasks := [.events batch] } }, k⟩ : Host P) <
      Host.aimless (⟨s, k⟩ : Host P) := by
    simp [Host.aimless, Task.promises, ht, hany]
  rw [hcalls]
  exact .inr ⟨le_rfl, .inr ⟨le_rfl, .inr ⟨le_rfl, .inr ⟨le_rfl, .inr ⟨le_rfl, .inr ⟨le_rfl, .inr ⟨le_rfl,
    .inr ⟨le_rfl, .inl haimless⟩⟩⟩⟩⟩⟩⟩⟩

section
variable {batch : List PollEvent} {rest : List Task}

theorem wakeup_descends (ht : s.loop.tasks = .events (.wakeup :: batch) :: rest) :
    Descends Host.measures (⟨s, k⟩ : Host P)
      ⟨{ s with loop := { s.loop with wakeup := 0, tasks := .drain :: .events batch :: rest } },
        k.run (s.loop.calls cfg io)⟩ := by
  have hcalls : s.loop.calls cfg io = [] := by simp only [LoopState.calls, ht]
  rcases Nat.eq_zero_or_pos s.loop.wakeup with hzero | hpos
  · refine silent_descends [.drain, .events batch] ht hcalls (by rw [← hzero]; rfl) ?_ ?_
    · simp [Task.promises, PollEvent.promises, hzero]
    · simp [Task.weight]; omega
  · have hsignal : Host.signalled
        (⟨{ s with loop := { s.loop with wakeup := 0, tasks := .drain :: .events batch :: rest } }, k⟩ : Host P) <
        Host.signalled (⟨s, k⟩ : Host P) := by
      simp [Host.signalled, hpos]
    rw [hcalls]
    exact .inr ⟨le_rfl, .inr ⟨le_rfl, .inr ⟨le_rfl, .inr ⟨le_rfl, .inr ⟨le_rfl, .inr ⟨le_rfl, .inl hsignal⟩⟩⟩⟩⟩⟩

theorem listener_descends (ht : s.loop.tasks = .events (.listener :: batch) :: rest) :
    Descends Host.measures (⟨s, k⟩ : Host P)
      ⟨{ s with loop := { s.loop with tasks := .accept :: .events batch :: rest } }, k.run (s.loop.calls cfg io)⟩ := by
  refine silent_descends [.accept, .events batch] ht (by simp only [LoopState.calls, ht]) rfl ?_ ?_
  · simp [Task.promises, PollEvent.promises]
  · simp [Task.weight]; omega

theorem client_descends {fd : Nat} {r w : Bool} (ht : s.loop.tasks = .events (.client fd false r w :: batch) :: rest) :
    Descends Host.measures (⟨s, k⟩ : Host P)
      ⟨{ s with loop := { s.loop with
          tasks := (if r then [.readable fd] else []) ++ (if w then [.writable fd] else []) ++ .events batch :: rest } },
        k.run (s.loop.calls cfg io)⟩ := by
  refine silent_descends ((if r then [.readable fd] else []) ++ (if w then [.writable fd] else []) ++ [.events batch])
    ht (by simp only [LoopState.calls, ht]) (by simp) ?_ ?_
  · cases r <;> cases w <;> simp [Task.promises, PollEvent.promises, or_assoc]
  · cases r <;> cases w <;> simp [Task.weight] <;> omega

/-! #### `handle_listener_readable` -/

theorem accepted_descends (hexited : s.loop.exited = false) (hanswers : k.answers s.loop io = true) {fd : Nat}
    {registered : Bool} (ht : s.loop.tasks = .accept :: rest) (hio : io.accept = .client fd registered) :
    Descends Host.measures (⟨s, k⟩ : Host P) ⟨{ s with loop := l' }, k.run (s.loop.calls cfg io)⟩ := by
  simp only [Kernel.answers, ht, hio, Bool.and_eq_true, decide_eq_true_eq] at hanswers
  have hbacklog : (k.run (s.loop.calls cfg io)).backlog = k.backlog - 1 := by
    cases registered <;> simp only [LoopState.calls, ht, hio, LoopState.acceptCalls] <;> rfl
  refine .inr ⟨running_le hexited, .inl ?_⟩
  show (k.run (s.loop.calls cfg io)).backlog < k.backlog
  rw [hbacklog]
  exact Nat.sub_lt hanswers.1 Nat.one_pos

end

section
variable {id g : Nat} {c c' : Connection} {rest : List Task}

theorem gone_descends {task : Task} (ht : s.loop.tasks = task :: rest) (hgone : task.Gone s.loop.registry) :
    Descends Host.measures (⟨s, k⟩ : Host P)
      ⟨{ s with loop := { s.loop with tasks := rest } }, k.run (s.loop.calls cfg io)⟩ := by
  cases hgone with
  | readable hnone =>
    refine silent_descends [] ht (by simp only [LoopState.calls, ht]) rfl ?_ (by simp [Task.weight])
    simp [Task.promises, readPromise, ConnectionRegistry.isOpen_of_none hnone]
  | writable hnone =>
    refine silent_descends [] ht (by simp only [LoopState.calls, ht]) rfl ?_ (by simp [Task.weight])
    simp [Task.promises, writePromise, hnone]
  | read hnone | process hnone | write hnone =>
    refine silent_descends [] ht (by simp only [LoopState.calls, ht, hnone]) rfl ?_ (by simp [Task.weight])
    simp [Task.promises, hnone]

theorem HostInv.socket_of_find {l : LoopState} (hinv : HostInv l k) (hf : l.registry.find id g = some c) :
    ∃ sock, k.sockets.lookup id = some sock :=
  Option.isSome_iff_exists.mp ((hinv.descriptors.sockets id).trans (ConnectionRegistry.isOpen_of_find hf))

/-! #### `handle_connection_readable` -/

theorem received_descends (hinv : HostInv s.loop k) (hexited : s.loop.exited = false)
    (hanswers : k.answers s.loop io = true) (ht : s.loop.tasks = .read id g :: rest)
    (hf : s.loop.registry.find id g = some c) {chunk : Bytes} (hrecv : io.recv = .bytes chunk) (hne : chunk ≠ [])
    (hlen : chunk.length ≤ min (c.input.capacity - c.input.data.length) kReadChunkSize) (input : BoundedBuffer)
    (tasks : List Task) :
    Descends Host.measures (⟨s, k⟩ : Host P)
      ⟨{ s with loop := { s.loop with registry := s.loop.registry.put id { c with input }, tasks } },
        k.run (s.loop.calls cfg io)⟩ := by
  obtain ⟨sock, hsock⟩ := hinv.socket_of_find hf
  simp only [Kernel.answers, ht, hsock, Option.all_some, Socket.recvs, hrecv, Bool.and_eq_true,
    List.isPrefixOf_iff_prefix] at hanswers
  rw [received_calls ht hf hrecv hne hlen]
  have hcard : (s.loop.registry.put id { c with input }).connections.keys.card =
      s.loop.registry.connections.keys.card := ConnectionRegistry.card_congr (ConnectionRegistry.isOpen_put hf)
  have htotal := k.total_update (·.inbox.length) hsock fun s => { s with inbox := s.inbox.drop chunk.length }
  have hle := hanswers.2.length_le
  have hpos := List.length_pos_iff.mpr hne
  simp only [List.length_drop] at htotal
  refine .inr ⟨running_le hexited, .inr ⟨(k.backlog_update _ _).le, .inr ⟨hcard.le, .inl ?_⟩⟩⟩
  show Finmap.total _ (k.update id _).sockets < Finmap.total _ k.sockets
  omega

/-- `recv` has nothing only if the task had nothing to act upon. -/
theorem readBlocked_descends (hanswers : k.answers s.loop io = true) (ht : s.loop.tasks = .read id g :: rest)
    (hf : s.loop.registry.find id g = some c) (hroom : ¬ c.input.capacity - c.input.data.length = 0)
    (hrecv : io.recv = .wouldBlock) :
    Descends Host.measures (⟨s, k⟩ : Host P)
      ⟨{ s with loop := { s.loop with tasks := .writable id :: rest } }, k.run (s.loop.calls cfg io)⟩ := by
  refine silent_descends [.writable id] ht ?_ rfl (fun hpromise => ?_) (by simp [Task.weight])
  · simp only [LoopState.calls, ht, hf, LoopState.readCalls, if_neg hroom, hrecv]
  · simp only [Kernel.answers, ht, hrecv, Socket.recvs] at hanswers
    simp only [Task.promises, readPromise, Bool.and_eq_true] at hpromise
    obtain ⟨sock, hsock, hreadable⟩ := (Option.any_eq_true _ _).mp hpromise.2.2
    rw [hsock, Option.all_some, hreadable] at hanswers
    cases hanswers

/-! #### `process_input` -/

theorem process_calls_eq_nil (hstep : s.loop.step cfg io = some (l', evs)) (ht : s.loop.tasks = .process id g :: rest)
    (hf : s.loop.registry.find id g = some c) (hopen : l'.registry.isOpen id = true) : s.loop.calls cfg io = [] := by
  rcases process_calls hstep ht hf with ⟨hnil, -⟩ | ⟨-, -, -, hclosed⟩
  · exact hnil
  · rw [hclosed] at hopen
    simp at hopen

/-- A frame leaves the input and becomes an item or a reply; `hrank` is what it costs elsewhere. -/
theorem frame_descends (hstep : s.loop.step cfg io = some (l', evs)) (ht : s.loop.tasks = .process id g :: rest)
    (hf : s.loop.registry.find id g = some c) {n : Nat} (hn : (parseCommand c.input.data).consumed = some n)
    (hinput : c'.input = (c.takeFrame n).input) (hreg : l'.registry = s.loop.registry.put id c')
    (hrank : ({ s with loop := l' } : System P).rank < s.rank + 8) :
    Descends Host.measures (⟨s, k⟩ : Host P) ⟨{ s with loop := l' }, k.run (s.loop.calls cfg io)⟩ := by
  have hopen : ∀ fd, l'.registry.isOpen fd = s.loop.registry.isOpen fd := by
    rw [hreg]
    exact ConnectionRegistry.isOpen_put hf
  have htaken := unanswered_takeFrame hf hn hinput
  rw [process_calls_eq_nil hstep ht hf ((hopen id).trans (ConnectionRegistry.isOpen_of_find hf))]
  refine answer_descends (loopMove_of_step hstep).1 hopen (.inl ?_)
  unfold Host.unanswered
  dsimp only
  rw [hreg]
  omega

/-! #### `handle_connection_writable` -/

theorem writeDone_descends (hanswers : k.answers s.loop io = true) (ht : s.loop.tasks = .write id g :: rest)
    (hf : s.loop.registry.find id g = some c) (hwhy : c.output.data = [] ∨ io.send = .wouldBlock) :
    Descends Host.measures (⟨s, k⟩ : Host P)
      ⟨{ s with loop := { s.loop with tasks := rest } }, k.run (s.loop.calls cfg io)⟩ := by
  rw [writeDone_calls ht hf hwhy]
  refine tasks_descend [] ht rfl (k.epollMod_kept _ _) (fun hpromise => ?_) (by simp [Task.weight])
  simp only [Task.promises, writePromise, (ConnectionRegistry.find_eq_some_iff.mp hf).1, Bool.and_eq_true,
    Option.any_some, decide_eq_true_eq] at hpromise
  obtain ⟨-, hne, hany⟩ := hpromise
  obtain ⟨sock, hsock, hwritable⟩ := (Option.any_eq_true _ _).mp hany
  simp only [Kernel.answers, ht, hsock, Option.all_some, hwhy.resolve_left hne, Socket.sends, hwritable] at hanswers
  cases hanswers

theorem sent_descends (hinv : HostInv s.loop k) (hexited : s.loop.exited = false)
    (ht : s.loop.tasks = .write id g :: rest) (hf : s.loop.registry.find id g = some c) {n : Nat}
    (hsend : io.send = .wrote n) (hpos : 0 < n) (hle : n ≤ c.output.data.length) :
    Descends Host.measures (⟨s, k⟩ : Host P)
      ⟨{ s with loop := { s.loop with registry := s.loop.registry.put id { c with output := c.output.consume n } } },
        k.run (s.loop.calls cfg io)⟩ := by
  obtain ⟨sock, hsock⟩ := hinv.socket_of_find hf
  rw [sent_calls ht hf hsend hpos hle]
  have hunread := k.total_update (·.inbox.length) hsock fun s => { s with room := s.room - n }
  have hinput := ConnectionRegistry.total_put (·.input.data.length) hf { c with output := c.output.consume n }
  have houtput := ConnectionRegistry.total_put (·.output.data.length) hf { c with output := c.output.consume n }
  have hlen : (c.output.consume n).data.length = c.output.data.length - n := List.length_drop
  dsimp only at hunread hinput houtput
  have hcard : (s.loop.registry.put id { c with output := c.output.consume n }).connections.keys.card =
      s.loop.registry.connections.keys.card := ConnectionRegistry.card_congr (ConnectionRegistry.isOpen_put hf)
  refine .inr ⟨running_le hexited, .inr ⟨(k.backlog_update _ _).le, .inr ⟨hcard.le, .inr ⟨?_, .inr ⟨?_, .inr ⟨le_rfl,
    .inr ⟨le_rfl, .inl ?_⟩⟩⟩⟩⟩⟩⟩
  · show Finmap.total _ (k.update id _).sockets ≤ Finmap.total _ k.sockets
    omega
  · simp only [Host.unanswered, System.rank]
    omega
  · simp only [Host.unsent]
    omega

/-! #### `drain_completions` -/

theorem stale_descends (hexited : s.loop.exited = false) {completion : Completion} {queue : List Completion}
    (ht : s.loop.tasks = .drain :: rest) (hitems : s.loop.completionQueue.items = completion :: queue)
    (hnone : s.loop.registry.find completion.connectionId completion.connectionGeneration = none) :
    Descends Host.measures (⟨s, k⟩ : Host P)
      ⟨{ s with loop := { s.loop with completionQueue := s.loop.completionQueue.dequeue } },
        k.run (s.loop.calls cfg io)⟩ := by
  have hcalls : s.loop.calls cfg io = [] := by
    simp only [LoopState.calls, ht, LoopState.drainCalls, BoundedQueue.tryPop, hitems, hnone]
  rw [hcalls]
  refine answer_descends hexited (fun _ => rfl) (.inr ⟨le_rfl, .inl ?_⟩)
  simp [Host.undelivered, hitems]

theorem complete_descends (hexited : s.loop.exited = false) {completion : Completion} {queue : List Completion}
    (ht : s.loop.tasks = .drain :: rest) (hitems : s.loop.completionQueue.items = completion :: queue)
    (hf : s.loop.registry.find completion.connectionId completion.connectionGeneration = some c)
    (hresp : c.respond completion.sequence completion.response = (c', true)) (tasks : List Task) :
    Descends Host.measures (⟨s, k⟩ : Host P)
      ⟨{ s with loop := { s.loop with
          registry := s.loop.registry.put completion.connectionId c'
          completionQueue := s.loop.completionQueue.dequeue
          tasks } }, k.run (s.loop.calls cfg io)⟩ := by
  have hcalls : s.loop.calls cfg io = [] := by
    simp only [LoopState.calls, ht, LoopState.drainCalls, BoundedQueue.tryPop, hitems, hf, hresp, if_true]
  have hinput := ConnectionRegistry.total_put (·.input.data.length) hf c'
  rw [respond_input hresp] at hinput
  rw [hcalls]
  refine answer_descends hexited (ConnectionRegistry.isOpen_put hf) (.inr ⟨?_, .inl ?_⟩)
  · simp only [Host.unanswered, System.rank]
    omega
  · simp [Host.undelivered, hitems]

end

theorem loop_descends (hinv : HostInv s.loop k) (hanswers : k.answers s.loop io = true)
    (hstep : s.loop.step cfg io = some (l', evs)) :
    Descends Host.measures (⟨s, k⟩ : Host P) ⟨{ s with loop := l' }, k.run (s.loop.calls cfg io)⟩ := by
  obtain ⟨hexited, hmove⟩ := loopMove_of_step hstep
  cases hmove with
  | stop _ _ =>
    refine .inl ?_
    simp [Host.running, hexited]
  | interrupted ht hstop hio => simp [Kernel.answers, ht, hstop, hio] at hanswers
  | pollFailed ht hstop hio => simp [Kernel.answers, ht, hstop, hio] at hanswers
  | poll ht hstop hio => exact poll_descends hinv hanswers ht hstop hio
  | batchDone ht =>
    exact silent_descends [] ht (by simp only [LoopState.calls, ht]) rfl (by simp [Task.promises])
      (by simp [Task.weight])
  | wakeup ht => exact wakeup_descends ht
  | listener ht => exact listener_descends ht
  | client ht => exact client_descends ht
  | @hangupGone fd r w batch rest ht hnone =>
    refine silent_descends [.events batch] ht (by simp only [LoopState.calls, ht, hnone]) rfl ?_ ?_
    · simp [Task.promises, PollEvent.promises, ConnectionRegistry.isOpen_of_none hnone]
    · simp [Task.weight]
  | hangup ht hcur _ =>
    have hf := ConnectionRegistry.find_eq_some_iff.mpr ⟨hcur, rfl⟩
    exact close_descends hstep hf (ConnectionRegistry.isOpen_close hf)
  | acceptRetry ht hio => simp [Kernel.answers, ht, hio] at hanswers
  | acceptFailed ht hio => simp [Kernel.answers, ht, hio] at hanswers
  | acceptDone ht hio =>
    simp only [Kernel.answers, ht, hio, decide_eq_true_eq] at hanswers
    refine silent_descends [] ht (by simp only [LoopState.calls, ht, hio, LoopState.acceptCalls]) rfl ?_ ?_
    · simp [Task.promises, hanswers]
    · simp [Task.weight]
  | accept ht hio _ => exact accepted_descends hexited hanswers ht hio
  | acceptUnregistered ht hio _ => exact accepted_descends hexited hanswers ht hio
  | @readable id rest c ht hcur =>
    refine silent_descends [.read id c.generation] ht (by simp only [LoopState.calls, ht]) rfl ?_ ?_
    · simp [Task.promises, ConnectionRegistry.find_eq_some_iff.mpr ⟨hcur, rfl⟩]
    · simp [Task.weight]
  | @writable id rest c ht hcur =>
    refine silent_descends [.write id c.generation] ht (by simp only [LoopState.calls, ht]) rfl ?_ ?_
    · simp [Task.promises, ConnectionRegistry.find_eq_some_iff.mpr ⟨hcur, rfl⟩]
    · simp [Task.weight]
  | gone ht hgone => exact gone_descends ht hgone
  | readFull ht hf _ _ => exact close_descends hstep hf (ConnectionRegistry.isOpen_close hf)
  | received ht hf hrecv hne hlen _ => exact received_descends hinv hexited hanswers ht hf hrecv hne hlen _ _
  | readBlocked ht hf hroom hrecv => exact readBlocked_descends hanswers ht hf hroom hrecv
  | readEnded ht hf _ _ _ => exact close_descends hstep hf (ConnectionRegistry.isOpen_close hf)
  | processDone ht hf _ =>
    have hcalls := process_calls_eq_nil hstep ht hf (ConnectionRegistry.isOpen_of_find hf)
    exact silent_descends [] ht hcalls rfl (by simp [Task.promises]) (by simp [Task.weight])
  | handOver hroom ht hf _ _ hp =>
    refine frame_descends hstep ht hf (by rw [hp]; rfl) rfl rfl ?_
    simp only [System.rank, BoundedQueue.items_enqueue, List.length_append, List.length_singleton]
    omega
  | answer ht hf _ hown hresp _ =>
    exact frame_descends hstep ht hf hown.consumed.2 (respond_input hresp) rfl (Nat.lt_add_of_pos_right (by decide))
  | answerClose ht hf _ _ hresp _ _ _ =>
    have hgen := (respond_id_generation hresp).2.trans (ConnectionRegistry.find_eq_some_iff.mp hf).2
    exact close_descends hstep hf (ConnectionRegistry.isOpen_put_close hf hgen)
  | writeDone ht hf hwhy => exact writeDone_descends hanswers ht hf hwhy
  | sent ht hf hsend hpos hle => exact sent_descends hinv hexited ht hf hsend hpos hle
  | writeFailed ht hf _ _ _ => exact close_descends hstep hf (ConnectionRegistry.isOpen_close hf)
  | drained ht hnil =>
    refine silent_descends [] ht ?_ rfl (by simp [Task.promises]) (by simp [Task.weight])
    simp only [LoopState.calls, ht, LoopState.drainCalls, BoundedQueue.tryPop, hnil]
  | stale ht hitems hnone => exact stale_descends hexited ht hitems hnone
  | complete ht hitems hf hresp => exact complete_descends hexited ht hitems hf hresp _
  | overflow ht _ hf hresp _ =>
    have hgen := (respond_id_generation hresp).2.trans (ConnectionRegistry.find_eq_some_iff.mp hf).2
    exact close_descends hstep hf (ConnectionRegistry.isOpen_put_close hf hgen)

end

/-! ### Steps of the server's own -/

def Choice.isOwn : Choice → Bool
  | .loop _ | .worker _ => true
  | _ => false

section
variable {P : Platform}

/-- The loop or a worker takes a step; nobody else does anything. -/
def Host.OwnStep (cfg : EventLoopConfig) (h : Host P) (evs : List Event) (h' : Host P) : Prop :=
  ∃ choice, choice.isOwn = true ∧ h.serverStep cfg choice = some (h', evs)

/-- The server is up and nobody has begun to shut it down. -/
structure LoopState.Serving (l : LoopState) : Prop where
  running : l.exited = false
  asked : l.stopRequested = false
  work : l.workQueue.closed = false
  completions : l.completionQueue.closed = false

variable {cfg : EventLoopConfig} {h h' : Host P} {evs : List Event}

theorem LoopState.Serving.loopMove {l l' : LoopState} {k : Kernel} {io : Io} (hserving : l.Serving)
    (hanswers : k.answers l io = true) (hmove : LoopMove cfg l io evs l') : l'.Serving := by
  cases hmove with
  | stop _ hstop => rw [hserving.asked] at hstop; cases hstop
  | pollFailed ht hstop hio => simp [Kernel.answers, ht, hstop, hio] at hanswers
  | acceptFailed ht hio => simp [Kernel.answers, ht, hio] at hanswers
  | _ => exact ⟨hserving.running, hserving.asked, hserving.work, hserving.completions⟩

theorem Host.OwnStep.cases (hstep : Host.OwnStep cfg h evs h') :
    (∃ io, h.kernel.answers h.system.loop io = true ∧ h.system.loop.step cfg io = some (h'.system.loop, evs) ∧
        h' = ⟨{ h.system with loop := h'.system.loop }, h.kernel.run (h.system.loop.calls cfg io)⟩) ∨
      ∃ i w, h.system.workers[i]? = some w ∧ WorkerMove h.system i w evs h'.system ∧ h'.kernel = h.kernel := by
  obtain ⟨s', k'⟩ := h'
  obtain ⟨choice, hown, hstep⟩ := hstep
  obtain ⟨hsys, hkernel⟩ := Host.serverStep_cases hstep
  cases systemMove_of_step hsys with
  | @loop io l evs hl =>
    rcases hkernel with ⟨io', hio, hanswers, hk⟩ | ⟨hno, -⟩
    · cases hio
      exact .inl ⟨io, hanswers, hl, by rw [← hk]⟩
    · cases hno
  | @worker i w evs s' hw hworker =>
    rcases hkernel with ⟨io', hio, -, -⟩ | ⟨-, hk⟩
    · cases hio
    · exact .inr ⟨i, w, hw, hworker, hk⟩
  | _ => cases hown

theorem worker_descends {s s' : System P} {k : Kernel} {i : Nat} {w : Worker} (hw : s.workers[i]? = some w)
    (hmove : WorkerMove s i w evs s') : Descends Host.measures (⟨s, k⟩ : Host P) ⟨s', k⟩ := by
  have hrank := hmove.rank_lt hw
  obtain ⟨hkept, -⟩ := hmove.loopKept
  have hrunning : Host.running (⟨s', k⟩ : Host P) = Host.running (⟨s, k⟩ : Host P) := by
    unfold Host.running
    rw [hkept.exited]
  have hconnected : Host.connected (⟨s', k⟩ : Host P) = Host.connected (⟨s, k⟩ : Host P) := by
    unfold Host.connected
    rw [hkept.registry]
  refine .inr ⟨hrunning.le, .inr ⟨le_rfl, .inr ⟨hconnected.le, .inr ⟨le_rfl, .inl ?_⟩⟩⟩⟩
  unfold Host.unanswered
  dsimp only
  rw [hkept.registry]
  omega

theorem Host.OwnStep.descends (hinv : HostInv h.system.loop h.kernel) (hstep : Host.OwnStep cfg h evs h') :
    Descends Host.measures h h' := by
  obtain ⟨s, k⟩ := h
  obtain ⟨s', k'⟩ := h'
  rcases hstep.cases with ⟨io, hanswers, hl, heq⟩ | ⟨i, w, hw, hworker, rfl⟩
  · rw [heq]
    exact loop_descends hinv hanswers hl
  · exact worker_descends hw hworker

end

/-! ### A step is always possible -/

section
variable {cfg : EventLoopConfig} {l : LoopState} {k : Kernel}

theorem Socket.exists_recv (s : Socket) {room : Nat} (hroom : 0 < room) :
    ∃ r, s.recvs r = true ∧ ∀ chunk, r = .bytes chunk → chunk ≠ [] ∧ chunk.length ≤ room := by
  by_cases hbroken : s.broken = true
  · exact ⟨.failed, hbroken, nofun⟩
  rw [Bool.not_eq_true] at hbroken
  by_cases hinbox : s.inbox = []
  · cases hended : s.ended with
    | true => exact ⟨.closed, by simp [recvs, hinbox, hended, hbroken], nofun⟩
    | false => exact ⟨.wouldBlock, by simp [recvs, readable, hinbox, hended, hbroken], nofun⟩
  · refine ⟨.bytes (s.inbox.take room), ?_, ?_⟩
    · simp [recvs, hbroken, List.take_prefix]
    · rintro chunk hchunk
      cases hchunk
      refine ⟨fun hnil => ?_, List.length_take_le _ _⟩
      rcases List.take_eq_nil_iff.mp hnil with hzero | hnil
      · omega
      · exact hinbox hnil

theorem Socket.exists_send (s : Socket) {size : Nat} (hsize : 0 < size) :
    ∃ r, s.sends r = true ∧ ∀ n, r = .wrote n → 0 < n ∧ n ≤ size := by
  by_cases hbroken : s.broken = true
  · exact ⟨.failed, hbroken, nofun⟩
  rw [Bool.not_eq_true] at hbroken
  rcases Nat.eq_zero_or_pos s.room with hroom | hroom
  · exact ⟨.wouldBlock, by simp [sends, writable, hroom, hbroken], nofun⟩
  · refine ⟨.wrote (min s.room size), by simp [sends, hbroken], ?_⟩
    rintro n hn
    cases hn
    omega

theorem closing_isSome (l : LoopState) (id g : Nat) (tasks : List Task) (evs : List Event) :
    (l.closing id g .wouldBlock tasks evs).isSome = true := by
  unfold LoopState.closing closeConnection
  cases l.registry.find id g with
  | none => rfl
  | some c =>
    dsimp only
    split_ifs <;> rfl

theorem handleEvent_isSome (l : LoopState) (event : PollEvent) (tasks : List Task) :
    (l.handleEvent event tasks {}).isSome = true := by
  unfold LoopState.handleEvent
  rcases event with _ | _ | ⟨fd, _ | _, readable, writable⟩
  · rfl
  · rfl
  · rfl
  · dsimp only
    cases l.registry.findCurrent fd with
    | none => rfl
    | some c => exact closing_isSome l fd c.generation tasks []

theorem handleProcess_isSome (cfg : EventLoopConfig) (l : LoopState) (id g : Nat) (tasks : List Task) :
    (l.handleProcess cfg id g tasks {}).isSome = true := by
  unfold LoopState.handleProcess
  cases l.registry.find id g with
  | none => rfl
  | some c =>
    dsimp only
    cases (processInput cfg.maxInFlightPerConnection c l.workQueue).flow with
    | more => rfl
    | returnTrue => rfl
    | returnFalse => exact closing_isSome _ id g tasks _

theorem drainCompletions_isSome (l : LoopState) (tasks : List Task) : (l.drainCompletions tasks {}).isSome = true := by
  unfold LoopState.drainCompletions
  cases l.completionQueue.tryPop with
  | none => rfl
  | some r =>
    obtain ⟨completion, queue⟩ := r
    dsimp only
    cases l.registry.find completion.connectionId completion.connectionGeneration with
    | none => rfl
    | some c =>
      dsimp only
      split_ifs
      · rfl
      · exact closing_isSome _ _ _ _ []

theorem read_enabled (hinv : HostInv l k) {id g : Nat} (tasks : List Task) :
    ∃ recv, (k.sockets.lookup id).all (·.recvs recv) = true ∧
      (l.handleConnectionReadable id g tasks { recv }).isSome = true := by
  unfold LoopState.handleConnectionReadable
  cases hf : l.registry.find id g with
  | none =>
    cases hs : k.sockets.lookup id with
    | none => exact ⟨.wouldBlock, rfl, rfl⟩
    | some s =>
      obtain ⟨recv, hrecv, -⟩ := s.exists_recv Nat.one_pos
      exact ⟨recv, hrecv, rfl⟩
  | some c =>
    obtain ⟨s, hs⟩ := hinv.socket_of_find hf
    rw [hs]
    dsimp only
    rcases Nat.eq_zero_or_pos (c.input.capacity - c.input.data.length) with hfull | hroom
    · obtain ⟨recv, hrecv, -⟩ := s.exists_recv Nat.one_pos
      refine ⟨recv, hrecv, ?_⟩
      rw [if_pos hfull]
      exact closing_isSome l id g tasks []
    · have hmin : 0 < min (c.input.capacity - c.input.data.length) kReadChunkSize :=
        Nat.lt_min.mpr ⟨hroom, by decide⟩
      obtain ⟨recv, hrecv, hbytes⟩ := s.exists_recv hmin
      refine ⟨recv, hrecv, ?_⟩
      rw [if_neg (Nat.ne_of_gt hroom)]
      cases recv with
      | bytes chunk =>
        obtain ⟨hne, hlen⟩ := hbytes chunk rfl
        have hfits : c.input.data.length + chunk.length ≤ c.input.capacity := by omega
        obtain ⟨input, hinput⟩ := BoundedBuffer.exists_append hfits
        dsimp only
        rw [if_neg (by rw [not_or, not_lt]; exact ⟨hne, hlen⟩), hinput]
        rfl
      | wouldBlock => rfl
      | closed => exact closing_isSome l id g tasks []
      | failed => exact closing_isSome l id g tasks []

theorem write_enabled (hinv : HostInv l k) {id g : Nat} (tasks : List Task) :
    ∃ send, (k.sockets.lookup id).all (·.sends send) = true ∧
      (l.handleConnectionWritable id g tasks { send }).isSome = true := by
  unfold LoopState.handleConnectionWritable
  cases hf : l.registry.find id g with
  | none =>
    cases hs : k.sockets.lookup id with
    | none => exact ⟨.wouldBlock, rfl, rfl⟩
    | some s =>
      obtain ⟨send, hsend, -⟩ := s.exists_send Nat.one_pos
      exact ⟨send, hsend, rfl⟩
  | some c =>
    obtain ⟨s, hs⟩ := hinv.socket_of_find hf
    rw [hs]
    dsimp only
    by_cases hempty : c.output.data = []
    · obtain ⟨send, hsend, -⟩ := s.exists_send Nat.one_pos
      refine ⟨send, hsend, ?_⟩
      rw [if_pos hempty]
      rfl
    · obtain ⟨send, hsend, hwrote⟩ := s.exists_send (List.length_pos_iff.mpr hempty)
      refine ⟨send, hsend, ?_⟩
      rw [if_neg hempty]
      cases send with
      | wrote n =>
        dsimp only
        rw [if_pos (hwrote n rfl)]
        rfl
      | wouldBlock => rfl
      | failed => exact closing_isSome l id g tasks []

theorem accept_enabled (cfg : EventLoopConfig) (hinv : HostInv l k) {rest : List Task} (ht : l.tasks = .accept :: rest) :
    ∃ io, k.answers l io = true ∧ (l.handleListenerReadable cfg rest io).isSome = true := by
  rcases Nat.eq_zero_or_pos k.backlog with hzero | hpos
  · exact ⟨{}, by simp [Kernel.answers, ht, hzero], rfl⟩
  · obtain ⟨fd, hfd⟩ := Infinite.exists_notMem_finset k.sockets.keys
    have hnone : k.sockets.lookup fd = none := Finmap.lookup_eq_none.mpr fun hmem => hfd (Finmap.mem_keys.mpr hmem)
    have hclosed : l.registry.findCurrent fd = none := by
      have := hinv.descriptors.sockets fd
      rw [hnone] at this
      exact Option.isNone_iff_eq_none.mp (by rw [← Option.not_isSome, ← ConnectionRegistry.isOpen, ← this]; rfl)
    refine ⟨{ accept := .client fd true }, by simp [Kernel.answers, ht, hpos, hnone], ?_⟩
    simp [LoopState.handleListenerReadable, hclosed]

theorem loop_enabled (cfg : EventLoopConfig) (hinv : HostInv l k) (hrunning : l.exited = false) (htasks : l.tasks ≠ []) :
    ∃ io, k.answers l io = true ∧ (l.step cfg io).isSome = true := by
  obtain ⟨task, rest, ht⟩ := List.exists_cons_of_ne_nil htasks
  have hstep : ∀ io, l.step cfg io = _ := fun io => by
    unfold LoopState.step
    rw [hrunning, if_neg Bool.false_ne_true, ht]
  cases task with
  | events batch =>
    refine ⟨{}, by simp only [Kernel.answers, ht], ?_⟩
    rw [hstep]
    cases batch with
    | nil => rfl
    | cons event batch => exact handleEvent_isSome l event _
  | accept =>
    obtain ⟨io, hanswers, hsome⟩ := accept_enabled cfg hinv ht
    exact ⟨io, hanswers, by rw [hstep]; exact hsome⟩
  | readable id =>
    refine ⟨{}, by simp only [Kernel.answers, ht], ?_⟩
    rw [hstep]
    dsimp only
    cases l.registry.findCurrent id <;> rfl
  | read id g =>
    obtain ⟨recv, hrecv, hsome⟩ := read_enabled hinv rest
    exact ⟨{ recv }, by simpa only [Kernel.answers, ht] using hrecv, by rw [hstep]; exact hsome⟩
  | process id g =>
    refine ⟨{}, by simp only [Kernel.answers, ht], ?_⟩
    rw [hstep]
    exact handleProcess_isSome cfg l id g rest
  | writable id =>
    refine ⟨{}, by simp only [Kernel.answers, ht], ?_⟩
    rw [hstep]
    dsimp only
    cases l.registry.findCurrent id <;> rfl
  | write id g =>
    obtain ⟨send, hsend, hsome⟩ := write_enabled hinv rest
    exact ⟨{ send }, by simpa only [Kernel.answers, ht] using hsend, by rw [hstep]; exact hsome⟩
  | drain =>
    refine ⟨{}, by simp only [Kernel.answers, ht], ?_⟩
    rw [hstep]
    exact drainCompletions_isSome l rest

end

/-! ### A server at rest -/

section
variable {P : Platform}

/-- Everything that arrived on an open connection has been answered, and sent as far as the peer takes it. -/
structure Host.Settled (log : List Event) (h : Host P) : Prop where
  accepted : h.kernel.backlog = 0
  worked : h.system.loop.workQueue.items = [] ∧ h.system.loop.completionQueue.items = []
  /-- No request is left in a buffer, and the replies to all frames that were taken are sent or in the output. -/
  answered : ∀ id c, h.system.loop.registry.findCurrent id = some c →
    parseCommand c.input.data = .needMoreData ∧
      StreamOk log c.generation (framesOf c.generation log).length c.output.data
  /-- What the peer sent was read, output waits only for a peer that does not take it, and a peer that has gone
  has no connection. -/
  delivered : ∀ id c, h.system.loop.registry.findCurrent id = some c → ∃ s, h.kernel.sockets.lookup id = some s ∧
    s.inbox = [] ∧ (c.output.data = [] ∨ s.room = 0) ∧ s.ended = false ∧ s.broken = false

variable {cfg : ServerConfig} {store : Store P} {clock : Int} {log : List Event} {h : Host P}

theorem Host.OwnStep.of_loop {cfg : EventLoopConfig} {io : Io} (hanswers : h.kernel.answers h.system.loop io = true)
    (hstep : (h.system.loop.step cfg io).isSome = true) : ∃ evs h', Host.OwnStep cfg h evs h' := by
  obtain ⟨⟨l', evs⟩, hl⟩ := Option.isSome_iff_exists.mp hstep
  refine ⟨evs, ⟨{ h.system with loop := l' }, h.kernel.run (h.system.loop.calls cfg io)⟩, .loop io, rfl, ?_⟩
  unfold Host.serverStep
  dsimp only
  rw [if_pos hanswers, System.step_loop hl]
  rfl

theorem Host.OwnStep.of_worker {cfg : EventLoopConfig} {i : Nat} {w : Worker} {evs : List Event} {s' : System P}
    (hw : h.system.workers[i]? = some w) (hmove : WorkerMove h.system i w evs s') :
    ∃ evs h', Host.OwnStep cfg h evs h' := by
  refine ⟨evs, ⟨s', h.kernel⟩, .worker i, rfl, ?_⟩
  unfold Host.serverStep
  dsimp only
  rw [System.step, step_of_workerMove hw hmove]
  rfl

/-- The server at rest. -/
structure Host.Rests (cfg : ServerConfig) (h : Host P) : Prop where
  inv : HostInv h.system.loop h.kernel
  serving : h.system.loop.Serving
  rest : ∀ evs h', ¬ Host.OwnStep cfg.toEventLoopConfig h evs h'

namespace Host.Rests

theorem no_worker_move (hrests : h.Rests cfg) {i : Nat} {w : Worker} {evs : List Event} {s' : System P}
    (hw : h.system.workers[i]? = some w) : ¬ WorkerMove h.system i w evs s' := fun hmove => by
  obtain ⟨evs, h', hstep⟩ := Host.OwnStep.of_worker hw hmove
  exact hrests.rest evs h' hstep

theorem tasks_eq_nil (hrests : h.Rests cfg) : h.system.loop.tasks = [] := by
  by_contra htasks
  obtain ⟨io, hanswers, hsome⟩ := loop_enabled cfg.toEventLoopConfig hrests.inv hrests.serving.running htasks
  obtain ⟨evs, h', hstep⟩ := Host.OwnStep.of_loop hanswers hsome
  exact hrests.rest evs h' hstep

theorem no_report (hrests : h.Rests cfg) (event : PollEvent) : h.kernel.reports h.system.loop.wakeup event = false := by
  by_contra hreport
  rw [Bool.not_eq_false] at hreport
  have ht := hrests.tasks_eq_nil
  have hanswers : h.kernel.answers h.system.loop { poll := .events [event] } = true := by
    simp [Kernel.answers, ht, hreport]
  have hsome : (h.system.loop.step cfg.toEventLoopConfig { poll := .events [event] }).isSome = true := by
    simp [LoopState.step, LoopState.poll, hrests.serving.running, hrests.serving.asked, ht]
  obtain ⟨evs, h', hstep⟩ := Host.OwnStep.of_loop hanswers hsome
  exact hrests.rest evs h' hstep

theorem backlog_eq_zero (hrests : h.Rests cfg) : h.kernel.backlog = 0 := by
  have := hrests.no_report .listener
  simpa [Kernel.reports] using this

theorem wakeup_eq_zero (hrests : h.Rests cfg) : h.system.loop.wakeup = 0 := by
  have := hrests.no_report .wakeup
  simpa [Kernel.reports] using this

/-- Nobody signals and nobody drains, so by `WakeInv` nothing is there to be drained. -/
theorem completions_eq_nil (hrests : h.Rests cfg) (hrun : Host.Run cfg store clock log h) :
    h.system.loop.completionQueue.items = [] := by
  by_contra hitems
  rcases hrun.system.reading.wakeInv.awake hitems with hcount | ⟨w, hmem, hph⟩ | hreads | hdrain
  · exact hcount hrests.wakeup_eq_zero
  · obtain ⟨i, hw⟩ := List.mem_iff_getElem?.mp hmem
    exact hrests.no_worker_move hw (.notify hph)
  · obtain ⟨batch, rest, ht⟩ := h.system.loop.tasks_of_readsWakeup hreads
    cases ht.symm.trans hrests.tasks_eq_nil
  · rw [hrests.tasks_eq_nil] at hdrain
    cases hdrain

theorem idle (hrests : h.Rests cfg) (hrun : Host.Run cfg store clock log h) {w : Worker}
    (hmem : w ∈ h.system.workers) : w.phase = .idle := by
  obtain ⟨i, hw⟩ := List.mem_iff_getElem?.mp hmem
  cases hph : w.phase with
  | idle => rfl
  | popped item => exact absurd (.dispatch hph) (hrests.no_worker_move hw)
  | done completion =>
    have hroom : h.system.loop.completionQueue.items.length < h.system.loop.completionQueue.capacity := by
      rw [hrests.completions_eq_nil hrun, hrun.system.exitInv.capacity]
      exact cfg.completionCapacity_pos
    exact absurd (.push hroom hph hrests.serving.completions) (hrests.no_worker_move hw)
  | notifying => exact absurd (.notify hph) (hrests.no_worker_move hw)
  | exited =>
    have hclosed := (hrun.system.exitInv.exited hrests.serving.completions w hmem hph).1
    rw [hrests.serving.work] at hclosed
    cases hclosed

theorem work_eq_nil (hrests : h.Rests cfg) (hrun : Host.Run cfg store clock log h) :
    h.system.loop.workQueue.items = [] := by
  have hworkers : 0 < h.system.workers.length := by
    rw [hrun.system.exitInv.workers]
    exact cfg.workerCount_pos
  obtain ⟨w, hmem⟩ := List.exists_mem_of_length_pos hworkers
  obtain ⟨i, hw⟩ := List.mem_iff_getElem?.mp hmem
  cases hitems : h.system.loop.workQueue.items with
  | nil => rfl
  | cons item rest => exact absurd (.pop (hrests.idle hrun hmem) hitems) (hrests.no_worker_move hw)

/-- Nothing is in flight, so by the bookkeeping of requests every response has been released. -/
theorem nextExpected_eq (hrests : h.Rests cfg) (hrun : Host.Run cfg store clock log h) {id : Nat} {c : Connection}
    (hc : h.system.loop.registry.findCurrent id = some c) :
    c.sequencer.nextExpected = c.sequencer.nextRequestSequence := by
  have hacc := hrun.system.bookInv.flight id c hc
  have hflight : h.system.core.flight c.id c.generation c.sequencer.nextExpected = 0 := by
    have hhands : h.system.core.hands.countP (Hand.isFor c.id c.generation c.sequencer.nextExpected) = 0 := by
      refine List.countP_eq_zero.mpr fun hand hmem => ?_
      obtain ⟨w, hw, rfl⟩ := List.mem_map.mp hmem
      rw [hrests.idle hrun hw]
      exact Bool.false_ne_true
    unfold Core.flight
    rw [hhands, show h.system.core.work = [] from hrests.work_eq_nil hrun,
      show h.system.core.completions = [] from hrests.completions_eq_nil hrun]
    rfl
  have hge := hacc.ge hrests.serving.completions c.sequencer.nextExpected
  have hpending : c.sequencer.isPending c.sequencer.nextExpected = 0 := by
    unfold ResponseSequencer.isPending
    rw [hacc.gap]; rfl
  by_contra hne
  have hone : c.sequencer.outstanding c.sequencer.nextExpected = 1 :=
    if_pos ⟨le_rfl, Nat.lt_of_le_of_ne hacc.ordered hne⟩
  omega

theorem socket (hrests : h.Rests cfg) {id : Nat} {c : Connection}
    (hc : h.system.loop.registry.findCurrent id = some c) : ∃ s, h.kernel.sockets.lookup id = some s ∧
      s.inbox = [] ∧ (c.output.data = [] ∨ s.room = 0) ∧ s.ended = false ∧ s.broken = false := by
  have hopen := ConnectionRegistry.isOpen_of_findCurrent hc
  obtain ⟨s, hs⟩ := Option.isSome_iff_exists.mp ((hrests.inv.descriptors.sockets id).trans hopen)
  have hinterest := (hrests.inv.interest id c hc).resolve_left fun hdue => by
    rw [hrests.tasks_eq_nil] at hdue
    exact hdue
  have hnone := hrests.no_report
    (.client id s.broken s.readable (decide (c.output.data ≠ []) && s.writable))
  simp only [Kernel.reports, hinterest, hs, true_and, decide_eq_false_iff_not, Bool.not_eq_true,
    Bool.or_eq_false_iff, Bool.and_eq_false_iff] at hnone
  obtain ⟨⟨hbroken, hreadable⟩, hwritable⟩ := hnone
  simp only [Socket.readable, decide_eq_false_iff_not, not_or, not_not, Bool.not_eq_true] at hreadable
  obtain ⟨hinbox, hended, -⟩ := hreadable
  refine ⟨s, hs, hinbox, ?_, hended, hbroken⟩
  rcases hwritable with hempty | hwritable
  · left
    simpa using hempty
  · right
    simp only [Socket.writable, decide_eq_false_iff_not, not_or] at hwritable
    omega

theorem settled (hrests : h.Rests cfg) (hrun : Host.Run cfg store clock log h)
    (hcap : 0 < cfg.maxInFlightPerConnection) : h.Settled log where
  accepted := hrests.backlog_eq_zero
  worked := ⟨hrests.work_eq_nil hrun, hrests.completions_eq_nil hrun⟩
  answered id c hc := by
    have hall := hrests.nextExpected_eq hrun hc
    have hinv := hrun.system.serverInv
    refine ⟨?_, ?_⟩
    · rcases hrun.system.servedInv id c hc with hmore | hfull | ⟨rest, ht⟩
      · exact hmore
      · unfold ResponseSequencer.inFlightCount at hfull
        omega
      · cases ht.symm.trans hrests.tasks_eq_nil
    · rw [hinv.book.frames id c hc, ← hall]
      exact hinv.stream.stream id c hc
  delivered id c hc := hrests.socket hc

end Host.Rests

theorem Host.Run.own {log' : List Event} {h' : Host P} (hrun : Host.Run cfg store clock log h)
    (hown : Exec (Host.OwnStep cfg.toEventLoopConfig) h log' h') : Host.Run cfg store clock (log ++ log') h' := by
  refine Exec.trans hrun (Exec.map id (fun h evs h' hstep => ?_) hown)
  obtain ⟨choice, -, hstep⟩ := hstep
  exact .single ⟨.server choice, hstep⟩

end

end KvStore
