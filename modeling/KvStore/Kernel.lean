import KvStore.Steps

/-!
# The server and its kernel

What the loop thread asks of the kernel: `accept4`, `recv` and `send`, the `epoll_ctl` calls of
`net/event_loop.cpp`, and the `close` in the destructor of `FileDescriptor`. `LoopState.calls` lists the calls
of a step in the order in which the sources make them, `Kernel.call` says what each of them does to the sockets
and to the epoll set.

`Kernel.answers` is a kernel that tells the truth: `epoll_wait` is level-triggered and returns when something is
ready, `recv` and `send` block only when there is nothing to read and no room to write. No signal arrives and no
descriptor runs out; those results are the subject of `Failures`. A `Host` is a server with its kernel; the peers
act on the kernel only.
-/

namespace KvStore
open ByteString Transition

/-- A connected socket, as the kernel keeps it. -/
structure Socket where
  /-- The bytes that have arrived and have not been read. -/
  inbox : Bytes := []
  /-- The peer has shut its side down; the stream ends after `inbox`. -/
  ended : Bool := false
  /-- How much the send buffer still takes. -/
  room : Nat := 0
  /-- The connection was reset. -/
  broken : Bool := false
deriving DecidableEq, Repr

namespace Socket

def readable (s : Socket) : Bool := s.inbox ≠ [] ∨ s.ended ∨ s.broken

def writable (s : Socket) : Bool := 0 < s.room ∨ s.broken

def recvs (s : Socket) : RecvResult → Bool
  | .bytes chunk => !s.broken && chunk.isPrefixOf s.inbox
  | .wouldBlock => !s.readable
  | .closed => s.inbox = [] ∧ s.ended ∧ !s.broken
  | .failed => s.broken

def sends (s : Socket) : SendResult → Bool
  | .wrote n => !s.broken && n ≤ s.room
  | .wouldBlock => !s.writable
  | .failed => s.broken

end Socket

structure Kernel where
  /-- The clients that have connected and have not been accepted. -/
  backlog : Nat := 0
  sockets : Finmap fun _ : Nat => Socket := ∅
  /-- The clients' descriptors in the epoll set: all are watched for `EPOLLIN`; the flag is `EPOLLOUT`. -/
  interest : Finmap fun _ : Nat => Bool := ∅

inductive KernelCall where
  | accept (fd : Nat)
  | recv (fd count : Nat)
  | send (fd count : Nat)
  | epollAdd (fd : Nat)
  | epollMod (fd : Nat) (out : Bool)
  | epollDel (fd : Nat)
  | close (fd : Nat)
deriving DecidableEq, Repr

namespace Kernel

def update (k : Kernel) (fd : Nat) (f : Socket → Socket) : Kernel :=
  match k.sockets.lookup fd with
  | none => k
  | some s => { k with sockets := k.sockets.insert fd (f s) }

def call (k : Kernel) : KernelCall → Kernel
  | .accept fd => { k with backlog := k.backlog - 1, sockets := k.sockets.insert fd {} }
  | .recv fd count => k.update fd fun s => { s with inbox := s.inbox.drop count }
  | .send fd count => k.update fd fun s => { s with room := s.room - count }
  | .epollAdd fd => { k with interest := k.interest.insert fd false }
  -- without an entry the call fails, which the source ignores
  | .epollMod fd out => if (k.interest.lookup fd).isSome then { k with interest := k.interest.insert fd out } else k
  | .epollDel fd => { k with interest := k.interest.erase fd }
  -- a closed descriptor also leaves the epoll set
  | .close fd => { k with sockets := k.sockets.erase fd, interest := k.interest.erase fd }

def run (k : Kernel) (calls : List KernelCall) : Kernel := calls.foldl call k

/-- What `epoll_wait` can report; the flags of a client are exactly those that hold. -/
def reports (k : Kernel) (wakeup : Nat) : PollEvent → Bool
  | .wakeup => 0 < wakeup
  | .listener => 0 < k.backlog
  | .client fd hangup readable writable =>
    match k.interest.lookup fd, k.sockets.lookup fd with
    | some out, some s => hangup = s.broken ∧ readable = s.readable ∧ writable = (out && s.writable) ∧
        (hangup || readable || writable)
    | _, _ => false

/-- The results `io` are those of a kernel in the state `k`. -/
def answers (k : Kernel) (l : LoopState) (io : Io) : Bool :=
  match l.tasks with
  | [] =>
    l.stopRequested || match io.poll with
      | .events batch => batch ≠ [] && batch.all (k.reports l.wakeup)
      | _ => false
  | .accept :: _ =>
    match io.accept with
    | .client fd _ => 0 < k.backlog && (k.sockets.lookup fd).isNone
    | .wouldBlock => k.backlog = 0
    | _ => false
  | .read id _ :: _ => (k.sockets.lookup id).all (·.recvs io.recv)
  | .write id _ :: _ => (k.sockets.lookup id).all (·.sends io.send)
  | _ => true

end Kernel

/-! ### The calls of a step -/

/-- `close_connection`: the last flush, `EPOLL_CTL_DEL`, and the `close` that comes with the connection's end. -/
def closeCalls (r : ConnectionRegistry) (id generation : Nat) (flush : SendResult) : List KernelCall :=
  match r.find id generation with
  | none => []
  | some c =>
    (if c.output.data = [] then [] else [.send id ((flush.count c.output.data.length).getD 0)]) ++
      [.epollDel id, .close id]

namespace LoopState

/-- The body of the loop in `handle_listener_readable`; a client that cannot be registered is closed. -/
def acceptCalls : AcceptResult → List KernelCall
  | .client fd true => [.accept fd, .epollAdd fd]
  | .client fd false => [.accept fd, .close fd]
  | _ => []

/-- `read_into` and what `handle_connection_readable` makes of its outcome. -/
def readCalls (l : LoopState) (id generation : Nat) (c : Connection) (io : Io) : List KernelCall :=
  if c.input.capacity - c.input.data.length = 0 then closeCalls l.registry id generation io.flush
  else
    match io.recv with
    | .bytes chunk => [.recv id chunk.length]
    | .wouldBlock => []
    | _ => closeCalls l.registry id generation io.flush

/-- `process_input` makes no calls; when it returns false its caller closes the connection. -/
def processCalls (cfg : EventLoopConfig) (l : LoopState) (id generation : Nat) (c : Connection) (io : Io) :
    List KernelCall :=
  let round := processInput cfg.maxInFlightPerConnection c l.workQueue
  match round.flow with
  | .returnFalse => closeCalls (l.registry.put id round.connection) id generation io.flush
  | _ => []

/-- `write_from`, and `update_epoll_interest` when the loop around it ends. -/
def writeCalls (l : LoopState) (id generation : Nat) (c : Connection) (io : Io) : List KernelCall :=
  if c.output.data = [] then [.epollMod id false]
  else
    match io.send with
    | .wrote n => [.send id n]
    | .wouldBlock => [.epollMod id true]
    | .failed => closeCalls l.registry id generation io.flush

/-- `drain_completions` closes a connection whose output cap is exceeded. -/
def drainCalls (l : LoopState) (io : Io) : List KernelCall :=
  match l.completionQueue.tryPop with
  | none => []
  | some (completion, _) =>
    match l.registry.find completion.connectionId completion.connectionGeneration with
    | none => []
    | some c =>
      let answered := c.respond completion.sequence completion.response
      if answered.2 then []
      else closeCalls (l.registry.put completion.connectionId answered.1) completion.connectionId
        completion.connectionGeneration io.flush

/-- The calls that the next step of the loop makes, `epoll_wait` apart. -/
def calls (cfg : EventLoopConfig) (l : LoopState) (io : Io) : List KernelCall :=
  match l.tasks with
  | .events (.client fd true _ _ :: _) :: _ =>
    match l.registry.findCurrent fd with
    | none => []
    | some c => closeCalls l.registry fd c.generation io.flush
  | .accept :: _ => acceptCalls io.accept
  | .read id generation :: _ =>
    match l.registry.find id generation with
    | none => []
    | some c => l.readCalls id generation c io
  | .process id generation :: _ =>
    match l.registry.find id generation with
    | none => []
    | some c => l.processCalls cfg id generation c io
  | .write id generation :: _ =>
    match l.registry.find id generation with
    | none => []
    | some c => l.writeCalls id generation c io
  | .drain :: _ => l.drainCalls io
  | _ => []

end LoopState

/-! ### The server with its kernel -/

structure Host (P : Platform) where
  system : System P
  kernel : Kernel := {}

/-- What the peer of a connected socket can do. The room a new socket has is granted by a first `read`. -/
inductive PeerAct where
  | send (bytes : Bytes)
  | finish
  | read (count : Nat)
  | reset
deriving DecidableEq, Repr

def Socket.after (s : Socket) : PeerAct → Socket
  | .send bytes => { s with inbox := s.inbox ++ bytes }
  | .finish => { s with ended := true }
  | .read count => { s with room := s.room + count }
  | .reset => { s with broken := true }

inductive HostChoice where
  | server (choice : Choice)
  | connect
  | peer (fd : Nat) (act : PeerAct)
deriving DecidableEq, Repr

namespace Host
variable {P : Platform}

def start (cfg : ServerConfig) (store : Store P) (clock : Int) : Host P := { system := System.start cfg store clock }

/-- A step of the server; the loop's system calls are those of the kernel. -/
def serverStep (cfg : EventLoopConfig) (h : Host P) (choice : Choice) : Option (Host P × List Event) :=
  match choice with
  | .loop io =>
    if h.kernel.answers h.system.loop io then
      (h.system.step cfg (.loop io)).map fun r => (⟨r.1, h.kernel.run (h.system.loop.calls cfg io)⟩, r.2)
    else none
  | choice => (h.system.step cfg choice).map fun r => (⟨r.1, h.kernel⟩, r.2)

def step (cfg : EventLoopConfig) (h : Host P) : HostChoice → Option (Host P × List Event)
  | .server choice => h.serverStep cfg choice
  | .connect => some (⟨h.system, { h.kernel with backlog := h.kernel.backlog + 1 }⟩, [])
  | .peer fd act =>
    if (h.kernel.sockets.lookup fd).isSome then some (⟨h.system, h.kernel.update fd (·.after act)⟩, []) else none

def Run (cfg : ServerConfig) (store : Store P) (clock : Int) (log : List Event) (h : Host P) : Prop :=
  Exec (Step (Host.step cfg.toEventLoopConfig)) (start cfg store clock) log h

section
variable {cfg : EventLoopConfig} {h h' : Host P} {evs : List Event}

theorem serverStep_cases {choice : Choice} (hstep : h.serverStep cfg choice = some (h', evs)) :
    h.system.step cfg choice = some (h'.system, evs) ∧
      ((∃ io, choice = .loop io ∧ h.kernel.answers h.system.loop io = true ∧
          h'.kernel = h.kernel.run (h.system.loop.calls cfg io)) ∨
        choice.isLoop = false ∧ h'.kernel = h.kernel) := by
  unfold serverStep at hstep
  cases choice with
  | loop io =>
    dsimp only at hstep
    split_ifs at hstep with hanswers
    obtain ⟨⟨s, evs'⟩, hs, heq⟩ := Option.map_eq_some_iff.mp hstep
    cases heq
    exact ⟨hs, .inl ⟨io, rfl, hanswers, rfl⟩⟩
  | _ =>
    obtain ⟨⟨s, evs'⟩, hs, heq⟩ := Option.map_eq_some_iff.mp hstep
    cases heq
    exact ⟨hs, .inr ⟨rfl, rfl⟩⟩

end

/-- The server does not notice that its kernel is modelled, too. -/
theorem Run.system {cfg : ServerConfig} {store : Store P} {clock : Int} {log : List Event} {h : Host P}
    (hrun : Host.Run cfg store clock log h) : System.Run cfg store clock log h.system := by
  refine Exec.map Host.system (fun h evs h' hstep => ?_) hrun
  obtain ⟨choice, hstep⟩ := hstep
  cases choice with
  | server choice => exact .single ⟨choice, (serverStep_cases hstep).1⟩
  | connect => cases hstep; exact .refl
  | peer fd act =>
    simp only [step] at hstep
    split_ifs at hstep
    cases hstep
    exact .refl

end Host
end KvStore
