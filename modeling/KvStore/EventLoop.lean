import KvStore.BoundedQueue
import KvStore.Connection
import KvStore.Parser
import KvStore.Serializer

/-!
# The event loop's handlers

`net/event_loop.cpp` and `net/io.cpp`, cut at the points where another thread can be noticed. The loop
thread is a stack of `Task`s, the calls it has still to finish; one step runs the topmost task up to its
next access to a shared object (`try_push` on the work queue, `try_pop` on the completion queue, the
wake-up descriptor, the stop flag) or to its next system call. What the system calls answer is the
environment's choice (`Io`).

A task names its connection by fd and generation. Where the source returns from a handler because it has
just closed the connection, the tasks left over for that connection find it gone and end.
-/

namespace KvStore
open ByteString

structure WorkItem where
  connectionId : Nat
  connectionGeneration : Nat
  sequence : Nat
  command : Command
deriving DecidableEq, Repr

structure Completion where
  connectionId : Nat
  connectionGeneration : Nat
  sequence : Nat
  response : Bytes
deriving DecidableEq, Repr

/-- The caps are positive: with a zero cap the constructor of the first client's buffer throws out of `run`. -/
structure EventLoopConfig where
  maxInputBytes : Nat
  maxOutputBytes : Nat
  maxInFlightPerConnection : Nat
  maxInputBytes_pos : 0 < maxInputBytes
  maxOutputBytes_pos : 0 < maxOutputBytes

/-- What a run of the server shows. Events name connections by generation. -/
inductive Event where
  | accepted (id generation : Nat)
  | received (generation : Nat) (chunk : Bytes)
  /-- `process_input` took a frame: its verdict, the bytes it consumed, and the reply if the loop gave
  one itself (`none`: the command went to the workers). -/
  | taken (generation sequence : Nat) (verdict : ParseResult) (raw : Bytes) (own : Option Bytes)
  | dispatched (generation sequence : Nat) (command : Command) (reply : Bytes)
  | sent (generation : Nat) (bytes : Bytes)
  /-- `residue` was still in the output buffer. -/
  | closed (generation : Nat) (residue : Bytes)
deriving DecidableEq, Repr

/-! ### One connection -/

/-- `push_responses`: append until one does not fit. -/
def pushResponses (output : BoundedBuffer) : List Bytes → BoundedBuffer × Bool
  | [] => (output, true)
  | response :: ready =>
    match output.append response with
    | none => (output, false)
    | some output => pushResponses output ready

namespace Connection

/-- Record a response and push what it releases; `false` if the output cap was exceeded. -/
def respond (c : Connection) (sequence : Nat) (response : Bytes) : Connection × Bool :=
  let (sequencer, ready) := c.sequencer.record sequence response
  let (output, ok) := pushResponses c.output ready
  ({ c with sequencer, output }, ok)

/-- Consume a frame's bytes and give it the next sequence number. -/
def takeFrame (c : Connection) (consumed : Nat) : Connection :=
  { c with input := c.input.consume consumed, sequencer := c.sequencer.advance }

end Connection

def shuttingDownReply : Bytes := encodeError (ascii "ERR server shutting down")

def busyReply : Bytes := encodeError (ascii "ERR server busy, try again")

/-- How a round of the loop in `process_input` ends. -/
inductive Flow where
  | more
  | returnTrue
  | returnFalse
deriving DecidableEq, Repr

/-- A round of `process_input`: the connection and the work queue after it, and the frame it took. -/
structure Round where
  connection : Connection
  workQueue : BoundedQueue WorkItem
  events : List Event
  flow : Flow

/-- The reply to a command that `try_push` did not accept. -/
def refusal : PushStatus → Bytes
  | .kClosed => shuttingDownReply
  | _ => busyReply

/-- The loop answers the frame itself: reply through the sequencer, stop if the output cap is exceeded. -/
def answerFrame (c : Connection) (workQueue : BoundedQueue WorkItem) (consumed : Nat) (verdict : ParseResult)
    (reply : Bytes) (goOn : Bool) : Round :=
  let sequence := c.sequencer.nextRequestSequence
  let answered := (c.takeFrame consumed).respond sequence reply
  { connection := answered.1
    workQueue
    events := [.taken c.generation sequence verdict (c.input.data.take consumed) (some reply)]
    flow := if answered.2 && goOn then .more else .returnFalse }

/-- One round of the loop in `process_input`. -/
def processInput (maxInFlight : Nat) (c : Connection) (workQueue : BoundedQueue WorkItem) : Round :=
  if maxInFlight ≤ c.sequencer.inFlightCount then ⟨c, workQueue, [], .returnTrue⟩
  else
    match parseCommand c.input.data with
    | .needMoreData => ⟨c, workQueue, [], .returnTrue⟩
    | .parsedCommand command consumed =>
      let sequence := c.sequencer.nextRequestSequence
      match workQueue.tryPush ⟨c.id, c.generation, sequence, command⟩ with
      | (.kOk, workQueue) =>
        { connection := c.takeFrame consumed
          workQueue
          events :=
            [.taken c.generation sequence (.parsedCommand command consumed) (c.input.data.take consumed) none]
          flow := .more }
      | (status, workQueue) =>
        answerFrame c workQueue consumed (.parsedCommand command consumed) (refusal status) true
    | .protocolError error =>
      if error.recoverable then
        answerFrame c workQueue error.consumedBytes (.protocolError error) (encodeError error.message) true
      else
        -- the framing is broken: nothing is consumed and the caller closes
        answerFrame c workQueue 0 (.protocolError error) (encodeError error.message) false

/-! ### System calls -/

inductive PollEvent where
  | wakeup
  | listener
  | client (fd : Nat) (hangup readable writable : Bool)
deriving DecidableEq, Repr

inductive PollResult where
  | events (batch : List PollEvent)
  | interrupted
  | failed
deriving DecidableEq, Repr

/-- `accept4` and the `epoll_ctl(ADD)` that follows it. -/
inductive AcceptResult where
  | client (fd : Nat) (registered : Bool)
  | wouldBlock
  | retry
  | failed
deriving DecidableEq, Repr

inductive RecvResult where
  | bytes (chunk : Bytes)
  | wouldBlock
  | closed
  | failed
deriving DecidableEq, Repr

inductive SendResult where
  | wrote (n : Nat)
  | wouldBlock
  | failed
deriving DecidableEq, Repr

/-- What the system calls of one step answer. -/
structure Io where
  poll : PollResult := .interrupted
  accept : AcceptResult := .wouldBlock
  recv : RecvResult := .wouldBlock
  send : SendResult := .wouldBlock
  /-- The `send` of `close_connection`. -/
  flush : SendResult := .wouldBlock
deriving DecidableEq, Repr

def kReadChunkSize : Nat := 64 * 1024

/-- How many bytes `send` can have taken from a buffer of `size` bytes; `none` if it cannot answer so. -/
def SendResult.count (size : Nat) : SendResult → Option Nat
  | .wrote n => if 0 < n ∧ n ≤ size then some n else none
  | _ => some 0

/-- `close_connection`: one last attempt to flush, then the connection is gone. -/
def closeConnection (r : ConnectionRegistry) (id generation : Nat) (flush : SendResult) :
    Option (ConnectionRegistry × List Event) :=
  match r.find id generation with
  | none => some (r, [])
  | some c =>
    if c.output.data = [] then some (r.close id generation, [.closed generation []])
    else
      (flush.count c.output.data.length).map fun n =>
        (r.close id generation,
          [.sent generation (c.output.data.take n), .closed generation (c.output.data.drop n)])

/-! ### The loop thread -/

/-- A call the loop thread has still to finish. -/
inductive Task where
  | events (batch : List PollEvent)
  | accept
  | readable (id : Nat)
  | read (id generation : Nat)
  | process (id generation : Nat)
  | writable (id : Nat)
  | write (id generation : Nat)
  | drain
deriving DecidableEq, Repr

/-- The part of the state the loop thread works on. -/
structure LoopState where
  registry : ConnectionRegistry := {}
  workQueue : BoundedQueue WorkItem
  completionQueue : BoundedQueue Completion
  /-- The counter of the wake-up descriptor. -/
  wakeup : Nat := 0
  stopRequested : Bool := false
  tasks : List Task := []
  exited : Bool := false

namespace LoopState

/-- Close a connection and go on with `tasks`. -/
def closing (l : LoopState) (id generation : Nat) (flush : SendResult) (tasks : List Task) (evs : List Event) :
    Option (LoopState × List Event) :=
  (closeConnection l.registry id generation flush).map fun r =>
    ({ l with registry := r.1, tasks }, evs ++ r.2)

/-- The body of the `for` over one batch of epoll events. -/
def handleEvent (l : LoopState) (event : PollEvent) (tasks : List Task) (io : Io) :
    Option (LoopState × List Event) :=
  match event with
  | .wakeup => some ({ l with wakeup := 0, tasks := .drain :: tasks }, [])
  | .listener => some ({ l with tasks := .accept :: tasks }, [])
  | .client fd true _ _ =>
    match l.registry.findCurrent fd with
    | none => some ({ l with tasks }, [])
    | some c => l.closing fd c.generation io.flush tasks []
  | .client fd false readable writable =>
    some ({ l with
      tasks := (if readable then [.readable fd] else []) ++ (if writable then [.writable fd] else []) ++ tasks }, [])

/-- One round of `handle_listener_readable`. The system never returns an fd that is still open. -/
def handleListenerReadable (cfg : EventLoopConfig) (l : LoopState) (tasks : List Task) (io : Io) :
    Option (LoopState × List Event) :=
  match io.accept with
  | .wouldBlock => some ({ l with tasks }, [])
  | .retry => some (l, [])
  | .failed => some ({ l with tasks := [], exited := true }, [])
  | .client fd registered =>
    if (l.registry.findCurrent fd).isSome then none
    else
      let generation := l.registry.nextGeneration
      let registry := l.registry.add fd cfg.maxInputBytes cfg.maxOutputBytes
      if registered then some ({ l with registry }, [.accepted fd generation])
      else some ({ l with registry := registry.close fd generation },
        [.accepted fd generation, .closed generation []])

/-- One round of the loop in `handle_connection_readable`: `read_into`, then `process_input`. -/
def handleConnectionReadable (l : LoopState) (id generation : Nat) (tasks : List Task) (io : Io) :
    Option (LoopState × List Event) :=
  match l.registry.find id generation with
  | none => some ({ l with tasks }, [])
  | some c =>
    let available := c.input.capacity - c.input.data.length
    if available = 0 then l.closing id generation io.flush tasks []
    else
      match io.recv with
      | .bytes chunk =>
        if chunk = [] ∨ min available kReadChunkSize < chunk.length then none
        else
          (c.input.append chunk).map fun input =>
            ({ l with
               registry := l.registry.put id { c with input }
               tasks := .process id generation :: .read id generation :: tasks },
              [.received generation chunk])
      | .wouldBlock => some ({ l with tasks := .writable id :: tasks }, [])
      | _ => l.closing id generation io.flush tasks []

/-- One round of `process_input`; a `false` makes either caller close the connection. -/
def handleProcess (cfg : EventLoopConfig) (l : LoopState) (id generation : Nat) (tasks : List Task) (io : Io) :
    Option (LoopState × List Event) :=
  match l.registry.find id generation with
  | none => some ({ l with tasks }, [])
  | some c =>
    let round := processInput cfg.maxInFlightPerConnection c l.workQueue
    let l := { l with registry := l.registry.put id round.connection, workQueue := round.workQueue }
    match round.flow with
    | .more => some (l, round.events)
    | .returnTrue => some ({ l with tasks }, round.events)
    | .returnFalse => l.closing id generation io.flush tasks round.events

/-- One round of the loop in `handle_connection_writable`. -/
def handleConnectionWritable (l : LoopState) (id generation : Nat) (tasks : List Task) (io : Io) :
    Option (LoopState × List Event) :=
  match l.registry.find id generation with
  | none => some ({ l with tasks }, [])
  | some c =>
    if c.output.data = [] then some ({ l with tasks }, [])
    else
      match io.send with
      | .wrote n =>
        if 0 < n ∧ n ≤ c.output.data.length then
          some ({ l with registry := l.registry.put id { c with output := c.output.consume n } },
            [.sent generation (c.output.data.take n)])
        else none
      | .wouldBlock => some ({ l with tasks }, [])
      | .failed => l.closing id generation io.flush tasks []

/-- One round of `drain_completions`. -/
def drainCompletions (l : LoopState) (tasks : List Task) (io : Io) : Option (LoopState × List Event) :=
  match l.completionQueue.tryPop with
  | none => some ({ l with tasks }, [])
  | some (completion, completionQueue) =>
    let l := { l with completionQueue }
    match l.registry.find completion.connectionId completion.connectionGeneration with
    | none => some (l, [])
    | some c =>
      let answered := c.respond completion.sequence completion.response
      let l := { l with registry := l.registry.put completion.connectionId answered.1 }
      if answered.2 then
        some ({ l with
          tasks := .process completion.connectionId completion.connectionGeneration ::
            .writable completion.connectionId :: .drain :: tasks }, [])
      else l.closing completion.connectionId completion.connectionGeneration io.flush (.drain :: tasks) []

/-- The head of the `while` in `run`. -/
def poll (l : LoopState) (io : Io) : Option (LoopState × List Event) :=
  if l.stopRequested then some ({ l with exited := true }, [])
  else
    match io.poll with
    | .events batch => some ({ l with tasks := [.events batch] }, [])
    | .interrupted => some (l, [])
    | .failed => some ({ l with exited := true }, [])

def step (cfg : EventLoopConfig) (l : LoopState) (io : Io) : Option (LoopState × List Event) :=
  if l.exited then none
  else
    match l.tasks with
    | [] => l.poll io
    | .events [] :: tasks => some ({ l with tasks }, [])
    | .events (event :: batch) :: tasks => l.handleEvent event (.events batch :: tasks) io
    | .accept :: tasks => l.handleListenerReadable cfg tasks io
    | .readable id :: tasks =>
      match l.registry.findCurrent id with
      | none => some ({ l with tasks }, [])
      | some c => some ({ l with tasks := .read id c.generation :: tasks }, [])
    | .read id generation :: tasks => l.handleConnectionReadable id generation tasks io
    | .process id generation :: tasks => l.handleProcess cfg id generation tasks io
    | .writable id :: tasks =>
      match l.registry.findCurrent id with
      | none => some ({ l with tasks }, [])
      | some c => some ({ l with tasks := .write id c.generation :: tasks }, [])
    | .write id generation :: tasks => l.handleConnectionWritable id generation tasks io
    | .drain :: tasks => l.drainCompletions tasks io

end LoopState
end KvStore
