import KvStore.Framing

/-!
# Full input buffers

`process_input` stops taking frames from a connection that has `max_in_flight_per_connection` requests in
flight, but `handle_connection_readable` goes on reading from it, and `read_into` reports `kBufferFull` when
the input buffer has no room left. A client that sends nothing but commands fills the buffer only that way:
its commands are shorter than the buffer, so below the cap there is always a frame to take
(`input_never_full`). With 64 requests in flight any further two mebibytes disconnect it
(`input_full_at_cap`).
-/

namespace KvStore
open ByteString Transition

/-! ### The length of a command -/

/-- Names and keys are short; only one argument can be as long as a bulk string may be. -/
theorem IsCommand.length_le {args : List Bytes} {c : Command} (h : IsCommand args c)
    (hbulk : ∀ arg ∈ args, arg.length ≤ 1048576) : args.flatten.length ≤ 1049094 := by
  have hping : (ascii "PING").length = 4 := rfl
  have hset : (ascii "SET").length = 3 := rfl
  have hget : (ascii "GET").length = 3 := rfl
  have hdel : (ascii "DEL").length = 3 := rfl
  have hexists : (ascii "EXISTS").length = 6 := rfl
  have httl : (ascii "TTL").length = 3 := rfl
  have hexpire : (ascii "EXPIRE").length = 6 := rfl
  cases h with
  | ping hname | set hname _ _ | get hname _ | del hname _ | «exists» hname _ | ttl hname _ =>
    have := hname.length_eq
    simp only [List.flatten_cons, List.flatten_nil, List.length_append, List.length_nil]
    omega
  | @expire _ _ seconds _ hname _ _ _ =>
    have := hname.length_eq
    have := hbulk seconds (by simp)
    simp only [List.flatten_cons, List.flatten_nil, List.length_append, List.length_nil]
    omega

def IsCommandFrame (f : Bytes) : Prop := ∃ command, parseCommand f = .parsedCommand command f.length

theorem IsCommandFrame.isFrame {f : Bytes} (h : IsCommandFrame f) :
    ∃ args c, IsFrame args f ∧ IsCommand args c := by
  obtain ⟨c, hc⟩ := h
  obtain ⟨args, raw, rest, hframe, hin, hlen, hcommand⟩ := isCommand_of_parseCommand hc
  have hraw : raw = f := List.IsPrefix.eq_of_length ⟨rest, hin.symm⟩ hlen
  exact ⟨args, c, hraw ▸ hframe, hcommand⟩

theorem IsCommandFrame.length_le {f : Bytes} (h : IsCommandFrame f) : f.length ≤ 1049192 := by
  obtain ⟨args, c, hframe, hcommand⟩ := h.isFrame
  have hbulk : ∀ arg ∈ args, arg.length ≤ 1048576 := by
    obtain ⟨D, blocks, -, -, hblocks, -⟩ := hframe
    exact hblocks.body_le
  have := hframe.length_le
  have := hcommand.length_le hbulk
  omega

/-- A buffer in which a stream of commands shows no complete frame holds less than one command. -/
theorem incomplete_length_le {frames : List Bytes} (hframes : ∀ f ∈ frames, IsCommandFrame f) {rest : Bytes}
    (hrest : rest <+: frames.flatten) (hmore : parseCommand rest = .needMoreData) : rest.length ≤ 1049192 := by
  cases frames with
  | nil =>
    rw [List.flatten_nil, List.prefix_nil] at hrest
    rw [hrest]
    exact Nat.zero_le _
  | cons f later =>
    have hf := hframes f List.mem_cons_self
    rw [List.flatten_cons] at hrest
    rcases List.prefix_or_prefix_of_prefix hrest (List.prefix_append f later.flatten) with hshort | hlong
    · exact le_trans hshort.length_le hf.length_le
    · -- the whole frame would have been found
      obtain ⟨t, rfl⟩ := hlong
      obtain ⟨args, c, hframe, -⟩ := hf.isFrame
      have hverdict := parseCommand_of_isFrame hframe t
      rw [hmore] at hverdict
      have := congrArg ParseResult.consumed hverdict
      rw [consumed_frameVerdict] at this
      cases this

/-! ### What a step does to an input buffer -/

section
variable {cfg : EventLoopConfig} {l l' : LoopState} {io : Io} {evs : List Event} {id : Nat} {c' : Connection}

/-- Where the input buffer of a connection that is open after a step comes from. A round of `process_input`
that leaves it below the cap has found no complete frame. -/
inductive InputStep (cfg : EventLoopConfig) (l : LoopState) (io : Io) (l' : LoopState) (id : Nat)
    (c' : Connection) : Prop
  | fresh : c'.input = .empty cfg.maxInputBytes → InputStep cfg l io l' id c'
  | kept {c : Connection} : l.registry.findCurrent id = some c → c'.generation = c.generation →
    c'.input = c.input →
    (∀ rest, l.tasks = .process id c.generation :: rest →
      c.sequencer.inFlightCount < cfg.maxInFlightPerConnection → parseCommand c.input.data = .needMoreData) →
    InputStep cfg l io l' id c'
  | received {c : Connection} {chunk : Bytes} {rest : List Task} : l.tasks = .read id c.generation :: rest →
    l.registry.findCurrent id = some c → io.recv = .bytes chunk → c.input.append chunk = some c'.input →
    c'.generation = c.generation → c'.sequencer = c.sequencer →
    l'.tasks = .process id c.generation :: .read id c.generation :: rest → InputStep cfg l io l' id c'
  | taken {c : Connection} {n : Nat} : l.registry.findCurrent id = some c → c'.generation = c.generation →
    (parseCommand c.input.data).consumed = some n → c'.input = c.input.consume n → InputStep cfg l io l' id c'

theorem LoopMove.inputStep (h : LoopMove cfg l io evs l') (hc' : l'.registry.findCurrent id = some c') :
    InputStep cfg l io l' id c' := by
  -- a step of another task leaves the input alone
  have hother : ∀ {task rest c} (_ : l.tasks = task :: rest) (_ : ∀ g, task ≠ .process id g)
      (_ : l.registry.findCurrent id = some c) (_ : c'.generation = c.generation) (_ : c'.input = c.input),
      InputStep cfg l io l' id c' :=
    fun ht htask hc hg hin => .kept hc hg hin fun _ ht' =>
      absurd (List.cons.inj (ht.symm.trans ht')).1 (htask _)
  cases h.origin hc' with
  | fresh _ _ hc => exact .fresh (by rw [hc]; rfl)
  | kept hc hprocess =>
    exact .kept hc rfl rfl fun rest ht hlt => (hprocess rest ht).resolve_left (Nat.not_le.mpr hlt)
  | touched hc htouch =>
    cases htouch with
    | received ht hrecv happ ht' => exact .received ht hc hrecv happ rfl rfl ht'
    | handOver hparse => exact .taken hc rfl (by rw [hparse]; rfl) rfl
    | answer _ hown hresp _ =>
      exact .taken hc (respond_id_generation hresp).2 hown.consumed.2 (respond_input hresp)
    | sent ht _ => exact hother ht nofun hc rfl rfl
    | complete ht hresp _ => exact hother ht nofun hc (respond_id_generation hresp).2 (respond_input hresp)

/-! ### Below the cap -/

/-- `read_into` will find no room in the input buffer of generation `g`. -/
def LoopState.readsFull (l : LoopState) (g : Nat) : Prop :=
  ∃ id rest c, l.tasks = .read id g :: rest ∧ l.registry.find id g = some c ∧
    c.input.capacity - c.input.data.length = 0

/-- Bytes that arrive on generation `g` while it has as many requests in flight as the cap allows do not fill
its input buffer. -/
def LoopState.readsWithinCap (maxInFlight g : Nat) (l : LoopState) (io : Io) : Bool :=
  match l.tasks, io.recv with
  | .read id g' :: _, .bytes chunk =>
    match l.registry.find id g' with
    | some c =>
      g' ≠ g ∨ c.sequencer.inFlightCount < maxInFlight ∨ c.input.data.length + chunk.length < c.input.capacity
    | none => true
  | _, _ => true

/-- There is room in the input buffer of generation `g`, or `process_input` is about to make some. -/
def RoomInv (cfg : EventLoopConfig) (g : Nat) (l : LoopState) : Prop :=
  ∀ id c, l.registry.findCurrent id = some c → c.generation = g →
    c.input.capacity = cfg.maxInputBytes ∧ (c.input.data.length < cfg.maxInputBytes ∨
      (∃ rest, l.tasks = .process id g :: rest) ∧ c.sequencer.inFlightCount < cfg.maxInFlightPerConnection)

theorem RoomInv.loopMove {g : Nat} (h : RoomInv cfg g l) (hmove : LoopMove cfg l io evs l')
    (hok : l.readsWithinCap cfg.maxInFlightPerConnection g io = true) (hpos : 0 < cfg.maxInputBytes)
    (hmore : ∀ id c, l.registry.findCurrent id = some c → c.generation = g →
      parseCommand c.input.data = .needMoreData → c.input.data.length < cfg.maxInputBytes) :
    RoomInv cfg g l' := by
  rintro id c' hc' rfl
  cases hmove.inputStep hc' with
  | fresh hin => rw [hin]; exact ⟨rfl, .inl hpos⟩
  | kept hc hg hin hprocess =>
    obtain ⟨hcap, hroom⟩ := h id _ hc hg.symm
    rw [hin]
    refine ⟨hcap, .inl ?_⟩
    rcases hroom with hroom | ⟨⟨rest, ht⟩, hlt⟩
    · exact hroom
    · exact hmore id _ hc hg.symm (hprocess rest (hg ▸ ht) hlt)
  | @received c chunk rest ht hc hrecv happ hg hseq ht' =>
    obtain ⟨hcap, -⟩ := h id c hc hg.symm
    have hf : l.registry.find id c.generation = some c := ConnectionRegistry.find_eq_some_iff.mpr ⟨hc, rfl⟩
    have hcap' := (BoundedBuffer.capacity_of_append happ).trans hcap
    rcases (by simpa [LoopState.readsWithinCap, ht, hrecv, hf, hg] using hok :
      c.sequencer.inFlightCount < cfg.maxInFlightPerConnection ∨
        c.input.data.length + chunk.length < c.input.capacity) with hbelow | hroom
    · refine ⟨hcap', .inr ⟨⟨_, hg ▸ ht'⟩, ?_⟩⟩
      rw [hseq]
      exact hbelow
    · refine ⟨hcap', .inl ?_⟩
      rw [BoundedBuffer.data_of_append happ, List.length_append]
      omega
  | @taken c n hc hg hn hin =>
    obtain ⟨hcap, -⟩ := h id c hc hg.symm
    obtain ⟨hpos, hle⟩ := consumed_bounds hn
    have hfull := c.input.length_le
    rw [hin]
    refine ⟨hcap, .inl ?_⟩
    show (c.input.data.drop n).length < _
    rw [List.length_drop]
    omega

end
section
variable {P : Platform}

theorem RoomInv.not_readsFull {cfg : EventLoopConfig} {l : LoopState} {g : Nat} (h : RoomInv cfg g l) :
    ¬ l.readsFull g := by
  rintro ⟨id, rest, c, ht, hf, hfull⟩
  obtain ⟨hc, hg⟩ := ConnectionRegistry.find_eq_some_iff.mp hf
  obtain ⟨hcap, hroom | ⟨⟨rest', ht'⟩, -⟩⟩ := h id c hc hg
  · omega
  · rw [ht] at ht'
    cases ht'

/-- If the bytes that arrive at the in-flight cap do not fill the input buffer, a client that sends commands
never meets a full one: below the cap the buffer holds more than the longest command. -/
theorem input_never_full (frames : List Bytes) (hframes : ∀ f ∈ frames, IsCommandFrame f) (cfg : ServerConfig)
    (hcap : 1049192 < cfg.maxInputBytes) (store : Store P) (clock : Int) (log : List Event) (s : System P) (g : Nat)
    (hrun : System.RunIf (LoopState.readsWithinCap cfg.maxInFlightPerConnection g) cfg store clock log s)
    (hreceived : receivedOf g log <+: frames.flatten) : ¬ s.loop.readsFull g := by
  have hisFrame : ∀ f ∈ frames, ∃ args, IsFrame args f := fun f hf =>
    let ⟨args, _, hframe, _⟩ := (hframes f hf).isFrame
    ⟨args, hframe⟩
  have hloop : ∀ (log evs : List Event) (s₁ : System P) (l' : LoopState) (io : Io),
      System.RunIf (LoopState.readsWithinCap cfg.maxInFlightPerConnection g) cfg store clock log s₁ →
      (receivedOf g log <+: frames.flatten → RoomInv cfg.toEventLoopConfig g s₁.loop) →
      s₁.loop.readsWithinCap cfg.maxInFlightPerConnection g io = true →
      LoopMove cfg.toEventLoopConfig s₁.loop io evs l' →
      receivedOf g (log ++ evs) <+: frames.flatten → RoomInv cfg.toEventLoopConfig g l' := by
    intro log evs s₁ l' io hrun₁ hinv hok hmove hreceived'
    rw [receivedOf_append] at hreceived'
    have hreceived₁ := (List.prefix_append (receivedOf g log) _).trans hreceived'
    refine (hinv hreceived₁).loopMove hmove hok (by omega) ?_
    rintro id c hc rfl hmore
    -- what is left in the buffer is the beginning of the frames to come
    have hframed := hrun₁.run.receivedInv id c hc
    have hprefix : receivedOf c.generation log <+: frames.flatten ++ [] := by rwa [List.append_nil]
    obtain ⟨k, htook⟩ := hframed.tookFrames hisFrame rfl hprefix
    have hrest := htook.rest_prefix hprefix
    rw [List.append_nil] at hrest
    have := incomplete_length_le (fun f hf => hframes f (List.mem_of_mem_drop hf)) hrest hmore
    omega
  have hkept : ∀ (log evs : List Event) (l l' : LoopState),
      (receivedOf g log <+: frames.flatten → RoomInv cfg.toEventLoopConfig g l) → LoopKept l l' →
      OnlyDispatches evs → receivedOf g (log ++ evs) <+: frames.flatten → RoomInv cfg.toEventLoopConfig g l' := by
    intro log evs l l' hinv hkept _ hreceived' id c hc hg
    rw [receivedOf_append] at hreceived'
    rw [hkept.registry] at hc
    rw [hkept.tasks]
    exact hinv ((List.prefix_append _ _).trans hreceived') id c hc hg
  have hinit : receivedOf g [] <+: frames.flatten →
      RoomInv cfg.toEventLoopConfig g (System.start cfg store clock).loop := by
    intro _ id c hc
    cases hc
  exact (hrun.invariant hinit hloop hkept hreceived).not_readsFull

end

def pingFrame : Bytes := ascii "*1\r\n$4\r\nPING\r\n"

theorem pingFrame_isCommandFrame : IsCommandFrame pingFrame := ⟨{ type := .kPing }, by decide +kernel⟩

/-- A client sends `PING` and the loop hands it over. -/
def pingResult : Option (System (.reference .exact) × List Event) :=
  run (System.stepIf (LoopState.readsWithinCap 64 1) ServerConfig.default.toEventLoopConfig)
    (System.start ServerConfig.default Store.small 0) (Choice.connect pingFrame ++ [.loop {}, .loop {}])

theorem pingResult_isSome : pingResult.isSome = true := by decide +kernel

theorem input_never_full_ping : ∃ (log : List Event) (s : System (.reference .exact)),
    System.RunIf (LoopState.readsWithinCap 64 1) ServerConfig.default Store.small 0 log s ∧
      receivedOf 1 log = pingFrame ∧ s.loop.tasks = [.read 7 1, .events []] ∧ ¬ s.loop.readsFull 1 := by
  have hrun := exec_of_isSome pingResult_isSome
  have hreceived : receivedOf 1 (pingResult.get pingResult_isSome).2 = pingFrame := by decide +kernel
  refine ⟨_, _, hrun, hreceived, by decide +kernel, ?_⟩
  refine input_never_full [pingFrame] (fun f hf => ?_) ServerConfig.default (by decide) Store.small 0 _ _ 1 hrun ?_
  · rw [List.mem_singleton.mp hf]
    exact pingFrame_isCommandFrame
  · have hsent : pingFrame <+: [pingFrame].flatten := List.prefix_append _ _
    exact hreceived.symm ▸ hsent

section
variable {P : Platform}

/-! ### At the cap -/

/-- A connection at the in-flight cap whose socket is being read. -/
structure ReadingAtCap (cfg : EventLoopConfig) (id g : Nat) (rest : List Task) (l : LoopState) (c : Connection) :
    Prop where
  running : l.exited = false
  tasks : l.tasks = .read id g :: rest
  find : l.registry.find id g = some c
  atCap : cfg.maxInFlightPerConnection ≤ c.sequencer.inFlightCount

theorem ReadingAtCap.read_byte {cfg : EventLoopConfig} {id g : Nat} {rest : List Task} {l : LoopState}
    {c : Connection} (h : ReadingAtCap cfg id g rest l c) (b : UInt8) {input : BoundedBuffer}
    (happ : c.input.append [b] = some input) (hroom : c.input.data.length < c.input.capacity) :
    l.step cfg { recv := .bytes [b] } =
      some ({ l with
        registry := l.registry.put id { c with input }
        tasks := .process id g :: .read id g :: rest }, [.received g [b]]) := by
  have havailable : c.input.capacity - c.input.data.length ≠ 0 := by omega
  have hchunk : ¬ ([b] = [] ∨ min (c.input.capacity - c.input.data.length) kReadChunkSize < [b].length) := by
    have hchunkSize : kReadChunkSize ≠ 0 := by decide
    simpa using ⟨havailable, hchunkSize⟩
  simp only [LoopState.step, h.running, h.tasks, LoopState.handleConnectionReadable, h.find, if_neg havailable,
    if_neg hchunk, happ, Option.map_some, Bool.false_eq_true, if_false]

theorem process_atCap {cfg : EventLoopConfig} {id g : Nat} {rest : List Task} {l : LoopState} {c : Connection}
    (hrunning : l.exited = false) (ht : l.tasks = .process id g :: rest) (hf : l.registry.find id g = some c)
    (hcap : cfg.maxInFlightPerConnection ≤ c.sequencer.inFlightCount) (io : Io) :
    l.step cfg io = some ({ l with tasks := rest }, []) := by
  have hround : processInput cfg.maxInFlightPerConnection c l.workQueue = ⟨c, l.workQueue, [], .returnTrue⟩ := by
    rw [processInput, if_pos hcap]
  have hput := ConnectionRegistry.put_self (ConnectionRegistry.find_eq_some_iff.mp hf).1
  simp only [LoopState.step, hrunning, ht, LoopState.handleProcess, hf, hround, hput, Bool.false_eq_true, if_false]

theorem ReadingAtCap.byte {cfg : EventLoopConfig} {id g : Nat} {rest : List Task} {s : System P} {c : Connection}
    (h : ReadingAtCap cfg id g rest s.loop c) (b : UInt8) (hroom : c.input.data.length < c.input.capacity) :
    ∃ s' c', Exec (Step (System.step cfg)) s [.received g [b]] s' ∧ ReadingAtCap cfg id g rest s'.loop c' ∧
      c'.input.data = c.input.data ++ [b] ∧ c'.input.capacity = c.input.capacity ∧ c'.output = c.output := by
  obtain ⟨input, happ⟩ := BoundedBuffer.exists_append
    (show c.input.data.length + [b].length ≤ c.input.capacity from hroom)
  have hg : c.generation = g := (ConnectionRegistry.find_eq_some_iff.mp h.find).2
  have hfind : (s.loop.registry.put id { c with input }).find id g = some { c with input } :=
    ConnectionRegistry.find_put_self hg
  have hrunning : ({ s.loop with
      registry := s.loop.registry.put id { c with input }
      tasks := .process id g :: .read id g :: rest } : LoopState).exited = false := h.running
  have hread := System.step_loop (h.read_byte b happ hroom)
  have hprocess := System.step_loop (s := { s with loop := _ }) (process_atCap hrunning rfl hfind h.atCap {})
  have hfirst : Exec (Step (System.step cfg)) s _ _ := .single ⟨_, hread⟩
  have hsecond : Exec (Step (System.step cfg)) _ _ _ := .single ⟨_, hprocess⟩
  refine ⟨_, { c with input }, hfirst.trans hsecond, ?_, ?_, ?_, rfl⟩
  · exact ⟨h.running, rfl, hfind, h.atCap⟩
  · exact BoundedBuffer.data_of_append happ
  · exact BoundedBuffer.capacity_of_append happ

theorem ReadingAtCap.fill {cfg : EventLoopConfig} {id g : Nat} {rest : List Task} {s : System P} {c : Connection}
    (h : ReadingAtCap cfg id g rest s.loop c) (data : Bytes)
    (hroom : c.input.data.length + data.length ≤ c.input.capacity) :
    ∃ log s' c', Exec (Step (System.step cfg)) s log s' ∧ ReadingAtCap cfg id g rest s'.loop c' ∧
      receivedOf g log = data ∧ c'.input.data = c.input.data ++ data ∧ c'.input.capacity = c.input.capacity ∧
      c'.output = c.output := by
  induction data generalizing s c with
  | nil => exact ⟨[], s, c, .refl, h, rfl, (List.append_nil _).symm, rfl, rfl⟩
  | cons b data ih =>
    rw [List.length_cons] at hroom
    obtain ⟨s₁, c₁, hexec, h₁, hdata, hcap, hout⟩ := h.byte b (by omega)
    have hroom₁ : c₁.input.data.length + data.length ≤ c₁.input.capacity := by
      rw [hdata, hcap, List.length_append, List.length_singleton]
      omega
    obtain ⟨log, s', c', hexec', h', hreceived, hdata', hcap', hout'⟩ := ih h₁ hroom₁
    refine ⟨_, s', c', hexec.trans hexec', h', ?_, ?_, hcap'.trans hcap, hout'.trans hout⟩
    · rw [receivedOf_append, hreceived]
      simp [receivedOf, Event.receivedBytes]
    · rw [hdata', hdata, List.append_assoc]
      rfl

theorem ReadingAtCap.close {cfg : EventLoopConfig} {id g : Nat} {rest : List Task} {s : System P} {c : Connection}
    (h : ReadingAtCap cfg id g rest s.loop c) (hfull : c.input.data.length = c.input.capacity)
    (hout : c.output.data = []) :
    s.loop.readsFull g ∧ ∃ s', s.step cfg (.loop {}) = some (s', [.closed g []]) := by
  have havailable : c.input.capacity - c.input.data.length = 0 := by omega
  have hstep : s.loop.step cfg {} =
      some ({ s.loop with registry := s.loop.registry.close id g, tasks := rest }, [.closed g []]) := by
    simp only [LoopState.step, h.running, h.tasks, LoopState.handleConnectionReadable, h.find, havailable,
      LoopState.closing, closeConnection, hout, Bool.false_eq_true, if_false, if_true, Option.map_some,
      List.nil_append]
  exact ⟨⟨id, rest, c, h.tasks, h.find, havailable⟩, _, System.step_loop hstep⟩

end

/-- A client sends 64 `PING`s in one read; the workers do not get to any of them. -/
def pingsResult : Option (System (.reference .exact) × List Event) :=
  run (System.step ServerConfig.default.toEventLoopConfig) (System.start ServerConfig.default Store.small 0)
    (Choice.connect (List.replicate 64 pingFrame).flatten ++ List.replicate 65 (.loop {}))

/-- The socket is still being read, all requests are in flight, and the buffers are empty. -/
theorem pings_atCap : pingsResult.map (fun r => decide (
      receivedOf 1 r.2 = (List.replicate 64 pingFrame).flatten ∧ r.1.loop.exited = false ∧
      r.1.loop.tasks = [.read 7 1, .events []] ∧
      (r.1.loop.registry.find 7 1).map (fun c => (c.sequencer.inFlightCount, c.input.capacity)) =
        some (64, kDefaultMaxInputBufferBytes) ∧
      (r.1.loop.registry.find 7 1).map (fun c => (c.input.data, c.output.data)) = some ([], []))) = some true := by
  decide +kernel

theorem length_pings (n : Nat) : (List.replicate n pingFrame).flatten.length = n * 14 := by
  have hping : pingFrame.length = 14 := by decide +kernel
  induction n with
  | zero => rfl
  | succ n ih =>
    rw [List.replicate_succ, List.flatten_cons, List.length_append, ih, hping]
    omega

/-- With the default caps a client that sends `PING`s and waits for no reply is disconnected: 64 requests are
in flight, and the next two mebibytes fill the input buffer. -/
theorem input_full_at_cap : ∃ (frames : List Bytes) (log : List Event) (s : System (.reference .exact)),
    (∀ f ∈ frames, IsCommandFrame f) ∧ System.Run ServerConfig.default Store.small 0 log s ∧
      receivedOf 1 log <+: frames.flatten ∧ s.loop.readsFull 1 ∧
      ∃ s', s.step ServerConfig.default.toEventLoopConfig (.loop {}) = some (s', [.closed 1 []]) := by
  obtain ⟨⟨s₀, log₀⟩, hrun, heq⟩ := Option.map_eq_some_iff.mp pings_atCap
  obtain ⟨hreceived₀, hrunning, htasks, hcaps, hbuffers⟩ := of_decide_eq_true heq
  obtain ⟨c, hf, heq⟩ := Option.map_eq_some_iff.mp hcaps
  obtain ⟨hflight, hcap⟩ := Prod.mk.inj heq
  rw [hf] at hbuffers
  obtain ⟨hin, hout⟩ := Prod.mk.inj (Option.some.inj hbuffers)
  have hreading : ReadingAtCap ServerConfig.default.toEventLoopConfig 7 1 [.events []] s₀.loop c :=
    ⟨hrunning, htasks, hf, hflight.ge⟩
  -- as many bytes of further requests as the buffer holds
  have hlen : ((List.replicate 149797 pingFrame).flatten.take kDefaultMaxInputBufferBytes).length =
      kDefaultMaxInputBufferBytes := by
    rw [List.length_take, length_pings]
    decide
  have hroom : c.input.data.length + ((List.replicate 149797 pingFrame).flatten.take
      kDefaultMaxInputBufferBytes).length ≤ c.input.capacity := by
    rw [hin, hlen, hcap]
    exact (Nat.zero_add _).le
  obtain ⟨log, s, c', hexec, hreading', hreceived, hdata, hcap', hout'⟩ := hreading.fill _ hroom
  have hfull : c'.input.data.length = c'.input.capacity := by
    rw [hdata, hin, List.nil_append, hlen, hcap', hcap]
  obtain ⟨hreadsFull, hclose⟩ := hreading'.close hfull (hout' ▸ hout)
  refine ⟨List.replicate (64 + 149797) pingFrame, log₀ ++ log, s, fun f hf => ?_,
    (exec_of_run hrun).trans hexec, ?_, hreadsFull, hclose⟩
  · rw [List.eq_of_mem_replicate hf]
    exact pingFrame_isCommandFrame
  · rw [receivedOf_append, hreceived₀, hreceived, List.replicate_add, List.flatten_append]
    exact (List.prefix_append_right_inj _).mpr (List.take_prefix _ _)

end KvStore
