import KvStore.Backpressure
import Mathlib.Order.Interval.Finset.Nat

/-!
# What an open connection may hold

Two results about every run, whatever the clients send and in whatever order the workers finish.

`no_request_waits`: between two handlers, a connection whose buffer holds a complete frame has as many requests
in flight as the cap allows. The invariant `ServedInv` also covers the states inside a handler: there the frame
may be one that `process_input` is about to take.

`memory_bounded`: the buffers, the sequencer and the queues stay within the limits of the configuration.
-/

namespace KvStore
open ByteString Transition

/-! ### No frame waits without cause -/

section
variable {cfg : EventLoopConfig} {l l' : LoopState} {io : Io} {evs : List Event} {id : Nat} {c c' : Connection}

/-- A connection gets a new sequence number only from `process_input`, which then goes on. -/
theorem LoopMove.process_goes_on (h : LoopMove cfg l io evs l') (hc : l.registry.findCurrent id = some c)
    (hc' : l'.registry.findCurrent id = some c')
    (hnext : c'.sequencer.nextRequestSequence ≠ c.sequencer.nextRequestSequence) :
    ∃ rest, l'.tasks = .process id c.generation :: rest := by
  have hold : l.registry.findCurrent id ≠ some c' := by
    intro hc₁
    cases hc.symm.trans hc₁
    exact hnext rfl
  -- a handler that puts a connection back has put back this one
  have hput : ∀ {id₀ g : Nat} {c₀ c₁ : Connection}, l.registry.find id₀ g = some c₀ →
      (l.registry.put id₀ c₁).findCurrent id = some c' → id₀ = id ∧ c₀ = c ∧ c₁ = c' ∧ c.generation = g := by
    intro id₀ g c₀ c₁ hf hc₁
    rcases ConnectionRegistry.of_findCurrent_put hc₁ with ⟨rfl, rfl⟩ | ⟨-, hc₁⟩
    · obtain ⟨hcur, rfl⟩ := ConnectionRegistry.find_eq_some_iff.mp hf
      cases hc.symm.trans hcur
      exact ⟨rfl, rfl, rfl, rfl⟩
    · exact absurd hc₁ hold
  cases h with
  | hangup _ hcur _ =>
    have hf := ConnectionRegistry.find_eq_some_iff.mpr ⟨hcur, rfl⟩
    exact absurd (ConnectionRegistry.of_findCurrent_close hf hc').2 hold
  | accept _ _ hnone =>
    rcases ConnectionRegistry.of_findCurrent_add hc' with ⟨rfl, -⟩ | ⟨-, hc₁⟩
    · cases hnone.symm.trans hc
    · exact absurd hc₁ hold
  | acceptUnregistered _ _ _ => exact absurd (ConnectionRegistry.of_findCurrent_add_close hc').2 hold
  | readFull _ hf _ _ | readEnded _ hf _ _ _ | writeFailed _ hf _ _ _ =>
    exact absurd (ConnectionRegistry.of_findCurrent_close hf hc').2 hold
  | answerClose _ hf _ _ hresp _ _ _ | overflow _ _ hf hresp _ =>
    exact absurd (ConnectionRegistry.of_findCurrent_put_close hf (respond_id_generation hresp).2 hc').2 hold
  | received _ hf _ _ _ _ | sent _ hf _ _ _ =>
    obtain ⟨-, rfl, rfl, -⟩ := hput hf hc'
    exact absurd rfl hnext
  | complete _ _ hf hresp =>
    obtain ⟨-, rfl, rfl, -⟩ := hput hf hc'
    rw [respond_sequencer hresp, record_nextRequest] at hnext
    exact absurd rfl hnext
  | handOver _ ht hf _ _ _ | answer ht hf _ _ _ _ =>
    obtain ⟨rfl, -, -, rfl⟩ := hput hf hc'
    exact ⟨_, ht⟩
  -- the remaining steps leave the registry alone
  | _ => exact absurd hc' hold

/-- A connection without a complete frame, at the in-flight cap, or next to be processed. -/
def Served (cfg : EventLoopConfig) (l : LoopState) (id : Nat) (c : Connection) : Prop :=
  parseCommand c.input.data = .needMoreData ∨ cfg.maxInFlightPerConnection ≤ c.sequencer.inFlightCount ∨
    ∃ rest, l.tasks = .process id c.generation :: rest

def ServedInv (cfg : EventLoopConfig) (l : LoopState) : Prop :=
  ∀ id c, l.registry.findCurrent id = some c → Served cfg l id c

theorem ServedInv.loopMove (h : ServedInv cfg l) (hmove : LoopMove cfg l io evs l') : ServedInv cfg l' := by
  intro id c' hc'
  cases hmove.origin hc' with
  | fresh _ _ hc => rw [hc]; exact .inl rfl
  | kept hc hprocess =>
    rcases h id c' hc with hmore | hcap | ⟨rest, ht⟩
    · exact .inl hmore
    · exact .inr (.inl hcap)
    · -- `process_input` has just left the connection alone
      exact (hprocess rest ht).elim (fun hcap => .inr (.inl hcap)) .inl
  | @touched c hc htouch =>
    cases htouch with
    | received _ _ _ ht' => exact .inr (.inr ⟨_, ht'⟩)
    | handOver _ =>
      have hgo := hmove.process_goes_on hc hc' (Nat.succ_ne_self _)
      exact .inr (.inr hgo)
    | @answer _ _ _ _ rest ht _ hresp ht' =>
      refine .inr (.inr ⟨rest, ?_⟩)
      rw [ht', ht, (respond_id_generation hresp).2]
      rfl
    | sent ht _ =>
      rcases h id c hc with hmore | hcap | ⟨rest, ht'⟩
      · exact .inl hmore
      · exact .inr (.inl hcap)
      · cases ht.symm.trans ht'
    | @complete _ _ _ rest _ hresp ht' =>
      refine .inr (.inr ⟨.writable id :: .drain :: rest, ?_⟩)
      rw [ht', (respond_id_generation hresp).2]

end

section
variable {P : Platform}

theorem System.Run.servedInv {cfg : ServerConfig} {store : Store P} {clock : Int} {log : List Event} {s : System P}
    (h : System.Run cfg store clock log s) : ServedInv cfg.toEventLoopConfig s.loop := by
  have hinit : ServedInv cfg.toEventLoopConfig (System.start cfg store clock).loop := by
    intro id c hc
    cases hc
  have hloop : ∀ (log evs : List Event) (s₁ : System P) (l' : LoopState) (io : Io),
      System.RunIf (fun _ _ => true) cfg store clock log s₁ → ServedInv cfg.toEventLoopConfig s₁.loop → true = true →
      LoopMove cfg.toEventLoopConfig s₁.loop io evs l' → ServedInv cfg.toEventLoopConfig l' :=
    fun _ _ _ _ _ _ hinv _ hmove => hinv.loopMove hmove
  have hkept : ∀ (log evs : List Event) (l l' : LoopState), ServedInv cfg.toEventLoopConfig l → LoopKept l l' →
      OnlyDispatches evs → ServedInv cfg.toEventLoopConfig l' := by
    intro _ _ l l' hinv hkept _ id c hc
    unfold Served
    rw [hkept.tasks]
    exact hinv id c (hkept.registry ▸ hc)
  exact h.runIf.invariant hinit hloop hkept

/-- The loop is between two calls of its handlers: between two events, or between the two handlers of one. -/
def LoopState.betweenHandlers (l : LoopState) : Bool :=
  match l.tasks with
  | [] | .events _ :: _ | .writable _ :: .events _ :: _ => true
  | _ => false

/-- Between two handlers, the buffer of an open connection holds no complete frame, or as many requests are in
flight as the cap allows. -/
theorem no_request_waits (cfg : ServerConfig) (store : Store P) (clock : Int) (log : List Event) (s : System P)
    (hrun : System.Run cfg store clock log s) (hbetween : s.loop.betweenHandlers = true) (id : Nat) (c : Connection)
    (hc : s.loop.registry.findCurrent id = some c) :
    parseCommand c.input.data = .needMoreData ∨
      cfg.maxInFlightPerConnection ≤ c.sequencer.inFlightCount := by
  rcases hrun.servedInv id c hc with hmore | hcap | ⟨rest, ht⟩
  · exact .inl hmore
  · exact .inr hcap
  · rw [LoopState.betweenHandlers, ht] at hbetween
    cases hbetween

end

def ServerConfig.oneByOne : ServerConfig := { ServerConfig.small 1 Nat.one_pos with maxInFlightPerConnection := 1 }

/-- A client sends two `PING`s in one piece; the loop hands the first one over and goes back to `epoll_wait`. -/
def cappedPingsResult : Option (System (.reference .exact) × List Event) :=
  run (System.step ServerConfig.oneByOne.toEventLoopConfig) (System.start ServerConfig.oneByOne Store.small 0)
    (Choice.connect (pingFrame ++ pingFrame) ++
      ([.loop {}, .loop {}, .loop {}, .loop {}, .loop {}, .loop {}] : List Choice))

theorem cappedPingsResult_isSome : cappedPingsResult.isSome = true := by decide +kernel

theorem no_request_waits_at_cap : ∃ (log : List Event) (s : System (.reference .exact)) (c : Connection),
    System.Run ServerConfig.oneByOne Store.small 0 log s ∧ s.loop.tasks = [] ∧
      s.loop.registry.findCurrent 7 = some c ∧ c.input.data = pingFrame ∧
      (parseCommand c.input.data = .needMoreData ∨ 1 ≤ c.sequencer.inFlightCount) := by
  have hrun := exec_of_isSome cappedPingsResult_isSome
  have htasks : (cappedPingsResult.get cappedPingsResult_isSome).1.loop.tasks = [] := by decide +kernel
  have hfound : ((cappedPingsResult.get cappedPingsResult_isSome).1.loop.registry.findCurrent 7).map (·.input.data) =
      some pingFrame := by decide +kernel
  obtain ⟨c, hc, hdata⟩ := Option.map_eq_some_iff.mp hfound
  have hbetween : (cappedPingsResult.get cappedPingsResult_isSome).1.loop.betweenHandlers = true := by
    rw [LoopState.betweenHandlers, htasks]
  exact ⟨_, _, c, hrun, htasks, hc, hdata, no_request_waits _ _ _ _ _ hrun hbetween 7 c hc⟩

/-! ### The limits of the configuration -/

section
variable {cfg : EventLoopConfig} {k k' : Core} {evs log : List Event} {c c' : Connection}

theorem pushResponses_capacity {output output' : BoundedBuffer} {ready : List Bytes} {ok : Bool}
    (h : pushResponses output ready = (output', ok)) : output'.capacity = output.capacity := by
  induction ready generalizing output with
  | nil => cases h; rfl
  | cons response ready ih =>
    rw [pushResponses] at h
    cases happ : output.append response with
    | none => rw [happ] at h; cases h; rfl
    | some output₁ =>
      rw [happ] at h
      exact (ih h).trans (BoundedBuffer.capacity_of_append happ)

theorem record_inFlightCount_le (s : ResponseSequencer) (q : Nat) (r : Bytes) :
    (s.record q r).1.inFlightCount ≤ s.inFlightCount := by
  have hrel := s.record_released q r
  have hexp := hrel.expected
  rw [ResponseSequencer.nextExpected_emplace] at hexp
  unfold ResponseSequencer.inFlightCount
  rw [record_nextRequest, hexp]
  omega

/-- The buffers have the configured capacities and the cap on requests in flight is kept. -/
structure Capped (cfg : EventLoopConfig) (c : Connection) : Prop where
  input : c.input.capacity = cfg.maxInputBytes
  output : c.output.capacity = cfg.maxOutputBytes
  inFlight : c.sequencer.inFlightCount ≤ cfg.maxInFlightPerConnection

theorem Capped.respond {q : Nat} {r : Bytes} {ok : Bool} (h : Capped cfg c) (hresp : c.respond q r = (c', ok)) :
    Capped cfg c' := by
  refine ⟨?_, ?_, ?_⟩
  · rw [respond_input hresp]; exact h.input
  · rw [pushResponses_capacity (respond_push hresp)]; exact h.output
  · rw [respond_sequencer hresp]
    exact (record_inFlightCount_le _ _ _).trans h.inFlight

theorem Capped.takeFrame (h : Capped cfg c) (hlt : c.sequencer.inFlightCount < cfg.maxInFlightPerConnection)
    (n : Nat) : Capped cfg (c.takeFrame n) := by
  refine ⟨h.input, h.output, ?_⟩
  unfold ResponseSequencer.inFlightCount at hlt
  show c.sequencer.nextRequestSequence + 1 - c.sequencer.nextExpected ≤ _
  omega

theorem Capped.touched (h : Capped cfg c) (htouch : Touched cfg k k' c evs c') : Capped cfg c' := by
  cases htouch with
  | send _ _ => exact ⟨h.input, h.output, h.inFlight⟩
  | receive happ _ => exact ⟨(BoundedBuffer.capacity_of_append happ).trans h.input, h.output, h.inFlight⟩
  | handOver hlt _ _ => exact h.takeFrame hlt _
  | answer hlt _ hresp _ => exact (h.takeFrame hlt _).respond hresp
  | complete _ _ _ hresp _ => exact h.respond hresp

/-- The books balance and every open connection is within its caps. -/
structure CapInv (cfg : EventLoopConfig) (log : List Event) (k : Core) : Prop where
  book : BookInv log k
  capped : ∀ id c, k.registry.findCurrent id = some c → Capped cfg c

theorem CapInv.move (h : CapInv cfg log k) (hmove : Move cfg k evs k') : CapInv cfg (log ++ evs) k' := by
  refine ⟨h.book.move hmove, fun id c hc => ?_⟩
  rcases hmove.origin h.book.registry hc with ⟨rfl, -, -⟩ | ⟨hc₀, -, -⟩ | ⟨c₀, hc₀, htouch⟩
  · exact ⟨rfl, rfl, Nat.zero_le _⟩
  · exact h.capped id c hc₀
  · exact (h.capped id c₀ hc₀).touched htouch

/-- What a connection within its caps holds. -/
structure WithinLimits (cfg : EventLoopConfig) (c : Connection) : Prop where
  input : c.input.capacity = cfg.maxInputBytes ∧ c.input.data.length ≤ cfg.maxInputBytes
  output : c.output.capacity = cfg.maxOutputBytes ∧ c.output.data.length ≤ cfg.maxOutputBytes
  /-- `in_flight_count()` subtracts the smaller number from the larger one. -/
  ordered : c.sequencer.nextExpected ≤ c.sequencer.nextRequestSequence
  inFlight : c.sequencer.inFlightCount ≤ cfg.maxInFlightPerConnection
  pending_card : c.sequencer.pending.keys.card ≤ cfg.maxInFlightPerConnection - 1
  pending_between : ∀ q ∈ c.sequencer.pending,
    c.sequencer.nextExpected < q ∧ q < c.sequencer.nextRequestSequence

theorem Accounted.pending_between (h : Accounted k c) {q : Nat} (hq : q ∈ c.sequencer.pending) :
    c.sequencer.nextExpected < q ∧ q < c.sequencer.nextRequestSequence := by
  obtain ⟨r, hr⟩ := Finmap.mem_iff.mp hq
  have hpending : c.sequencer.isPending q = 1 := by
    unfold ResponseSequencer.isPending
    rw [hr]; rfl
  have hle := h.le q
  rw [hpending] at hle
  unfold ResponseSequencer.outstanding at hle
  split_ifs at hle with hrange
  · refine ⟨Nat.lt_of_le_of_ne hrange.1 fun hnext => ?_, hrange.2⟩
    rw [← hnext, h.gap] at hr
    cases hr
  · omega

theorem Capped.withinLimits (h : Capped cfg c) (hacc : Accounted k c) : WithinLimits cfg c := by
  have hbetween : ∀ q ∈ c.sequencer.pending, _ := fun q hq => hacc.pending_between hq
  have hsub : c.sequencer.pending.keys ⊆
      Finset.Ioo c.sequencer.nextExpected c.sequencer.nextRequestSequence := by
    intro q hq
    exact Finset.mem_Ioo.mpr (hbetween q (Finmap.mem_keys.mp hq))
  have hcard := Finset.card_le_card hsub
  have hcap := h.inFlight
  rw [Nat.card_Ioo] at hcard
  unfold ResponseSequencer.inFlightCount at hcap
  exact ⟨⟨h.input, h.input ▸ c.input.length_le⟩, ⟨h.output, h.output ▸ c.output.length_le⟩, hacc.ordered,
    h.inFlight, by omega, hbetween⟩

end

section
variable {P : Platform} {cfg : ServerConfig} {store : Store P} {clock : Int} {log evs : List Event} {s s' : System P}

/-- The queues keep their capacities. -/
structure CapacitiesKept (l l' : LoopState) : Prop where
  work : l'.workQueue.capacity = l.workQueue.capacity
  completions : l'.completionQueue.capacity = l.completionQueue.capacity

theorem SystemMove.capacitiesKept {cfg : EventLoopConfig} {choice : Choice} (h : SystemMove cfg s choice evs s') :
    CapacitiesKept s.loop s'.loop := by
  cases h with
  | loop hl => cases (loopMove_of_step hl).2 <;> exact ⟨rfl, rfl⟩
  | worker _ hmove => cases hmove <;> exact ⟨rfl, rfl⟩
  | _ => exact ⟨rfl, rfl⟩

theorem System.Run.capacities (h : System.Run cfg store clock log s) :
    s.loop.workQueue.capacity = cfg.workCapacity ∧ s.loop.completionQueue.capacity = cfg.completionCapacity := by
  induction h with
  | refl => exact ⟨rfl, rfl⟩
  | tail _ hstep ih =>
    obtain ⟨choice, hstep⟩ := hstep
    have hkept := (systemMove_of_step hstep).capacitiesKept
    exact ⟨hkept.work.trans ih.1, hkept.completions.trans ih.2⟩

theorem System.Run.capInv (h : System.Run cfg store clock log s) : CapInv cfg.toEventLoopConfig log s.core := by
  refine h.invariant ⟨.start cfg, fun id c hc => ?_⟩ fun _ _ _ _ => CapInv.move
  cases hc

/-- In every run every open connection and both queues stay within the limits of the configuration. -/
theorem memory_bounded (h : System.Run cfg store clock log s) :
    (∀ id c, s.loop.registry.findCurrent id = some c → WithinLimits cfg.toEventLoopConfig c) ∧
      s.loop.workQueue.items.length ≤ cfg.workCapacity ∧
      s.loop.completionQueue.items.length ≤ cfg.completionCapacity := by
  have hinv := h.capInv
  obtain ⟨hwork, hcompletions⟩ := h.capacities
  refine ⟨fun id c hc => ?_, ?_, ?_⟩
  · exact (hinv.capped id c hc).withinLimits (hinv.book.flight id c hc)
  · rw [← hwork]; exact s.loop.workQueue.length_le
  · rw [← hcompletions]; exact s.loop.completionQueue.length_le

end

theorem memory_bounded_sample : ∃ c, sampleState.loop.registry.findCurrent 7 = some c ∧
    WithinLimits (ServerConfig.small 2 Nat.two_pos).toEventLoopConfig c := by
  have hopen : (sampleState.loop.registry.findCurrent 7).isSome = true := by decide +kernel
  obtain ⟨c, hc⟩ := Option.isSome_iff_exists.mp hopen
  exact ⟨c, hc, (memory_bounded sample_run).1 7 c hc⟩

end KvStore
