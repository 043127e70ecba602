import KvStore.ConnectionMoves

/-!
# No request is lost, none is executed twice

`Accounted k c` balances the books of an open connection: the copies of a request in flight and in
`pending` add up to one exactly while the request is outstanding. `DispatchInv` does the same for the store:
a request handed to the workers is waiting or was dispatched, once. Both are kept by every move, and
`requests_once` reads them off for every run.
-/

namespace KvStore
open ByteString Transition Slots

section
variable {cfg : EventLoopConfig} {k k' : Core} {evs log : List Event} {id g q : Nat} {c : Connection}

/-! ### Frames and sequence numbers -/

/-- The frames taken from an open connection are numbered without gaps. -/
def FramesInv (log : List Event) (k : Core) : Prop :=
  ∀ id c, k.registry.findCurrent id = some c →
    (framesOf c.generation log).length = c.sequencer.nextRequestSequence

theorem framesOf_taken_self {q : Nat} {verdict : ParseResult} {raw : Bytes} {own : Option Bytes} :
    framesOf g [.taken g q verdict raw own] = [⟨verdict, raw, own⟩] := by
  simp [framesOf, Event.frame]

theorem framesOf_taken_ne {g' q : Nat} {verdict : ParseResult} {raw : Bytes} {own : Option Bytes}
    (h : g' ≠ g) : framesOf g [.taken g' q verdict raw own] = [] := by
  simp [framesOf, Event.frame, h]

theorem RegistryInv.history_next (hinv : RegistryInv log k) :
    sentOf k.registry.nextGeneration log = [] ∧ receivedOf k.registry.nextGeneration log = [] ∧
      framesOf k.registry.nextGeneration log = [] :=
  have hist := history_eq_nil fun e he => Nat.ne_of_lt (hinv.event_lt e he)
  ⟨hist.1, hist.2.1, hist.2.2.1⟩

theorem record_nextRequest (s : ResponseSequencer) (q : Nat) (r : Bytes) :
    (s.record q r).1.nextRequestSequence = s.nextRequestSequence := by
  rw [(s.record_released q r).request, ResponseSequencer.nextRequestSequence_emplace]

theorem respond_sequencer {c' : Connection} {q : Nat} {r : Bytes} {ok : Bool}
    (h : c.respond q r = (c', ok)) : c'.sequencer = (c.sequencer.record q r).1 := by
  have : (c.respond q r).1.sequencer = (c.sequencer.record q r).1 := rfl
  rw [h] at this; exact this

theorem FramesInv.move (hreg : RegistryInv log k) (hinv : FramesInv log k) (h : Move cfg k evs k') :
    FramesInv (log ++ evs) k' := by
  intro id c hc
  rcases h.origin hreg hc with ⟨rfl, rfl, -⟩ | ⟨hc₀, hsilent, -⟩ | ⟨c₀, hc₀, htouch⟩
  · have hnext := hreg.history_next.2.2
    rw [framesOf_append]
    show (framesOf k.registry.nextGeneration log ++ []).length = 0
    rw [hnext]; rfl
  · rw [framesOf_append, hsilent.frames, List.append_nil]; exact hinv id c hc₀
  · have hlen := hinv id c₀ hc₀
    cases htouch with
    | send _ _ => rw [framesOf_append]; exact (congrArg List.length (List.append_nil _)).trans hlen
    | receive _ _ => rw [framesOf_append]; exact (congrArg List.length (List.append_nil _)).trans hlen
    | handOver _ _ _ =>
      show (framesOf c₀.generation _).length = c₀.sequencer.nextRequestSequence + 1
      rw [framesOf_append, Connection.takenEvent, framesOf_taken_self, List.length_append, hlen]; rfl
    | answer _ _ hresp _ =>
      rw [(respond_id_generation hresp).2, respond_sequencer hresp, record_nextRequest]
      show (framesOf c₀.generation _).length = c₀.sequencer.nextRequestSequence + 1
      rw [framesOf_append, Connection.takenEvent, framesOf_taken_self, List.length_append, hlen]; rfl
    | complete _ _ _ hresp _ =>
      rw [(respond_id_generation hresp).2, respond_sequencer hresp, record_nextRequest, List.append_nil]
      exact hlen

/-! ### Requests in flight -/

structure Accounted (k : Core) (c : Connection) : Prop where
  ordered : c.sequencer.nextExpected ≤ c.sequencer.nextRequestSequence
  gap : c.sequencer.pending.lookup c.sequencer.nextExpected = none
  le : ∀ q, k.flight c.id c.generation q + c.sequencer.isPending q ≤ c.sequencer.outstanding q
  ge : k.lossy = false →
    ∀ q, c.sequencer.outstanding q ≤ k.flight c.id c.generation q + c.sequencer.isPending q

theorem lookup_eq_none_of_isPending {s : ResponseSequencer} (h : s.isPending q = 0) :
    s.pending.lookup q = none := by
  unfold ResponseSequencer.isPending at h
  split_ifs at h with hsome
  exact Option.not_isSome_iff_eq_none.mp hsome

/-- A response that was in flight (or is given on the spot) moves into the sequencer. -/
theorem Accounted.respond {c' : Connection} {q₀ : Nat} {r : Bytes} {ok : Bool}
    (hord : c.sequencer.nextExpected ≤ c.sequencer.nextRequestSequence)
    (hresp : c.respond q₀ r = (c', ok))
    (hle : ∀ q, k'.flight c.id c.generation q + (if q = q₀ then 1 else 0) + c.sequencer.isPending q ≤
      c.sequencer.outstanding q)
    (hge : k'.lossy = false → ∀ q, c.sequencer.outstanding q ≤
      k'.flight c.id c.generation q + (if q = q₀ then 1 else 0) + c.sequencer.isPending q) :
    Accounted k' c' := by
  have hone : c.sequencer.outstanding q₀ ≤ 1 := by unfold ResponseSequencer.outstanding; split_ifs <;> omega
  have hnone : c.sequencer.pending.lookup q₀ = none := by
    refine lookup_eq_none_of_isPending ?_
    have := hle q₀
    rw [if_pos rfl] at this; omega
  obtain ⟨hbal, hord'⟩ := ResponseSequencer.record_outstanding r hord hnone fun q => by
    have := hle q; omega
  have hseq := respond_sequencer hresp
  obtain ⟨hid, hg⟩ := respond_id_generation hresp
  rw [← hseq] at hbal hord'
  refine ⟨hord', ?_, fun q => ?_, fun hl q => ?_⟩
  · rw [hseq]; exact (c.sequencer.record_released q₀ r).gap
  · have h1 := hbal q
    have h2 := hle q
    rw [hid, hg]; omega
  · have h1 := hbal q
    have h2 := hge hl q
    rw [hid, hg]; omega

theorem outstanding_takeFrame {n : Nat} (hord : c.sequencer.nextExpected ≤ c.sequencer.nextRequestSequence)
    (q : Nat) : (c.takeFrame n).sequencer.outstanding q =
      c.sequencer.outstanding q + if q = c.sequencer.nextRequestSequence then 1 else 0 :=
  ResponseSequencer.outstanding_advance hord q

theorem Touched.accounted {c' : Connection} (h : Touched cfg k k' c evs c') (hacc : Accounted k c) :
    Accounted k' c' := by
  have hflight : ∀ {k' : Core}, k' = { k with registry := k'.registry } →
      k'.flight = k.flight ∧ k'.lossy = k.lossy := fun hk => by rw [hk]; exact ⟨rfl, rfl⟩
  cases h with
  | send _ hk =>
    obtain ⟨hf, hl⟩ := hflight hk
    exact ⟨hacc.ordered, hacc.gap, by rw [hf]; exact hacc.le, by rw [hf, hl]; exact hacc.ge⟩
  | receive _ hk =>
    obtain ⟨hf, hl⟩ := hflight hk
    exact ⟨hacc.ordered, hacc.gap, by rw [hf]; exact hacc.le, by rw [hf, hl]; exact hacc.ge⟩
  | @handOver n command _ _ hk =>
    -- the new number is in the work queue and nowhere else
    have hf : ∀ q, k'.flight c.id c.generation q =
        k.flight c.id c.generation q + if q = c.sequencer.nextRequestSequence then 1 else 0 := by
      intro q
      rw [hk]; exact Core.flight_handOver c command
    have hl : k'.lossy = k.lossy := by rw [hk]
    refine ⟨Nat.le_succ_of_le hacc.ordered, hacc.gap, fun q => ?_, fun hlossy q => ?_⟩
    · have := hacc.le q
      rw [outstanding_takeFrame hacc.ordered]
      show k'.flight c.id c.generation q + c.sequencer.isPending q ≤ _
      rw [hf]; omega
    · have := hacc.ge (hl ▸ hlossy) q
      rw [outstanding_takeFrame hacc.ordered]
      show _ ≤ k'.flight c.id c.generation q + c.sequencer.isPending q
      rw [hf]; omega
  | @answer n _ _ _ _ _ hresp hk =>
    obtain ⟨hf, hl⟩ := hflight hk
    refine Accounted.respond (Nat.le_succ_of_le hacc.ordered) hresp (fun q => ?_) fun hlossy q => ?_
    · have := hacc.le q
      rw [outstanding_takeFrame hacc.ordered, hf]
      show k.flight c.id c.generation q + _ + c.sequencer.isPending q ≤ _
      omega
    · have := hacc.ge (hl ▸ hlossy) q
      rw [outstanding_takeFrame hacc.ordered, hf]
      show _ ≤ k.flight c.id c.generation q + _ + c.sequencer.isPending q
      omega
  | @complete completion _ hcomp hid hg hresp hk =>
    -- the completion leaves the queue for the sequencer
    have hf : ∀ q, k.flight c.id c.generation q =
        k'.flight c.id c.generation q + if q = completion.sequence then 1 else 0 := by
      intro q
      rw [hk]; exact Core.flight_complete hcomp hid hg
    have hl : k'.lossy = k.lossy := by rw [hk]
    refine Accounted.respond hacc.ordered hresp (fun q => ?_) fun hlossy q => ?_
    · rw [← hf]; exact hacc.le q
    · rw [← hf]; exact hacc.ge (hl ▸ hlossy) q

/-- The books of every open connection balance. -/
def FlightInv (k : Core) : Prop := ∀ id c, k.registry.findCurrent id = some c → Accounted k c

theorem FlightInv.move (hreg : RegistryInv log k) (hinv : FlightInv k) (h : Move cfg k evs k') :
    FlightInv k' := by
  intro id c hc
  rcases h.origin hreg hc with ⟨rfl, -, hk⟩ | ⟨hc₀, -, hkept⟩ | ⟨c₀, hc₀, htouch⟩
  · have hzero : ∀ q, k'.flight id k.registry.nextGeneration q = 0 := fun q => by
      rw [hk]; exact Core.flight_eq_zero (k := k) hreg.carried_lt
    have hout : ∀ q, (⟨0, 0, ∅⟩ : ResponseSequencer).outstanding q = 0 := fun q => by
      unfold ResponseSequencer.outstanding; rw [if_neg (by simp)]
    refine ⟨le_rfl, rfl, fun q => ?_, fun _ q => ?_⟩
    · show k'.flight id k.registry.nextGeneration q + 0 ≤ _
      rw [hzero]; exact Nat.zero_le _
    · exact (hout q).le.trans (Nat.zero_le _)
  · have hacc := hinv id c hc₀
    refine ⟨hacc.ordered, hacc.gap, fun q => ?_, fun hl q => ?_⟩
    · exact (Nat.add_le_add_right (hkept.le q) _).trans (hacc.le q)
    · obtain ⟨hl', heq⟩ := hkept.eq hl
      rw [heq]; exact hacc.ge hl' q
  · exact htouch.accounted (hinv id c₀ hc₀)

/-! ### Dispatches -/

def WorkItem.isRequest (g q : Nat) (item : WorkItem) : Bool :=
  item.connectionGeneration = g ∧ item.sequence = q

def Hand.waits (g q : Nat) : Hand → Bool
  | .item w => w.isRequest g q
  | _ => false

/-- How many copies of request `q` of generation `g` have still to be dispatched. -/
def Core.waiting (k : Core) (g q : Nat) : Nat :=
  k.work.countP (WorkItem.isRequest g q) + k.hands.countP (Hand.waits g q)

/-- 1 if the `q`-th frame was given to the workers. -/
def handed (frames : List TakenFrame) (q : Nat) : Nat :=
  match frames[q]? with
  | some frame => frame.own.isNone.toNat
  | none => 0

theorem handed_concat (frames : List TakenFrame) (frame : TakenFrame) (q : Nat) :
    handed (frames ++ [frame]) q =
      handed frames q + if q = frames.length then frame.own.isNone.toNat else 0 := by
  unfold handed
  rcases Nat.lt_trichotomy q frames.length with hq | rfl | hq
  · rw [List.getElem?_append_left hq, if_neg (Nat.ne_of_lt hq)]; rfl
  · rw [List.getElem?_concat_length, List.getElem?_eq_none le_rfl, if_pos rfl]
    exact (Nat.zero_add _).symm
  · have hlen : (frames ++ [frame]).length ≤ q := by
      rw [List.length_append, List.length_singleton]; exact hq
    rw [List.getElem?_eq_none hlen, List.getElem?_eq_none (Nat.le_of_lt hq), if_neg (Nat.ne_of_gt hq)]

/-- Every request given to the workers is waiting for its dispatch or has had it, once. -/
def DispatchInv (log : List Event) (k : Core) : Prop :=
  ∀ g q, dispatchCount g q log + k.waiting g q = handed (framesOf g log) q

theorem CloseEvents.no_frames {g₀ : Nat} {output : Bytes} (h : CloseEvents g₀ output evs) (g : Nat) :
    framesOf g evs = [] ∧ ∀ q, dispatchCount g q evs = 0 := by
  cases h with
  | quiet => exact ⟨rfl, fun _ => rfl⟩
  | flushed _ => exact ⟨rfl, fun _ => rfl⟩

/-- A frame the loop answers itself adds nothing to what the workers have to do. -/
theorem handed_own {c : Connection} {verdict : ParseResult} {n : Nat} {reply : Bytes} (frames : List TakenFrame) :
    handed (frames ++ framesOf g [c.takenEvent verdict n (some reply)]) q = handed frames q := by
  by_cases hg : c.generation = g
  · subst hg
    rw [Connection.takenEvent, framesOf_taken_self, handed_concat]
    split_ifs <;> rfl
  · rw [Connection.takenEvent, framesOf_taken_ne hg, List.append_nil]

theorem handed_handOver {c : Connection} {command : Command} {n : Nat} {frames : List TakenFrame}
    (hlen : c.generation = g → frames.length = c.sequencer.nextRequestSequence) :
    handed (frames ++ framesOf g [c.takenEvent (.parsedCommand command n) n none]) q =
      handed frames q + ((c.workItem command).isRequest g q).toNat := by
  by_cases hg : c.generation = g
  · have hreq : ((c.workItem command).isRequest g q).toNat =
        if q = c.sequencer.nextRequestSequence then 1 else 0 := by
      simp only [WorkItem.isRequest, Connection.workItem, hg, true_and, eq_comm (a := q)]
      split_ifs with hq <;> simp [hq]
    rw [hreq, ← hlen hg]
    subst hg
    rw [Connection.takenEvent, framesOf_taken_self, handed_concat]; rfl
  · have hreq : ((c.workItem command).isRequest g q).toNat = 0 := by
      simp [WorkItem.isRequest, Connection.workItem, hg]
    rw [Connection.takenEvent, framesOf_taken_ne hg, List.append_nil, hreq, Nat.add_zero]

theorem Core.waiting_handOver {r : ConnectionRegistry} (item : WorkItem) :
    ({ k with registry := r, work := k.work ++ [item] } : Core).waiting g q =
      k.waiting g q + (item.isRequest g q).toNat := by
  unfold waiting
  rw [countP_concat_toNat, Nat.add_right_comm]

theorem Core.waiting_pop {i : Nat} {item : WorkItem} {rest : List WorkItem} (hk : k.work = item :: rest)
    (hi : k.hands[i]? = some .free) :
    ({ k with work := rest, hands := k.hands.set i (.item item) } : Core).waiting g q = k.waiting g q := by
  have hset := countP_set_add (Hand.waits g q) (.item item) hi
  unfold waiting
  rw [hk, countP_cons_toNat]
  simp only [Hand.waits, Bool.toNat_false] at hset ⊢
  omega

theorem Core.waiting_dispatch {i : Nat} {item : WorkItem} (completion : Completion)
    (hi : k.hands[i]? = some (.item item)) :
    (item.isRequest g q).toNat + ({ k with hands := k.hands.set i (.completion completion) } : Core).waiting g q =
      k.waiting g q := by
  have hset := countP_set_add (Hand.waits g q) (.completion completion) hi
  unfold waiting
  simp only [Hand.waits, Bool.toNat_false] at hset ⊢
  omega

theorem Core.waiting_free {i : Nat} {completion : Completion} {completions : List Completion}
    (hi : k.hands[i]? = some (.completion completion)) :
    ({ k with hands := k.hands.set i .free, completions } : Core).waiting g q = k.waiting g q := by
  have hset := countP_set_add (Hand.waits g q) .free hi
  unfold waiting
  simp only [Hand.waits, Bool.toNat_false] at hset ⊢
  omega

theorem DispatchInv.move (hframes : FramesInv log k) (hinv : DispatchInv log k) (h : Move cfg k evs k') :
    DispatchInv (log ++ evs) k' := by
  intro g q
  have hold := hinv g q
  rw [dispatchCount_append, framesOf_append]
  have hquiet : framesOf g evs = [] → dispatchCount g q evs = 0 → k'.waiting g q = k.waiting g q →
      dispatchCount g q log + dispatchCount g q evs + k'.waiting g q =
        handed (framesOf g log ++ framesOf g evs) q := fun hf hd hw => by
    rw [hf, hd, hw, List.append_nil]; exact hold
  cases h with
  | accept _ => exact hquiet rfl rfl rfl
  | send _ _ => exact hquiet rfl rfl rfl
  | receive _ _ => exact hquiet rfl rfl rfl
  | complete _ _ _ => exact hquiet rfl rfl rfl
  | stale _ _ => exact hquiet rfl rfl rfl
  | closeCompletions => exact hquiet rfl rfl rfl
  | close _ hevs => exact hquiet (hevs.no_frames g).1 ((hevs.no_frames g).2 q) rfl
  | completeClose _ _ _ hevs => exact hquiet (hevs.no_frames g).1 ((hevs.no_frames g).2 q) rfl
  | answer _ _ _ _ => rw [handed_own]; exact hold
  | @answerClose _ _ n c c' verdict reply _ _ evs' _ _ _ _ hevs =>
    obtain ⟨hf, hd⟩ := hevs.no_frames g
    have hcons : framesOf g (c.takenEvent verdict n (some reply) :: evs') =
        framesOf g [c.takenEvent verdict n (some reply)] := by
      rw [← List.singleton_append, framesOf_append, hf, List.append_nil]
    have hcount : dispatchCount g q (c.takenEvent verdict n (some reply) :: evs') = 0 := by
      rw [← List.singleton_append, dispatchCount_append, hd]; rfl
    rw [hcons, hcount, handed_own]; exact hold
  | @handOver _ _ n c command hf _ _ =>
    obtain ⟨hc, -⟩ := ConnectionRegistry.find_eq_some_iff.mp hf
    rw [Core.waiting_handOver, handed_handOver fun hg => hg ▸ hframes _ _ hc, ← hold]
    exact (Nat.add_assoc ..).symm
  | pop hk hi => exact hquiet rfl rfl (Core.waiting_pop hk hi)
  | @dispatch i item reply hi _ =>
    have hcount : dispatchCount g q [.dispatched item.connectionGeneration item.sequence item.command reply] =
        (item.isRequest g q).toNat := countP_cons_toNat _ _ _ |>.trans (Nat.zero_add _)
    show _ = handed (framesOf g log ++ []) q
    rw [List.append_nil, ← hold, hcount, Nat.add_assoc, Core.waiting_dispatch _ hi]
  | push hi _ => exact hquiet rfl rfl (Core.waiting_free hi)
  | lose hi _ => exact hquiet rfl rfl (Core.waiting_free hi)

/-! ### Every run -/

/-- The invariants of the bookkeeping. -/
structure BookInv (log : List Event) (k : Core) : Prop where
  registry : RegistryInv log k
  frames : FramesInv log k
  flight : FlightInv k
  dispatch : DispatchInv log k

theorem BookInv.move (hinv : BookInv log k) (h : Move cfg k evs k') : BookInv (log ++ evs) k' :=
  ⟨hinv.registry.move h, hinv.frames.move hinv.registry h, hinv.flight.move hinv.registry h,
    hinv.dispatch.move hinv.frames h⟩

theorem BookInv.start (cfg : ServerConfig) : BookInv [] (Core.start cfg) := by
  have hnone : ∀ id, (Core.start cfg).registry.findCurrent id = none := fun _ => rfl
  refine ⟨.start cfg, fun id c hc => ?_, fun id c hc => ?_, fun g q => ?_⟩
  · cases (hnone id).symm.trans hc
  · cases (hnone id).symm.trans hc
  · have hfree : (List.replicate cfg.workerCount Hand.free).countP (Hand.waits g q) = 0 :=
      List.countP_eq_zero.mpr fun hand hh => by rw [List.eq_of_mem_replicate hh]; exact Bool.false_ne_true
    show 0 + (0 + (List.replicate cfg.workerCount Hand.free).countP (Hand.waits g q)) = 0
    rw [hfree]

end

section
variable {P : Platform} {cfg : ServerConfig} {store : Store P} {clock : Int} {log : List Event} {s : System P}

theorem System.Run.bookInv (h : System.Run cfg store clock log s) : BookInv log s.core :=
  h.invariant (.start cfg) fun _ _ _ _ => BookInv.move

/-- What it means that the server neither loses nor repeats a request. -/
structure RequestsOnce (log : List Event) (s : System P) : Prop where
  /-- A request whose response was released is nowhere any more. -/
  released : s.loop.completionQueue.closed = false → ∀ id c, s.loop.registry.findCurrent id = some c →
    ∀ q, q < c.sequencer.nextExpected →
      s.core.flight id c.generation q = 0 ∧ c.sequencer.pending.lookup q = none
  /-- Any other assigned request is in exactly one of the work queue, the workers' hands, the completion
  queue and `pending`, once. -/
  outstanding : s.loop.completionQueue.closed = false → ∀ id c, s.loop.registry.findCurrent id = some c →
    ∀ q, c.sequencer.nextExpected ≤ q → q < c.sequencer.nextRequestSequence →
      s.core.flight id c.generation q + c.sequencer.isPending q = 1
  next_not_pending : ∀ id c, s.loop.registry.findCurrent id = some c →
    c.sequencer.pending.lookup c.sequencer.nextExpected = none
  dispatched_once : ∀ g q, dispatchCount g q log ≤ 1
  /-- A request the loop answered itself (busy, shutting down, protocol error) never reaches the store. -/
  own_not_dispatched : ∀ g q frame, (framesOf g log)[q]? = some frame → frame.own ≠ none →
    dispatchCount g q log = 0

theorem handed_le_one (frames : List TakenFrame) (q : Nat) : handed frames q ≤ 1 := by
  unfold handed
  cases frames[q]? with
  | none => exact Nat.zero_le _
  | some frame => exact Bool.toNat_le _

/-- In every run no request is lost or executed twice. -/
theorem requests_once (h : System.Run cfg store clock log s) : RequestsOnce log s := by
  have hinv := h.bookInv
  refine ⟨fun hopen id c hc q hq => ?_, fun hopen id c hc q hlo hhi => ?_, fun id c hc => ?_, fun g q => ?_,
    fun g q frame hframe hown => ?_⟩
  · have hacc := hinv.flight id c hc
    have hle := hacc.le q
    have hout : c.sequencer.outstanding q = 0 := by
      unfold ResponseSequencer.outstanding; rw [if_neg (by omega)]
    rw [hinv.registry.keyed id c hc, hout] at hle
    exact ⟨by omega, lookup_eq_none_of_isPending (by omega)⟩
  · have hacc := hinv.flight id c hc
    have hle := hacc.le q
    have hge := hacc.ge hopen q
    have hout : c.sequencer.outstanding q = 1 := by
      unfold ResponseSequencer.outstanding; rw [if_pos ⟨hlo, hhi⟩]
    rw [hinv.registry.keyed id c hc, hout] at hle hge
    omega
  · exact (hinv.flight id c hc).gap
  · have := hinv.dispatch g q
    have := handed_le_one (framesOf g log) q
    omega
  · have hbal := hinv.dispatch g q
    have hzero : handed (framesOf g log) q = 0 := by
      unfold handed; rw [hframe]
      cases ho : frame.own with
      | none => exact absurd ho hown
      | some r => dsimp only; rw [ho]; rfl
    omega

end

/-- One pipelined pair of requests on a server with two workers. -/
theorem requests_once_sample : RequestsOnce sampleLog sampleState := requests_once sample_run

end KvStore
