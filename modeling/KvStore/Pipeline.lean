import KvStore.CommandOps
import KvStore.Routing

/-!
# Pipelined commands

The sequencer restores the order of the replies, not the order of execution: with two workers a GET can
overtake the SET before it (`pipeline_overtaken`). `InOrder` is the condition on a worker's step under which
that does not matter: no request that conflicts with the one it dispatches is still waiting in front of it.
In every run whose steps are in order, the replies are those of dispatching the commands one after another
(`pipelined_replies`). A server with a single worker takes no other steps (`inOrder_of_oneWorker`).
-/

namespace KvStore
open ByteString ExpiringMap Transition Serial

def WorkerPhase.item? : WorkerPhase → Option WorkItem
  | .popped item => some item
  | _ => none

def Choice.advances : Choice → Bool
  | .tick _ => true
  | _ => false

namespace System
variable {P : Platform}

def atHand (s : System P) (i : Nat) : Option WorkItem := s.workers[i]?.bind (·.phase.item?)

/-- The requests that have still to be dispatched. -/
def waiting (s : System P) : List WorkItem := s.workers.filterMap (·.phase.item?) ++ s.loop.workQueue.items

/-- A worker that dispatches overtakes no conflicting request of the same connection. -/
def InOrder (s : System P) : Choice → Prop
  | .worker i => ∀ item ∈ s.atHand i, ∀ item' ∈ s.waiting,
    item'.connectionGeneration = item.connectionGeneration → item'.sequence < item.sequence →
      ¬ item'.command.Conflicts item.command
  | _ => True

instance (s : System P) (choice : Choice) : Decidable (s.InOrder choice) := by
  cases choice <;> unfold InOrder <;> infer_instance

/-- The steps that are in order and leave the clock alone. -/
def orderedStep (cfg : EventLoopConfig) (s : System P) (choice : Choice) : Option (System P × List Event) :=
  if choice.advances = false ∧ s.InOrder choice then s.step cfg choice else none

def OrderedRun (cfg : ServerConfig) (store : Store P) (clock : Int) (log : List Event) (s : System P) : Prop :=
  Exec (Step (orderedStep cfg.toEventLoopConfig)) (start cfg store clock) log s

end System

/-- The frames are these commands, and all of them went to the workers. -/
def AllHanded (commands : List Command) (frames : List TakenFrame) : Prop :=
  List.Forall₂ (fun c frame => (∃ n, frame.verdict = .parsedCommand c n) ∧ frame.own = none) commands frames

theorem AllHanded.getElem {commands : List Command} {frames : List TakenFrame} (h : AllHanded commands frames)
    {q : Nat} {frame : TakenFrame} (hq : frames[q]? = some frame) :
    ∃ c n, commands[q]? = some c ∧ frame.verdict = .parsedCommand c n ∧ frame.own = none := by
  induction h generalizing q with
  | nil => cases hq
  | cons hone _ ih =>
    cases q with
    | zero =>
      cases hq
      obtain ⟨⟨n, hv⟩, hown⟩ := hone
      exact ⟨_, n, rfl, hv, hown⟩
    | succ q => exact ih hq

/-! ### Steps and the store -/

section
variable {P : Platform} {cfg : EventLoopConfig} {s s' : System P} {evs : List Event} {choice : Choice}

def Event.isDispatch : Event → Bool
  | .dispatched _ _ _ _ => true
  | _ => false

theorem CloseEvents.no_dispatch {g : Nat} {output : Bytes} (h : CloseEvents g output evs) :
    ∀ e ∈ evs, e.isDispatch = false := by
  intro e he
  cases h with
  | quiet => rw [List.mem_singleton.mp he]; rfl
  | flushed _ =>
    rcases List.mem_cons.mp he with rfl | he
    · rfl
    · rw [List.mem_singleton.mp he]; rfl

theorem Move.no_dispatch {k k' : Core} (h : Move cfg k evs k') (hhands : k.hands = []) :
    k'.hands = [] ∧ ∀ e ∈ evs, e.isDispatch = false := by
  have hone : ∀ {e₀ : Event}, e₀.isDispatch = false → ∀ e ∈ [e₀], e.isDispatch = false := fun h₀ e he =>
    List.mem_singleton.mp he ▸ h₀
  have hhand : ∀ {i : Nat} {hand : Hand}, k.hands[i]? = some hand → False := fun hi => by
    rw [hhands] at hi; cases hi
  cases h with
  | accept _ => exact ⟨hhands, hone rfl⟩
  | close _ hevs => exact ⟨hhands, hevs.no_dispatch⟩
  | send _ _ => exact ⟨hhands, hone rfl⟩
  | receive _ _ => exact ⟨hhands, hone rfl⟩
  | handOver _ _ _ => exact ⟨hhands, hone rfl⟩
  | answer _ _ _ _ => exact ⟨hhands, hone rfl⟩
  | answerClose _ _ _ _ hevs =>
    refine ⟨hhands, fun e he => ?_⟩
    rcases List.mem_cons.mp he with rfl | he
    · rfl
    · exact hevs.no_dispatch e he
  | complete _ _ _ => exact ⟨hhands, fun _ he => by cases he⟩
  | completeClose _ _ _ hevs => exact ⟨hhands, hevs.no_dispatch⟩
  | stale _ _ => exact ⟨hhands, fun _ he => by cases he⟩
  | closeCompletions => exact ⟨hhands, fun _ he => by cases he⟩
  | pop _ hi => exact (hhand hi).elim
  | dispatch hi _ => exact (hhand hi).elim
  | push hi _ => exact (hhand hi).elim
  | lose hi _ => exact (hhand hi).elim

theorem loopStep_no_dispatch {l l' : LoopState} {io : Io} (h : l.step cfg io = some (l', evs)) :
    ∀ e ∈ evs, e.isDispatch = false := by
  have hstep : ∀ log evs (k k' : Core), (k.hands = [] ∧ ∀ e ∈ log, e.isDispatch = false) →
      Move cfg k evs k' → k'.hands = [] ∧ ∀ e ∈ log ++ evs, e.isDispatch = false := by
    intro log evs k k' hinv hmove
    obtain ⟨hhands, hevs⟩ := hmove.no_dispatch hinv.1
    refine ⟨hhands, fun e he => ?_⟩
    rcases List.mem_append.mp he with he | he
    · exact hinv.2 e he
    · exact hevs e he
  have hinit : (l.core []).hands = [] ∧ ∀ e ∈ ([] : List Event), e.isDispatch = false :=
    ⟨rfl, fun _ he => by cases he⟩
  exact (((loopStep_effect h).moves []).invariant hinit hstep).2

/-- A step that leaves the clock alone dispatches a request, or what is live stays the same. -/
theorem System.step_store (h : s.step cfg choice = some (s', evs)) (hclock : choice.advances = false) :
    s'.clock = s.clock ∧
    ((∃ i w item, choice = .worker i ∧ s.workers[i]? = some w ∧ w.phase = .popped item ∧
        s'.store = (dispatch s.store s.clock item.command).1 ∧
        evs = [.dispatched item.connectionGeneration item.sequence item.command
          (dispatch s.store s.clock item.command).2]) ∨
      ((∀ e ∈ evs, e.isDispatch = false) ∧ s'.store.liveAt s.clock = s.store.liveAt s.clock)) := by
  have hnone : ∀ e ∈ ([] : List Event), e.isDispatch = false := fun _ he => by cases he
  cases systemMove_of_step h with
  | loop hl => exact ⟨rfl, .inr ⟨loopStep_no_dispatch hl, rfl⟩⟩
  | @worker i w _ _ hw hmove =>
    cases hmove with
    | dispatch hph => exact ⟨rfl, .inl ⟨i, w, _, rfl, hw, hph, rfl, rfl⟩⟩
    | _ => exact ⟨rfl, .inr ⟨hnone, rfl⟩⟩
  | tick => cases hclock
  | @sweep m => exact ⟨rfl, .inr ⟨hnone, funext fun k => Store.sweepExpired_liveAt m le_rfl⟩⟩
  | _ => exact ⟨rfl, .inr ⟨hnone, rfl⟩⟩

end

/-! ### Waiting requests -/

section
variable {P : Platform} {log evs : List Event} {s : System P} {g q : Nat} {item : WorkItem}

theorem WorkerPhase.item?_eq_some_iff {phase : WorkerPhase} :
    phase.item? = some item ↔ phase.hand = .item item := by
  cases phase <;> simp [WorkerPhase.item?, WorkerPhase.hand]

theorem System.mem_waiting_iff : item ∈ s.waiting ↔ .item item ∈ s.core.hands ∨ item ∈ s.core.work := by
  unfold System.waiting
  rw [List.mem_append, List.mem_filterMap]
  refine or_congr ?_ Iff.rfl
  show _ ↔ Hand.item item ∈ s.workers.map (·.phase.hand)
  rw [List.mem_map]
  exact exists_congr fun w => and_congr_right fun _ => WorkerPhase.item?_eq_some_iff

theorem System.waiting_pos_iff :
    0 < s.core.waiting g q ↔ ∃ item ∈ s.waiting, item.connectionGeneration = g ∧ item.sequence = q := by
  unfold Core.waiting
  rw [Nat.add_pos_iff_pos_or_pos, List.countP_pos_iff, List.countP_pos_iff]
  constructor
  · rintro (⟨item, hmem, hreq⟩ | ⟨hand, hmem, hreq⟩)
    · exact ⟨item, mem_waiting_iff.mpr (.inr hmem), by simpa [WorkItem.isRequest] using hreq⟩
    · cases hand with
      | item item => exact ⟨item, mem_waiting_iff.mpr (.inl hmem), by
          simpa [Hand.waits, WorkItem.isRequest] using hreq⟩
      | _ => cases hreq
  · rintro ⟨item, hmem, hg, hq⟩
    rcases mem_waiting_iff.mp hmem with hmem | hmem
    · exact .inr ⟨_, hmem, by simp [Hand.waits, WorkItem.isRequest, hg, hq]⟩
    · exact .inl ⟨_, hmem, by simp [WorkItem.isRequest, hg, hq]⟩

theorem StreamInv.itemOk (hinv : StreamInv log s.core) (h : item ∈ s.waiting) : ItemOk log item := by
  rcases System.mem_waiting_iff.mp h with h | h
  · exact hinv.carried.hands _ h
  · exact hinv.carried.work _ h

theorem AllHanded.command {commands : List Command} (hhanded : AllHanded commands (framesOf g log))
    (hinv : StreamInv log s.core) (h : item ∈ s.waiting) (hg : item.connectionGeneration = g) :
    commands[item.sequence]? = some item.command := by
  obtain ⟨n, raw, hframe⟩ := hinv.itemOk h
  rw [hg] at hframe
  obtain ⟨c, n', hc, hv, -⟩ := hhanded.getElem hframe
  cases hv
  exact hc

theorem AllHanded.dispatched_or_waiting {commands : List Command} {c : Command}
    (hhanded : AllHanded commands (framesOf g log)) (hbook : BookInv log s.core) (hq : commands[q]? = some c) :
    0 < dispatchCount g q log ∨ 0 < s.core.waiting g q := by
  have hlen : q < (framesOf g log).length := by
    rw [← List.Forall₂.length_eq hhanded]
    exact (List.getElem?_eq_some_iff.mp hq).1
  have hframe := List.getElem?_eq_getElem hlen
  obtain ⟨c', n, -, -, hown⟩ := hhanded.getElem hframe
  have hbal := hbook.dispatch g q
  have hone : handed (framesOf g log) q = 1 := by
    unfold handed
    rw [hframe]; dsimp only
    rw [hown]; rfl
  omega

theorem BookInv.not_dispatched (hbook : BookInv log s.core) (h : item ∈ s.waiting)
    (hg : item.connectionGeneration = g) : dispatchCount g item.sequence log = 0 := by
  have hpos : 0 < s.core.waiting g item.sequence := System.waiting_pos_iff.mpr ⟨item, h, hg, rfl⟩
  have hbal := hbook.dispatch g item.sequence
  have hone := handed_le_one (framesOf g log) item.sequence
  omega

theorem BookInv.dispatched_lt (hbook : BookInv log s.core) (h : 0 < dispatchCount g q log) :
    q < (framesOf g log).length := by
  have hbal := hbook.dispatch g q
  by_contra hlen
  have hzero : handed (framesOf g log) q = 0 := by
    unfold handed
    rw [List.getElem?_eq_none (Nat.le_of_not_lt hlen)]
  omega

end

/-! ### The invariant -/

section
variable {P : Platform} {cfg : ServerConfig} {store : Store P} {clock : Int} {log evs : List Event}
  {s s' : System P} {g : Nat} {commands : List Command}

/-- The dispatches so far kept conflicting commands in order, and were answered as in a serial execution. -/
structure Progress (store : Store P) (clock : Int) (g : Nat) (commands : List Command) (log : List Event)
    (st : Store P) : Prop where
  executed : Executed (commandOps P clock) (store.liveAt clock) commands (fun q => 0 < dispatchCount g q log)
    (st.liveAt clock)
  replies : ∀ q c r, .dispatched g q c r ∈ log → (sequentialReplies store clock commands)[q]? = some r

theorem dispatchCount_eq_zero (h : ∀ e ∈ evs, e.isDispatch = false) (q : Nat) : dispatchCount g q evs = 0 := by
  refine List.countP_eq_zero.mpr fun e he => ?_
  have := h e he
  cases e with
  | dispatched g' q' c r => cases this
  | _ => exact Bool.false_ne_true

theorem Progress.quiet {st st' : Store P} (h : Progress store clock g commands log st)
    (hlt : ∀ q, 0 < dispatchCount g q log → q < commands.length) (hevs : ∀ e ∈ evs, e.isDispatch = false)
    (hst : st'.liveAt clock = st.liveAt clock) (more : List Command) :
    Progress store clock g (commands ++ more) (log ++ evs) st' := by
  have hcount : ∀ q, dispatchCount g q (log ++ evs) = dispatchCount g q log := fun q => by
    rw [dispatchCount_append, dispatchCount_eq_zero hevs q, Nat.add_zero]
  refine ⟨?_, fun q c r hd => ?_⟩
  · simp only [hcount]
    rw [hst]
    exact h.executed.append hlt more
  · rcases List.mem_append.mp hd with hd | hd
    · have hq := h.replies q c r hd
      rw [sequentialReplies_eq] at hq ⊢
      rw [Ops.replies_append, List.getElem?_append_left (List.getElem?_eq_some_iff.mp hq).1]
      exact hq
    · cases hevs _ hd

theorem Progress.dispatch (h : Progress store clock g commands log s.store) (hinv : ServerInv log s.core)
    (hclock : s.clock = clock) (hhanded : AllHanded commands (framesOf g log)) {i : Nat} {item : WorkItem}
    (hi : s.atHand i = some item) (horder : s.InOrder (.worker i)) (hg : item.connectionGeneration = g) :
    Progress store clock g commands
      (log ++ [.dispatched item.connectionGeneration item.sequence item.command
        (KvStore.dispatch s.store s.clock item.command).2])
      (KvStore.dispatch s.store s.clock item.command).1 := by
  have hmem : item ∈ s.waiting := by
    obtain ⟨w, hw, hphase⟩ := Option.bind_eq_some_iff.mp hi
    exact List.mem_append_left _ (List.mem_filterMap.mpr ⟨w, List.mem_of_getElem? hw, hphase⟩)
  have hq := hhanded.command hinv.stream hmem hg
  have hnot : ¬ 0 < dispatchCount g item.sequence log := by
    rw [hinv.book.not_dispatched hmem hg]; exact Nat.lt_irrefl 0
  -- a conflicting request in front of it that is not dispatched would be waiting
  have hearlier : ∀ p b, p < item.sequence → commands[p]? = some b →
      (commandOps P clock).Conflict b item.command → 0 < dispatchCount g p log := by
    intro p b hp hb hconf
    rcases hhanded.dispatched_or_waiting hinv.book hb with hdone | hwaits
    · exact hdone
    · obtain ⟨item', hmem', hg', rfl⟩ := System.waiting_pos_iff.mp hwaits
      have hb' := hhanded.command hinv.stream hmem' hg'
      rw [hb] at hb'
      cases hb'
      exact absurd (conflicts_of_conflict hconf)
        (horder item hi item' hmem' (hg'.trans hg.symm) hp)
  have hreply := h.executed.reply hq hnot hearlier
  subst hclock hg
  refine ⟨h.executed.step hq hnot hearlier (fun p => ?_) (dispatch_apply ..), fun q c r hd => ?_⟩
  · have hone : dispatchCount item.connectionGeneration p
        [.dispatched item.connectionGeneration item.sequence item.command
          (KvStore.dispatch s.store s.clock item.command).2] = if p = item.sequence then 1 else 0 := by
      simp only [dispatchCount, List.countP_singleton, Event.dispatches, true_and, decide_eq_true_eq,
        eq_comm (a := p)]
    rw [dispatchCount_append, hone]
    split_ifs with hp
    · exact iff_of_true (Nat.succ_pos _) (.inr hp)
    · simp [hp]
  · rcases List.mem_append.mp hd with hd | hd
    · exact h.replies q c r hd
    · cases List.mem_singleton.mp hd
      rw [sequentialReplies_eq, dispatch_reply]
      exact hreply

theorem System.OrderedRun.run (h : OrderedRun cfg store clock log s) : System.Run cfg store clock log s := by
  refine Exec.map id (fun s₀ evs s₁ hstep => ?_) h
  obtain ⟨choice, hstep⟩ := hstep
  unfold orderedStep at hstep
  split_ifs at hstep
  exact .single ⟨choice, hstep⟩

theorem System.OrderedRun.progress (h : OrderedRun cfg store clock log s) : s.clock = clock ∧
    ((∀ e ∈ log, e.generation = g) → ∀ commands, AllHanded commands (framesOf g log) →
      Progress store clock g commands log s.store) := by
  induction h with
  | refl =>
    refine ⟨rfl, fun _ commands hhanded => ?_⟩
    cases hhanded
    exact ⟨.start, fun _ _ _ hd => by cases hd⟩
  | @tail log evs s₀ s₁ hpre hstep ih =>
    obtain ⟨choice, hstep⟩ := hstep
    unfold orderedStep at hstep
    split_ifs at hstep with hcond
    have hinv := (OrderedRun.run hpre).serverInv
    obtain ⟨hclock, hcases⟩ := System.step_store hstep hcond.1
    refine ⟨hclock.trans ih.1, fun hsingle commands hhanded => ?_⟩
    have hprev := ih.2 fun e he => hsingle e (List.mem_append_left _ he)
    rw [framesOf_append] at hhanded
    rcases hcases with ⟨i, w, item, rfl, hw, hphase, hstore, rfl⟩ | ⟨hevs, hst⟩
    · have hg : item.connectionGeneration = g := hsingle _ (List.mem_append_right _ (List.mem_singleton_self _))
      have hnone : framesOf g [.dispatched item.connectionGeneration item.sequence item.command
          (KvStore.dispatch s₀.store s₀.clock item.command).2] = [] := rfl
      rw [hnone, List.append_nil] at hhanded
      have hi : s₀.atHand i = some item := by
        unfold System.atHand
        rw [hw, Option.bind_some, hphase]; rfl
      rw [hstore]
      exact (hprev commands hhanded).dispatch hinv ih.1 hhanded hi hcond.2 hg
    · have hold := List.forall₂_take_append _ _ _ hhanded
      rw [ih.1] at hst
      rw [← List.take_append_drop (framesOf g log).length commands]
      refine (hprev _ hold).quiet (fun q hq => ?_) hevs hst _
      rw [List.Forall₂.length_eq hold]
      exact hinv.book.dispatched_lt hq

/-- Where all requests were handed over, the responses are those of the serial execution. -/
theorem Progress.response {st : Store P} {i : Nat} {r : Bytes} (h : Progress store clock g commands log st)
    (hhanded : AllHanded commands (framesOf g log)) (hr : IsResponse log g i r) :
    (sequentialReplies store clock commands)[i]? = some r := by
  cases hr with
  | dispatched _ hd => exact h.replies _ _ _ hd
  | refused hf _ =>
    obtain ⟨c, n, -, -, hown⟩ := hhanded.getElem hf
    cases hown
  | protocolError hf =>
    obtain ⟨c, n, -, hv, -⟩ := hhanded.getElem hf
    cases hv

theorem StreamOk.sequential {m : Nat} {out : Bytes} (h : StreamOk log g m out)
    (hresp : ∀ i r, IsResponse log g i r → (sequentialReplies store clock commands)[i]? = some r) :
    sentOf g log ++ out = ((sequentialReplies store clock commands).take m).flatten := by
  obtain ⟨rs, rfl, heq, hall⟩ := h
  have hrs : rs = (sequentialReplies store clock commands).take rs.length := by
    refine List.ext_getElem? fun i => ?_
    by_cases hi : i < rs.length
    · have hget := List.getElem?_eq_getElem hi
      rw [List.getElem?_take_of_lt hi, hresp i _ (hall i _ hget), hget]
    · rw [List.getElem?_eq_none (Nat.le_of_not_lt hi), List.getElem?_eq_none]
      exact (List.length_take_le _ _).trans (Nat.le_of_not_lt hi)
  rw [heq, ← hrs]

/-- In every run with a single client, valid commands, queues that take them and a clock that stands still:
if no worker overtakes a conflicting request, the replies are those of dispatching the commands one after
another on the initial store. -/
theorem pipelined_replies (P : Platform) (cfg : ServerConfig) (store : Store P) (clock : Int) (log : List Event)
    (s : System P) (h : System.OrderedRun cfg store clock log s) (g : Nat)
    (hsingle : ∀ e ∈ log, e.generation = g) (commands : List Command)
    (hhanded : AllHanded commands (framesOf g log)) :
    (∀ b, Unsent log s g b → ∃ m, m ≤ commands.length ∧
      sentOf g log ++ b = ((sequentialReplies store clock commands).take m).flatten) ∧
    ∀ id c, s.loop.registry.find id g = some c → c.sequencer.nextExpected = commands.length →
      sentOf g log ++ c.output.data = (sequentialReplies store clock commands).flatten := by
  have hinv := h.run.serverInv
  have hresp : ∀ i r, IsResponse log g i r → (sequentialReplies store clock commands)[i]? = some r :=
    fun i r => (h.progress.2 hsingle commands hhanded).response hhanded
  have hlen : (sequentialReplies store clock commands).length = commands.length := by
    rw [sequentialReplies_eq, Ops.length_replies]
  refine ⟨fun b hb => ?_, fun id c hc hall => ?_⟩
  · obtain ⟨m, hm⟩ := hinv.stream.unsent hb
    have heq := hm.sequential hresp
    refine ⟨min m commands.length, Nat.min_le_right _ _, ?_⟩
    rw [heq, ← hlen, ← List.take_eq_take_min]
  · obtain ⟨hcur, rfl⟩ := ConnectionRegistry.find_eq_some_iff.mp hc
    have heq := (hinv.stream.stream id c hcur).sequential hresp
    rw [hall, ← hlen, List.take_length] at heq
    exact heq

end

/-- `sampleChoices` with the two dispatches in request order. -/
def orderedChoices : List Choice :=
  Choice.connect (ascii "*3\r\n$3\r\nSET\r\n$1\r\nk\r\n$1\r\nv\r\n*2\r\n$3\r\nGET\r\n$1\r\nk\r\n") ++
    ([.loop {}, .loop {}, .loop {}, .loop {}, .loop {}, .loop {}, .loop {},
      .worker 0, .worker 1, .worker 0, .worker 1, .worker 1, .worker 0, .worker 0,
      .loop { poll := .events [.wakeup] }, .loop {}, .loop {}, .loop {}, .loop {}, .loop {}, .loop {},
      .loop {}, .loop {}, .loop { send := .wrote 12 }] : List Choice)

def orderedResult : Option (System (.reference .exact) × List Event) :=
  run (System.orderedStep (ServerConfig.small 2 Nat.two_pos).toEventLoopConfig)
    (System.start (ServerConfig.small 2 Nat.two_pos) Store.small 0) orderedChoices

theorem orderedResult_isSome : orderedResult.isSome = true := by decide +kernel

def sampleCommands : List Command :=
  [{ type := .kSet, key := ascii "k", value := ascii "v" }, { type := .kGet, key := ascii "k" }]

def sampleFrames : List TakenFrame :=
  [⟨.parsedCommand { type := .kSet, key := ascii "k", value := ascii "v" } 27,
      ascii "*3\r\n$3\r\nSET\r\n$1\r\nk\r\n$1\r\nv\r\n", none⟩,
    ⟨.parsedCommand { type := .kGet, key := ascii "k" } 20, ascii "*2\r\n$3\r\nGET\r\n$1\r\nk\r\n", none⟩]

theorem sampleFrames_handed : AllHanded sampleCommands sampleFrames :=
  .cons ⟨⟨_, rfl⟩, rfl⟩ (.cons ⟨⟨_, rfl⟩, rfl⟩ .nil)

/-- Two workers that take SET and GET of one key in order. -/
theorem pipelined_replies_set_get :
    ∃ c, (orderedResult.get orderedResult_isSome).1.loop.registry.find 7 1 = some c ∧
      sentOf 1 (orderedResult.get orderedResult_isSome).2 ++ c.output.data =
        (sequentialReplies Store.small 0 sampleCommands).flatten := by
  have hrun := exec_of_isSome orderedResult_isSome
  -- one evaluation of the run for the three facts
  obtain ⟨hframes, hopen, hsingle⟩ : framesOf 1 (orderedResult.get orderedResult_isSome).2 = sampleFrames ∧
      ((orderedResult.get orderedResult_isSome).1.loop.registry.find 7 1).map (·.sequencer.nextExpected) = some 2 ∧
      ∀ e ∈ (orderedResult.get orderedResult_isSome).2, e.generation = 1 := by
    decide +kernel
  obtain ⟨c, hc, hall⟩ := Option.map_eq_some_iff.mp hopen
  exact ⟨c, hc, (pipelined_replies _ _ Store.small 0 _ _ hrun 1 hsingle sampleCommands
    (hframes ▸ sampleFrames_handed)).2 7 c hc hall⟩

/-- In the sample run the clock stands still, both commands go to the workers and both are answered, but the
second worker dispatches GET before the first one dispatches SET. -/
theorem pipeline_overtaken :
    run (System.step (ServerConfig.small 2 Nat.two_pos).toEventLoopConfig)
        (System.start (ServerConfig.small 2 Nat.two_pos) Store.small 0) sampleChoices =
      some (sampleState, sampleLog) ∧
    (∀ choice ∈ sampleChoices, choice.advances = false) ∧ (∀ e ∈ sampleLog, e.generation = 1) ∧
    AllHanded sampleCommands (framesOf 1 sampleLog) ∧
    sentOf 1 sampleLog = ascii "+OK\r\n$-1\r\n" ∧
    (sequentialReplies Store.small 0 sampleCommands).flatten = ascii "+OK\r\n$1\r\nv\r\n" := by
  obtain ⟨hframes, hsingle, hsent⟩ : framesOf 1 sampleLog = sampleFrames ∧ (∀ e ∈ sampleLog, e.generation = 1) ∧
      sentOf 1 sampleLog = ascii "+OK\r\n$-1\r\n" := by
    decide +kernel
  refine ⟨(Option.some_get sampleResult_isSome).symm, by decide, hsingle, ?_, hsent, by decide +kernel⟩
  rw [hframes]
  exact sampleFrames_handed

/-! ### A single worker -/

section
variable {cfg : EventLoopConfig} {k k' : Core} {log evs : List Event}

def Hand.item? : Hand → Option WorkItem
  | .item w => some w
  | _ => none

/-- With one worker: the requests of a connection that wait are in request order, the one in hand first. -/
structure FifoInv (k : Core) : Prop where
  single : ∃ hand, k.hands = [hand]
  sorted : (k.hands.filterMap Hand.item? ++ k.work).Pairwise fun a b =>
    a.connectionGeneration = b.connectionGeneration → a.sequence < b.sequence

theorem FifoInv.set (h : FifoInv k) {i : Nat} {old new : Hand} {work : List WorkItem}
    {completions : List Completion} (hi : k.hands[i]? = some old)
    (hsub : ([new].filterMap Hand.item? ++ work).Sublist ([old].filterMap Hand.item? ++ k.work)) :
    FifoInv { k with work, hands := k.hands.set i new, completions } := by
  obtain ⟨⟨hand, hhand⟩, hsorted⟩ := h
  have hset : hand = old ∧ k.hands.set i new = [new] := by
    rw [hhand] at hi ⊢
    cases i with
    | zero => cases hi; exact ⟨rfl, rfl⟩
    | succ i => cases hi
  obtain ⟨rfl, hnew⟩ := hset
  rw [hhand] at hsorted
  refine ⟨⟨new, hnew⟩, ?_⟩
  show ((k.hands.set i new).filterMap Hand.item? ++ work).Pairwise _
  rw [hnew]
  exact hsorted.sublist hsub

theorem FifoInv.handOver (hfifo : FifoInv k) (hinv : ServerInv log k) {id g : Nat} {c : Connection}
    {r : ConnectionRegistry} (command : Command) (hf : k.registry.find id g = some c) :
    FifoInv { k with registry := r, work := k.work ++ [c.workItem command] } := by
  have hcur := (ConnectionRegistry.find_eq_some_iff.mp hf).1
  have hitem : ∀ item, ItemOk log item → item.connectionGeneration = c.generation →
      item.sequence < c.sequencer.nextRequestSequence := by
    rintro item ⟨n, raw, hframe⟩ hg
    rw [hg] at hframe
    rw [← hinv.book.frames _ _ hcur]
    exact (List.getElem?_eq_some_iff.mp hframe).1
  refine ⟨hfifo.single, ?_⟩
  show (k.hands.filterMap Hand.item? ++ (k.work ++ [c.workItem command])).Pairwise _
  rw [← List.append_assoc, List.pairwise_append]
  refine ⟨hfifo.sorted, List.pairwise_singleton _ _, fun item hmem item' hmem' hg => ?_⟩
  rw [List.mem_singleton.mp hmem'] at hg ⊢
  refine hitem item ?_ hg
  rcases List.mem_append.mp hmem with hmem | hmem
  · obtain ⟨hand, hhand, heq⟩ := List.mem_filterMap.mp hmem
    cases hand with
    | item w => cases heq; exact hinv.stream.carried.hands (.item item) hhand
    | _ => cases heq
  · exact hinv.stream.carried.work item hmem

theorem FifoInv.move (hinv : ServerInv log k) (hfifo : FifoInv k) (h : Move cfg k evs k') : FifoInv k' := by
  cases h with
  | handOver hf _ _ => exact hfifo.handOver hinv _ hf
  | pop hk hi => exact hfifo.set hi (by rw [hk]; exact .refl _)
  | dispatch hi _ => exact hfifo.set hi (List.sublist_cons_self _ _)
  | push hi _ => exact hfifo.set hi (.refl _)
  | lose hi _ => exact hfifo.set hi (.refl _)
  | _ => exact ⟨hfifo.single, hfifo.sorted⟩

end

theorem inOrder_of_oneWorker {P : Platform} {cfg : ServerConfig} {store : Store P} {clock : Int}
    {log : List Event} {s : System P} (hone : cfg.workerCount = 1) (h : System.Run cfg store clock log s)
    (choice : Choice) : s.InOrder choice := by
  have hinit : ServerInv [] (Core.start cfg) ∧ FifoInv (Core.start cfg) := by
    refine ⟨⟨.start cfg, .start cfg⟩, ⟨.free, ?_⟩, ?_⟩
    · unfold Core.start; rw [hone]; rfl
    · unfold Core.start; rw [hone]; exact .nil
  have hstep : ∀ log evs k k', ServerInv log k ∧ FifoInv k → Move cfg.toEventLoopConfig k evs k' →
      ServerInv (log ++ evs) k' ∧ FifoInv k' := fun _ _ _ _ hinv hmove =>
    ⟨hinv.1.move hmove, hinv.2.move hinv.1 hmove⟩
  obtain ⟨-, ⟨⟨hand, hhand⟩, hsorted⟩⟩ := h.invariant hinit hstep
  cases choice with
  | worker i =>
    intro item hi item' hmem hg hlt
    obtain ⟨w, hw, hphase⟩ := Option.bind_eq_some_iff.mp hi
    have hitem : Hand.item item ∈ s.core.hands := by
      rw [← WorkerPhase.item?_eq_some_iff.mp hphase]
      exact List.mem_of_getElem? (hands_getElem? hw)
    rw [hhand, List.mem_singleton] at hitem
    subst hitem
    rw [hhand] at hsorted
    have hlater := (List.pairwise_cons.mp hsorted).1
    rcases System.mem_waiting_iff.mp hmem with hmem | hmem
    · rw [hhand, List.mem_singleton] at hmem
      cases hmem
      exact absurd hlt (Nat.lt_irrefl _)
    · exact absurd (hlater item' hmem hg.symm) (Nat.not_lt_of_gt hlt)
  | _ => trivial

end KvStore
