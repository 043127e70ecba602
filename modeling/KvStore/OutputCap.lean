import KvStore.Routing

/-!
# The output cap

`push_responses` closes a connection whose output buffer cannot take a reply. With a peer that takes
everything that is sent, the buffer is empty again before the next completion is looked at: whoever puts
something into it has a flush ahead on the task stack (`FlushInv`). What remains is the replies that one
completion releases and the replies the loop gives itself while it reads; as long as these fit together
nothing is closed (`output_never_overflows`). Two replies that fit one by one need not
(`output_overflow_released`).
-/

namespace KvStore
open ByteString Transition

/-! ### Replies that wait for an earlier one -/

namespace ResponseSequencer

/-- The recorded responses to the `count` requests from `q` on, up to the first one that is missing. -/
def consecutive (s : ResponseSequencer) : Nat → Nat → Bytes
  | 0, _ => []
  | count + 1, q =>
    match s.pending.lookup q with
    | none => []
    | some response => response ++ s.consecutive count (q + 1)

/-- What becomes free with the response to request `q`: nothing if an earlier one is missing. -/
def releasedBy (s : ResponseSequencer) (q : Nat) (response : Bytes) : Bytes :=
  if q = s.nextExpected then response ++ s.consecutive s.inFlightCount (q + 1) else []

theorem flatten_prefix_consecutive {s : ResponseSequencer} {ready : List Bytes} {count q : Nat}
    (h : ∀ i r, ready[i]? = some r → s.pending.lookup (q + i) = some r) (hle : ready.length ≤ count) :
    ready.flatten <+: s.consecutive count q := by
  induction ready generalizing count q with
  | nil => exact List.nil_prefix
  | cons response ready ih =>
    obtain ⟨count, rfl⟩ := Nat.exists_eq_add_of_le' (Nat.succ_le_of_lt (Nat.lt_of_lt_of_le (Nat.succ_pos _) hle))
    have hhead : s.pending.lookup q = some response := h 0 response rfl
    have htail : ready.flatten <+: s.consecutive count (q + 1) := by
      refine ih (fun i r hi => ?_) (Nat.le_of_succ_le_succ hle)
      rw [Nat.add_assoc, Nat.add_comm 1 i]
      exact h (i + 1) r (by simpa using hi)
    rw [consecutive, hhead, List.flatten_cons]
    exact (List.prefix_append_right_inj response).mpr htail

theorem length_record_le {s : ResponseSequencer} {q : Nat} (response : Bytes)
    (hord : s.nextExpected ≤ s.nextRequestSequence) (hgap : s.pending.lookup s.nextExpected = none)
    (hle : ∀ q', s.isPending q' + (if q' = q then 1 else 0) ≤ s.outstanding q') :
    (s.record q response).2.flatten.length ≤ (s.releasedBy q response).length := by
  -- the response is not there yet
  have hself := hle q
  rw [if_pos rfl] at hself
  have hone : s.outstanding q ≤ 1 := by unfold outstanding; split_ifs <;> omega
  have hnone : s.pending.lookup q = none := lookup_eq_none_of_isPending (by omega)
  have hrel := s.record_released q response
  have hord' := (record_outstanding response hord hnone hle).2
  have hexpected := hrel.expected
  have hrequest := hrel.request
  rw [nextExpected_emplace] at hexpected
  rw [nextRequestSequence_emplace] at hrequest
  have hlookup : ∀ i r, (s.record q response).2[i]? = some r →
      (s.pending.insert q response).lookup (s.nextExpected + i) = some r := by
    intro i r hi
    have := hrel.lookup_ready i r hi
    rwa [emplace_of_none hnone] at this
  cases hready : (s.record q response).2 with
  | nil => exact Nat.zero_le _
  | cons first ready =>
    rw [hready, List.length_cons] at hexpected
    rw [hready] at hlookup
    have hfirst : (s.pending.insert q response).lookup s.nextExpected = some first := hlookup 0 first rfl
    -- the first response released is the new one: there was none at its place
    obtain ⟨hq, rfl⟩ : q = s.nextExpected ∧ first = response := by
      rcases Finmap.lookup_insert_eq_some hfirst with ⟨hq, hr⟩ | ⟨-, hl⟩
      · exact ⟨hq.symm, hr⟩
      · rw [hgap] at hl; cases hl
    subst hq
    have hrest : ready.flatten <+: s.consecutive s.inFlightCount (s.nextExpected + 1) := by
      refine flatten_prefix_consecutive (fun i r hi => ?_) (by unfold inFlightCount; omega)
      have := hlookup (i + 1) r (by simpa using hi)
      rw [Finmap.lookup_insert_of_ne _ (by omega)] at this
      rw [Nat.add_assoc, Nat.add_comm 1 i]
      exact this
    rw [releasedBy, if_pos rfl, List.flatten_cons, List.length_append, List.length_append]
    exact Nat.add_le_add_left hrest.length_le _

/-- The reply to a new request is free at once if nothing is in flight. -/
theorem releasedBy_advance {s : ResponseSequencer} (reply : Bytes)
    (hle : ∀ q, s.isPending q ≤ s.outstanding q) :
    s.advance.releasedBy s.nextRequestSequence reply = s.releasedBy s.nextRequestSequence reply := by
  unfold releasedBy
  show (if s.nextRequestSequence = s.nextExpected then _ else _) = _
  split_ifs with hq
  · have hcount : s.inFlightCount = 0 := by unfold inFlightCount; omega
    have hcount' : s.advance.inFlightCount = 1 := by
      show s.nextRequestSequence + 1 - s.nextExpected = 1
      omega
    have hnone : s.pending.lookup (s.nextRequestSequence + 1) = none := by
      refine lookup_eq_none_of_isPending (Nat.le_zero.mp ((hle _).trans ?_))
      unfold outstanding
      rw [if_neg (by omega)]
    have hlast : s.advance.consecutive 1 (s.nextRequestSequence + 1) = [] := by
      show (match s.pending.lookup (s.nextRequestSequence + 1) with
        | none => []
        | some response => response ++ s.advance.consecutive 0 (s.nextRequestSequence + 2)) = []
      rw [hnone]
    rw [hcount, hcount', hlast, consecutive]
  · rfl

end ResponseSequencer

theorem pushResponses_fits {output : BoundedBuffer} {ready : List Bytes}
    (h : output.data.length + ready.flatten.length ≤ output.capacity) : (pushResponses output ready).2 = true := by
  induction ready generalizing output with
  | nil => rfl
  | cons response ready ih =>
    rw [List.flatten_cons, List.length_append] at h
    have happ : output.append response = some _ := dif_pos (show _ ≤ output.capacity by omega)
    rw [pushResponses, happ]
    refine ih ?_
    show (output.data ++ response).length + ready.flatten.length ≤ output.capacity
    rw [List.length_append]
    omega

/-! ### Recording a reply -/

theorem Accounted.pending_le {k : Core} {c : Connection} (h : Accounted k c) (q : Nat) :
    c.sequencer.isPending q ≤ c.sequencer.outstanding q :=
  le_trans (Nat.le_add_left _ _) (h.le q)

theorem Accounted.completion_le {k : Core} {c : Connection} (h : Accounted k c) {completion : Completion}
    {rest : List Completion} (hk : k.completions = completion :: rest) (hid : completion.connectionId = c.id)
    (hg : completion.connectionGeneration = c.generation) (q : Nat) :
    c.sequencer.isPending q + (if q = completion.sequence then 1 else 0) ≤ c.sequencer.outstanding q := by
  have hflight : k.flight c.id c.generation q = _ + if q = completion.sequence then 1 else 0 :=
    Core.flight_complete (r := k.registry) hk hid hg
  have := h.le q
  omega

theorem respond_fits {c : Connection} {q : Nat} {response : Bytes}
    (hord : c.sequencer.nextExpected ≤ c.sequencer.nextRequestSequence)
    (hgap : c.sequencer.pending.lookup c.sequencer.nextExpected = none)
    (hle : ∀ q', c.sequencer.isPending q' + (if q' = q then 1 else 0) ≤ c.sequencer.outstanding q')
    (hfit : c.output.data.length + (c.sequencer.releasedBy q response).length ≤ c.output.capacity) :
    (c.respond q response).2 = true := by
  have hreleased := ResponseSequencer.length_record_le response hord hgap hle
  show (pushResponses c.output (c.sequencer.record q response).2).2 = true
  exact pushResponses_fits (by omega)

theorem Accounted.answer_fits {k : Core} {c : Connection} (h : Accounted k c) {n : Nat} {reply : Bytes}
    (hfit : c.output.data.length + (c.sequencer.releasedBy c.sequencer.nextRequestSequence reply).length ≤
      c.output.capacity) :
    ((c.takeFrame n).respond c.sequencer.nextRequestSequence reply).2 = true := by
  have hsame : (c.takeFrame n).sequencer.releasedBy c.sequencer.nextRequestSequence reply =
      c.sequencer.releasedBy c.sequencer.nextRequestSequence reply :=
    ResponseSequencer.releasedBy_advance reply h.pending_le
  refine respond_fits (Nat.le_succ_of_le h.ordered) h.gap (fun q => ?_) (by rw [hsame]; exact hfit)
  rw [outstanding_takeFrame h.ordered]
  exact Nat.add_le_add_right (h.pending_le q) _

/-! ### A flush ahead -/

/-- The task ends in writing the output of connection `(id, g)`. -/
def Task.Flushes (id g : Nat) : Task → Prop
  | .read id' g' | .write id' g' => id' = id ∧ g' = g
  | .writable id' => id' = id
  | _ => False

/-- The task is part of handling one event or one completion. -/
def Task.InHandler : Task → Prop
  | .readable _ | .read _ _ | .process _ _ | .writable _ | .write _ _ => True
  | _ => False

/-- The output of connection `(id, g)` is written before the next event or completion. -/
def FlushDue (id g : Nat) : List Task → Prop
  | [] => False
  | task :: rest => task.Flushes id g ∨ (task.InHandler ∧ FlushDue id g rest)

/-- Whoever runs `process_input` writes the output afterwards. -/
def Backed : List Task → Prop
  | [] => True
  | task :: rest => (∀ id g, task = .process id g → FlushDue id g rest) ∧ Backed rest

theorem Backed.cons {task : Task} {rest : List Task} (htask : ∀ id g, task ≠ .process id g) (h : Backed rest) :
    Backed (task :: rest) :=
  ⟨fun id g heq => absurd heq (htask id g), h⟩

section
variable {cfg : EventLoopConfig} {l l' : LoopState} {io : Io} {evs : List Event} {g : Nat}

theorem Backed.loopMove (h : Backed l.tasks) (hmove : LoopMove cfg l io evs l') : Backed l'.tasks := by
  have hrest : ∀ {task rest}, l.tasks = task :: rest → Backed rest := fun ht => by
    rw [ht] at h
    exact h.2
  cases hmove with
  | poll _ _ _ => exact .cons nofun trivial
  | batchDone ht => exact hrest ht
  | wakeup ht => exact .cons nofun (.cons nofun (hrest ht))
  | listener ht => exact .cons nofun (.cons nofun (hrest ht))
  | @client fd r w batch rest ht =>
    have hbatch : Backed (.events batch :: rest) := .cons nofun (hrest ht)
    cases r <;> cases w
    · exact hbatch
    · exact .cons nofun hbatch
    · exact .cons nofun hbatch
    · exact .cons nofun (.cons nofun hbatch)
  | hangupGone ht _ => exact .cons nofun (hrest ht)
  | hangup ht _ _ => exact .cons nofun (hrest ht)
  | acceptDone ht _ => exact hrest ht
  | acceptFailed _ _ => exact trivial
  | readable ht _ => exact .cons nofun (hrest ht)
  | writable ht _ => exact .cons nofun (hrest ht)
  | gone ht _ => exact hrest ht
  | readFull ht _ _ _ => exact hrest ht
  | received ht _ _ _ _ _ =>
    refine ⟨fun id g heq => ?_, .cons nofun (hrest ht)⟩
    cases heq
    exact .inl ⟨rfl, rfl⟩
  | readBlocked ht _ _ _ => exact .cons nofun (hrest ht)
  | readEnded ht _ _ _ _ => exact hrest ht
  | processDone ht _ _ => exact hrest ht
  | answerClose ht _ _ _ _ _ _ => exact hrest ht
  | writeDone ht _ _ => exact hrest ht
  | writeFailed ht _ _ _ _ => exact hrest ht
  | drained ht _ => exact hrest ht
  | complete ht _ _ _ =>
    refine ⟨fun id g heq => ?_, .cons nofun (.cons nofun (hrest ht))⟩
    cases heq
    exact .inl rfl
  | overflow ht _ _ _ _ => exact .cons nofun (hrest ht)
  | _ => exact h

/-- Every `send` on generation `g` takes all that is offered. -/
def LoopState.sendsInFull (g : Nat) (l : LoopState) (io : Io) : Bool :=
  match l.tasks with
  | .write id g' :: _ =>
    match l.registry.find id g' with
    | some c => g' ≠ g ∨ c.output.data = [] ∨ io.send = .wrote c.output.data.length
    | none => true
  | _ => true

/-- Between events and completions nothing is due. -/
theorem FlushDue.not_top {id : Nat} {task : Task} {rest : List Task} (h : FlushDue id g l.tasks)
    (ht : l.tasks = task :: rest) (hflush : ¬ task.Flushes id g) (hhandler : ¬ task.InHandler) : False := by
  rw [ht] at h
  rcases h with hf | ⟨hin, -⟩
  · exact hflush hf
  · exact hhandler hin

theorem FlushDue.pop {id : Nat} {task : Task} {rest : List Task} (h : FlushDue id g l.tasks)
    (ht : l.tasks = task :: rest) (hflush : ¬ task.Flushes id g) : FlushDue id g rest := by
  rw [ht] at h
  exact (h.resolve_left hflush).2

/-- A flush that is due stays due until it is done, as long as the connection is open. -/
theorem FlushDue.loopMove {id : Nat} {c : Connection} (h : FlushDue id g l.tasks) (hmove : LoopMove cfg l io evs l')
    (hopen : l.registry.find id g = some c) (hopen' : l'.registry.findCurrent id ≠ none)
    (hwrite : ∀ rest, l.tasks = .write id g :: rest → c.output.data ≠ [] ∧ io.send ≠ .wouldBlock) :
    FlushDue id g l'.tasks := by
  obtain ⟨hc, hg⟩ := ConnectionRegistry.find_eq_some_iff.mp hopen
  have hidle : l.tasks ≠ [] := fun ht => by
    rw [ht] at h
    exact h
  have hclosed : ∀ {id₀ g₀ : Nat} {task : Task} {rest : List Task} {c₀ : Connection}, l.tasks = task :: rest →
      l.registry.find id₀ g₀ = some c₀ → (task.Flushes id g → id = id₀) →
      (l.registry.close id₀ g₀).findCurrent id ≠ none → FlushDue id g rest := by
    intro id₀ g₀ task rest c₀ ht hf hflush hsome
    obtain ⟨c₁, hc₁⟩ := Option.ne_none_iff_exists'.mp hsome
    exact h.pop ht fun hfl => (ConnectionRegistry.of_findCurrent_close hf hc₁).1 (hflush hfl)
  cases hmove with
  | stop ht _ => exact absurd ht hidle
  | poll ht _ _ => exact absurd ht hidle
  | interrupted ht _ _ => exact absurd ht hidle
  | pollFailed ht _ _ => exact absurd ht hidle
  | batchDone ht => exact (h.not_top ht not_false not_false).elim
  | wakeup ht => exact (h.not_top ht not_false not_false).elim
  | listener ht => exact (h.not_top ht not_false not_false).elim
  | client ht => exact (h.not_top ht not_false not_false).elim
  | hangupGone ht _ => exact (h.not_top ht not_false not_false).elim
  | hangup ht _ _ => exact (h.not_top ht not_false not_false).elim
  | acceptDone ht _ => exact (h.not_top ht not_false not_false).elim
  | acceptRetry ht _ => exact (h.not_top ht not_false not_false).elim
  | acceptFailed ht _ => exact (h.not_top ht not_false not_false).elim
  | accept ht _ _ => exact (h.not_top ht not_false not_false).elim
  | acceptUnregistered ht _ _ => exact (h.not_top ht not_false not_false).elim
  | readable ht _ => exact .inr ⟨trivial, h.pop ht not_false⟩
  | @writable id₀ rest c₀ ht hf =>
    by_cases hid : id₀ = id
    · subst hid
      cases hf.symm.trans hc
      exact .inl ⟨rfl, hg⟩
    · exact .inr ⟨trivial, h.pop ht hid⟩
  | gone ht hgone =>
    refine h.pop ht fun hflush => ?_
    cases hgone with
    | readable _ => exact hflush
    | writable hnone =>
      obtain rfl := hflush
      cases hnone.symm.trans hc
    | read hnone =>
      obtain ⟨rfl, rfl⟩ := hflush
      cases hnone.symm.trans hopen
    | process _ => exact hflush
    | write hnone =>
      obtain ⟨rfl, rfl⟩ := hflush
      cases hnone.symm.trans hopen
  | readFull ht hf _ _ => exact hclosed ht hf (fun hflush => hflush.1.symm) hopen'
  | received ht _ _ _ _ _ =>
    rw [ht] at h
    exact .inr ⟨trivial, h⟩
  | @readBlocked id₀ g₀ rest c₀ ht _ _ _ =>
    by_cases hid : id₀ = id
    · exact .inl hid
    · exact .inr ⟨trivial, h.pop ht fun hflush => hid hflush.1⟩
  | readEnded ht hf _ _ _ => exact hclosed ht hf (fun hflush => hflush.1.symm) hopen'
  | processDone ht _ _ => exact h.pop ht not_false
  | handOver _ _ _ _ _ _ => exact h
  | answer _ _ _ _ _ _ => exact h
  | answerClose ht _ _ _ _ _ _ => exact h.pop ht not_false
  | writeDone ht hf hwhy =>
    refine h.pop ht fun hflush => ?_
    obtain ⟨rfl, rfl⟩ := hflush
    obtain ⟨hne, hblock⟩ := hwrite _ ht
    cases hf.symm.trans hopen
    exact hwhy.elim hne hblock
  | sent _ _ _ _ _ => exact h
  | writeFailed ht hf _ _ _ => exact hclosed ht hf (fun hflush => hflush.1.symm) hopen'
  | drained ht _ => exact (h.not_top ht not_false not_false).elim
  | stale ht _ _ => exact (h.not_top ht not_false not_false).elim
  | complete ht _ _ _ => exact (h.not_top ht not_false not_false).elim
  | overflow ht _ _ _ _ => exact (h.not_top ht not_false not_false).elim

/-- Output of generation `g` is waiting only if its flush is due. -/
def FlushInv (g : Nat) (l : LoopState) : Prop :=
  ∀ id c, l.registry.findCurrent id = some c → c.generation = g → c.output.data ≠ [] → FlushDue id g l.tasks

/-- A flush that is due for waiting output stays due: with `sendsInFull` it is not over before all is sent. -/
theorem FlushInv.due (h : FlushInv g l) (hmove : LoopMove cfg l io evs l') (hsend : l.sendsInFull g io = true)
    {id : Nat} {c : Connection} (hc : l.registry.findCurrent id = some c) (hg : c.generation = g)
    (hne : c.output.data ≠ []) (hopen' : l'.registry.findCurrent id ≠ none) : FlushDue id g l'.tasks := by
  have hopen : l.registry.find id g = some c := ConnectionRegistry.find_eq_some_iff.mpr ⟨hc, hg⟩
  refine (h id c hc hg hne).loopMove hmove hopen hopen' fun rest ht => ?_
  have hall : io.send = .wrote c.output.data.length := by
    simpa [LoopState.sendsInFull, ht, hopen, hne] using hsend
  rw [hall]
  exact ⟨hne, nofun⟩

theorem FlushInv.loopMove (h : FlushInv g l) (hbacked : Backed l.tasks) (hmove : LoopMove cfg l io evs l')
    (hsend : l.sendsInFull g io = true) : FlushInv g l' := by
  rintro id c' hc' rfl hne
  have hopen' : l'.registry.findCurrent id ≠ none := by rw [hc']; exact Option.some_ne_none _
  cases hmove.origin hc' with
  | fresh _ _ hfresh => exact absurd (by rw [hfresh]; rfl) hne
  | kept hc _ => exact h.due hmove hsend hc rfl hne hopen'
  | @touched c hc htouch =>
    have hg := htouch.generation
    cases htouch with
    | received _ _ _ _ => exact h.due hmove hsend hc rfl hne hopen'
    | handOver _ => exact h.due hmove hsend hc rfl hne hopen'
    | answer ht _ _ hsame =>
      -- the reply is flushed by the caller of `process_input`
      rw [hsame, ht, hg]
      rw [ht] at hbacked
      exact .inr ⟨trivial, hbacked.1 _ _ rfl⟩
    | @sent n rest ht hio =>
      -- everything was sent
      have hf : l.registry.find id c.generation = some c := ConnectionRegistry.find_eq_some_iff.mpr ⟨hc, rfl⟩
      have hn : c.output.data = [] ∨ n = c.output.data.length := by
        simpa [LoopState.sendsInFull, ht, hf, hio] using hsend
      refine absurd ?_ hne
      show c.output.data.drop n = []
      rcases hn with hnil | rfl
      · rw [hnil]; exact List.drop_nil
      · exact List.drop_length
    | complete _ _ ht' =>
      rw [ht']
      exact .inr ⟨trivial, .inl rfl⟩

end

/-! ### The result -/

/-- The replies that the next step of the loop releases for generation `g` fit into its output buffer together:
those that become free with a completion, and the loop's own reply with what is in the buffer. -/
def LoopState.repliesFit (g : Nat) (l : LoopState) : Bool :=
  match l.tasks with
  | .process id g' :: _ =>
    match l.registry.find id g' with
    | some c => g' ≠ g ∨ (c.ownReply l.workQueue).all fun reply =>
        c.output.data.length + (c.sequencer.releasedBy c.sequencer.nextRequestSequence reply).length ≤
          c.output.capacity
    | none => true
  | .drain :: _ =>
    match l.completionQueue.items with
    | completion :: _ =>
      match l.registry.find completion.connectionId completion.connectionGeneration with
      | some c => completion.connectionGeneration ≠ g ∨
          (c.sequencer.releasedBy completion.sequence completion.response).length ≤ c.output.capacity
      | none => true
    | [] => true
  | _ => true

/-- The next step of the loop finds that the output cap of generation `g` is exceeded. -/
inductive LoopState.Overflows (cfg : EventLoopConfig) (l : LoopState) (g : Nat) : Prop
  | completion {rest : List Task} {completion : Completion} {queue : List Completion} {c : Connection} :
    l.tasks = .drain :: rest → l.completionQueue.items = completion :: queue →
    l.registry.find completion.connectionId completion.connectionGeneration = some c →
    completion.connectionGeneration = g → (c.respond completion.sequence completion.response).2 = false →
    Overflows cfg l g
  | own {id n : Nat} {rest : List Task} {c : Connection} {reply : Bytes} : l.tasks = .process id g :: rest →
    l.registry.find id g = some c → c.sequencer.inFlightCount < cfg.maxInFlightPerConnection →
    c.ownReply l.workQueue = some reply →
    ((c.takeFrame n).respond c.sequencer.nextRequestSequence reply).2 = false → Overflows cfg l g

section
variable {P : Platform} {cfg : ServerConfig} {store : Store P} {clock : Int} {log : List Event} {s : System P}
  {g : Nat}

theorem FlushInv.not_overflows (h : FlushInv g s.loop) (hrun : System.Run cfg store clock log s)
    (hfit : s.loop.repliesFit g = true) : ¬ s.loop.Overflows cfg.toEventLoopConfig g := by
  have hbook := hrun.serverInv.book
  intro hover
  cases hover with
  | @completion rest completion queue c ht hitems hf hg hcap =>
    obtain ⟨hc, hgen⟩ := ConnectionRegistry.find_eq_some_iff.mp hf
    -- nothing is in the buffer while completions are drained
    have hempty : c.output.data = [] := by
      by_contra hne
      have hdue := h _ c hc (hgen.trans hg) hne
      rw [ht] at hdue
      rcases hdue with hflush | ⟨hhandler, -⟩
      · exact hflush
      · exact hhandler
    have hroom : (c.sequencer.releasedBy completion.sequence completion.response).length ≤ c.output.capacity := by
      subst hg
      simpa [LoopState.repliesFit, ht, hitems, hf] using hfit
    have hacc := hbook.flight _ c hc
    have hid : completion.connectionId = c.id := (hbook.registry.keyed _ c hc).symm
    have hok := respond_fits hacc.ordered hacc.gap (hacc.completion_le hitems hid hgen.symm)
      (show _ ≤ c.output.capacity by rw [hempty]; simpa using hroom)
    rw [hcap] at hok
    cases hok
  | @own id n rest c reply ht hf _ hreply hcap =>
    obtain ⟨hc, -⟩ := ConnectionRegistry.find_eq_some_iff.mp hf
    have hroom : c.output.data.length + (c.sequencer.releasedBy c.sequencer.nextRequestSequence reply).length ≤
        c.output.capacity := by
      simpa [LoopState.repliesFit, ht, hf, hreply] using hfit
    have hok : ((c.takeFrame n).respond c.sequencer.nextRequestSequence reply).2 = true :=
      (hbook.flight id c hc).answer_fits hroom
    rw [hcap] at hok
    cases hok

theorem System.RunIf.flushInv (h : System.RunIf (LoopState.sendsInFull g) cfg store clock log s) :
    FlushInv g s.loop := by
  have hloop : ∀ (log evs : List Event) (s₁ : System P) (l' : LoopState) (io : Io),
      System.RunIf (LoopState.sendsInFull g) cfg store clock log s₁ → Backed s₁.loop.tasks ∧ FlushInv g s₁.loop →
      s₁.loop.sendsInFull g io = true → LoopMove cfg.toEventLoopConfig s₁.loop io evs l' →
      Backed l'.tasks ∧ FlushInv g l' :=
    fun _ _ _ _ _ _ hinv hsend hmove => ⟨hinv.1.loopMove hmove, hinv.2.loopMove hinv.1 hmove hsend⟩
  have hkept : ∀ (log evs : List Event) (l l' : LoopState), Backed l.tasks ∧ FlushInv g l → LoopKept l l' →
      OnlyDispatches evs → Backed l'.tasks ∧ FlushInv g l' := by
    rintro log evs l l' ⟨hbacked, hflush⟩ hkept -
    unfold FlushInv
    rw [hkept.tasks, hkept.registry]
    exact ⟨hbacked, hflush⟩
  have hinit : Backed (System.start cfg store clock).loop.tasks ∧ FlushInv g (System.start cfg store clock).loop :=
    ⟨trivial, fun _ _ hc => by cases hc⟩
  exact (h.invariant hinit hloop hkept).2

/-- On a connection whose peer takes everything that is sent, a step exceeds the output cap only if the replies
it records do not fit into the buffer together. -/
theorem output_never_overflows (cfg : ServerConfig) (store : Store P) (clock : Int) (log : List Event)
    (s : System P) (g : Nat) (hrun : System.RunIf (LoopState.sendsInFull g) cfg store clock log s)
    (hfit : s.loop.repliesFit g = true) : ¬ s.loop.Overflows cfg.toEventLoopConfig g :=
  hrun.flushInv.not_overflows hrun.run hfit

end

/-! ### Two replies at once -/

/-- An output buffer of twelve bytes. -/
def ServerConfig.narrow : ServerConfig :=
  { ServerConfig.default with maxOutputBytes := 12, maxOutputBytes_pos := by decide }

/-- A client sends two `PING`s, which worker 0 and worker 1 take in this order. The workers come back with the
replies as `first` and `second` say, and the loop looks at the first reply and at what it can send then. -/
def twoPingsResult (first second : Nat) (sends : List Choice) : Option (System (.reference .exact) × List Event) :=
  run (System.stepIf (LoopState.sendsInFull 1) ServerConfig.narrow.toEventLoopConfig)
    (System.start ServerConfig.narrow Store.small 0)
    (Choice.connect (ascii "*1\r\n$4\r\nPING\r\n*1\r\n$4\r\nPING\r\n") ++
      List.replicate 7 (.loop {}) ++ ([.worker 0, .worker 1] : List Choice) ++ List.replicate 3 (.worker first) ++
      List.replicate 3 (.worker second) ++
      ([.loop { poll := .events [.wakeup] }, .loop {}, .loop {}, .loop {}, .loop {}] : List Choice) ++ sends ++
      ([.loop {}] : List Choice))

/-- The replies come back in order, and the first one is sent before the second is looked at. -/
def inOrderResult : Option (System (.reference .exact) × List Event) :=
  twoPingsResult 0 1 [.loop { send := .wrote 7 }]

/-- The second reply comes back first and is held. -/
def overtakenResult : Option (System (.reference .exact) × List Event) := twoPingsResult 1 0 []

def pongReply : Bytes := ascii "+PONG\r\n"

theorem inOrder_state : inOrderResult.map (fun r => decide (r.1.loop.tasks = [.drain, .events []] ∧
    r.1.loop.completionQueue.items = [⟨7, 1, 1, pongReply⟩] ∧ r.1.loop.repliesFit 1 = true)) = some true := by
  decide +kernel

theorem output_never_overflows_inOrder : ∃ (log : List Event) (s : System (.reference .exact)),
    System.RunIf (LoopState.sendsInFull 1) ServerConfig.narrow Store.small 0 log s ∧
      s.loop.tasks = [.drain, .events []] ∧ s.loop.completionQueue.items = [⟨7, 1, 1, pongReply⟩] ∧
      s.loop.repliesFit 1 = true ∧ ¬ s.loop.Overflows ServerConfig.narrow.toEventLoopConfig 1 := by
  obtain ⟨⟨s, log⟩, hresult, hstate⟩ := Option.map_eq_some_iff.mp inOrder_state
  obtain ⟨htasks, hitems, hfit⟩ := of_decide_eq_true hstate
  have hrun : System.RunIf (LoopState.sendsInFull 1) ServerConfig.narrow Store.small 0 log s := exec_of_run hresult
  exact ⟨log, s, hrun, htasks, hitems, hfit, output_never_overflows _ _ _ _ _ 1 hrun hfit⟩

def Event.replyLength : Event → Nat
  | .dispatched _ _ _ reply => reply.length
  | _ => 0

theorem overtaken_state : overtakenResult.map (fun r => decide (r.1.loop.tasks = [.drain, .events []] ∧
    r.1.loop.completionQueue.items = [⟨7, 1, 0, pongReply⟩] ∧
    (r.1.loop.registry.find 7 1).map (fun c => (c.respond 0 pongReply).2) = some false ∧
    (∀ e ∈ r.2, e.replyLength ≤ ServerConfig.narrow.maxOutputBytes) ∧
    (r.1.step ServerConfig.narrow.toEventLoopConfig (.loop { flush := .wrote 7 })).map Prod.snd =
      some [.sent 1 pongReply, .closed 1 []])) = some true := by
  decide +kernel

/-- Every reply fits and nothing is left unsent, but the completion of the first request releases both replies
and the connection is closed. -/
theorem output_overflow_released : ∃ (log : List Event) (s : System (.reference .exact)),
    System.RunIf (LoopState.sendsInFull 1) ServerConfig.narrow Store.small 0 log s ∧
      (∀ e ∈ log, e.replyLength ≤ ServerConfig.narrow.maxOutputBytes) ∧
      s.loop.Overflows ServerConfig.narrow.toEventLoopConfig 1 ∧
      (s.step ServerConfig.narrow.toEventLoopConfig (.loop { flush := .wrote 7 })).map Prod.snd =
        some [.sent 1 pongReply, .closed 1 []] := by
  obtain ⟨⟨s, log⟩, hresult, hstate⟩ := Option.map_eq_some_iff.mp overtaken_state
  obtain ⟨htasks, hitems, hresponds, hsmall, hclose⟩ := of_decide_eq_true hstate
  obtain ⟨c, hf, hfull⟩ := Option.map_eq_some_iff.mp hresponds
  exact ⟨log, s, exec_of_run hresult, hsmall, .completion htasks hitems hf rfl hfull, hclose⟩

end KvStore
