import KvStore.Backpressure
import KvStore.OutputCap

/-!
# Framing errors that end a connection

`process_input` answers an unrecoverable error through the sequencer and asks for the connection to be
closed; the caller closes it at once. If no earlier request is in flight at that moment, the client has been
sent the replies to all its frames and the error reply when the connection is closed (`fatal_error_last`).
Otherwise the error reply is held behind the requests in flight, and the close drops it together with their
replies (`FatalClose.swallowed`, `fatal_error_swallows`).
-/

namespace KvStore
open ByteString Transition

/-! ### Streams that end in a framing error -/

/-- `process_input` gives the connection up. -/
def ParseResult.isFatal : ParseResult → Bool
  | .protocolError e => !e.recoverable
  | _ => false

theorem ParseResult.consumed_of_isFatal {r : ParseResult} (h : r.isFatal = true) : r.consumed = none := by
  cases r with
  | needMoreData => rfl
  | parsedCommand _ _ => cases h
  | protocolError e => exact if_neg (by simpa [isFatal] using h)

/-- Unless a read ends in a header of a frame, the parser gives up only behind the last frame. -/
theorem TookFrames.all_of_isFatal {frames : List Bytes} {bad s rest : Bytes} {taken : List TakenFrame} {k : Nat}
    (h : TookFrames frames s taken rest k)
    (hframes : ∀ f ∈ frames, (parseCommand f).consumed = some f.length)
    (hcut : ∀ f ∈ frames, rest <+: f → ¬ HeaderCut rest) (hs : s <+: frames.flatten ++ bad)
    (hfatal : (parseCommand rest).isFatal = true) : k = frames.length ∧ rest <+: bad := by
  have hnone := ParseResult.consumed_of_isFatal hfatal
  have hrest := h.rest_prefix hs
  cases hdrop : frames.drop k with
  | nil =>
    rw [hdrop] at hrest
    exact ⟨le_antisymm h.le (List.drop_eq_nil_iff.mp hdrop), hrest⟩
  | cons f later =>
    have hf : f ∈ frames := List.mem_of_mem_drop (hdrop ▸ List.mem_cons_self)
    rw [hdrop, List.flatten_cons, List.append_assoc] at hrest
    exfalso
    rcases List.prefix_or_prefix_of_prefix hrest (List.prefix_append f _) with hshort | hlong
    · -- a part of a frame gets the verdict of the frame or none
      have hnot := hcut f hf hshort
      obtain ⟨t, rfl⟩ := hshort
      have hmore : parseCommand rest ≠ .needMoreData := fun heq => by rw [heq] at hfatal; cases hfatal
      have hsame : SameVerdict (parseCommand (rest ++ t)) (parseCommand rest) := parseCommand_append hmore hnot
      have hconsumed := hsame.consumed
      rw [hframes _ hf, hnone] at hconsumed
      cases hconsumed
    · obtain ⟨t, rfl⟩ := hlong
      obtain ⟨args, hframe⟩ := isFrame_of_consumed (hframes f hf)
      rw [parseCommand_of_isFrame hframe, consumed_frameVerdict] at hnone
      cases hnone

/-! ### The last reply -/

theorem ResponseSequencer.record_atRest {s : ResponseSequencer} (response : Bytes)
    (hrest : s.nextExpected = s.nextRequestSequence) (hle : ∀ q, s.isPending q ≤ s.outstanding q) :
    (s.advance.record s.nextRequestSequence response).2 = [response] := by
  have hnone : s.advance.pending.lookup s.nextRequestSequence = none := by
    refine lookup_eq_none_of_isPending (Nat.le_zero.mp ((hle _).trans ?_))
    unfold outstanding
    rw [if_neg (by omega)]
  have hord : s.advance.nextExpected ≤ s.advance.nextRequestSequence := by
    show s.nextExpected ≤ s.nextRequestSequence + 1
    omega
  have hle' : ∀ q, s.advance.isPending q + (if q = s.nextRequestSequence then 1 else 0) ≤
      s.advance.outstanding q := fun q => by
    rw [outstanding_advance hrest.le]
    exact Nat.add_le_add_right (hle q) _
  have hord' := (record_outstanding response hord hnone hle').2
  have hrel := s.advance.record_released s.nextRequestSequence response
  rw [emplace_of_none hnone] at hrel
  generalize (s.advance.record s.nextRequestSequence response).1 = s' at hrel hord'
  generalize (s.advance.record s.nextRequestSequence response).2 = ready at hrel
  have hexpected : s'.nextExpected = s.nextExpected + ready.length := hrel.expected
  have hrequest : s'.nextRequestSequence = s.nextRequestSequence + 1 := hrel.request
  have hfirst : (s.pending.insert s.nextRequestSequence response).lookup s.nextExpected = some response := by
    rw [hrest]; exact Finmap.lookup_insert _
  cases ready with
  | nil =>
    have hgap := hrel.gap
    rw [hrel.lookup_pending, if_neg (by omega), hexpected] at hgap
    cases hfirst.symm.trans hgap
  | cons first later =>
    have hone := hrel.lookup_ready 0 first rfl
    rw [List.length_cons] at hexpected
    obtain rfl : later = [] := List.length_eq_zero_iff.mp (by omega)
    rw [Option.some.inj (hone.symm.trans hfirst)]

theorem Accounted.answer_atRest {k : Core} {c c' : Connection} (h : Accounted k c) {n : Nat} {reply : Bytes}
    (hrest : c.sequencer.inFlightCount = 0)
    (hresp : (c.takeFrame n).respond c.sequencer.nextRequestSequence reply = (c', true)) :
    c.sequencer.nextExpected = c.sequencer.nextRequestSequence ∧ c'.output.data = c.output.data ++ reply := by
  have hord := h.ordered
  have heq : c.sequencer.nextExpected = c.sequencer.nextRequestSequence := by
    unfold ResponseSequencer.inFlightCount at hrest
    omega
  refine ⟨heq, ?_⟩
  have hpush : pushResponses c.output ((c.takeFrame n).sequencer.record c.sequencer.nextRequestSequence reply).2 =
      (c'.output, true) := respond_push hresp
  have hrecord : ((c.takeFrame n).sequencer.record c.sequencer.nextRequestSequence reply).2 = [reply] :=
    ResponseSequencer.record_atRest reply heq h.pending_le
  rw [hrecord] at hpush
  obtain ⟨j, hdata, hall⟩ := pushResponses_data hpush
  rw [hdata, List.take_of_length_le (hall rfl), List.flatten_singleton]

theorem Accounted.answer_held {k : Core} {c c' : Connection} (h : Accounted k c) {n : Nat} {reply : Bytes}
    {ok : Bool} (hbusy : c.sequencer.inFlightCount ≠ 0)
    (hresp : (c.takeFrame n).respond c.sequencer.nextRequestSequence reply = (c', ok)) :
    c'.output.data = c.output.data := by
  have hne : c.sequencer.nextExpected ≠ c.sequencer.nextRequestSequence := by
    unfold ResponseSequencer.inFlightCount at hbusy
    omega
  have hfirst : ((c.takeFrame n).sequencer.emplace c.sequencer.nextRequestSequence reply).pending.lookup
      c.sequencer.nextExpected = none := by
    rw [ResponseSequencer.lookup_emplace_of_ne _ _ hne]
    exact h.gap
  have hpush : pushResponses c.output ((c.takeFrame n).sequencer.record c.sequencer.nextRequestSequence reply).2 =
      (c'.output, ok) := respond_push hresp
  have hrel := (c.takeFrame n).sequencer.record_released c.sequencer.nextRequestSequence reply
  generalize ((c.takeFrame n).sequencer.record c.sequencer.nextRequestSequence reply).2 = ready at hpush hrel
  cases ready with
  | nil =>
    have hsame : c.output = c'.output := congrArg Prod.fst hpush
    rw [hsame]
  | cons first later =>
    have hlook := hrel.lookup_ready 0 first rfl
    rw [ResponseSequencer.nextExpected_emplace] at hlook
    cases hfirst.symm.trans hlook

theorem CloseEvents.sentOf_eq {g : Nat} {output : Bytes} {evs : List Event} (h : CloseEvents g output evs)
    (hempty : ∀ b, .closed g b ∈ evs → b = []) : sentOf g evs = output := by
  cases h with
  | quiet => rw [hempty output (List.mem_singleton_self _)]; rfl
  | @flushed n _ =>
    have hdrop := hempty _ (List.mem_cons_of_mem _ (List.mem_singleton_self _))
    have htake : output.take n = output := by
      rw [← List.append_nil (output.take n), ← hdrop, List.take_append_drop]
    simp [sentOf, Event.sentBytes, htake]

/-! ### Who closes a connection -/

/-- The peer of generation `g` stays: no hangup is reported, and `recv` finds neither the end of the stream
nor an error. -/
def LoopState.peerStays (g : Nat) (l : LoopState) (io : Io) : Bool :=
  match l.tasks with
  | .events (.client fd true _ _ :: _) :: _ => (l.registry.findCurrent fd).all fun c => c.generation ≠ g
  | .read _ g' :: _ => g' ≠ g ∨ io.recv ≠ .closed ∧ io.recv ≠ .failed
  | _ => true

/-- The server can serve generation `g`: epoll takes its fd, and a read finds room in its input buffer. -/
def LoopState.serves (g : Nat) (l : LoopState) (io : Io) : Bool :=
  match l.tasks with
  | .accept :: _ =>
    match io.accept with
    | .client _ false => l.registry.nextGeneration ≠ g
    | _ => true
  | .read id g' :: _ =>
    (l.registry.find id g').all fun c => g' ≠ g ∨ c.input.data.length < c.input.capacity
  | _ => true

/-- The loop gives generation `g` up. -/
inductive FatalClose (l : LoopState) (g : Nat) : List Event → Prop
  | mk {id : Nat} {rest : List Task} {c c' : Connection} {e : ProtocolError} {evs : List Event} :
    l.tasks = .process id g :: rest → l.registry.find id g = some c →
    parseCommand c.input.data = .protocolError e → e.recoverable = false →
    (c.takeFrame 0).respond c.sequencer.nextRequestSequence (encodeError e.message) = (c', true) →
    CloseEvents g c'.output.data evs →
    FatalClose l g (c.takenEvent (.protocolError e) 0 (some (encodeError e.message)) :: evs)

section
variable {cfg : EventLoopConfig} {l l' : LoopState} {io : Io} {log evs : List Event} {g : Nat}

/-- With a peer that stays and takes everything, and a server that can serve it, there are two reasons left
to close a connection. -/
theorem LoopMove.closes (h : LoopMove cfg l io evs l') {b : Bytes} (hb : .closed g b ∈ evs)
    (hsend : l.sendsInFull g io = true) (hpeer : l.peerStays g io = true) (hserves : l.serves g io = true) :
    l.Overflows cfg g ∨ FatalClose l g evs := by
  cases h with
  | hangup ht hcur hevs =>
    obtain rfl : g = _ := hevs.generation _ hb
    simp [LoopState.peerStays, ht, hcur] at hpeer
  | acceptUnregistered ht hio _ =>
    obtain ⟨rfl, -⟩ : g = l.registry.nextGeneration ∧ b = [] := by simpa using hb
    simp [LoopState.serves, ht, hio] at hserves
  | readFull ht hf hfull hevs =>
    obtain rfl : g = _ := hevs.generation _ hb
    simp [LoopState.serves, ht, hf] at hserves
    omega
  | readEnded ht _ _ hend hevs =>
    obtain rfl : g = _ := hevs.generation _ hb
    simp [LoopState.peerStays, ht] at hpeer
    rcases hend with hend | hend
    · exact absurd hend hpeer.1
    · exact absurd hend hpeer.2
  | writeFailed ht hf hne hio hevs =>
    obtain rfl : g = _ := hevs.generation _ hb
    simp [LoopState.sendsInFull, ht, hf, hne, hio] at hsend
  | @answerClose id g₀ n rest c c' verdict reply goOn ok evs ht hf hlt hown hresp hclose hevs hreply =>
    rcases List.mem_cons.mp hb with hb | hb
    · cases hb
    obtain rfl : g = g₀ := hevs.generation _ hb
    cases ok with
    | false => exact .inl (.own ht hf hlt hreply (congrArg Prod.snd hresp))
    | true =>
      obtain rfl : goOn = false := hclose
      cases hown with
      | fatal hparse hfatal => exact .inr ⟨ht, hf, hparse, hfatal, hresp, hevs⟩
  | overflow ht hitems hf hresp hevs =>
    obtain rfl : g = _ := hevs.generation _ hb
    exact .inl (.completion ht hitems hf rfl (congrArg Prod.snd hresp))
  | accept _ _ _ => simp at hb
  | received _ _ _ _ _ _ => simp at hb
  | handOver _ _ _ _ _ _ => simp [Connection.takenEvent] at hb
  | answer _ _ _ _ _ _ => simp [Connection.takenEvent] at hb
  | sent _ _ _ _ _ => simp at hb
  | _ => cases hb

theorem LoopMove.sentOf_eq_nil (h : LoopMove cfg l io evs l')
    (hclosed : ∀ id c, l.registry.findCurrent id = some c → c.generation ≠ g) : sentOf g evs = [] := by
  have hne : ∀ {id g₀ : Nat} {c : Connection}, l.registry.find id g₀ = some c → g ≠ g₀ := fun hf => by
    obtain ⟨hc, rfl⟩ := ConnectionRegistry.find_eq_some_iff.mp hf
    exact (hclosed _ _ hc).symm
  have hclose : ∀ {id g₀ : Nat} {c : Connection} {output : Bytes} {evs : List Event},
      l.registry.find id g₀ = some c → CloseEvents g₀ output evs → sentOf g evs = [] := fun hf hevs =>
    (history_eq_nil (hevs.other (hne hf))).1
  cases h with
  | hangup _ hcur hevs => exact hclose (ConnectionRegistry.find_eq_some_iff.mpr ⟨hcur, rfl⟩) hevs
  | readFull _ hf _ hevs => exact hclose hf hevs
  | readEnded _ hf _ _ hevs => exact hclose hf hevs
  | answerClose _ hf _ _ _ _ hevs _ =>
    rw [← List.singleton_append, sentOf_append, hclose hf hevs]; rfl
  | sent _ hf _ _ _ => exact (Silent.single (hne hf)).sent
  | writeFailed _ hf _ _ hevs => exact hclose hf hevs
  | overflow _ _ hf _ hevs => exact hclose hf hevs
  | _ => rfl

/-! ### The result -/

/-- `rs` are the responses to `frames`, the first frames that were taken from generation `g`. -/
structure Answered (log : List Event) (g : Nat) (frames rs : List Bytes) : Prop where
  raws : ((framesOf g log).take frames.length).map (·.raw) = frames
  verdicts : ((framesOf g log).take frames.length).map (·.verdict) = frames.map parseCommand
  length_eq : rs.length = frames.length
  responses : ∀ i r, rs[i]? = some r → IsResponse log g i r

theorem Answered.mono {frames rs : List Bytes} (h : Answered log g frames rs) :
    Answered (log ++ evs) g frames rs := by
  have hle : frames.length ≤ (framesOf g log).length := by
    have := congrArg List.length h.raws
    rw [List.length_map, List.length_take] at this
    omega
  have htake : (framesOf g (log ++ evs)).take frames.length = (framesOf g log).take frames.length := by
    rw [framesOf_append, List.take_append_of_le_length hle]
  exact ⟨by rw [htake]; exact h.raws, by rw [htake]; exact h.verdicts, h.length_eq,
    fun i r hi => (h.responses i r hi).mono⟩

/-- Generation `g` was sent the responses to `frames`, in order, then the reply to the unrecoverable error
that the parser found in the bytes of `bad` it had, and nothing else. -/
def AnsweredThenError (log : List Event) (g : Nat) (frames : List Bytes) (bad : Bytes) : Prop :=
  ∃ (rs : List Bytes) (p : Bytes) (e : ProtocolError), Answered log g frames rs ∧ p <+: bad ∧
    parseCommand p = .protocolError e ∧ e.recoverable = false ∧ sentOf g log = rs.flatten ++ encodeError e.message

theorem AnsweredThenError.mono {frames : List Bytes} {bad : Bytes} (h : AnsweredThenError log g frames bad)
    (hsent : sentOf g evs = []) : AnsweredThenError (log ++ evs) g frames bad := by
  obtain ⟨rs, p, e, hrs, hp, hparse, hfatal, heq⟩ := h
  refine ⟨rs, p, e, hrs.mono, hp, hparse, hfatal, ?_⟩
  rw [sentOf_append, hsent, List.append_nil]
  exact heq

end

/-- What the peer of generation `g` and the server's resources must do: the peer stays and takes all that is
sent, and nothing that generation `g` needs is used up. -/
def LoopState.fair (g : Nat) (l : LoopState) (io : Io) : Bool :=
  l.sendsInFull g io && l.peerStays g io && l.serves g io && l.repliesFit g

/-- When the parser gives generation `g` up, none of its requests is in flight. -/
def LoopState.fatalAtRest (g : Nat) (l : LoopState) : Bool :=
  match l.tasks with
  | .process id g' :: _ => (l.registry.find id g').all fun c =>
      g' ≠ g ∨ (parseCommand c.input.data).isFatal = false ∨ c.sequencer.inFlightCount = 0
  | _ => true

/-- Of the beginnings of `frames` that the parser is handed for generation `g`, none stops in a full header. -/
def LoopState.readsUncut (frames : List Bytes) (g : Nat) (l : LoopState) : Bool :=
  match l.tasks with
  | .process id g' :: _ => (l.registry.find id g').all fun c =>
      g' ≠ g ∨ ∀ f ∈ frames, c.input.data <+: f → ¬ HeaderCut c.input.data
  | _ => true

section
variable {P : Platform} {cfg : ServerConfig} {store : Store P} {clock : Int} {log evs : List Event} {s : System P}
  {g : Nat} {frames : List Bytes} {bad : Bytes}

theorem FatalClose.answered (h : FatalClose s.loop g evs) (hrun : System.Run cfg store clock log s)
    (hframes : ∀ f ∈ frames, (parseCommand f).consumed = some f.length)
    (hbad : (parseCommand bad).isFatal = true) (hreceived : receivedOf g log <+: frames.flatten ++ bad)
    (hrest : s.loop.fatalAtRest g = true) (hcut : s.loop.readsUncut frames g = true)
    (hempty : ∀ b, .closed g b ∈ evs → b = []) : AnsweredThenError (log ++ evs) g frames bad := by
  obtain @⟨id, rest, c, c', e, evs, ht, hf, hparse, hfatal, hresp, hevs⟩ := h
  obtain ⟨hc, rfl⟩ := ConnectionRegistry.find_eq_some_iff.mp hf
  have hinv := hrun.serverInv
  have hisFatal : (parseCommand c.input.data).isFatal = true := by
    rw [hparse]; simp [ParseResult.isFatal, hfatal]
  have hidle : c.sequencer.inFlightCount = 0 := by
    simpa [LoopState.fatalAtRest, ht, hf, hisFatal] using hrest
  have hcut : ∀ f ∈ frames, c.input.data <+: f → ¬ HeaderCut c.input.data := by
    simpa [LoopState.readsUncut, ht, hf] using hcut
  -- all frames were taken, and all of them are answered
  obtain ⟨k, htook⟩ := (hrun.receivedInv id c hc).tookFrames (fun f hf => isFrame_of_consumed (hframes f hf))
    (ParseResult.consumed_of_isFatal hbad) hreceived
  obtain ⟨rfl, hprefix⟩ := htook.all_of_isFatal hframes hcut hreceived hisFatal
  have hraws := htook.raws
  have hverdicts := htook.verdicts
  rw [List.take_length] at hraws hverdicts
  have hcount : (framesOf c.generation log).length = frames.length := by
    rw [← List.length_map, hraws]
  obtain ⟨hnext, hout⟩ := (hinv.book.flight id c hc).answer_atRest hidle hresp
  obtain ⟨rs, hlen, hsent, hall⟩ := hinv.stream.stream id c hc
  have hanswered : Answered log c.generation frames rs := by
    have htake := List.take_of_length_le hcount.le
    refine ⟨by rw [htake]; exact hraws, by rw [htake]; exact hverdicts, ?_, hall⟩
    rw [hlen, hnext, ← hinv.book.frames id c hc, hcount]
  refine ⟨rs, c.input.data, e, hanswered.mono, hprefix, hparse, hfatal, ?_⟩
  -- the close sends what is in the buffer and the error reply
  have hclose : sentOf c.generation evs = c'.output.data :=
    hevs.sentOf_eq fun b hb => hempty b (List.mem_cons_of_mem _ hb)
  rw [← List.singleton_append, sentOf_append, sentOf_append, hclose, hout]
  show sentOf c.generation log ++ ([] ++ (c.output.data ++ encodeError e.message)) = _
  rw [List.nil_append, ← List.append_assoc, hsent]

/-- With a request in flight the client is sent the responses to a strict part of its frames only. -/
theorem FatalClose.swallowed (h : FatalClose s.loop g evs) (hrun : System.Run cfg store clock log s)
    (hbusy : s.loop.fatalAtRest g = false) (hempty : ∀ b, .closed g b ∈ evs → b = []) :
    ∃ m, m < (framesOf g log).length ∧ StreamOk (log ++ evs) g m [] := by
  obtain @⟨id, rest, c, c', e, evs, ht, hf, hparse, hfatal, hresp, hevs⟩ := h
  obtain ⟨hc, rfl⟩ := ConnectionRegistry.find_eq_some_iff.mp hf
  have hinv := hrun.serverInv
  have hflight : c.sequencer.inFlightCount ≠ 0 := by
    have hnot : ¬ s.loop.fatalAtRest c.generation = true := by rw [hbusy]; decide
    intro hidle
    exact hnot (by simp [LoopState.fatalAtRest, ht, hf, hidle])
  refine ⟨c.sequencer.nextExpected, ?_, ?_⟩
  · rw [hinv.book.frames id c hc]
    unfold ResponseSequencer.inFlightCount at hflight
    omega
  · have hstream := hinv.stream.stream id c hc
    rw [← (hinv.book.flight id c hc).answer_held hflight hresp] at hstream
    obtain ⟨b, hb⟩ := hevs.closed_mem
    have htaken : StreamOk (log ++ [c.takenEvent (.protocolError e) 0 (some (encodeError e.message))]) c.generation
        c.sequencer.nextExpected c'.output.data := hstream.mono rfl
    have hdone := htaken.close hevs b hb
    rw [hempty b (List.mem_cons_of_mem _ hb), List.append_assoc] at hdone
    exact hdone

def FatalInv (frames : List Bytes) (bad : Bytes) (g : Nat) (log : List Event) : Prop :=
  receivedOf g log <+: frames.flatten ++ bad → (∀ b, .closed g b ∈ log → b = []) → (∃ b, .closed g b ∈ log) →
    AnsweredThenError log g frames bad

theorem receivedOf_before {stream : Bytes} (h : receivedOf g (log ++ evs) <+: stream) :
    receivedOf g log <+: stream := by
  rw [receivedOf_append] at h
  exact (List.prefix_append _ _).trans h

theorem FatalInv.append (h : FatalInv frames bad g log) (hsent : sentOf g evs = [])
    (hold : ∀ b, .closed g b ∈ evs → ∃ b, .closed g b ∈ log) : FatalInv frames bad g (log ++ evs) := by
  intro hreceived hempty hclosed
  have hclosed' : ∃ b, .closed g b ∈ log := by
    obtain ⟨b, hb⟩ := hclosed
    rcases List.mem_append.mp hb with hb | hb
    · exact ⟨b, hb⟩
    · exact hold b hb
  exact (h (receivedOf_before hreceived) (fun b hb => hempty b (List.mem_append_left _ hb)) hclosed').mono hsent

theorem OnlyDispatches.sentOf_eq_nil (h : OnlyDispatches evs) : sentOf g evs = [] :=
  List.flatMap_eq_nil_iff.mpr fun e he => by
    obtain ⟨_, _, _, _, rfl⟩ := h e he
    rfl

theorem OnlyDispatches.closed_notMem (h : OnlyDispatches evs) (b : Bytes) : .closed g b ∉ evs := fun hb => by
  obtain ⟨_, _, _, _, heq⟩ := h _ hb
  cases heq

/-- If a connection is given up only when none of its requests is in flight and no read ends in a full header of
a frame, the bytes sent on it before it is
closed are the replies to all its frames, in order, and the error reply. -/
theorem fatal_error_last (frames : List Bytes) (bad : Bytes)
    (hframes : ∀ f ∈ frames, (parseCommand f).consumed = some f.length)
    (hbad : (parseCommand bad).isFatal = true)
    (cfg : ServerConfig) (store : Store P) (clock : Int) (log : List Event) (s : System P) (g : Nat)
    (hrun : System.RunIf (fun l io => l.fair g io && l.fatalAtRest g && l.readsUncut frames g) cfg store clock log s)
    (hreceived : receivedOf g log <+: frames.flatten ++ bad) (hempty : ∀ b, .closed g b ∈ log → b = [])
    (hclosed : ∃ b, .closed g b ∈ log) : AnsweredThenError log g frames bad := by
  have hloop : ∀ (log evs : List Event) (s₁ : System P) (l' : LoopState) (io : Io),
      System.RunIf (fun l io => l.fair g io && l.fatalAtRest g && l.readsUncut frames g) cfg store clock log s₁ →
      FatalInv frames bad g log → (s₁.loop.fair g io && s₁.loop.fatalAtRest g && s₁.loop.readsUncut frames g) = true →
      LoopMove cfg.toEventLoopConfig s₁.loop io evs l' → FatalInv frames bad g (log ++ evs) := by
    intro log evs s₁ l' io hrun₁ hinv hok hmove
    by_cases hold : ∃ b, .closed g b ∈ log
    · obtain ⟨b, hb⟩ := hold
      have hgone := hrun₁.run.serverInv.book.registry.gone g b hb
      exact hinv.append (hmove.sentOf_eq_nil hgone) fun _ _ => ⟨b, hb⟩
    · -- this step closes the connection
      intro hreceived hempty ⟨b, hb⟩
      have hb : .closed g b ∈ evs := (List.mem_append.mp hb).resolve_left fun hb => hold ⟨b, hb⟩
      simp only [LoopState.fair, Bool.and_eq_true] at hok
      obtain ⟨⟨⟨⟨⟨hsend, hpeer⟩, hserves⟩, hfit⟩, hrest⟩, hcut⟩ := hok
      have hflush : FlushInv g s₁.loop := by
        refine (System.RunIf.mono (fun l io hok => ?_) hrun₁).flushInv
        simp only [LoopState.fair, Bool.and_eq_true] at hok
        exact hok.1.1.1.1.1
      rcases hmove.closes hb hsend hpeer hserves with hover | hfatal
      · exact absurd hover (hflush.not_overflows hrun₁.run hfit)
      · exact hfatal.answered hrun₁.run hframes hbad (receivedOf_before hreceived) hrest hcut
          fun b hb => hempty b (List.mem_append_right _ hb)
  have hkept : ∀ (log evs : List Event) (l l' : LoopState), FatalInv frames bad g log → LoopKept l l' →
      OnlyDispatches evs → FatalInv frames bad g (log ++ evs) := fun _ _ _ _ hinv _ hevs =>
    hinv.append hevs.sentOf_eq_nil fun b hb => absurd hb (hevs.closed_notMem b)
  have hinit : FatalInv frames bad g [] := fun _ _ ⟨_, hb⟩ => by cases hb
  exact hrun.invariant hinit hloop hkept hreceived hempty hclosed

end

/-! ### A client that waits and one that does not -/

/-- A byte that starts no frame. -/
def badByte : Bytes := ascii "X"

def badByteReply : Bytes := encodeError (ascii "expected RESP array ('*')")

/-- The client waits for the reply to its `PING` before it sends the byte. -/
def patientResult : Option (System (.reference .exact) × List Event) :=
  run (System.stepIf (fun l io => l.fair 1 io && l.fatalAtRest 1 && l.readsUncut [pingFrame] 1)
      ServerConfig.default.toEventLoopConfig)
    (System.start ServerConfig.default Store.small 0)
    (Choice.connect pingFrame ++ List.replicate 6 (.loop {}) ++ List.replicate 4 (.worker 0) ++
      ([.loop { poll := .events [.wakeup] }, .loop {}, .loop {}, .loop {}, .loop {}, .loop { send := .wrote 7 },
        .loop {}, .loop {}, .loop {}, .loop { poll := .events [.client 7 false true false] }, .loop {}, .loop {},
        .loop { recv := .bytes badByte }, .loop { flush := .wrote 28 }] : List Choice))

/-- The bytes that a close leaves unsent. -/
def Event.leftover : Event → Bytes
  | .closed _ unsent => unsent
  | _ => []

theorem patient_state : patientResult.map (fun r => decide (receivedOf 1 r.2 = pingFrame ++ badByte ∧
    sentOf 1 r.2 = pongReply ++ badByteReply ∧ .closed 1 [] ∈ r.2 ∧ ∀ e ∈ r.2, e.leftover = [])) = some true := by
  decide +kernel

theorem pingFrame_consumed : (parseCommand pingFrame).consumed = some pingFrame.length := by
  decide +kernel

theorem badByte_isFatal : (parseCommand badByte).isFatal = true := by
  decide +kernel

theorem fatal_error_last_patient : ∃ (log : List Event) (s : System (.reference .exact)),
    System.RunIf (fun l io => l.fair 1 io && l.fatalAtRest 1 && l.readsUncut [pingFrame] 1) ServerConfig.default
        Store.small 0 log s ∧
      receivedOf 1 log = pingFrame ++ badByte ∧ .closed 1 [] ∈ log ∧ sentOf 1 log = pongReply ++ badByteReply ∧
      AnsweredThenError log 1 [pingFrame] badByte := by
  obtain ⟨⟨s, log⟩, hresult, hstate⟩ := Option.map_eq_some_iff.mp patient_state
  obtain ⟨hreceived, hsent, hclosed, hempty⟩ := of_decide_eq_true hstate
  have hrun : System.RunIf (fun l io => l.fair 1 io && l.fatalAtRest 1 && l.readsUncut [pingFrame] 1)
      ServerConfig.default Store.small 0 log s := exec_of_run hresult
  refine ⟨log, s, hrun, hreceived, hclosed, hsent, fatal_error_last [pingFrame] badByte ?_ badByte_isFatal
    _ _ _ _ _ 1 hrun ?_ (fun b hb => hempty _ hb) ⟨[], hclosed⟩⟩
  · intro f hf
    rw [List.mem_singleton.mp hf]
    exact pingFrame_consumed
  · rw [hreceived]
    exact List.prefix_rfl

/-- The client sends both at once. -/
def hastyResult : Option (System (.reference .exact) × List Event) :=
  run (System.stepIf (LoopState.fair 1) ServerConfig.default.toEventLoopConfig)
    (System.start ServerConfig.default Store.small 0)
    (Choice.connect (pingFrame ++ badByte) ++ [.loop {}, .loop {}])

theorem hasty_state : hastyResult.map (fun r => decide (receivedOf 1 r.2 = pingFrame ++ badByte ∧
    sentOf 1 r.2 = [] ∧ .closed 1 [] ∈ r.2 ∧ ∀ e ∈ r.2, e.leftover = [])) = some true := by
  decide +kernel

/-- The `PING` is in the work queue when the byte behind it is parsed. The connection is closed with an empty
output buffer, and the client gets neither the reply to its `PING` nor the error reply. -/
theorem fatal_error_swallows : (parseCommand pingFrame).consumed = some pingFrame.length ∧
    (parseCommand badByte).isFatal = true ∧ ∃ (log : List Event) (s : System (.reference .exact)),
      System.RunIf (LoopState.fair 1) ServerConfig.default Store.small 0 log s ∧
        receivedOf 1 log = pingFrame ++ badByte ∧ .closed 1 [] ∈ log ∧ (∀ b, .closed 1 b ∈ log → b = []) ∧
        sentOf 1 log = [] ∧ ¬ AnsweredThenError log 1 [pingFrame] badByte := by
  refine ⟨pingFrame_consumed, badByte_isFatal, ?_⟩
  obtain ⟨⟨s, log⟩, hresult, hstate⟩ := Option.map_eq_some_iff.mp hasty_state
  obtain ⟨hreceived, hsent, hclosed, hempty⟩ := of_decide_eq_true hstate
  refine ⟨log, s, exec_of_run hresult, hreceived, hclosed, fun b hb => hempty _ hb, hsent, ?_⟩
  rintro ⟨rs, p, e, -, -, -, -, heq⟩
  -- an error reply is not empty
  have hnil : encodeError e.message = [] := (List.append_eq_nil_iff.mp (heq.symm.trans hsent)).2
  cases hnil

end KvStore
