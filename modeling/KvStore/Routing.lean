import KvStore.ExactlyOnce

/-!
# Responses reach their own connection, in request order

`IsResponse log g i r`: `r` is the response to the `i`-th frame taken from generation `g`: what the dispatch
of its own command returned, or the reply the loop gave to that very frame. `StreamInv` follows responses
from the worker's hands to the output buffer; `StreamOk` says that what a connection has sent and has still
to send is a concatenation of such responses, in order. `responses_in_order` is the result for every run.
-/

namespace KvStore
open ByteString Transition Slots

/-- `r` answers the `i`-th frame taken from generation `g`. -/
inductive IsResponse (log : List Event) (g i : Nat) : Bytes → Prop
  | dispatched {command : Command} {n : Nat} {raw r : Bytes} :
    (framesOf g log)[i]? = some ⟨.parsedCommand command n, raw, none⟩ →
    .dispatched g i command r ∈ log → IsResponse log g i r
  | refused {command : Command} {n : Nat} {raw r : Bytes} :
    (framesOf g log)[i]? = some ⟨.parsedCommand command n, raw, some r⟩ →
    r = busyReply ∨ r = shuttingDownReply → IsResponse log g i r
  | protocolError {e : ProtocolError} {raw : Bytes} :
    (framesOf g log)[i]? = some ⟨.protocolError e, raw, some (encodeError e.message)⟩ →
    IsResponse log g i (encodeError e.message)

section
variable {cfg : EventLoopConfig} {k k' : Core} {evs log : List Event} {id g i m : Nat} {c c' : Connection}
  {r out : Bytes}

theorem framesOf_getElem?_mono {frame : TakenFrame} (h : (framesOf g log)[i]? = some frame) :
    (framesOf g (log ++ evs))[i]? = some frame := by
  rw [framesOf_append, List.getElem?_append_left (List.getElem?_eq_some_iff.mp h).1]; exact h

theorem IsResponse.mono (h : IsResponse log g i r) : IsResponse (log ++ evs) g i r := by
  cases h with
  | dispatched hf hd => exact .dispatched (framesOf_getElem?_mono hf) (List.mem_append_left _ hd)
  | refused hf hr => exact .refused (framesOf_getElem?_mono hf) hr
  | protocolError hf => exact .protocolError (framesOf_getElem?_mono hf)

theorem OwnAnswer.isResponse {verdict : ParseResult} {n : Nat} {goOn : Bool} (h : OwnAnswer c verdict n r goOn)
    (hlen : (framesOf c.generation log).length = c.sequencer.nextRequestSequence) :
    IsResponse (log ++ [c.takenEvent verdict n (some r)]) c.generation c.sequencer.nextRequestSequence r := by
  have hframe : (framesOf c.generation (log ++ [c.takenEvent verdict n (some r)]))[
      c.sequencer.nextRequestSequence]? = some ⟨verdict, c.input.data.take n, some r⟩ := by
    rw [framesOf_append, Connection.takenEvent, framesOf_taken_self, ← hlen, List.getElem?_concat_length]
  cases h with
  | refused _ hr => exact .refused hframe hr
  | recoverable _ _ => exact .protocolError hframe
  | fatal _ _ => exact .protocolError hframe

/-! ### Streams -/

/-- Sent bytes followed by `out` are the responses to the first `m` frames. -/
def StreamOk (log : List Event) (g m : Nat) (out : Bytes) : Prop :=
  ∃ rs : List Bytes, rs.length = m ∧ sentOf g log ++ out = rs.flatten ∧
    ∀ i r, rs[i]? = some r → IsResponse log g i r

theorem StreamOk.mono (h : StreamOk log g m out) (hsent : sentOf g evs = []) :
    StreamOk (log ++ evs) g m out := by
  obtain ⟨rs, hlen, heq, hall⟩ := h
  refine ⟨rs, hlen, ?_, fun i r hi => (hall i r hi).mono⟩
  rw [sentOf_append, hsent, List.append_nil]; exact heq

theorem StreamOk.send (h : StreamOk log g m out) (n : Nat) :
    StreamOk (log ++ [.sent g (out.take n)]) g m (out.drop n) := by
  obtain ⟨rs, hlen, heq, hall⟩ := h
  refine ⟨rs, hlen, ?_, fun i r hi => (hall i r hi).mono⟩
  have hone : sentOf g [.sent g (out.take n)] = out.take n := by simp [sentOf, Event.sentBytes]
  rw [sentOf_append, hone, List.append_assoc, List.take_append_drop]; exact heq

theorem StreamOk.close (h : StreamOk log g m out) (hevs : CloseEvents g out evs) :
    ∀ b, .closed g b ∈ evs → StreamOk (log ++ evs) g m b := by
  intro b hb
  cases hevs with
  | quiet => rw [List.mem_singleton.mp hb |> Event.closed.inj |>.2]; exact h.mono rfl
  | @flushed n _ =>
    rcases List.mem_cons.mp hb with hb | hb
    · cases hb
    · rw [(Event.closed.inj (List.mem_singleton.mp hb)).2]
      have hclosed : StreamOk (log ++ [.sent g (out.take n)] ++ [.closed g (out.drop n)]) g m (out.drop n) :=
        (h.send n).mono rfl
      rwa [List.append_assoc] at hclosed

theorem pushResponses_data {output output' : BoundedBuffer} {ready : List Bytes} {ok : Bool}
    (h : pushResponses output ready = (output', ok)) :
    ∃ j, output'.data = output.data ++ (ready.take j).flatten ∧ (ok = true → ready.length ≤ j) := by
  induction ready generalizing output with
  | nil =>
    cases h
    exact ⟨0, (List.append_nil _).symm, fun _ => le_rfl⟩
  | cons response ready ih =>
    rw [pushResponses] at h
    cases happ : output.append response with
    | none =>
      rw [happ] at h; cases h
      exact ⟨0, (List.append_nil _).symm, fun hok => by cases hok⟩
    | some output₁ =>
      rw [happ] at h
      obtain ⟨j, hdata, hok⟩ := ih h
      refine ⟨j + 1, ?_, fun ht => Nat.succ_le_succ (hok ht)⟩
      rw [hdata, BoundedBuffer.data_of_append happ, List.append_assoc]; rfl

theorem respond_push {q : Nat} {ok : Bool} (h : c.respond q r = (c', ok)) :
    pushResponses c.output (c.sequencer.record q r).2 = (c'.output, ok) := by
  unfold Connection.respond at h
  cases h; rfl

/-- All pending responses are responses to their frames. -/
def PendingOk (log : List Event) (g : Nat) (s : ResponseSequencer) : Prop :=
  ∀ q r, s.pending.lookup q = some r → IsResponse log g q r

theorem PendingOk.emplace {s : ResponseSequencer} {q : Nat} (h : PendingOk log g s)
    (hr : IsResponse log g q r) : PendingOk log g (s.emplace q r) := by
  intro q' r' hl
  cases hq : s.pending.lookup q with
  | some r₀ =>
    unfold ResponseSequencer.emplace at hl
    rw [hq] at hl; exact h q' r' hl
  | none =>
    rw [ResponseSequencer.emplace_of_none hq] at hl
    rcases Finmap.lookup_insert_eq_some hl with ⟨rfl, rfl⟩ | ⟨-, hl⟩
    · exact hr
    · exact h q' r' hl

/-- Recording a response keeps pending responses right and extends the stream by responses in order; if
the output cap cuts it short, it is still a stream of whole responses. -/
theorem StreamOk.respond {q : Nat} {ok : Bool} (hresp : c.respond q r = (c', ok))
    (hstream : StreamOk log g c.sequencer.nextExpected c.output.data)
    (hpending : PendingOk log g c.sequencer) (hr : IsResponse log g q r) :
    PendingOk log g c'.sequencer ∧ (∃ m, StreamOk log g m c'.output.data) ∧
      (ok = true → StreamOk log g c'.sequencer.nextExpected c'.output.data) := by
  have hrel := c.sequencer.record_released q r
  have hseq := respond_sequencer hresp
  rw [← hseq] at hrel
  have hemp := hpending.emplace hr
  have hnext := c.sequencer.nextExpected_emplace q r
  -- the output buffer got a prefix of what was released
  obtain ⟨j, hdata, hall⟩ := pushResponses_data (respond_push hresp)
  generalize (c.sequencer.record q r).2 = ready at hrel hdata hall
  obtain ⟨rs, hlen, heq, hrs⟩ := hstream
  have hok : StreamOk log g (rs ++ ready.take j).length c'.output.data := by
    refine ⟨rs ++ ready.take j, rfl, ?_, fun i r' hi => ?_⟩
    · rw [hdata, ← List.append_assoc, heq, List.flatten_append]
    · by_cases hlt : i < rs.length
      · rw [List.getElem?_append_left hlt] at hi; exact hrs i r' hi
      · rw [List.getElem?_append_right (Nat.le_of_not_lt hlt)] at hi
        have hready : ready[i - rs.length]? = some r' := by
          obtain ⟨hi', hget⟩ := List.getElem?_eq_some_iff.mp hi
          rw [List.getElem_take] at hget
          exact List.getElem?_eq_some_iff.mpr ⟨_, hget⟩
        have hlook := hrel.lookup_ready _ _ hready
        rw [hnext, ← hlen, Nat.add_sub_cancel' (Nat.le_of_not_lt hlt)] at hlook
        exact hemp i r' hlook
  refine ⟨fun q' r' hl => ?_, ⟨_, hok⟩, fun ht => ?_⟩
  · rw [hrel.lookup_pending] at hl
    split_ifs at hl
    exact hemp q' r' hl
  · have htake : ready.take j = ready := List.take_of_length_le (hall ht)
    rw [htake, List.length_append, hlen, ← hnext, ← hrel.expected] at hok
    exact hok

/-! ### The invariant -/

/-- A request on its way to the store still has the command of its frame. -/
def ItemOk (log : List Event) (item : WorkItem) : Prop :=
  ∃ n raw, (framesOf item.connectionGeneration log)[item.sequence]? =
    some ⟨.parsedCommand item.command n, raw, none⟩

def CompletionOk (log : List Event) (completion : Completion) : Prop :=
  IsResponse log completion.connectionGeneration completion.sequence completion.response

structure StreamInv (log : List Event) (k : Core) : Prop where
  carried : Carried (ItemOk log) (CompletionOk log) k
  pending : ∀ id c, k.registry.findCurrent id = some c → PendingOk log c.generation c.sequencer
  stream : ∀ id c, k.registry.findCurrent id = some c →
    StreamOk log c.generation c.sequencer.nextExpected c.output.data
  closed : ∀ g b, .closed g b ∈ log → ∃ m, StreamOk log g m b
  /-- A connection that was accepted is open or its closing is logged. -/
  accepted : ∀ id g, .accepted id g ∈ log →
    (∃ id' c, k.registry.findCurrent id' = some c ∧ c.generation = g) ∨ ∃ b, .closed g b ∈ log

theorem PendingOk.mono {s : ResponseSequencer} (h : PendingOk log g s) : PendingOk (log ++ evs) g s :=
  fun q r hl => (h q r hl).mono

theorem StreamInv.carried_move (hframes : FramesInv log k) (hinv : StreamInv log k) (h : Move cfg k evs k') :
    Carried (ItemOk (log ++ evs)) (CompletionOk (log ++ evs)) k' := by
  refine hinv.carried.move h (fun item ⟨n, raw, hf⟩ => ⟨n, raw, framesOf_getElem?_mono hf⟩)
    (fun c hc => hc.mono) (fun id g n c command hf hevs => ?_) fun item reply ⟨n, raw, hf⟩ hevs => ?_
  · have hlen := hframes _ _ (ConnectionRegistry.find_eq_some_iff.mp hf).1
    refine ⟨n, c.input.data.take n, ?_⟩
    show (framesOf c.generation (log ++ evs))[c.sequencer.nextRequestSequence]? = _
    rw [hevs, framesOf_append, Connection.takenEvent, framesOf_taken_self, ← hlen,
      List.getElem?_concat_length]
    rfl
  · refine .dispatched (framesOf_getElem?_mono hf) (List.mem_append_right _ ?_)
    rw [hevs]; exact List.mem_singleton_self _

theorem Touched.stream (hlen : (framesOf c.generation log).length = c.sequencer.nextRequestSequence)
    (hcarried : Carried (ItemOk log) (CompletionOk log) k)
    (hpending : PendingOk log c.generation c.sequencer)
    (hstream : StreamOk log c.generation c.sequencer.nextExpected c.output.data)
    (h : Touched cfg k k' c evs c') :
    PendingOk (log ++ evs) c'.generation c'.sequencer ∧
      StreamOk (log ++ evs) c'.generation c'.sequencer.nextExpected c'.output.data := by
  cases h with
  | send hn _ => exact ⟨hpending.mono, hstream.send _⟩
  | receive _ _ => exact ⟨hpending.mono, hstream.mono rfl⟩
  | handOver _ _ _ => exact ⟨hpending.mono, hstream.mono rfl⟩
  | answer _ hown hresp _ =>
    obtain ⟨h1, -, h2⟩ := StreamOk.respond hresp (hstream.mono rfl) hpending.mono (hown.isResponse hlen)
    rw [(respond_id_generation hresp).2]
    exact ⟨h1, h2 rfl⟩
  | @complete completion _ hk _ hg hresp _ =>
    have hcomp : CompletionOk log completion :=
      hcarried.completions _ (hk ▸ List.mem_cons_self)
    unfold CompletionOk at hcomp
    rw [hg] at hcomp
    obtain ⟨h1, -, h2⟩ := StreamOk.respond hresp hstream hpending hcomp
    rw [(respond_id_generation hresp).2, List.append_nil]
    exact ⟨h1, h2 rfl⟩

theorem Move.sentOf_eq_nil (h : Move cfg k evs k')
    (hclosed : ∀ id c, k.registry.findCurrent id = some c → c.generation ≠ g) : sentOf g evs = [] := by
  have hne : ∀ {id g₀ : Nat} {c : Connection}, k.registry.find id g₀ = some c → g₀ ≠ g := fun hf => by
    obtain ⟨hc, rfl⟩ := ConnectionRegistry.find_eq_some_iff.mp hf
    exact hclosed _ _ hc
  have hclose : ∀ {id g₀ : Nat} {c : Connection} {output : Bytes} {evs : List Event},
      k.registry.find id g₀ = some c → CloseEvents g₀ output evs → sentOf g evs = [] := fun hf hevs =>
    (history_eq_nil fun e he => by rw [hevs.generation e he]; exact hne hf).1
  cases h with
  | close hf hevs => exact hclose hf hevs
  | send hf _ => exact (history_eq_nil fun e he => by rw [List.mem_singleton.mp he]; exact hne hf).1
  | answerClose hf _ _ _ hevs =>
    rw [← List.singleton_append, sentOf_append, hclose hf hevs]; rfl
  | completeClose _ hf _ hevs => exact hclose hf hevs
  | _ => rfl

theorem StreamInv.closed_move (hframes : FramesInv log k) (hinv : StreamInv log k) (h : Move cfg k evs k')
    {b : Bytes} (hb : .closed g b ∈ evs) : ∃ m, StreamOk (log ++ evs) g m b := by
  have hopen : ∀ {id g₀ : Nat} {c : Connection}, k.registry.find id g₀ = some c →
      k.registry.findCurrent id = some c ∧ c.generation = g₀ := ConnectionRegistry.find_eq_some_iff.mp
  cases h with
  | close hf hevs =>
    obtain ⟨hc, rfl⟩ := hopen hf
    have hg : g = _ := hevs.generation _ hb
    subst hg
    exact ⟨_, (hinv.stream _ _ hc).close hevs b hb⟩
  | @answerClose _ _ n c c' verdict reply _ _ evs' hf _ hown hresp hevs =>
    obtain ⟨hc, rfl⟩ := hopen hf
    rcases List.mem_cons.mp hb with hb | hb
    · cases hb
    have hg : g = c.generation := hevs.generation _ hb
    subst hg
    obtain ⟨-, ⟨m, hm⟩, -⟩ := StreamOk.respond hresp ((hinv.stream _ _ hc).mono rfl)
      (hinv.pending _ _ hc).mono (hown.isResponse (hframes _ _ hc))
    have hdone := hm.close hevs b hb
    rw [List.append_assoc] at hdone
    exact ⟨m, hdone⟩
  | @completeClose completion _ c _ _ _ hk hf hresp hevs =>
    obtain ⟨hc, hgen⟩ := hopen hf
    have hg : g = completion.connectionGeneration := hevs.generation _ hb
    have hcomp : CompletionOk log completion := hinv.carried.completions _ (hk ▸ List.mem_cons_self)
    unfold CompletionOk at hcomp
    rw [← hgen] at hcomp hevs
    rw [hg, ← hgen]
    rw [hg, ← hgen] at hb
    obtain ⟨-, ⟨m, hm⟩, -⟩ := StreamOk.respond hresp (hinv.stream _ _ hc) (hinv.pending _ _ hc) hcomp
    exact ⟨m, hm.close hevs b hb⟩
  | accept _ => simp at hb
  | send _ _ => simp at hb
  | receive _ _ => simp at hb
  | handOver _ _ _ => simp [Connection.takenEvent] at hb
  | answer _ _ _ _ => simp [Connection.takenEvent] at hb
  | dispatch _ _ => simp at hb
  | complete _ _ _ => cases hb
  | stale _ _ => cases hb
  | pop _ _ => cases hb
  | push _ _ => cases hb
  | lose _ _ => cases hb
  | closeCompletions => cases hb

theorem CloseEvents.closed_mem {output : Bytes} (h : CloseEvents g output evs) : ∃ b, .closed g b ∈ evs := by
  cases h with
  | quiet => exact ⟨_, List.mem_singleton_self _⟩
  | flushed _ => exact ⟨_, List.mem_cons_of_mem _ (List.mem_singleton_self _)⟩

theorem Move.open_or_closed (h : Move cfg k evs k') (hc : k.registry.findCurrent id = some c) :
    (∃ c', k'.registry.findCurrent id = some c' ∧ c'.generation = c.generation) ∨
      ∃ b, .closed c.generation b ∈ evs := by
  have hput : ∀ {id₀ g₀ : Nat} {c₀ c' : Connection}, k.registry.find id₀ g₀ = some c₀ →
      c'.generation = c₀.generation →
      ∃ c'', (k.registry.put id₀ c').findCurrent id = some c'' ∧ c''.generation = c.generation := by
    intro id₀ g₀ c₀ c' hf hg
    rw [ConnectionRegistry.findCurrent_put]
    split_ifs with hid
    · have : c₀ = c := by
        rw [hid] at hc
        exact Option.some.inj ((ConnectionRegistry.find_eq_some_iff.mp hf).1.symm.trans hc)
      exact ⟨c', rfl, by rw [hg, this]⟩
    · exact ⟨c, hc, rfl⟩
  have hclose : ∀ {id₀ g₀ : Nat} {c₀ c' : Connection} {output : Bytes} {evs' : List Event},
      k.registry.find id₀ g₀ = some c₀ → c'.generation = c₀.generation → CloseEvents g₀ output evs' →
      (∃ c'', ((k.registry.put id₀ c').close id₀ g₀).findCurrent id = some c'' ∧
        c''.generation = c.generation) ∨ ∃ b, .closed c.generation b ∈ evs' := by
    intro id₀ g₀ c₀ c' output evs' hf hg hevs
    obtain ⟨hc₀, rfl⟩ := ConnectionRegistry.find_eq_some_iff.mp hf
    rw [ConnectionRegistry.findCurrent_close (ConnectionRegistry.find_put_self hg),
      ConnectionRegistry.findCurrent_put]
    split_ifs with hid
    · have : c₀ = c := by rw [hid] at hc; exact Option.some.inj (hc₀.symm.trans hc)
      rw [← this]; exact .inr hevs.closed_mem
    · exact .inl ⟨c, hc, rfl⟩
  cases h with
  | accept hnone =>
    refine .inl ⟨c, ?_, rfl⟩
    rw [ConnectionRegistry.findCurrent_add, if_neg]
    · exact hc
    · rintro rfl; rw [hc] at hnone; cases hnone
  | close hf hevs =>
    have := hclose hf rfl hevs
    rwa [ConnectionRegistry.put_self (ConnectionRegistry.find_eq_some_iff.mp hf).1] at this
  | send hf _ => exact .inl (hput hf rfl)
  | receive hf _ => exact .inl (hput hf rfl)
  | handOver hf _ _ => exact .inl (hput hf rfl)
  | answer hf _ _ hresp => exact .inl (hput hf (respond_id_generation hresp).2)
  | answerClose hf _ _ hresp hevs =>
    rcases hclose hf (respond_id_generation hresp).2 hevs with hopen | ⟨b, hb⟩
    · exact .inl hopen
    · exact .inr ⟨b, List.mem_cons_of_mem _ hb⟩
  | complete _ hf hresp => exact .inl (hput hf (respond_id_generation hresp).2)
  | completeClose _ hf hresp hevs => exact hclose hf (respond_id_generation hresp).2 hevs
  | _ => exact .inl ⟨c, hc, rfl⟩

theorem Move.accepted_open (h : Move cfg k evs k') (ha : .accepted id g ∈ evs) :
    ∃ c, k'.registry.findCurrent id = some c ∧ c.generation = g := by
  have hclose : ∀ {g₀ : Nat} {output : Bytes} {evs : List Event}, CloseEvents g₀ output evs →
      Event.accepted id g ∉ evs := fun hevs => by cases hevs <;> simp
  cases h with
  | accept hnone =>
    rw [List.mem_singleton] at ha
    cases ha
    exact ⟨_, (ConnectionRegistry.findCurrent_add ..).trans (if_pos rfl), rfl⟩
  | close _ hevs => exact absurd ha (hclose hevs)
  | completeClose _ _ _ hevs => exact absurd ha (hclose hevs)
  | answerClose _ _ _ _ hevs =>
    rcases List.mem_cons.mp ha with ha | ha
    · cases ha
    · exact absurd ha (hclose hevs)
  | send _ _ => simp at ha
  | receive _ _ => simp at ha
  | handOver _ _ _ => simp [Connection.takenEvent] at ha
  | answer _ _ _ _ => simp [Connection.takenEvent] at ha
  | dispatch _ _ => simp at ha
  | complete _ _ _ => cases ha
  | stale _ _ => cases ha
  | pop _ _ => cases ha
  | push _ _ => cases ha
  | lose _ _ => cases ha
  | closeCompletions => cases ha

theorem StreamInv.move (hbook : BookInv log k) (hinv : StreamInv log k) (h : Move cfg k evs k') :
    StreamInv (log ++ evs) k' := by
  have hopen : ∀ id c, k'.registry.findCurrent id = some c →
      PendingOk (log ++ evs) c.generation c.sequencer ∧
        StreamOk (log ++ evs) c.generation c.sequencer.nextExpected c.output.data := by
    intro id c hc
    rcases h.origin hbook.registry hc with ⟨rfl, rfl, -⟩ | ⟨hc₀, hsilent, -⟩ | ⟨c₀, hc₀, htouch⟩
    · refine ⟨fun q r hl => ?_, [], rfl, ?_, fun i r hi => ?_⟩
      · cases hl
      · show sentOf k.registry.nextGeneration (log ++ _) ++ [] = []
        rw [sentOf_append, hbook.registry.history_next.1]; rfl
      · simp at hi
    · exact ⟨(hinv.pending id c hc₀).mono, (hinv.stream id c hc₀).mono hsilent.sent⟩
    · exact htouch.stream (hbook.frames id c₀ hc₀) hinv.carried (hinv.pending id c₀ hc₀)
        (hinv.stream id c₀ hc₀)
  refine ⟨hinv.carried_move hbook.frames h, fun id c hc => (hopen id c hc).1,
    fun id c hc => (hopen id c hc).2, fun g b hb => ?_, fun id g ha => ?_⟩
  · rcases List.mem_append.mp hb with hb' | hb'
    · obtain ⟨m, hm⟩ := hinv.closed g b hb'
      exact ⟨m, hm.mono (h.sentOf_eq_nil (hbook.registry.gone g b hb'))⟩
    · exact hinv.closed_move hbook.frames h hb'
  · rcases List.mem_append.mp ha with ha | ha
    · rcases hinv.accepted id g ha with ⟨id', c, hc, rfl⟩ | ⟨b, hb⟩
      · rcases h.open_or_closed hc with ⟨c', hc', hg⟩ | ⟨b, hb⟩
        · exact .inl ⟨id', c', hc', hg⟩
        · exact .inr ⟨b, List.mem_append_right _ hb⟩
      · exact .inr ⟨b, List.mem_append_left _ hb⟩
    · obtain ⟨c, hc, hg⟩ := h.accepted_open ha
      exact .inl ⟨id, c, hc, hg⟩

theorem StreamInv.start (cfg : ServerConfig) : StreamInv [] (Core.start cfg) := by
  have hnone : ∀ id, (Core.start cfg).registry.findCurrent id = none := fun _ => rfl
  refine ⟨⟨fun _ h => ?_, fun hand h => ?_, fun _ h => ?_⟩, fun id c hc => ?_, fun id c hc => ?_,
    fun g b hb => ?_, fun id g ha => ?_⟩
  · cases h
  · rw [List.eq_of_mem_replicate h]; trivial
  · cases h
  · cases (hnone id).symm.trans hc
  · cases (hnone id).symm.trans hc
  · cases hb
  · cases ha

/-- All that is kept about requests and responses. -/
structure ServerInv (log : List Event) (k : Core) : Prop where
  book : BookInv log k
  stream : StreamInv log k

theorem ServerInv.move (hinv : ServerInv log k) (h : Move cfg k evs k') : ServerInv (log ++ evs) k' :=
  ⟨hinv.book.move h, hinv.stream.move hinv.book h⟩

/-! ### A response is unique -/

theorem IsResponse.unique {r' : Bytes} (hinv : DispatchInv log k) (h : IsResponse log g i r)
    (h' : IsResponse log g i r') : r' = r := by
  have hone : dispatchCount g i log ≤ 1 := by
    have := hinv g i
    have := handed_le_one (framesOf g log) i
    omega
  cases h with
  | dispatched hf hd =>
    cases h' with
    | dispatched hf' hd' =>
      have hp : ∀ (command : Command) (r : Bytes), Event.dispatches g i (.dispatched g i command r) = true :=
        fun _ _ => by simp [Event.dispatches]
      have := eq_of_countP_le_one hone hd' (hp _ _) hd (hp _ _)
      cases this; rfl
    | refused hf' _ => rw [hf] at hf'; cases hf'
    | protocolError hf' => rw [hf] at hf'; cases hf'
  | refused hf _ =>
    cases h' with
    | dispatched hf' _ => rw [hf] at hf'; cases hf'
    | refused hf' _ => rw [hf] at hf'; cases hf'; rfl
    | protocolError hf' => rw [hf] at hf'; cases hf'
  | protocolError hf =>
    cases h' with
    | dispatched hf' _ => rw [hf] at hf'; cases hf'
    | refused hf' _ => rw [hf] at hf'; cases hf'
    | protocolError hf' => rw [hf] at hf'; cases hf'; rfl

end

section
variable {P : Platform} {cfg : ServerConfig} {store : Store P} {clock : Int} {log : List Event} {s : System P}

theorem System.Run.serverInv (h : System.Run cfg store clock log s) : ServerInv log s.core :=
  h.invariant ⟨.start cfg, .start cfg⟩ fun _ _ _ _ => ServerInv.move

/-- The bytes in the output buffer of generation `g`, or those that were in it when it was closed. -/
inductive Unsent (log : List Event) (s : System P) (g : Nat) : Bytes → Prop
  | opened {id : Nat} {c : Connection} : s.loop.registry.find id g = some c → Unsent log s g c.output.data
  | closed {b : Bytes} : .closed g b ∈ log → Unsent log s g b

theorem StreamInv.unsent (hinv : StreamInv log s.core) {g : Nat} {b : Bytes} (hb : Unsent log s g b) :
    ∃ m, StreamOk log g m b := by
  rcases hb with hf | hb
  · obtain ⟨hc, rfl⟩ := ConnectionRegistry.find_eq_some_iff.mp hf
    exact ⟨_, hinv.stream _ _ hc⟩
  · exact hinv.closed g b hb

theorem StreamInv.of_accepted (hinv : StreamInv log s.core) {id g : Nat} (hacc : .accepted id g ∈ log) :
    ∃ b m, StreamOk log g m b := by
  rcases hinv.accepted id g hacc with ⟨id', c, hc, hg⟩ | ⟨b, hb⟩
  · exact ⟨_, hinv.unsent (.opened (ConnectionRegistry.find_eq_some_iff.mpr ⟨hc, hg⟩))⟩
  · exact ⟨b, hinv.unsent (.closed hb)⟩

/-- On every connection the bytes sent and the bytes still in the buffer are the responses to the first
frames taken from that very connection, in order, and each frame has only one. -/
theorem responses_in_order (h : System.Run cfg store clock log s) {id g : Nat}
    (haccepted : .accepted id g ∈ log) :
    (∃ b, Unsent log s g b) ∧ ∀ b, Unsent log s g b → ∃ rs : List Bytes, sentOf g log ++ b = rs.flatten ∧
      ∀ i r, rs[i]? = some r → IsResponse log g i r ∧ ∀ r', IsResponse log g i r' → r' = r := by
  obtain ⟨hbook, hinv⟩ := h.serverInv
  constructor
  · rcases hinv.accepted id g haccepted with ⟨id', c, hc, hg⟩ | ⟨b, hb⟩
    · exact ⟨_, .opened (ConnectionRegistry.find_eq_some_iff.mpr ⟨hc, hg⟩)⟩
    · exact ⟨b, .closed hb⟩
  · intro b hb
    obtain ⟨m, rs, -, heq, hall⟩ := hinv.unsent hb
    exact ⟨rs, heq, fun i r hi => ⟨hall i r hi, fun r' hr' => (hall i r hi).unique hbook.dispatch hr'⟩⟩

end

/-- The client of the sample run got exactly its two responses. -/
theorem responses_in_order_sample :
    (∃ b, Unsent sampleLog sampleState 1 b) ∧ ∀ b, Unsent sampleLog sampleState 1 b →
      ∃ rs : List Bytes, sentOf 1 sampleLog ++ b = rs.flatten ∧ ∀ i r, rs[i]? = some r →
        IsResponse sampleLog 1 i r ∧ ∀ r', IsResponse sampleLog 1 i r' → r' = r :=
  responses_in_order sample_run (show .accepted 7 1 ∈ sampleLog by decide +kernel)

end KvStore
