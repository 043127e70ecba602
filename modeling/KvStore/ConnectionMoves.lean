import KvStore.RegistryInv

/-!
# Moves seen from one connection

`Core.flight k id g q` counts the copies of request `q` of connection `(id, g)` in the work queue, in the
workers' hands and in the completion queue. `Move.origin` is the case analysis the invariants of open
connections use: a connection that is open after a move was just accepted, was not concerned by it, or was
touched in one of the five ways of `Touched`.
-/

namespace KvStore
open ByteString Transition Slots

def WorkItem.isFor (id g q : Nat) (item : WorkItem) : Bool :=
  item.connectionId = id ∧ item.connectionGeneration = g ∧ item.sequence = q

def Completion.isFor (id g q : Nat) (c : Completion) : Bool :=
  c.connectionId = id ∧ c.connectionGeneration = g ∧ c.sequence = q

def Hand.isFor (id g q : Nat) : Hand → Bool
  | .free => false
  | .item w => w.isFor id g q
  | .completion c => c.isFor id g q

/-- How many copies of the request are between `process_input` and `drain_completions`. -/
def Core.flight (k : Core) (id g q : Nat) : Nat :=
  k.work.countP (WorkItem.isFor id g q) + k.hands.countP (Hand.isFor id g q) +
    k.completions.countP (Completion.isFor id g q)

theorem WorkItem.not_isFor {item : WorkItem} {id g q : Nat} (h : item.connectionGeneration ≠ g) :
    ¬ item.isFor id g q = true := fun hfor => by
  simp only [isFor, decide_eq_true_eq] at hfor
  exact h hfor.2.1

theorem Completion.not_isFor {c : Completion} {id g q : Nat} (h : c.connectionGeneration ≠ g) :
    ¬ c.isFor id g q = true := fun hfor => by
  simp only [isFor, decide_eq_true_eq] at hfor
  exact h hfor.2.1

section
variable {cfg : EventLoopConfig} {k k' : Core} {evs log : List Event} {id g q : Nat} {c : Connection}

theorem Core.flight_eq_zero
    (h : Carried (·.connectionGeneration < g) (·.connectionGeneration < g) k) : k.flight id g q = 0 := by
  have h1 : k.work.countP (WorkItem.isFor id g q) = 0 :=
    List.countP_eq_zero.mpr fun item hi => WorkItem.not_isFor (Nat.ne_of_lt (h.work item hi))
  have h2 : k.hands.countP (Hand.isFor id g q) = 0 := by
    refine List.countP_eq_zero.mpr fun hand hh => ?_
    rcases hand with _ | item | completion
    · exact Bool.false_ne_true
    · exact WorkItem.not_isFor (Nat.ne_of_lt (h.hands _ hh))
    · exact Completion.not_isFor (Nat.ne_of_lt (h.hands _ hh))
  have h3 : k.completions.countP (Completion.isFor id g q) = 0 :=
    List.countP_eq_zero.mpr fun c hc => Completion.not_isFor (Nat.ne_of_lt (h.completions c hc))
  unfold flight; omega

theorem Core.flight_pop {i : Nat} {item : WorkItem} {rest : List WorkItem} (hk : k.work = item :: rest)
    (hi : k.hands[i]? = some .free) :
    ({ k with work := rest, hands := k.hands.set i (.item item) } : Core).flight id g q = k.flight id g q := by
  have hset := countP_set_add (Hand.isFor id g q) (.item item) hi
  unfold flight
  rw [hk, countP_cons_toNat]
  simp only [Hand.isFor, Bool.toNat_false] at hset ⊢
  omega

theorem Core.flight_dispatch {i : Nat} {item : WorkItem} (reply : Bytes) (hi : k.hands[i]? = some (.item item)) :
    ({ k with hands := k.hands.set i (.completion (item.completion reply)) } : Core).flight id g q =
      k.flight id g q := by
  have hset := countP_set_add (Hand.isFor id g q) (.completion (item.completion reply)) hi
  have hsame : (item.completion reply).isFor id g q = item.isFor id g q := rfl
  unfold flight
  simp only [Hand.isFor, hsame] at hset ⊢
  omega

theorem Core.flight_push {i : Nat} {completion : Completion} (hi : k.hands[i]? = some (.completion completion)) :
    ({ k with hands := k.hands.set i .free, completions := k.completions ++ [completion] } : Core).flight id g q =
      k.flight id g q := by
  have hset := countP_set_add (Hand.isFor id g q) .free hi
  unfold flight
  rw [countP_concat_toNat]
  simp only [Hand.isFor, Bool.toNat_false] at hset ⊢
  omega

theorem Core.flight_lose {i : Nat} {completion : Completion} (hi : k.hands[i]? = some (.completion completion)) :
    ({ k with hands := k.hands.set i .free } : Core).flight id g q ≤ k.flight id g q := by
  have hset := countP_set_add (Hand.isFor id g q) .free hi
  unfold flight
  simp only [Hand.isFor, Bool.toNat_false] at hset ⊢
  omega

theorem Core.flight_handOver {r : ConnectionRegistry} (c : Connection) (command : Command) :
    ({ k with registry := r, work := k.work ++ [c.workItem command] } : Core).flight c.id c.generation q =
      k.flight c.id c.generation q + if q = c.sequencer.nextRequestSequence then 1 else 0 := by
  have hfor : ((c.workItem command).isFor c.id c.generation q).toNat =
      if q = c.sequencer.nextRequestSequence then 1 else 0 := by
    simp only [WorkItem.isFor, Connection.workItem, true_and, eq_comm (a := q)]
    split_ifs with hq <;> simp [hq]
  unfold flight
  dsimp only
  rw [countP_concat_toNat, hfor]; omega

theorem Core.flight_complete {r : ConnectionRegistry} {completion : Completion} {rest : List Completion}
    (hk : k.completions = completion :: rest) (hid : completion.connectionId = id)
    (hg : completion.connectionGeneration = g) :
    k.flight id g q = ({ k with registry := r, completions := rest } : Core).flight id g q +
      if q = completion.sequence then 1 else 0 := by
  have hfor : (completion.isFor id g q).toNat = if q = completion.sequence then 1 else 0 := by
    simp only [Completion.isFor, hid, hg, true_and, eq_comm (a := q)]
    split_ifs with hq <;> simp [hq]
  unfold flight
  dsimp only
  rw [hk, countP_cons_toNat, hfor]; omega

/-- The loop takes the completion of another request. -/
theorem Core.flight_taken {r : ConnectionRegistry} {completion : Completion} {rest : List Completion}
    (hk : k.completions = completion :: rest) (hnot : ¬ completion.isFor id g q = true) :
    ({ k with registry := r, completions := rest } : Core).flight id g q = k.flight id g q := by
  unfold flight
  rw [hk, List.countP_cons_of_neg hnot]

/-! ### The origin of open connections -/

/-- No event about the bytes or frames of generation `g`. -/
structure Silent (g : Nat) (evs : List Event) : Prop where
  sent : sentOf g evs = []
  received : receivedOf g evs = []
  frames : framesOf g evs = []

theorem Silent.of_ne (h : ∀ e ∈ evs, e.generation ≠ g) : Silent g evs :=
  have hist := history_eq_nil h
  ⟨hist.1, hist.2.1, hist.2.2.1⟩

theorem Silent.nil : Silent g [] := ⟨rfl, rfl, rfl⟩

theorem Silent.cons {e : Event} (he : g ≠ e.generation) (h : ∀ e ∈ evs, e.generation ≠ g) :
    Silent g (e :: evs) :=
  .of_ne fun e' he' => by
    rcases List.mem_cons.mp he' with rfl | he'
    · exact he.symm
    · exact h e' he'

theorem Silent.single {e : Event} (he : g ≠ e.generation) : Silent g [e] := .cons he fun _ he' => by cases he'

theorem Silent.dispatched {g' q : Nat} {command : Command} {reply : Bytes} :
    Silent g [.dispatched g' q command reply] := ⟨rfl, rfl, rfl⟩

theorem CloseEvents.other {g₀ : Nat} {output : Bytes} (h : CloseEvents g₀ output evs) (hne : g ≠ g₀) :
    ∀ e ∈ evs, e.generation ≠ g := fun e he => by
  rw [h.generation e he]; exact hne.symm

/-- The requests of `(id, g)` in flight stay what they are, except that a closed completion queue may
swallow some. -/
structure FlightKept (k k' : Core) (id g : Nat) : Prop where
  le : ∀ q, k'.flight id g q ≤ k.flight id g q
  eq : k'.lossy = false → k.lossy = false ∧ ∀ q, k'.flight id g q = k.flight id g q

theorem FlightKept.of_eq (hlossy : k'.lossy = k.lossy) (h : ∀ q, k'.flight id g q = k.flight id g q) :
    FlightKept k k' id g :=
  ⟨fun q => (h q).le, fun hl => ⟨hlossy ▸ hl, h⟩⟩

/-- The ways in which a move changes a connection that stays open. -/
inductive Touched (cfg : EventLoopConfig) (k k' : Core) (c : Connection) : List Event → Connection → Prop
  | send {n : Nat} : n ≤ c.output.data.length → k' = { k with registry := k'.registry } →
    Touched cfg k k' c [.sent c.generation (c.output.data.take n)] { c with output := c.output.consume n }
  | receive {chunk : Bytes} {input : BoundedBuffer} : c.input.append chunk = some input →
    k' = { k with registry := k'.registry } →
    Touched cfg k k' c [.received c.generation chunk] { c with input }
  | handOver {n : Nat} {command : Command} :
    c.sequencer.inFlightCount < cfg.maxInFlightPerConnection →
    parseCommand c.input.data = .parsedCommand command n →
    k' = { k with registry := k'.registry, work := k.work ++ [c.workItem command] } →
    Touched cfg k k' c [c.takenEvent (.parsedCommand command n) n none] (c.takeFrame n)
  | answer {n : Nat} {verdict : ParseResult} {reply : Bytes} {c' : Connection} :
    c.sequencer.inFlightCount < cfg.maxInFlightPerConnection → OwnAnswer c verdict n reply true →
    (c.takeFrame n).respond c.sequencer.nextRequestSequence reply = (c', true) →
    k' = { k with registry := k'.registry } →
    Touched cfg k k' c [c.takenEvent verdict n (some reply)] c'
  | complete {completion : Completion} {c' : Connection} :
    k.completions = completion :: k'.completions → completion.connectionId = c.id →
    completion.connectionGeneration = c.generation →
    c.respond completion.sequence completion.response = (c', true) →
    k' = { k with registry := k'.registry, completions := k'.completions } → Touched cfg k k' c [] c'

theorem RegistryInv.of_put (hinv : RegistryInv log k) {id₀ g₀ : Nat} {c₀ c' : Connection}
    (hf : k.registry.find id₀ g₀ = some c₀) (hc : (k.registry.put id₀ c').findCurrent id = some c) :
    (id = id₀ ∧ c = c') ∨ (k.registry.findCurrent id = some c ∧ c.generation ≠ g₀) := by
  rcases ConnectionRegistry.of_findCurrent_put hc with hself | ⟨hid, hc⟩
  · exact .inl hself
  · refine .inr ⟨hc, fun hg => ?_⟩
    obtain ⟨hc₀, rfl⟩ := ConnectionRegistry.find_eq_some_iff.mp hf
    exact hid (hinv.distinct _ _ _ _ hc hc₀ hg)

theorem RegistryInv.of_close (hinv : RegistryInv log k) {id₀ g₀ : Nat} {c₀ c' : Connection}
    (hf : k.registry.find id₀ g₀ = some c₀) (hg : c'.generation = g₀)
    (hc : ((k.registry.put id₀ c').close id₀ g₀).findCurrent id = some c) :
    k.registry.findCurrent id = some c ∧ c.generation ≠ g₀ := by
  obtain ⟨hid, hc⟩ := ConnectionRegistry.of_findCurrent_close (ConnectionRegistry.find_put_self hg) hc
  rcases hinv.of_put hf hc with ⟨rfl, -⟩ | hother
  · exact absurd rfl hid
  · exact hother

theorem Move.origin (hinv : RegistryInv log k) (h : Move cfg k evs k')
    (hc : k'.registry.findCurrent id = some c) :
    (c = k.registry.fresh id cfg.maxInputBytes cfg.maxOutputBytes ∧ evs = [.accepted id c.generation] ∧
      k' = { k with registry := k'.registry }) ∨
    (k.registry.findCurrent id = some c ∧ Silent c.generation evs ∧ FlightKept k k' c.id c.generation) ∨
    (∃ c₀, k.registry.findCurrent id = some c₀ ∧ Touched cfg k k' c₀ evs c) := by
  cases h with
  | accept hnone =>
    rcases ConnectionRegistry.of_findCurrent_add hc with ⟨rfl, rfl⟩ | ⟨-, hc⟩
    · exact .inl ⟨rfl, rfl, rfl⟩
    · exact .inr (.inl ⟨hc, .single (Nat.ne_of_lt (hinv.generation_lt _ _ hc)), .of_eq rfl fun q => rfl⟩)
  | close hf hevs =>
    obtain ⟨hc₀, hg⟩ := ConnectionRegistry.find_eq_some_iff.mp hf
    rw [← ConnectionRegistry.put_self hc₀] at hc
    obtain ⟨hc, hne⟩ := hinv.of_close hf hg hc
    exact .inr (.inl ⟨hc, .of_ne (hevs.other hne), .of_eq rfl fun q => rfl⟩)
  | send hf hn =>
    rcases hinv.of_put hf hc with ⟨rfl, rfl⟩ | ⟨hc, hne⟩
    · obtain ⟨hc₀, rfl⟩ := ConnectionRegistry.find_eq_some_iff.mp hf
      exact .inr (.inr ⟨_, hc₀, .send hn rfl⟩)
    · exact .inr (.inl ⟨hc, .single hne, .of_eq rfl fun q => rfl⟩)
  | receive hf happ =>
    rcases hinv.of_put hf hc with ⟨rfl, rfl⟩ | ⟨hc, hne⟩
    · obtain ⟨hc₀, rfl⟩ := ConnectionRegistry.find_eq_some_iff.mp hf
      exact .inr (.inr ⟨_, hc₀, .receive happ rfl⟩)
    · exact .inr (.inl ⟨hc, .single hne, .of_eq rfl fun q => rfl⟩)
  | handOver hf hcap hparse =>
    obtain ⟨hc₀, rfl⟩ := ConnectionRegistry.find_eq_some_iff.mp hf
    rcases hinv.of_put hf hc with ⟨rfl, rfl⟩ | ⟨hc, hne⟩
    · exact .inr (.inr ⟨_, hc₀, .handOver hcap hparse rfl⟩)
    · refine .inr (.inl ⟨hc, .single hne, .of_eq rfl fun q => ?_⟩)
      unfold Core.flight
      rw [countP_concat_toNat, Bool.eq_false_iff.mpr (WorkItem.not_isFor hne.symm)]; rfl
  | answer hf hcap hown hresp =>
    obtain ⟨hc₀, rfl⟩ := ConnectionRegistry.find_eq_some_iff.mp hf
    rcases hinv.of_put hf hc with ⟨rfl, rfl⟩ | ⟨hc, hne⟩
    · exact .inr (.inr ⟨_, hc₀, .answer hcap hown hresp rfl⟩)
    · exact .inr (.inl ⟨hc, .single hne, .of_eq rfl fun q => rfl⟩)
  | answerClose hf hcap hown hresp hevs =>
    obtain ⟨-, rfl⟩ := ConnectionRegistry.find_eq_some_iff.mp hf
    obtain ⟨hc, hne⟩ := hinv.of_close hf (respond_id_generation hresp).2 hc
    exact .inr (.inl ⟨hc, .cons hne (hevs.other hne), .of_eq rfl fun q => rfl⟩)
  | complete hk hf hresp =>
    obtain ⟨hc₀, hg⟩ := ConnectionRegistry.find_eq_some_iff.mp hf
    rcases hinv.of_put hf hc with ⟨rfl, rfl⟩ | ⟨hc, hne⟩
    · exact .inr (.inr ⟨_, hc₀, .complete hk (hinv.keyed _ _ hc₀).symm hg.symm hresp rfl⟩)
    · exact .inr (.inl ⟨hc, .nil, .of_eq rfl fun q => Core.flight_taken hk (Completion.not_isFor hne.symm)⟩)
  | completeClose hk hf hresp hevs =>
    obtain ⟨-, hg⟩ := ConnectionRegistry.find_eq_some_iff.mp hf
    obtain ⟨hc, hne⟩ := hinv.of_close hf ((respond_id_generation hresp).2.trans hg) hc
    exact .inr (.inl ⟨hc, .of_ne (hevs.other hne),
      .of_eq rfl fun q => Core.flight_taken hk (Completion.not_isFor hne.symm)⟩)
  | stale hk hnone =>
    refine .inr (.inl ⟨hc, .nil, .of_eq rfl fun q => Core.flight_taken hk fun hfor => ?_⟩)
    -- an open connection would have been found
    simp only [Completion.isFor, decide_eq_true_eq] at hfor
    have hfound : k.registry.find id c.generation = some c :=
      ConnectionRegistry.find_eq_some_iff.mpr ⟨hc, rfl⟩
    rw [hfor.1, hfor.2.1, hinv.keyed _ _ hc, hfound] at hnone
    cases hnone
  | pop hk hi => exact .inr (.inl ⟨hc, .nil, .of_eq rfl fun q => Core.flight_pop hk hi⟩)
  | dispatch hi _ => exact .inr (.inl ⟨hc, .dispatched, .of_eq rfl fun q => Core.flight_dispatch _ hi⟩)
  | push hi _ => exact .inr (.inl ⟨hc, .nil, .of_eq rfl fun q => Core.flight_push hi⟩)
  | lose hi hlossy =>
    refine .inr (.inl ⟨hc, .nil, fun q => Core.flight_lose hi, fun hl => ?_⟩)
    rw [show k.lossy = false from hl] at hlossy; cases hlossy
  | closeCompletions => exact .inr (.inl ⟨hc, .nil, fun q => le_rfl, fun hl => by cases hl⟩)

end
end KvStore
