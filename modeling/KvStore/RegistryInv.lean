import KvStore.Moves

/-!
# Generations are never confused

`RegistryInv` is the bookkeeping every later invariant rests on: connections are filed under their own fd,
no two open connections share a generation, everything the server has ever named has an older generation
than the next one, and a closed generation stays closed. `Carried p r` says that every request waiting for a
worker satisfies `p` and every response on its way back satisfies `r`; `Carried.move` is its preservation.
-/

namespace KvStore
open ByteString Transition Slots

/-- What a worker holds satisfies `p` before and `r` after its dispatch. -/
def Hand.Carries (p : WorkItem → Prop) (r : Completion → Prop) : Hand → Prop
  | .free => True
  | .item w => p w
  | .completion c => r c

structure Carried (p : WorkItem → Prop) (r : Completion → Prop) (k : Core) : Prop where
  work : ∀ item ∈ k.work, p item
  hands : ∀ hand ∈ k.hands, hand.Carries p r
  completions : ∀ completion ∈ k.completions, r completion

theorem Hand.Carries.mono {p p' : WorkItem → Prop} {r r' : Completion → Prop} {hand : Hand}
    (hp : ∀ item, p item → p' item) (hr : ∀ completion, r completion → r' completion)
    (h : hand.Carries p r) : hand.Carries p' r' := by
  rcases hand with _ | item | completion
  · trivial
  · exact hp item h
  · exact hr completion h

section
variable {cfg : EventLoopConfig} {k k' : Core} {evs log : List Event}

theorem Carried.mono {p p' : WorkItem → Prop} {r r' : Completion → Prop} (hp : ∀ item, p item → p' item)
    (hr : ∀ completion, r completion → r' completion) (h : Carried p r k) : Carried p' r' k :=
  ⟨fun item hi => hp item (h.work item hi), fun hand hh => (h.hands hand hh).mono hp hr,
    fun c hc => hr c (h.completions c hc)⟩

theorem Carried.move {p p' : WorkItem → Prop} {r r' : Completion → Prop} (h : Carried p r k)
    (hmove : Move cfg k evs k') (hp : ∀ item, p item → p' item)
    (hr : ∀ completion, r completion → r' completion)
    (hnew : ∀ id g n c command, k.registry.find id g = some c →
      evs = [c.takenEvent (.parsedCommand command n) n none] → p' (c.workItem command))
    (hdone : ∀ item reply, p item →
      evs = [.dispatched item.connectionGeneration item.sequence item.command reply] →
      r' (item.completion reply)) : Carried p' r' k' := by
  have h' := h.mono hp hr
  have hheld : ∀ {i : Nat} {hand : Hand}, k.hands[i]? = some hand → hand.Carries p r :=
    fun hi => h.hands _ (List.mem_of_getElem? hi)
  cases hmove with
  | accept _ => exact ⟨h'.work, h'.hands, h'.completions⟩
  | close _ _ => exact ⟨h'.work, h'.hands, h'.completions⟩
  | send _ _ => exact ⟨h'.work, h'.hands, h'.completions⟩
  | receive _ _ => exact ⟨h'.work, h'.hands, h'.completions⟩
  | answer _ _ _ _ => exact ⟨h'.work, h'.hands, h'.completions⟩
  | answerClose _ _ _ _ _ => exact ⟨h'.work, h'.hands, h'.completions⟩
  | handOver hf _ hparse =>
    refine ⟨fun item hi => ?_, h'.hands, h'.completions⟩
    rcases List.mem_append.mp hi with hi | hi
    · exact h'.work item hi
    · rw [List.mem_singleton.mp hi]
      exact hnew _ _ _ _ _ hf rfl
  | complete hk _ _ => exact ⟨h'.work, h'.hands, fun c hc => h'.completions c (hk ▸ List.mem_cons_of_mem _ hc)⟩
  | completeClose hk _ _ _ =>
    exact ⟨h'.work, h'.hands, fun c hc => h'.completions c (hk ▸ List.mem_cons_of_mem _ hc)⟩
  | stale hk _ => exact ⟨h'.work, h'.hands, fun c hc => h'.completions c (hk ▸ List.mem_cons_of_mem _ hc)⟩
  | pop hk hi =>
    refine ⟨fun item hm => h'.work item (hk ▸ List.mem_cons_of_mem _ hm), ?_, h'.completions⟩
    exact forall_mem_set h'.hands (h'.work _ (hk ▸ List.mem_cons_self))
  | dispatch hi _ => exact ⟨h'.work, forall_mem_set h'.hands (hdone _ _ (hheld hi) rfl), h'.completions⟩
  | push hi _ =>
    refine ⟨h'.work, forall_mem_set h'.hands trivial, fun c hc => ?_⟩
    rcases List.mem_append.mp hc with hc | hc
    · exact h'.completions c hc
    · rw [List.mem_singleton.mp hc]
      exact hr _ (hheld hi)
  | lose hi _ => exact ⟨h'.work, forall_mem_set h'.hands trivial, h'.completions⟩
  | closeCompletions => exact ⟨h'.work, h'.hands, h'.completions⟩

structure RegistryInv (log : List Event) (k : Core) : Prop where
  keyed : ∀ id c, k.registry.findCurrent id = some c → c.id = id
  generation_lt : ∀ id c, k.registry.findCurrent id = some c → c.generation < k.registry.nextGeneration
  distinct : ∀ id id' c c', k.registry.findCurrent id = some c → k.registry.findCurrent id' = some c' →
    c.generation = c'.generation → id = id'
  event_lt : ∀ e ∈ log, e.generation < k.registry.nextGeneration
  carried_lt : Carried (·.connectionGeneration < k.registry.nextGeneration)
    (·.connectionGeneration < k.registry.nextGeneration) k
  gone : ∀ g b, .closed g b ∈ log → ∀ id c, k.registry.findCurrent id = some c → c.generation ≠ g

/-- How a move changes the registry: not at all, by one new connection, by a new state of one connection,
or by closing one. -/
inductive RegistryChange (r : ConnectionRegistry) : ConnectionRegistry → Prop
  | same : RegistryChange r r
  | add {fd m n : Nat} : r.findCurrent fd = none → RegistryChange r (r.add fd m n)
  | put {id : Nat} {c c' : Connection} : r.findCurrent id = some c → c'.id = c.id →
    c'.generation = c.generation → RegistryChange r (r.put id c')
  | close {id g : Nat} {c c' : Connection} : r.findCurrent id = some c → c.generation = g →
    c'.generation = g → RegistryChange r ((r.put id c').close id g)

theorem Move.registryChange (h : Move cfg k evs k') : RegistryChange k.registry k'.registry := by
  have hcur : ∀ {id g : Nat} {c : Connection}, k.registry.find id g = some c →
      k.registry.findCurrent id = some c ∧ c.generation = g := ConnectionRegistry.find_eq_some_iff.mp
  cases h with
  | accept hnone => exact .add hnone
  | close hf _ =>
    obtain ⟨hc, hg⟩ := hcur hf
    have := RegistryChange.close hc hg hg
    rwa [ConnectionRegistry.put_self hc] at this
  | send hf _ => exact .put (hcur hf).1 rfl rfl
  | receive hf _ => exact .put (hcur hf).1 rfl rfl
  | handOver hf _ _ => exact .put (hcur hf).1 rfl rfl
  | answer hf _ _ hresp =>
    obtain ⟨hid, hg⟩ := respond_id_generation hresp
    exact .put (hcur hf).1 hid hg
  | answerClose hf _ _ hresp _ =>
    exact .close (hcur hf).1 (hcur hf).2 ((respond_id_generation hresp).2.trans (hcur hf).2)
  | complete _ hf hresp =>
    obtain ⟨hid, hg⟩ := respond_id_generation hresp
    exact .put (hcur hf).1 hid hg
  | completeClose _ hf hresp _ =>
    exact .close (hcur hf).1 (hcur hf).2 ((respond_id_generation hresp).2.trans (hcur hf).2)
  | _ => exact .same

theorem RegistryChange.before {r r' : ConnectionRegistry} (h : RegistryChange r r') {id : Nat} {c : Connection}
    (hc : r'.findCurrent id = some c) :
    (∃ c₀, r.findCurrent id = some c₀ ∧ c.id = c₀.id ∧ c.generation = c₀.generation) ∨
      (∃ m n, r' = r.add id m n ∧ c = r.fresh id m n) := by
  cases h with
  | same => exact .inl ⟨c, hc, rfl, rfl⟩
  | add hnone =>
    rcases ConnectionRegistry.of_findCurrent_add hc with ⟨rfl, rfl⟩ | ⟨-, hc⟩
    · exact .inr ⟨_, _, rfl, rfl⟩
    · exact .inl ⟨c, hc, rfl, rfl⟩
  | put hc₀ hid hg =>
    rcases ConnectionRegistry.of_findCurrent_put hc with ⟨rfl, rfl⟩ | ⟨-, hc⟩
    · exact .inl ⟨_, hc₀, hid, hg⟩
    · exact .inl ⟨c, hc, rfl, rfl⟩
  | close hc₀ hg hg' =>
    have hf := ConnectionRegistry.find_eq_some_iff.mpr ⟨hc₀, hg⟩
    obtain ⟨-, hc⟩ := ConnectionRegistry.of_findCurrent_put_close hf (hg'.trans hg.symm) hc
    exact .inl ⟨c, hc, rfl, rfl⟩

theorem RegistryChange.nextGeneration_le {r r' : ConnectionRegistry} (h : RegistryChange r r') :
    r.nextGeneration ≤ r'.nextGeneration := by
  cases h with
  | same => exact le_rfl
  | add _ => exact Nat.le_succ _
  | put _ _ _ => exact le_rfl
  | close _ _ _ => rw [ConnectionRegistry.nextGeneration_close]; exact le_rfl

theorem CloseEvents.generation {g : Nat} {output : Bytes} {evs : List Event} (h : CloseEvents g output evs) :
    ∀ e ∈ evs, e.generation = g := by
  cases h with
  | quiet => simp [Event.generation]
  | flushed _ => simp [Event.generation]

theorem Move.event_lt (hinv : RegistryInv log k) (h : Move cfg k evs k') :
    ∀ e ∈ evs, e.generation < k'.registry.nextGeneration := by
  have hopen : ∀ {id g : Nat} {c : Connection}, k.registry.find id g = some c →
      g < k.registry.nextGeneration := fun hf => by
    obtain ⟨hc, rfl⟩ := ConnectionRegistry.find_eq_some_iff.mp hf
    exact hinv.generation_lt _ _ hc
  have hle := h.registryChange.nextGeneration_le
  intro e he
  cases h with
  | accept _ =>
    rw [List.mem_singleton.mp he]; exact Nat.lt_succ_self _
  | close hf hevs => rw [hevs.generation e he]; exact Nat.lt_of_lt_of_le (hopen hf) hle
  | send hf _ => rw [List.mem_singleton.mp he]; exact hopen hf
  | receive hf _ => rw [List.mem_singleton.mp he]; exact hopen hf
  | handOver hf _ _ =>
    rw [List.mem_singleton.mp he]
    exact hinv.generation_lt _ _ (ConnectionRegistry.find_eq_some_iff.mp hf).1
  | answer hf _ _ _ =>
    rw [List.mem_singleton.mp he]
    exact hinv.generation_lt _ _ (ConnectionRegistry.find_eq_some_iff.mp hf).1
  | answerClose hf _ _ _ hevs =>
    refine Nat.lt_of_lt_of_le ?_ hle
    rcases List.mem_cons.mp he with rfl | he
    · exact hinv.generation_lt _ _ (ConnectionRegistry.find_eq_some_iff.mp hf).1
    · rw [hevs.generation e he]; exact hopen hf
  | completeClose _ hf _ hevs => rw [hevs.generation e he]; exact Nat.lt_of_lt_of_le (hopen hf) hle
  | dispatch hi _ =>
    rw [List.mem_singleton.mp he]
    exact hinv.carried_lt.hands _ (List.mem_of_getElem? hi)
  | complete _ _ _ => cases he
  | stale _ _ => cases he
  | pop _ _ => cases he
  | push _ _ => cases he
  | lose _ _ => cases he
  | closeCompletions => cases he

theorem Move.closed_gone (hinv : RegistryInv log k) (h : Move cfg k evs k') {g : Nat} {b : Bytes}
    (he : .closed g b ∈ evs) {id : Nat} {c : Connection} (hc : k'.registry.findCurrent id = some c) :
    c.generation ≠ g := by
  have hclose : ∀ {id₀ g₀ : Nat} {c₀ c' : Connection} {output : Bytes} {evs₀ : List Event},
      k.registry.find id₀ g₀ = some c₀ → c'.generation = g₀ → CloseEvents g₀ output evs₀ →
      .closed g b ∈ evs₀ → ((k.registry.put id₀ c').close id₀ g₀).findCurrent id = some c →
      c.generation ≠ g := by
    intro id₀ g₀ c₀ c' output evs₀ hf hg' hevs he hc hcg
    obtain ⟨hc₀, hg₀⟩ := ConnectionRegistry.find_eq_some_iff.mp hf
    have hgg : g = g₀ := hevs.generation _ he
    obtain ⟨hid, hc⟩ := ConnectionRegistry.of_findCurrent_put_close hf (hg'.trans hg₀.symm) hc
    exact hid (hinv.distinct _ _ _ _ hc hc₀ (by rw [hcg, hgg, hg₀]))
  cases h with
  | close hf hevs =>
    obtain ⟨hc₀, hg⟩ := ConnectionRegistry.find_eq_some_iff.mp hf
    refine hclose hf hg hevs he ?_
    rwa [ConnectionRegistry.put_self hc₀]
  | answerClose hf _ _ hresp hevs =>
    rcases List.mem_cons.mp he with he | he
    · cases he
    · obtain ⟨-, hg⟩ := ConnectionRegistry.find_eq_some_iff.mp hf
      exact hclose hf ((respond_id_generation hresp).2.trans hg) hevs he hc
  | completeClose _ hf hresp hevs =>
    obtain ⟨-, hg⟩ := ConnectionRegistry.find_eq_some_iff.mp hf
    exact hclose hf ((respond_id_generation hresp).2.trans hg) hevs he hc
  | accept _ => simp at he
  | send _ _ => simp at he
  | receive _ _ => simp at he
  | handOver _ _ _ => simp [Connection.takenEvent] at he
  | answer _ _ _ _ => simp [Connection.takenEvent] at he
  | dispatch _ _ => simp at he
  | complete _ _ _ => cases he
  | stale _ _ => cases he
  | pop _ _ => cases he
  | push _ _ => cases he
  | lose _ _ => cases he
  | closeCompletions => cases he

theorem RegistryInv.move (hinv : RegistryInv log k) (h : Move cfg k evs k') :
    RegistryInv (log ++ evs) k' := by
  have hchange := h.registryChange
  have hle := hchange.nextGeneration_le
  refine ⟨fun id c hc => ?_, fun id c hc => ?_, fun id id' c c' hc hc' hg => ?_, fun e he => ?_, ?_,
    fun g b he id c hc => ?_⟩
  · rcases hchange.before hc with ⟨c₀, hc₀, hid, -⟩ | ⟨m, n, -, rfl⟩
    · rw [hid]; exact hinv.keyed id c₀ hc₀
    · rfl
  · rcases hchange.before hc with ⟨c₀, hc₀, -, hg⟩ | ⟨m, n, hadd, rfl⟩
    · rw [hg]; exact Nat.lt_of_lt_of_le (hinv.generation_lt id c₀ hc₀) hle
    · rw [hadd]; exact Nat.lt_succ_self _
  · -- an old connection cannot have the generation of the new one
    rcases hchange.before hc with ⟨c₀, hc₀, -, hg₀⟩ | ⟨m, n, hadd, rfl⟩
    · rcases hchange.before hc' with ⟨c₁, hc₁, -, hg₁⟩ | ⟨m, n, -, rfl⟩
      · exact hinv.distinct id id' c₀ c₁ hc₀ hc₁ (by rw [← hg₀, hg, hg₁])
      · exact absurd (hg₀.symm.trans hg) (Nat.ne_of_lt (hinv.generation_lt id c₀ hc₀))
    · rw [hadd] at hc'
      rcases ConnectionRegistry.of_findCurrent_add hc' with ⟨hid, -⟩ | ⟨-, hc'⟩
      · exact hid.symm
      · exact absurd hg.symm (Nat.ne_of_lt (hinv.generation_lt id' c' hc'))
  · rcases List.mem_append.mp he with he | he
    · exact Nat.lt_of_lt_of_le (hinv.event_lt e he) hle
    · exact h.event_lt hinv e he
  · refine hinv.carried_lt.move h (fun item hi => Nat.lt_of_lt_of_le hi hle)
      (fun c hc => Nat.lt_of_lt_of_le hc hle) (fun id g n c command hf _ => ?_) fun item reply hi _ => ?_
    · exact Nat.lt_of_lt_of_le
        (hinv.generation_lt _ _ (ConnectionRegistry.find_eq_some_iff.mp hf).1) hle
    · exact Nat.lt_of_lt_of_le hi hle
  · rcases List.mem_append.mp he with he' | he'
    · rcases hchange.before hc with ⟨c₀, hc₀, -, hg⟩ | ⟨m, n, hadd, rfl⟩
      · rw [hg]; exact hinv.gone g b he' id c₀ hc₀
      · exact (Nat.ne_of_lt (hinv.event_lt _ he')).symm
    · exact h.closed_gone hinv he' hc

theorem RegistryInv.start (cfg : ServerConfig) : RegistryInv [] (Core.start cfg) := by
  have hnone : ∀ id, (Core.start cfg).registry.findCurrent id = none := fun _ => rfl
  refine ⟨fun id c hc => ?_, fun id c hc => ?_, fun id id' c c' hc => ?_, fun e he => ?_, ?_,
    fun g b he => ?_⟩
  · cases (hnone id).symm.trans hc
  · cases (hnone id).symm.trans hc
  · cases (hnone id).symm.trans hc
  · cases he
  · refine ⟨fun _ h => ?_, fun hand h => ?_, fun _ h => ?_⟩
    · cases h
    · rw [List.eq_of_mem_replicate h]; trivial
    · cases h
  · cases he

end
end KvStore
