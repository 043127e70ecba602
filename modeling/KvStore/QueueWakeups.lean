import KvStore.QueueMonitor

/-!
# No lost wake-up

Why the notifications of `worker/bounded_queue.hpp` are enough, although each wakes one sleeper at most and
comes after the mutex was released, when another thread may have been quicker. While a `pop` sleeps, every item
in the queue has a thread on its way to it: one that has still to notify, or one that has still to test its
predicate (`SleepInv.empty`); while a `push` sleeps and the queue is open, so has every free place
(`SleepInv.full`). A section that adds an item adds a notifier; a section that takes one removes the thread that
tested for it; a notification turns a notifier into a tester. A queue that is closed, and a thread whose stop
was requested, have their `notify_all` still to come for as long as anybody concerned sleeps.

The threads cannot go on for ever in the calls they have begun (`OwnStep.descends`), and when they have come to
rest nobody sleeps whose predicate holds: `no_lost_wakeup`.
-/

namespace KvStore
open Transition

section
variable {α κ : Type} {s s' : Monitor α κ} {own : Bool} {evs log : List (QueueEvent α κ)}

/-- One thread has gone from the place `a` to the place `b`. -/
def Shift (count count' : QueuePlace → Nat) (a b : QueuePlace) : Prop :=
  ∀ c, count' c + (if a = c then 1 else 0) = count c + (if b = c then 1 else 0)

theorem Shift.le {count count' : QueuePlace → Nat} {a b c : QueuePlace} (h : Shift count count' a b) (hne : a ≠ c) :
    count c ≤ count' c := by
  have := h c
  rw [if_neg hne] at this
  omega

theorem Shift.ge {count count' : QueuePlace → Nat} {a b c : QueuePlace} (h : Shift count count' a b) (hne : b ≠ c) :
    count' c ≤ count c := by
  have := h c
  rw [if_neg hne] at this
  omega

theorem Shift.counts {count count' : QueuePlace → Nat} {a b : QueuePlace} (h : Shift count count' a b) :
    (count' .popAsleep + (if a = .popAsleep then 1 else 0) = count .popAsleep + (if b = .popAsleep then 1 else 0) ∧
      count' .popping + (if a = .popping then 1 else 0) = count .popping + (if b = .popping then 1 else 0) ∧
      count' .notifyEmpty + (if a = .notifyEmpty then 1 else 0) =
        count .notifyEmpty + (if b = .notifyEmpty then 1 else 0)) ∧
    (count' .pushAsleep + (if a = .pushAsleep then 1 else 0) =
        count .pushAsleep + (if b = .pushAsleep then 1 else 0) ∧
      count' .pushing + (if a = .pushing then 1 else 0) = count .pushing + (if b = .pushing then 1 else 0) ∧
      count' .notifyFull + (if a = .notifyFull then 1 else 0) =
        count .notifyFull + (if b = .notifyFull then 1 else 0)) ∧
    count' .closingEmpty + (if a = .closingEmpty then 1 else 0) =
      count .closingEmpty + (if b = .closingEmpty then 1 else 0) ∧
    count' .closingFull + (if a = .closingFull then 1 else 0) =
      count .closingFull + (if b = .closingFull then 1 else 0) :=
  ⟨⟨h _, h _, h _⟩, ⟨h _, h _, h _⟩, h _, h _⟩

namespace Monitor
variable {t u : Nat} {phase next sleeper : MonitorPhase α κ} {asleep : QueuePlace}

theorem shift (h : s.threads[t]? = some phase) (next : MonitorPhase α κ) :
    Shift s.count (s.set t next).count phase.place next.place := by
  intro c
  have htoNat : ∀ p : MonitorPhase α κ, (decide (p.place = c)).toNat = if p.place = c then 1 else 0 := by
    intro p
    split_ifs with hp <;> simp [hp]
  have hset := Slots.countP_set_add (fun phase => decide (phase.place = c)) next h
  rwa [htoNat, htoNat] at hset

theorem count_pos (h : s.threads[t]? = some phase) : 0 < s.count phase.place :=
  List.countP_pos_iff.mpr ⟨phase, List.mem_of_getElem? h, decide_eq_true rfl⟩

theorem exists_of_count_pos (h : 0 < s.count asleep) :
    ∃ (t : Nat) (phase : MonitorPhase α κ), s.threads[t]? = some phase ∧ phase.place = asleep := by
  obtain ⟨phase, hmem, hplace⟩ := List.countP_pos_iff.mp h
  obtain ⟨t, ht⟩ := List.getElem?_of_mem hmem
  exact ⟨t, phase, ht, of_decide_eq_true hplace⟩

/-- Where a sleeper of `asleep` goes when it is woken. -/
def awake : QueuePlace → QueuePlace
  | .popAsleep => .popping
  | .pushAsleep => .pushing
  | place => place

theorem place_awakened (phase : MonitorPhase α κ) : phase.awakened.place = awake phase.place := by
  cases phase <;> rfl

theorem count_wakeAll (s : Monitor α κ) (asleep : QueuePlace) (hasleep : awake asleep ≠ asleep) :
    (s.wakeAll asleep).count asleep = 0 ∧
      ∀ place, place ≠ asleep → place ≠ awake asleep → (s.wakeAll asleep).count place = s.count place := by
  have hplace : ∀ phase : MonitorPhase α κ, (if phase.place = asleep then phase.awakened else phase).place =
      if phase.place = asleep then awake asleep else phase.place := by
    intro phase
    split_ifs with h
    · rw [place_awakened, h]
    · rfl
  unfold count wakeAll
  simp only [List.countP_map, Function.comp_def, hplace]
  constructor
  · refine List.countP_eq_zero.mpr fun phase _ => ?_
    split_ifs with h <;> simpa using by assumption
  · intro place hne hne'
    refine List.countP_congr fun phase _ => ?_
    split_ifs with h
    · rw [h]; exact iff_of_false (by simpa using hne'.symm) (by simpa using hne.symm)
    · exact Iff.rfl

end Monitor

/-- What the notifications that are still to come are for. While a `pop` sleeps, every item in the queue has a
thread on its way that will take it or notify; while a `push` sleeps, so has every free place. -/
structure SleepInv (queue : BoundedQueue α) (count : QueuePlace → Nat) : Prop where
  empty : 0 < count .popAsleep → queue.items.length ≤ count .notifyEmpty + count .popping
  emptyClosed : 0 < count .popAsleep → queue.closed = true → 0 < count .closingEmpty
  full : 0 < count .pushAsleep → queue.closed = false →
    queue.capacity ≤ queue.items.length + count .notifyFull + count .pushing
  fullClosed : 0 < count .pushAsleep → queue.closed = true → 0 < count .closingEmpty + count .closingFull

namespace SleepInv
variable {queue : BoundedQueue α} {count count₁ count' : QueuePlace → Nat} {a b : QueuePlace} {item : α}

/-- Fewer sleepers, and nobody less on the way. -/
theorem mono (h : SleepInv queue count) (hpop : count' .popAsleep ≤ count .popAsleep)
    (hpush : count' .pushAsleep ≤ count .pushAsleep)
    (hway : ∀ c ∈ [QueuePlace.popping, .notifyEmpty, .pushing, .notifyFull, .closingEmpty, .closingFull],
      count c ≤ count' c) : SleepInv queue count' := by
  have hpopping := hway .popping (by decide)
  have hnotifyEmpty := hway .notifyEmpty (by decide)
  have hpushing := hway .pushing (by decide)
  have hnotifyFull := hway .notifyFull (by decide)
  have hclosingEmpty := hway .closingEmpty (by decide)
  have hclosingFull := hway .closingFull (by decide)
  refine ⟨fun hpos => ?_, fun hpos hclosed => ?_, fun hpos hopen => ?_, fun hpos hclosed => ?_⟩
  · have := h.empty (by omega); omega
  · have := h.emptyClosed (by omega) hclosed; omega
  · have := h.full (by omega) hopen; omega
  · have := h.fullClosed (by omega) hclosed; omega

theorem shift (a b : QueuePlace) (h : SleepInv queue count) (hshift : Shift count count' a b)
    (ha : a ∉ [QueuePlace.popping, .notifyEmpty, .pushing, .notifyFull, .closingEmpty, .closingFull])
    (hpop : b ≠ .popAsleep) (hpush : b ≠ .pushAsleep) : SleepInv queue count' :=
  h.mono (hshift.ge hpop) (hshift.ge hpush) fun _ hc => hshift.le fun heq => ha (heq ▸ hc)

/-- One more item, and one more thread that will notify. -/
theorem accept (h : SleepInv queue count) (ha : a = .outside ∨ a = .pushing)
    (hroom : queue.items.length < queue.capacity) (hshift : Shift count count' a .notifyEmpty) :
    SleepInv (queue.enqueue item hroom) count' := by
  obtain ⟨hempty, hemptyClosed, hfull, hfullClosed⟩ := h
  have hlength : (queue.enqueue item hroom).items.length = queue.items.length + 1 := List.length_append
  have hcapacity : (queue.enqueue item hroom).capacity = queue.capacity := rfl
  have hclosed : (queue.enqueue item hroom).closed = queue.closed := rfl
  have hc := hshift.counts
  rcases ha with rfl | rfl <;> constructor <;> grind

theorem take (h : SleepInv queue count) (ha : a = .outside ∨ a = .popping) {rest : List α}
    (hitems : queue.items = item :: rest) (hshift : Shift count count' a .notifyFull) :
    SleepInv queue.dequeue count' := by
  obtain ⟨hempty, hemptyClosed, hfull, hfullClosed⟩ := h
  have hlength : queue.items.length = queue.dequeue.items.length + 1 := by
    rw [BoundedQueue.items_dequeue, hitems]; rfl
  have hcapacity : queue.dequeue.capacity = queue.capacity := rfl
  have hclosed : queue.dequeue.closed = queue.closed := rfl
  have hc := hshift.counts
  rcases ha with rfl | rfl <;> constructor <;> grind

theorem pushClosed (h : SleepInv queue count) (hclosed : queue.closed = true)
    (hshift : Shift count count' .pushing .outside) : SleepInv queue count' := by
  obtain ⟨hempty, hemptyClosed, hfull, hfullClosed⟩ := h
  have hc := hshift.counts
  constructor <;> grind

theorem pushSleep (h : SleepInv queue count) (hopen : queue.closed = false)
    (hlength : queue.items.length = queue.capacity) (hshift : Shift count count' .pushing .pushAsleep) :
    SleepInv queue count' := by
  obtain ⟨hempty, hemptyClosed, hfull, hfullClosed⟩ := h
  have hc := hshift.counts
  constructor <;> grind

theorem popLeave (h : SleepInv queue count) (hnil : queue.items = [])
    (hshift : Shift count count' .popping .outside) : SleepInv queue count' := by
  obtain ⟨hempty, hemptyClosed, hfull, hfullClosed⟩ := h
  have hc := hshift.counts
  constructor <;> grind

theorem popSleep (h : SleepInv queue count) (hnil : queue.items = []) (hopen : queue.closed = false)
    (hshift : Shift count count' .popping .popAsleep) : SleepInv queue count' := by
  obtain ⟨hempty, hemptyClosed, hfull, hfullClosed⟩ := h
  have hc := hshift.counts
  constructor <;> grind

theorem close (h : SleepInv queue count) (hshift : Shift count count' .outside .closingEmpty) :
    SleepInv queue.close count' := by
  obtain ⟨hempty, hemptyClosed, hfull, hfullClosed⟩ := h
  have hclosed : queue.close.closed = true := rfl
  have hitems : queue.close.items = queue.items := rfl
  have hc := hshift.counts
  constructor <;> grind

/-- The sleeper is on its way now, in place of the one who notified it. -/
theorem notifyEmpty (h : SleepInv queue count) (hwake : Shift count count₁ .popAsleep .popping)
    (hshift : Shift count₁ count' .notifyEmpty .calling) : SleepInv queue count' := by
  obtain ⟨hempty, hemptyClosed, hfull, hfullClosed⟩ := h
  have hc := hwake.counts
  have hc' := hshift.counts
  constructor <;> grind

theorem notifyFull (h : SleepInv queue count) (hwake : Shift count count₁ .pushAsleep .pushing)
    (hshift : Shift count₁ count' .notifyFull .outside) : SleepInv queue count' := by
  obtain ⟨hempty, hemptyClosed, hfull, hfullClosed⟩ := h
  have hc := hwake.counts
  have hc' := hshift.counts
  constructor <;> grind

theorem notifyNobody (h : SleepInv queue count) (hnone : a = .notifyEmpty ∧ b = .calling ∧ count .popAsleep = 0 ∨
    a = .notifyFull ∧ b = .outside ∧ count .pushAsleep = 0) (hshift : Shift count count' a b) :
    SleepInv queue count' := by
  obtain ⟨hempty, hemptyClosed, hfull, hfullClosed⟩ := h
  have hc := hshift.counts
  rcases hnone with ⟨rfl, rfl, hzero⟩ | ⟨rfl, rfl, hzero⟩ <;> constructor <;> grind

theorem notifyAllEmpty (h : SleepInv queue count) (hzero : count₁ .popAsleep = 0)
    (hsame : ∀ place, place ≠ .popAsleep → place ≠ .popping → count₁ place = count place)
    (hab : a = .closingEmpty ∧ b = .closingFull ∨ a = .stopping ∧ b = .outside)
    (hshift : Shift count₁ count' a b) : SleepInv queue count' := by
  obtain ⟨hempty, hemptyClosed, hfull, hfullClosed⟩ := h
  have hc := hshift.counts
  rcases hab with ⟨rfl, rfl⟩ | ⟨rfl, rfl⟩ <;> constructor <;> grind

theorem notifyAllFull (h : SleepInv queue count) (hzero : count₁ .pushAsleep = 0)
    (hsame : ∀ place, place ≠ .pushAsleep → place ≠ .pushing → count₁ place = count place)
    (hshift : Shift count₁ count' .closingFull .outside) : SleepInv queue count' := by
  obtain ⟨hempty, hemptyClosed, hfull, hfullClosed⟩ := h
  have hc := hshift.counts
  constructor <;> grind

theorem step (h : MonitorMove s own evs s') (hinv : SleepInv s.queue s.count) : SleepInv s'.queue s'.count := by
  cases h with
  | call ht hphase =>
    rcases hphase with rfl | ⟨item, rfl⟩
    · exact hinv.shift .outside .popping (Monitor.shift ht (.popping false)) (by decide) (by decide) (by decide)
    · exact hinv.shift .outside .pushing (Monitor.shift ht (.pushing item)) (by decide) (by decide) (by decide)
  | @accept _ t item phase hroom ht hphase hopen =>
    refine hinv.accept (a := phase.place) ?_ hroom
      (Monitor.shift (s := { s with queue := s.queue.enqueue item hroom }) ht (.notifyEmpty s.onPush))
    rcases hphase with ⟨rfl, -⟩ | ⟨rfl, -⟩
    · exact .inl rfl
    · exact .inr rfl
  | pushClosed ht hclosed => exact hinv.pushClosed hclosed (Monitor.shift ht .outside)
  | @pushSleep t item ht hopen hlength => exact hinv.pushSleep hopen hlength (Monitor.shift ht (.pushAsleep item))
  | tryRefused => exact hinv
  | @take _ t item rest phase ht hphase hitems =>
    refine hinv.take (a := phase.place) ?_ hitems
      (Monitor.shift (s := { s with queue := s.queue.dequeue }) ht .notifyFull)
    rcases hphase with ⟨rfl, -⟩ | ⟨⟨waited, rfl⟩, -⟩
    · exact .inl rfl
    · exact .inr rfl
  | popClosed ht hnil _ => exact hinv.popLeave hnil (Monitor.shift ht .outside)
  | popStopped ht hnil _ _ => exact hinv.popLeave hnil (Monitor.shift ht .outside)
  | popSleep ht hnil hopen _ => exact hinv.popSleep hnil hopen (Monitor.shift ht .popAsleep)
  | tryEmpty => exact hinv
  | close ht => exact hinv.close (Monitor.shift (s := { s with queue := s.queue.close }) ht .closingEmpty)
  | setOnPush => exact hinv
  | @wakeOne t u phase sleeper next asleep ht hnotify hu hplace =>
    have hne := Monitor.ne_of_notifyOne ht hnotify hu hplace
    have hwake := Monitor.shift hu sleeper.awakened
    have hshift := Monitor.shift ((Monitor.getElem?_set_of_ne hne sleeper.awakened).trans ht) next
    rw [Monitor.place_awakened, hplace] at hwake
    rcases Monitor.notifyOne_cases hnotify with ⟨callback, rfl, rfl, rfl⟩ | ⟨rfl, rfl, rfl⟩
    · exact hinv.notifyEmpty hwake hshift
    · exact hinv.notifyFull hwake hshift
  | @wakeNone t phase next asleep ht hnotify hnone =>
    have hshift := Monitor.shift ht next
    rcases Monitor.notifyOne_cases hnotify with ⟨callback, rfl, rfl, rfl⟩ | ⟨rfl, rfl, rfl⟩
    · exact hinv.notifyNobody (.inl ⟨rfl, rfl, hnone⟩) hshift
    · exact hinv.notifyNobody (.inr ⟨rfl, rfl, hnone⟩) hshift
  | @wakeAll t phase next asleep ht hnotify =>
    have hshift := Monitor.shift (Monitor.getElem?_wakeAll ht (Monitor.place_ne_of_notifyAll hnotify)) next
    rcases Monitor.notifyAll_cases hnotify with ⟨rfl, rfl, rfl⟩ | ⟨rfl, rfl, rfl⟩ | ⟨rfl, rfl, rfl⟩
    · obtain ⟨hzero, hsame⟩ := s.count_wakeAll .popAsleep (by decide)
      exact hinv.notifyAllEmpty hzero hsame (.inl ⟨rfl, rfl⟩) hshift
    · obtain ⟨hzero, hsame⟩ := s.count_wakeAll .pushAsleep (by decide)
      exact hinv.notifyAllFull hzero hsame hshift
    · obtain ⟨hzero, hsame⟩ := s.count_wakeAll .popAsleep (by decide)
      exact hinv.notifyAllEmpty hzero hsame (.inr ⟨rfl, rfl⟩) hshift
  | invoke ht => exact hinv.shift .calling .outside (Monitor.shift ht .outside) (by decide) (by decide) (by decide)
  | finish ht => exact hinv.shift .calling .outside (Monitor.shift ht .outside) (by decide) (by decide) (by decide)
  | spurious ht hphase =>
    rcases hphase with rfl | ⟨item, rfl⟩
    · exact hinv.shift .popAsleep .popping (Monitor.shift ht (.popping true)) (by decide) (by decide) (by decide)
    · exact hinv.shift .pushAsleep .pushing (Monitor.shift ht (.pushing item)) (by decide) (by decide) (by decide)
  | @requestStop t target ht =>
    have hshift := Monitor.shift (s := { s with stopRequested := Function.update s.stopRequested target true }) ht
      (s.stopNotice target)
    have hplace : (s.stopNotice target).place ≠ .popAsleep ∧ (s.stopNotice target).place ≠ .pushAsleep := by
      unfold Monitor.stopNotice
      split_ifs <;> exact ⟨QueuePlace.noConfusion, QueuePlace.noConfusion⟩
    exact hinv.shift .outside (s.stopNotice target).place hshift (by decide) hplace.1 hplace.2

end SleepInv

/-! ### Stop requests -/

/-- While a thread sleeps in `pop` although its stop was requested, the notification of the stop is to come. -/
def StopInv (s : Monitor α κ) : Prop :=
  ∀ t, s.threads[t]? = some .popAsleep → s.stopRequested t = true → 0 < s.count .stopping

namespace StopInv
variable {t : Nat} {phase : MonitorPhase α κ}

theorem of_set {next : MonitorPhase α κ} {u : Nat} {found : MonitorPhase α κ}
    (h : (s.set t next).threads[u]? = some found) : (u = t ∧ found = next) ∨ s.threads[u]? = some found := by
  have hset : (s.threads.set t next)[u]? = some found := h
  rw [List.getElem?_set] at hset
  split_ifs at hset with heq hlt
  · exact .inl ⟨heq.symm, (Option.some.inj hset).symm⟩
  · exact .inr hset

theorem set (h : StopInv s) (ht : s.threads[t]? = some phase) (hphase : phase.place ≠ .stopping)
    (next : MonitorPhase α κ) (hnext : next.place ≠ .popAsleep) : StopInv (s.set t next) := by
  intro u hu hstop
  have hstays := Monitor.shift ht next .stopping
  rw [if_neg hphase] at hstays
  rcases of_set hu with ⟨-, rfl⟩ | hold
  · exact absurd rfl hnext
  · have hpos : 0 < s.count .stopping := h u hold hstop
    omega

theorem not_popAsleep_wakeAll (s : Monitor α κ) (t : Nat) :
    (s.wakeAll .popAsleep).threads[t]? ≠ some .popAsleep := by
  intro ht
  have hpos : 0 < (s.wakeAll .popAsleep).count .popAsleep := Monitor.count_pos ht
  rw [(s.count_wakeAll .popAsleep (by decide)).1] at hpos
  exact Nat.lt_irrefl 0 hpos

theorem wakeAll_pop (s : Monitor α κ) : StopInv (s.wakeAll .popAsleep) :=
  fun t ht _ => absurd ht (not_popAsleep_wakeAll s t)

theorem wakeAll_push (h : StopInv s) : StopInv (s.wakeAll .pushAsleep) := by
  intro t ht hstop
  rw [(s.count_wakeAll .pushAsleep (by decide)).2 .stopping (by decide) (by decide)]
  refine h t ?_ hstop
  have hmap : (s.threads[t]?.map fun phase => if phase.place = .pushAsleep then phase.awakened else phase) =
      some .popAsleep := by
    rw [← List.getElem?_map]; exact ht
  obtain ⟨phase, hphase, heq⟩ := Option.map_eq_some_iff.mp hmap
  rw [hphase]
  cases phase <;> cases heq
  rfl

/-- A sleeper has its callback registered, so that a request to stop it leaves a notification. -/
theorem requestStop (h : StopInv s) (ht : s.threads[t]? = some .outside) (target : Nat) :
    StopInv ({ s with stopRequested := Function.update s.stopRequested target true }.set t (s.stopNotice target)) := by
  intro u hu hstop
  have hshift := Monitor.shift (s := { s with stopRequested := Function.update s.stopRequested target true }) ht
    (s.stopNotice target)
  have hbefore : s.threads[u]? = some .popAsleep := by
    rcases of_set hu with ⟨-, hnotice⟩ | hold
    · unfold Monitor.stopNotice at hnotice
      split_ifs at hnotice
    · exact hold
  have hpos : 0 < s.count .stopping ∨ (s.stopNotice target).place = .stopping := by
    rcases eq_or_ne u target with rfl | hne
    · right
      unfold Monitor.stopNotice
      rw [hbefore]
      rfl
    · left
      exact h u hbefore ((Function.update_of_ne hne ..).symm.trans hstop)
  rcases hpos with hpos | hnotice
  · exact hpos.trans_le (hshift.le QueuePlace.noConfusion)
  · rw [← hnotice]
    exact Monitor.count_pos (List.getElem?_set_self (List.getElem?_eq_some_iff.mp ht).1)

theorem step (h : MonitorMove s own evs s') (hinv : StopInv s) : StopInv s' := by
  cases h with
  | call ht hphase =>
    exact hinv.set ht QueuePlace.noConfusion _
      (by rcases hphase with rfl | ⟨item, rfl⟩ <;> exact QueuePlace.noConfusion)
  | @accept _ t item phase hroom ht hphase _ =>
    have hqueue : StopInv { s with queue := s.queue.enqueue item hroom } := hinv
    exact hqueue.set ht (by rcases hphase with ⟨rfl, -⟩ | ⟨rfl, -⟩ <;> exact QueuePlace.noConfusion)
      (.notifyEmpty s.onPush) QueuePlace.noConfusion
  | pushClosed ht _ => exact hinv.set ht QueuePlace.noConfusion .outside QueuePlace.noConfusion
  | pushSleep ht _ _ => exact hinv.set ht QueuePlace.noConfusion _ QueuePlace.noConfusion
  | tryRefused => exact hinv
  | take ht hphase _ =>
    have hqueue : StopInv { s with queue := s.queue.dequeue } := hinv
    exact hqueue.set ht (by rcases hphase with ⟨rfl, -⟩ | ⟨⟨waited, rfl⟩, -⟩ <;> exact QueuePlace.noConfusion)
      .notifyFull QueuePlace.noConfusion
  | popClosed ht _ _ => exact hinv.set ht QueuePlace.noConfusion .outside QueuePlace.noConfusion
  | popStopped ht _ _ _ => exact hinv.set ht QueuePlace.noConfusion .outside QueuePlace.noConfusion
  | @popSleep t waited ht _ _ hstop =>
    -- the new sleeper has looked at its token
    intro u hu hrequested
    have hstays := Monitor.shift ht .popAsleep .stopping
    rcases of_set hu with ⟨rfl, -⟩ | hold
    · exact absurd (hrequested.symm.trans hstop) Bool.noConfusion
    · have hpos : 0 < s.count .stopping := hinv u hold hrequested
      simp only [MonitorPhase.place, reduceCtorEq, if_false] at hstays
      omega
  | tryEmpty => exact hinv
  | close ht =>
    have hqueue : StopInv { s with queue := s.queue.close } := hinv
    exact hqueue.set ht QueuePlace.noConfusion .closingEmpty QueuePlace.noConfusion
  | setOnPush => exact hinv
  | @wakeOne t u phase sleeper next asleep ht hnotify hu hplace =>
    have hne := Monitor.ne_of_notifyOne ht hnotify hu hplace
    have ht' := (Monitor.getElem?_set_of_ne hne sleeper.awakened).trans ht
    have hawake : sleeper.awakened.place ≠ .popAsleep := by cases sleeper <;> exact QueuePlace.noConfusion
    rcases Monitor.notifyOne_cases hnotify with ⟨callback, rfl, rfl, rfl⟩ | ⟨rfl, rfl, rfl⟩
    · exact (hinv.set hu (by rw [hplace]; decide) _ hawake).set ht' QueuePlace.noConfusion _ QueuePlace.noConfusion
    · exact (hinv.set hu (by rw [hplace]; decide) _ hawake).set ht' QueuePlace.noConfusion _ QueuePlace.noConfusion
  | wakeNone ht hnotify _ =>
    rcases Monitor.notifyOne_cases hnotify with ⟨callback, rfl, rfl, rfl⟩ | ⟨rfl, rfl, rfl⟩
    · exact hinv.set ht QueuePlace.noConfusion _ QueuePlace.noConfusion
    · exact hinv.set ht QueuePlace.noConfusion _ QueuePlace.noConfusion
  | @wakeAll t phase next asleep ht hnotify =>
    have ht' := Monitor.getElem?_wakeAll ht (Monitor.place_ne_of_notifyAll hnotify)
    rcases Monitor.notifyAll_cases hnotify with ⟨rfl, rfl, rfl⟩ | ⟨rfl, rfl, rfl⟩ | ⟨rfl, rfl, rfl⟩
    · exact (wakeAll_pop s).set ht' QueuePlace.noConfusion _ QueuePlace.noConfusion
    · exact hinv.wakeAll_push.set ht' QueuePlace.noConfusion _ QueuePlace.noConfusion
    · intro u hu _
      rcases of_set hu with ⟨-, hnext⟩ | hold
      · cases hnext
      · exact absurd hold (not_popAsleep_wakeAll s u)
  | invoke ht => exact hinv.set ht QueuePlace.noConfusion .outside QueuePlace.noConfusion
  | finish ht => exact hinv.set ht QueuePlace.noConfusion .outside QueuePlace.noConfusion
  | spurious ht hphase =>
    rcases hphase with rfl | ⟨item, rfl⟩
    · exact hinv.set ht QueuePlace.noConfusion (.popping true) QueuePlace.noConfusion
    · exact hinv.set ht QueuePlace.noConfusion (.pushing item) QueuePlace.noConfusion
  | @requestStop t target ht =>
    exact hinv.requestStop ht target

end StopInv

/-- Both invariants. -/
structure Monitor.Covered (s : Monitor α κ) : Prop where
  sleep : SleepInv s.queue s.count
  stop : StopInv s

theorem Monitor.covered_start (capacity : Nat) (hpos : 0 < capacity) (threads : Nat) :
    (Monitor.start capacity hpos threads : Monitor α κ).Covered := by
  have hstart : ∀ place, place ≠ .outside → (Monitor.start capacity hpos threads : Monitor α κ).count place = 0 := by
    intro place hplace
    refine List.countP_eq_zero.mpr fun phase hphase => ?_
    rw [List.eq_of_mem_replicate hphase]
    exact fun h => hplace (of_decide_eq_true h).symm
  have hpop := hstart .popAsleep (by decide)
  have hpush := hstart .pushAsleep (by decide)
  refine ⟨⟨?_, ?_, ?_, ?_⟩, ?_⟩
  · intro h; rw [hpop] at h; cases h
  · intro h; rw [hpop] at h; cases h
  · intro h; rw [hpush] at h; cases h
  · intro h; rw [hpush] at h; cases h
  · intro t ht
    cases List.eq_of_mem_replicate (List.mem_of_getElem? ht)

theorem Monitor.Covered.step {choice : MonitorChoice α κ} (h : s.Covered) (hstep : s.step choice = some (s', evs)) :
    s'.Covered :=
  ⟨h.sleep.step (move_of_step hstep), h.stop.step (move_of_step hstep)⟩

theorem Monitor.Run.covered {capacity threads : Nat} {hpos : 0 < capacity}
    (hrun : Monitor.Run capacity hpos threads log s) : s.Covered := by
  have hstep : ∀ (log evs : List (QueueEvent α κ)) (s s' : Monitor α κ), s.Covered →
      Step Monitor.step s evs s' → s'.Covered := by
    rintro log evs s s' hcovered ⟨choice, hstep⟩
    exact hcovered.step hstep
  exact Exec.invariant (Monitor.covered_start capacity hpos threads) hstep hrun

/-! ### Coming to rest -/

namespace Monitor
variable {t u : Nat} {phase next sleeper : MonitorPhase α κ} {asleep : QueuePlace} {f : QueuePlace → Nat}

def total (f : QueuePlace → Nat) (s : Monitor α κ) : Nat := (s.threads.map fun phase => f phase.place).sum

theorem total_set (f : QueuePlace → Nat) (h : s.threads[t]? = some phase) (next : MonitorPhase α κ) :
    (s.set t next).total f + f phase.place = s.total f + f next.place :=
  Slots.sum_map_set_add (fun phase : MonitorPhase α κ => f phase.place) next h

theorem total_wakeAll (f : QueuePlace → Nat) (s : Monitor α κ) (asleep : QueuePlace)
    (hf : f (awake asleep) = f asleep) : (s.wakeAll asleep).total f = s.total f := by
  unfold total wakeAll
  rw [List.map_map]
  refine congrArg List.sum (List.map_congr_left fun phase _ => ?_)
  dsimp only [Function.comp]
  split_ifs with h
  · rw [place_awakened, h, hf]
  · rfl

/-- 1 for a thread whose `push` or `pop` has not yet done what it was called for. -/
def unserved : QueuePlace → Nat
  | .pushing | .pushAsleep | .popping | .popAsleep => 1
  | _ => 0

/-- What a thread has still to do after its section. -/
def pending : QueuePlace → Nat
  | .notifyEmpty | .closingEmpty => 2
  | .calling | .notifyFull | .closingFull | .stopping => 1
  | _ => 0

def testing : QueuePlace → Nat
  | .pushing | .popping => 1
  | _ => 0

def measures : List (Monitor α κ → Nat) := [total unserved, total pending, total testing]

theorem descends_set (ht : s.threads[t]? = some phase) (next : MonitorPhase α κ)
    (h : unserved next.place < unserved phase.place ∨
      unserved next.place ≤ unserved phase.place ∧ (pending next.place < pending phase.place ∨
        pending next.place ≤ pending phase.place ∧ testing next.place < testing phase.place)) :
    Descent.Descends measures s (s.set t next) := by
  have hunserved := total_set unserved ht next
  have hpending := total_set pending ht next
  have htesting := total_set testing ht next
  rcases h with h | ⟨h, h' | ⟨h', h''⟩⟩
  · exact .inl (by omega)
  · exact .inr ⟨by omega, .inl (by omega)⟩
  · exact .inr ⟨by omega, .inr ⟨by omega, .inl (by omega)⟩⟩

theorem pending_notifyOne (h : phase.notifyOne = some (asleep, next)) :
    unserved next.place = unserved phase.place ∧ pending next.place < pending phase.place ∧
      unserved (awake asleep) = unserved asleep ∧ pending (awake asleep) = pending asleep := by
  rcases notifyOne_cases h with ⟨callback, rfl, rfl, rfl⟩ | ⟨rfl, rfl, rfl⟩ <;>
    simp [MonitorPhase.place, unserved, pending, awake]

theorem pending_notifyAll (h : phase.notifyAll = some (asleep, next)) :
    unserved next.place = unserved phase.place ∧ pending next.place < pending phase.place ∧
      unserved (awake asleep) = unserved asleep ∧ pending (awake asleep) = pending asleep := by
  rcases notifyAll_cases h with ⟨rfl, rfl, rfl⟩ | ⟨rfl, rfl, rfl⟩ | ⟨rfl, rfl, rfl⟩ <;>
    simp [MonitorPhase.place, unserved, pending, awake]

/-- A served call pays for the notification it leaves, a notification for the sleeper it wakes. -/
theorem descends_of_move (h : MonitorMove s true evs s') : Descent.Descends measures s s' := by
  cases h with
  | @accept _ t item phase hroom ht hphase _ =>
    rcases hphase with ⟨-, hown⟩ | ⟨rfl, -⟩
    · cases hown
    · exact descends_set (s := { s with queue := s.queue.enqueue item hroom }) ht _ (.inl Nat.zero_lt_one)
  | pushClosed ht _ => exact descends_set ht _ (.inl Nat.zero_lt_one)
  | pushSleep ht _ _ => exact descends_set ht _ (.inr ⟨Nat.le_refl 1, .inr ⟨Nat.le_refl 0, Nat.zero_lt_one⟩⟩)
  | take ht hphase _ =>
    rcases hphase with ⟨-, hown⟩ | ⟨⟨waited, rfl⟩, -⟩
    · cases hown
    · exact descends_set (s := { s with queue := s.queue.dequeue }) ht _ (.inl Nat.zero_lt_one)
  | popClosed ht _ _ => exact descends_set ht _ (.inl Nat.zero_lt_one)
  | popStopped ht _ _ _ => exact descends_set ht _ (.inl Nat.zero_lt_one)
  | popSleep ht _ _ _ => exact descends_set ht _ (.inr ⟨Nat.le_refl 1, .inr ⟨Nat.le_refl 0, Nat.zero_lt_one⟩⟩)
  | @wakeOne t u phase sleeper next asleep ht hnotify hu hplace =>
    obtain ⟨hunserved, hpending, hawake, hawake'⟩ := pending_notifyOne hnotify
    have ht' := (getElem?_set_of_ne (ne_of_notifyOne ht hnotify hu hplace) sleeper.awakened).trans ht
    have h1 := total_set unserved hu sleeper.awakened
    have h2 := total_set pending hu sleeper.awakened
    have h3 := total_set unserved ht' next
    have h4 := total_set pending ht' next
    rw [place_awakened, hplace] at h1 h2
    exact .inr ⟨by omega, .inl (by omega)⟩
  | @wakeNone t phase next asleep ht hnotify _ =>
    obtain ⟨hunserved, hpending, -⟩ := pending_notifyOne hnotify
    exact descends_set ht next (.inr ⟨hunserved.le, .inl hpending⟩)
  | @wakeAll t phase next asleep ht hnotify =>
    obtain ⟨hunserved, hpending, hawake, hawake'⟩ := pending_notifyAll hnotify
    have ht' := getElem?_wakeAll ht (place_ne_of_notifyAll hnotify)
    have h1 := total_set unserved ht' next
    have h2 := total_set pending ht' next
    rw [total_wakeAll _ _ _ hawake] at h1
    rw [total_wakeAll _ _ _ hawake'] at h2
    exact .inr ⟨by omega, .inl (by omega)⟩
  | invoke ht => exact descends_set ht _ (.inr ⟨Nat.le_refl 0, .inl Nat.zero_lt_one⟩)
  | finish ht => exact descends_set ht _ (.inr ⟨Nat.le_refl 0, .inl Nat.zero_lt_one⟩)

theorem OwnStep.descends (h : OwnStep s evs s') : Descent.Descends measures s s' := by
  obtain ⟨choice, hown, hstep⟩ := h
  have hmove := move_of_step hstep
  rw [hown] at hmove
  exact descends_of_move hmove

/-! ### At rest -/

theorem enter_isSome (ht : s.threads[t]? = some phase)
    (hphase : (∃ waited, phase = .popping waited) ∨ ∃ item, phase = .pushing item) : ∃ r, s.enter t = some r := by
  unfold enter
  rcases hphase with ⟨waited, rfl⟩ | ⟨item, rfl⟩
  · rw [ht]
    dsimp only
    rcases s.queue.pop (s.stopRequested t) with _ | (_ | _ | _) <;> exact ⟨_, rfl⟩
  · rw [ht]
    dsimp only
    rcases s.queue.push item with _ | ⟨_ | _ | _, queue⟩ <;> exact ⟨_, rfl⟩

theorem notifyOne_isSome (ht : s.threads[t]? = some phase) (hnotify : phase.notifyOne = some (asleep, next)) :
    ∃ woken r, s.step (.notifyOne t woken) = some r := by
  have hstep : ∀ woken, s.step (.notifyOne t woken) = (s.wakeOne asleep woken).map fun s => (s.set t next, []) := by
    intro woken
    unfold step
    dsimp only
    rw [ht, Option.bind_some, hnotify]
  rcases Nat.eq_zero_or_pos (s.count asleep) with hnone | hsome
  · have hwake : s.wakeOne asleep none = some s := if_pos hnone
    exact ⟨none, _, (hstep none).trans (congrArg _ hwake)⟩
  · obtain ⟨u, sleeper, hu, hplace⟩ := exists_of_count_pos hsome
    have hwake : s.wakeOne asleep (some u) = some (s.set u sleeper.awakened) := by
      unfold wakeOne
      dsimp only
      rw [hu]
      exact if_pos hplace
    exact ⟨some u, _, (hstep (some u)).trans (congrArg _ hwake)⟩

theorem notifyAll_isSome (ht : s.threads[t]? = some phase) (hnotify : phase.notifyAll = some (asleep, next)) :
    ∃ r, s.step (.notifyAll t) = some r := by
  unfold step
  dsimp only
  rw [ht, Option.bind_some, hnotify]
  exact ⟨_, rfl⟩

theorem ownStep_of_awake (ht : s.threads[t]? = some phase) (houtside : phase ≠ .outside)
    (hpop : phase ≠ .popAsleep) (hpush : ∀ item, phase ≠ .pushAsleep item) : ∃ evs s', OwnStep s evs s' := by
  have own : ∀ choice : MonitorChoice α κ, choice.isOwn = true → (∃ r, s.step choice = some r) →
      ∃ evs s', OwnStep s evs s' := by
    rintro choice hown ⟨r, hr⟩
    exact ⟨r.2, r.1, choice, hown, hr⟩
  have one : ∀ {asleep next}, phase.notifyOne = some (asleep, next) → ∃ evs s', OwnStep s evs s' := by
    intro asleep next hnotify
    obtain ⟨woken, hr⟩ := notifyOne_isSome ht hnotify
    exact own (.notifyOne t woken) rfl hr
  cases phase with
  | outside => exact absurd rfl houtside
  | pushing item => exact own (.enter t) rfl (enter_isSome ht (.inr ⟨item, rfl⟩))
  | pushAsleep item => exact absurd rfl (hpush item)
  | popping waited => exact own (.enter t) rfl (enter_isSome ht (.inl ⟨waited, rfl⟩))
  | popAsleep => exact absurd rfl hpop
  | notifyEmpty callback => exact one rfl
  | calling callback =>
    refine own (.finishPush t) rfl ?_
    unfold step
    dsimp only
    rw [ht]
    cases callback <;> exact ⟨_, rfl⟩
  | notifyFull => exact one rfl
  | closingEmpty => exact own (.notifyAll t) rfl (notifyAll_isSome ht rfl)
  | closingFull => exact own (.notifyAll t) rfl (notifyAll_isSome ht rfl)
  | stopping => exact own (.notifyAll t) rfl (notifyAll_isSome ht rfl)

theorem count_of_rest (hrest : ∀ evs s', ¬ OwnStep s evs s') (place : QueuePlace) (houtside : place ≠ .outside)
    (hpop : place ≠ .popAsleep) (hpush : place ≠ .pushAsleep) : s.count place = 0 := by
  rcases Nat.eq_zero_or_pos (s.count place) with hzero | hsome
  · exact hzero
  · obtain ⟨t, phase, ht, rfl⟩ := exists_of_count_pos hsome
    obtain ⟨evs, s', hstep⟩ := ownStep_of_awake ht (fun h => houtside (h ▸ rfl)) (fun h => hpop (h ▸ rfl))
      fun item h => hpush (h ▸ rfl)
    exact absurd hstep (hrest evs s')

theorem Covered.pop_of_rest (hinv : s.Covered) (hrest : ∀ evs s', ¬ OwnStep s evs s')
    (ht : s.threads[t]? = some .popAsleep) : s.queue.pop (s.stopRequested t) = none := by
  have hasleep : 0 < s.count .popAsleep := count_pos ht
  have hempty := hinv.sleep.empty hasleep
  have hclosed := hinv.sleep.emptyClosed hasleep
  have hstop := hinv.stop t ht
  rw [count_of_rest hrest .notifyEmpty (by decide) (by decide) (by decide),
    count_of_rest hrest .popping (by decide) (by decide) (by decide)] at hempty
  rw [count_of_rest hrest .closingEmpty (by decide) (by decide) (by decide)] at hclosed
  rw [count_of_rest hrest .stopping (by decide) (by decide) (by decide)] at hstop
  have hnil : s.queue.items = [] := List.length_eq_zero_iff.mp (Nat.le_zero.mp hempty)
  unfold BoundedQueue.pop
  rw [hnil]
  dsimp only
  rw [if_neg fun h => Nat.lt_irrefl 0 (hclosed h), if_neg fun h => Nat.lt_irrefl 0 (hstop h)]

theorem Covered.push_of_rest {item : α} (hinv : s.Covered) (hrest : ∀ evs s', ¬ OwnStep s evs s')
    (ht : s.threads[t]? = some (.pushAsleep item)) : s.queue.push item = none := by
  have hasleep : 0 < s.count .pushAsleep := count_pos ht
  have hfull := hinv.sleep.full hasleep
  have hclosed := hinv.sleep.fullClosed hasleep
  rw [count_of_rest hrest .notifyFull (by decide) (by decide) (by decide),
    count_of_rest hrest .pushing (by decide) (by decide) (by decide)] at hfull
  rw [count_of_rest hrest .closingEmpty (by decide) (by decide) (by decide),
    count_of_rest hrest .closingFull (by decide) (by decide) (by decide)] at hclosed
  have hopen : s.queue.closed = false := Bool.eq_false_iff.mpr fun h => Nat.lt_irrefl 0 (hclosed h)
  have hroom : ¬ s.queue.items.length < s.queue.capacity := Nat.not_lt.mpr (hfull hopen)
  unfold BoundedQueue.push
  rw [hopen, if_neg Bool.false_ne_true, dif_neg hroom]

end Monitor

/-- No wake-up is lost. Once no call begins any more and nobody wakes up for no reason, the threads come to rest
after finitely many steps in whatever order they take them; and wherever they have come to rest, a thread is not
in the queue's code at all, or sleeps in `pop` while the queue is empty, open and its stop not requested, or
sleeps in `push` while the queue is full and open. -/
theorem no_lost_wakeup {capacity threads : Nat} {hpos : 0 < capacity}
    (hrun : Monitor.Run capacity hpos threads log s) :
    (∀ f : Nat → Monitor α κ, f 0 = s → ∃ n, ∀ evs, ¬ Monitor.OwnStep (f n) evs (f (n + 1))) ∧
    ∀ log' s', Exec Monitor.OwnStep s log' s' → (∀ evs s'', ¬ Monitor.OwnStep s' evs s'') →
      ∀ t phase, s'.threads[t]? = some phase →
        phase = .outside ∨
        (phase = .popAsleep ∧ s'.queue.pop (s'.stopRequested t) = none) ∨
        ∃ item, phase = .pushAsleep item ∧ s'.queue.push item = none := by
  have hown : ∀ (s : Monitor α κ) evs s', s.Covered → Monitor.OwnStep s evs s' → s'.Covered := by
    rintro s evs s' hcovered ⟨choice, -, hstep⟩
    exact hcovered.step hstep
  constructor
  · rintro f rfl
    exact Descent.exists_not_step (fun s evs s' _ => Monitor.OwnStep.descends) hown f hrun.covered
  · intro log' s' hexec hrest t phase ht
    have hcovered : s'.Covered := Exec.invariant hrun.covered (fun _ evs s s' => hown s evs s') hexec
    by_cases houtside : phase = .outside
    · exact .inl houtside
    by_cases hpop : phase = .popAsleep
    · subst hpop
      exact .inr (.inl ⟨rfl, hcovered.pop_of_rest hrest ht⟩)
    by_cases hpush : ∃ item, phase = .pushAsleep item
    · obtain ⟨item, rfl⟩ := hpush
      exact .inr (.inr ⟨item, rfl, hcovered.push_of_rest hrest ht⟩)
    · push Not at hpush
      obtain ⟨evs, s'', hstep⟩ := Monitor.ownStep_of_awake ht houtside hpop hpush
      exact absurd hstep (hrest evs s'')

end

/-- From the moment when an item, a sleeper and a notification are there. -/
theorem no_lost_wakeup_handover :
    handedOver.threads[0]? = some .popAsleep ∧ handedOver.queue.items = [5] ∧
      ∀ log s, Exec Monitor.OwnStep handedOver log s → (∀ evs s', ¬ Monitor.OwnStep s evs s') →
        ∀ t phase, s.threads[t]? = some phase →
          phase = .outside ∨ (phase = .popAsleep ∧ s.queue.pop (s.stopRequested t) = none) ∨
            ∃ item, phase = .pushAsleep item ∧ s.queue.push item = none :=
  ⟨rfl, rfl, (no_lost_wakeup (exec_of_run run_handover)).2⟩

end KvStore
