import KvStore.Lib.Descent
import KvStore.Lib.Slots
import KvStore.QueueThreads

/-!
# The condition variables of the bounded queue

In `QueueThreads` a thread that has to wait has no step. In `worker/bounded_queue.hpp` it goes to sleep on a
condition variable, and it is up to the others to wake it: `push` and `try_push` notify one sleeper of
`not_empty_`, `pop` and `try_pop` one of `not_full_`, in both cases after the mutex was released; `close`
notifies all sleepers, again after it has released the mutex; a stop request notifies all sleepers of
`not_empty_` through the callback that `wait(lock, token, predicate)` has registered with its token, if there is
one. A sleeper may also wake up for no reason. It then takes the mutex and tests its predicate again. Here each of
these is a step of its own: a section under the mutex (a test that fails ends in the sleep, which releases the
mutex in the same step), a notification, the callback.

`monitor_refines`: whatever the threads do in these steps they do in the steps of `QueueThreads`.
`no_lost_wakeup`: the notifications are enough.
-/

namespace KvStore
open Transition

/-- The places in the code of the queue. -/
inductive QueuePlace where
  | outside | pushing | pushAsleep | popping | popAsleep | notifyEmpty | calling | notifyFull
  | closingEmpty | closingFull | stopping
deriving DecidableEq, Repr

/-- Where a thread stands, with what it carries. -/
inductive MonitorPhase (α κ : Type) where
  | outside
  /-- In `push`, before it takes the mutex, for the first time or after it was woken. -/
  | pushing (item : α)
  /-- In `push`, asleep on `not_full_`. -/
  | pushAsleep (item : α)
  /-- In `pop`, before it takes the mutex: for the first time, or woken from its `wait`. -/
  | popping (waited : Bool)
  /-- In `pop`, asleep on `not_empty_`. -/
  | popAsleep
  /-- Its item was accepted: `not_empty_.notify_one()` is next. -/
  | notifyEmpty (callback : Option κ)
  /-- The callback is next, if there is one. -/
  | calling (callback : Option κ)
  /-- It took an item: `not_full_.notify_one()` is next. -/
  | notifyFull
  /-- In `close`: `not_empty_.notify_all()` is next, then `not_full_.notify_all()`. -/
  | closingEmpty
  | closingFull
  /-- It has set the stop flag of a waiting `pop`: the callback is next, which notifies all of `not_empty_`. -/
  | stopping

namespace MonitorPhase
variable {α κ : Type}

def place : MonitorPhase α κ → QueuePlace
  | .outside => .outside
  | .pushing _ => .pushing
  | .pushAsleep _ => .pushAsleep
  | .popping _ => .popping
  | .popAsleep => .popAsleep
  | .notifyEmpty _ => .notifyEmpty
  | .calling _ => .calling
  | .notifyFull => .notifyFull
  | .closingEmpty => .closingEmpty
  | .closingFull => .closingFull
  | .stopping => .stopping

/-- A sleeper that wakes up goes back to the test of its predicate. -/
def awakened : MonitorPhase α κ → MonitorPhase α κ
  | .pushAsleep item => .pushing item
  | .popAsleep => .popping true
  | phase => phase

/-- `wait(lock, token, predicate)` has a callback registered with the token. -/
def registered : MonitorPhase α κ → Bool
  | .popAsleep | .popping true => true
  | _ => false

/-- `notify_one`: whose sleepers, and what comes after it. -/
def notifyOne : MonitorPhase α κ → Option (QueuePlace × MonitorPhase α κ)
  | .notifyEmpty callback => some (.popAsleep, .calling callback)
  | .notifyFull => some (.pushAsleep, .outside)
  | _ => none

def notifyAll : MonitorPhase α κ → Option (QueuePlace × MonitorPhase α κ)
  | .closingEmpty => some (.popAsleep, .closingFull)
  | .closingFull => some (.pushAsleep, .outside)
  | .stopping => some (.popAsleep, .outside)
  | _ => none

end MonitorPhase

structure Monitor (α κ : Type) where
  queue : BoundedQueue α
  onPush : Option κ := none
  threads : List (MonitorPhase α κ)
  /-- The stop tokens of the threads. -/
  stopRequested : Nat → Bool := fun _ => false

/-- Which thread goes on, and with what. -/
inductive MonitorChoice (α κ : Type) where
  | push (thread : Nat) (item : α)
  | pop (thread : Nat)
  /-- A thread in `push` or `pop` takes the mutex and tests its predicate. -/
  | enter (thread : Nat)
  | tryPush (thread : Nat) (item : α)
  | tryPop (thread : Nat)
  | close (thread : Nat)
  | setOnPush (thread : Nat) (callback : Option κ)
  /-- The system picks the sleeper; there is none to pick only if nobody sleeps. -/
  | notifyOne (thread : Nat) (woken : Option Nat)
  | notifyAll (thread : Nat)
  | finishPush (thread : Nat)
  /-- A sleeper wakes up for no reason. -/
  | spurious (thread : Nat)
  | requestStop (thread target : Nat)

/-- What a thread does in a call it has begun; the others are new calls and spurious wake-ups. -/
def MonitorChoice.isOwn {α κ : Type} : MonitorChoice α κ → Bool
  | .enter _ | .notifyOne _ _ | .notifyAll _ | .finishPush _ => true
  | _ => false

namespace Monitor
variable {α κ : Type}

def start (capacity : Nat) (h : 0 < capacity) (threads : Nat) : Monitor α κ where
  queue := .make capacity h
  threads := List.replicate threads .outside

def set (s : Monitor α κ) (t : Nat) (phase : MonitorPhase α κ) : Monitor α κ :=
  { s with threads := s.threads.set t phase }

def count (s : Monitor α κ) (place : QueuePlace) : Nat :=
  s.threads.countP fun phase => decide (phase.place = place)

def wakeOne (s : Monitor α κ) (asleep : QueuePlace) : Option Nat → Option (Monitor α κ)
  | none => if s.count asleep = 0 then some s else none
  | some u =>
    match s.threads[u]? with
    | some phase => if phase.place = asleep then some (s.set u phase.awakened) else none
    | none => none

def wakeAll (s : Monitor α κ) (asleep : QueuePlace) : Monitor α κ :=
  { s with threads := s.threads.map fun phase => if phase.place = asleep then phase.awakened else phase }

/-- The callback is copied under the mutex. -/
def accept (s : Monitor α κ) (t : Nat) (queue : BoundedQueue α) : Monitor α κ :=
  { s with queue }.set t (.notifyEmpty s.onPush)

/-- The section under the mutex of a `push` or a `pop`. -/
def enter (s : Monitor α κ) (t : Nat) : Option (Monitor α κ × List (QueueEvent α κ)) :=
  match s.threads[t]? with
  | some (.pushing item) =>
    match s.queue.push item with
    | none => some (s.set t (.pushAsleep item), [])
    | some (.kOk, queue) => some (s.accept t queue, [.accepted t item])
    | some (_, queue) => some ({ s with queue }.set t .outside, [.pushClosed t item])
  | some (.popping _) =>
    match s.queue.pop (s.stopRequested t) with
    | none => some (s.set t .popAsleep, [])
    | some (.kOk item queue) => some ({ s with queue }.set t .notifyFull, [.popped t item])
    | some .kClosed => some (s.set t .outside, [.popClosed t])
    | some .kStopped => some (s.set t .outside, [.popStopped t])
  | _ => none

/-- What is left of a stop request once the flag of `target` is set. -/
def stopNotice (s : Monitor α κ) (target : Nat) : MonitorPhase α κ :=
  if s.threads[target]?.any MonitorPhase.registered then .stopping else .outside

/-- A thread that is not in a call makes one. -/
def call (s : Monitor α κ) (t : Nat) (result : Monitor α κ × List (QueueEvent α κ)) :
    Option (Monitor α κ × List (QueueEvent α κ)) :=
  match s.threads[t]? with
  | some .outside => some result
  | _ => none

def step (s : Monitor α κ) : MonitorChoice α κ → Option (Monitor α κ × List (QueueEvent α κ))
  | .push t item => s.call t (s.set t (.pushing item), [])
  | .pop t => s.call t (s.set t (.popping false), [])
  | .enter t => s.enter t
  | .tryPush t item =>
    s.call t <| match s.queue.tryPushRef item with
      | (.kOk, _, queue) => (s.accept t queue, [.accepted t item])
      | (status, left, queue) => ({ s with queue }, [.tryRefused t item status left])
  | .tryPop t =>
    s.call t <| match s.queue.tryPop with
      | some (item, queue) => ({ s with queue }.set t .notifyFull, [.popped t item])
      | none => (s, [.tryEmpty t])
  | .close t => s.call t ({ s with queue := s.queue.close }.set t .closingEmpty, [.closed t])
  | .setOnPush t callback =>
    s.call t ({ s with onPush := callback },
      [match callback with | some callback => .registered callback | none => .cleared])
  | .notifyOne t woken =>
    match s.threads[t]?.bind MonitorPhase.notifyOne with
    | some (asleep, next) => (s.wakeOne asleep woken).map fun s => (s.set t next, [])
    | none => none
  | .notifyAll t =>
    match s.threads[t]?.bind MonitorPhase.notifyAll with
    | some (asleep, next) => some ((s.wakeAll asleep).set t next, [])
    | none => none
  | .finishPush t =>
    match s.threads[t]? with
    | some (.calling (some callback)) => some (s.set t .outside, [.invoked t callback])
    | some (.calling none) => some (s.set t .outside, [])
    | _ => none
  | .spurious t =>
    match s.threads[t]? with
    | some (.pushAsleep item) => some (s.set t (.pushing item), [])
    | some .popAsleep => some (s.set t (.popping true), [])
    | _ => none
  | .requestStop t target =>
    s.call t ({ s with stopRequested := Function.update s.stopRequested target true }.set t (s.stopNotice target), [])

def Run (capacity : Nat) (h : 0 < capacity) (threads : Nat) (log : List (QueueEvent α κ)) (s : Monitor α κ) :
    Prop :=
  Exec (Step Monitor.step) (start capacity h threads) log s

/-- A step of a thread in a call it has begun. -/
def OwnStep (s : Monitor α κ) (evs : List (QueueEvent α κ)) (s' : Monitor α κ) : Prop :=
  ∃ choice : MonitorChoice α κ, choice.isOwn = true ∧ s.step choice = some (s', evs)

end Monitor

section
variable {α κ : Type} {s s' : Monitor α κ} {evs log : List (QueueEvent α κ)}

/-- A step of some thread; `true` for a step in a call it has begun. -/
inductive MonitorMove (s : Monitor α κ) : Bool → List (QueueEvent α κ) → Monitor α κ → Prop
  | call {t : Nat} {phase : MonitorPhase α κ} : s.threads[t]? = some .outside →
    phase = .popping false ∨ (∃ item, phase = .pushing item) → MonitorMove s false [] (s.set t phase)
  | accept {own : Bool} {t : Nat} {item : α} {phase : MonitorPhase α κ}
    (hroom : s.queue.items.length < s.queue.capacity) :
    s.threads[t]? = some phase →
    phase = .outside ∧ own = false ∨ phase = .pushing item ∧ own = true → s.queue.closed = false →
    MonitorMove s own [.accepted t item] (s.accept t (s.queue.enqueue item hroom))
  | pushClosed {t : Nat} {item : α} : s.threads[t]? = some (.pushing item) → s.queue.closed = true →
    MonitorMove s true [.pushClosed t item] (s.set t .outside)
  | pushSleep {t : Nat} {item : α} : s.threads[t]? = some (.pushing item) → s.queue.closed = false →
    s.queue.items.length = s.queue.capacity → MonitorMove s true [] (s.set t (.pushAsleep item))
  | tryRefused {t : Nat} {item : α} {status : PushStatus} : s.threads[t]? = some .outside →
    s.queue.tryPushRef item = (status, some item, s.queue) → status ≠ .kOk →
    MonitorMove s false [.tryRefused t item status (some item)] s
  | take {own : Bool} {t : Nat} {item : α} {rest : List α} {phase : MonitorPhase α κ} :
    s.threads[t]? = some phase → phase = .outside ∧ own = false ∨ (∃ waited, phase = .popping waited) ∧ own = true →
    s.queue.items = item :: rest →
    MonitorMove s own [.popped t item] ({ s with queue := s.queue.dequeue }.set t .notifyFull)
  | popClosed {t : Nat} {waited : Bool} : s.threads[t]? = some (.popping waited) → s.queue.items = [] → s.queue.closed = true →
    MonitorMove s true [.popClosed t] (s.set t .outside)
  | popStopped {t : Nat} {waited : Bool} : s.threads[t]? = some (.popping waited) → s.queue.items = [] → s.queue.closed = false →
    s.stopRequested t = true → MonitorMove s true [.popStopped t] (s.set t .outside)
  | popSleep {t : Nat} {waited : Bool} : s.threads[t]? = some (.popping waited) → s.queue.items = [] → s.queue.closed = false →
    s.stopRequested t = false → MonitorMove s true [] (s.set t .popAsleep)
  | tryEmpty {t : Nat} : s.threads[t]? = some .outside → s.queue.items = [] → MonitorMove s false [.tryEmpty t] s
  | close {t : Nat} : s.threads[t]? = some .outside →
    MonitorMove s false [.closed t] ({ s with queue := s.queue.close }.set t .closingEmpty)
  | setOnPush {t : Nat} {callback : Option κ} : s.threads[t]? = some .outside →
    MonitorMove s false [match callback with | some callback => .registered callback | none => .cleared]
      { s with onPush := callback }
  | wakeOne {t u : Nat} {phase sleeper next : MonitorPhase α κ} {asleep : QueuePlace} :
    s.threads[t]? = some phase → phase.notifyOne = some (asleep, next) → s.threads[u]? = some sleeper →
    sleeper.place = asleep → MonitorMove s true [] ((s.set u sleeper.awakened).set t next)
  | wakeNone {t : Nat} {phase next : MonitorPhase α κ} {asleep : QueuePlace} :
    s.threads[t]? = some phase → phase.notifyOne = some (asleep, next) → s.count asleep = 0 →
    MonitorMove s true [] (s.set t next)
  | wakeAll {t : Nat} {phase next : MonitorPhase α κ} {asleep : QueuePlace} :
    s.threads[t]? = some phase → phase.notifyAll = some (asleep, next) →
    MonitorMove s true [] ((s.wakeAll asleep).set t next)
  | invoke {t : Nat} {callback : κ} : s.threads[t]? = some (.calling (some callback)) →
    MonitorMove s true [.invoked t callback] (s.set t .outside)
  | finish {t : Nat} : s.threads[t]? = some (.calling none) → MonitorMove s true [] (s.set t .outside)
  | spurious {t : Nat} {phase : MonitorPhase α κ} : s.threads[t]? = some phase →
    phase = .popAsleep ∨ (∃ item, phase = .pushAsleep item) → MonitorMove s false [] (s.set t phase.awakened)
  | requestStop {t target : Nat} : s.threads[t]? = some .outside →
    MonitorMove s false []
      ({ s with stopRequested := Function.update s.stopRequested target true }.set t (s.stopNotice target))

namespace Monitor

theorem of_call {t : Nat} {result : Monitor α κ × List (QueueEvent α κ)}
    (h : s.call t result = some (s', evs)) : s.threads[t]? = some .outside ∧ result = (s', evs) := by
  unfold call at h
  split at h
  · next hphase => exact ⟨hphase, Option.some.inj h⟩
  · cases h

theorem enter_move {t : Nat} (h : s.enter t = some (s', evs)) : MonitorMove s true evs s' := by
  unfold enter at h
  split at h
  · next item hphase =>
    cases hpush : s.queue.push item with
    | none =>
      rw [hpush] at h; cases h
      unfold BoundedQueue.push at hpush
      split_ifs at hpush with hclosed hroom
      exact .pushSleep hphase (Bool.eq_false_iff.mpr hclosed)
        (Nat.le_antisymm s.queue.length_le (Nat.le_of_not_lt hroom))
    | some r =>
      obtain ⟨status, queue⟩ := r
      rw [hpush] at h
      rcases BoundedQueue.push_cases hpush with ⟨hclosed, rfl, rfl⟩ | ⟨hopen, rfl, hroom, rfl⟩
      · cases h; exact .pushClosed hphase hclosed
      · cases h; exact .accept hroom hphase (.inr ⟨rfl, rfl⟩) hopen
  · next hphase =>
    cases hpop : s.queue.pop (s.stopRequested t) with
    | none =>
      rw [hpop] at h; cases h
      unfold BoundedQueue.pop at hpop
      cases hitems : s.queue.items with
      | cons item rest => rw [hitems] at hpop; cases hpop
      | nil =>
        rw [hitems] at hpop; dsimp only at hpop
        split_ifs at hpop with hclosed hstop
        exact .popSleep hphase hitems (Bool.eq_false_iff.mpr hclosed) (Bool.eq_false_iff.mpr hstop)
    | some r =>
      rw [hpop] at h
      rcases BoundedQueue.pop_cases hpop with
        ⟨item, rest, hitems, rfl⟩ | ⟨hnil, hclosed, rfl⟩ | ⟨hnil, hopen, hstop, rfl⟩
      · cases h; exact .take hphase (.inr ⟨⟨_, rfl⟩, rfl⟩) hitems
      · cases h; exact .popClosed hphase hnil hclosed
      · cases h; exact .popStopped hphase hnil hopen hstop
  · cases h

theorem tryPush_move {t : Nat} {item : α} (h : s.step (.tryPush t item) = some (s', evs)) :
    MonitorMove s false evs s' := by
  obtain ⟨hphase, hresult⟩ := of_call h
  cases htry : s.queue.tryPushRef item with
  | mk status r =>
    obtain ⟨left, queue⟩ := r
    rw [htry] at hresult
    have hcases := htry
    unfold BoundedQueue.tryPushRef at hcases
    split_ifs at hcases with hclosed hroom
    · cases hcases; cases hresult
      exact .tryRefused hphase htry (by decide)
    · cases hcases; cases hresult
      exact .accept hroom hphase (.inl ⟨rfl, rfl⟩) (Bool.eq_false_iff.mpr hclosed)
    · cases hcases; cases hresult
      exact .tryRefused hphase htry (by decide)

theorem notifyOne_move {t : Nat} {woken : Option Nat} (h : s.step (.notifyOne t woken) = some (s', evs)) :
    MonitorMove s true evs s' := by
  unfold step at h
  dsimp only at h
  split at h
  · next asleep next hnotify =>
    obtain ⟨phase, hphase, hnotify⟩ := Option.bind_eq_some_iff.mp hnotify
    obtain ⟨s₁, hwake, heq⟩ := Option.map_eq_some_iff.mp h
    cases heq
    unfold wakeOne at hwake
    cases woken with
    | none =>
      dsimp only at hwake
      split_ifs at hwake with hnone
      cases hwake
      exact .wakeNone hphase hnotify hnone
    | some u =>
      dsimp only at hwake
      split at hwake
      · next sleeper hsleeper =>
        split_ifs at hwake with hplace
        cases hwake
        exact .wakeOne hphase hnotify hsleeper hplace
      · cases hwake
  · cases h

theorem move_of_step {choice : MonitorChoice α κ} (h : s.step choice = some (s', evs)) :
    MonitorMove s choice.isOwn evs s' := by
  cases choice with
  | push t item => obtain ⟨hphase, heq⟩ := of_call h; cases heq; exact .call hphase (.inr ⟨item, rfl⟩)
  | pop t => obtain ⟨hphase, heq⟩ := of_call h; cases heq; exact .call hphase (.inl rfl)
  | enter t => exact enter_move h
  | tryPush t item => exact tryPush_move h
  | tryPop t =>
    obtain ⟨hphase, heq⟩ := of_call h
    rcases s.queue.tryPop_cases with ⟨hnil, htry⟩ | ⟨item, rest, hitems, htry⟩
    · rw [htry] at heq; cases heq; exact .tryEmpty hphase hnil
    · rw [htry] at heq; cases heq; exact .take hphase (.inl ⟨rfl, rfl⟩) hitems
  | close t => obtain ⟨hphase, heq⟩ := of_call h; cases heq; exact .close hphase
  | setOnPush t callback => obtain ⟨hphase, heq⟩ := of_call h; cases heq; exact .setOnPush hphase
  | notifyOne t woken => exact notifyOne_move h
  | notifyAll t =>
    unfold step at h
    dsimp only at h
    split at h
    · next asleep next hnotify =>
      obtain ⟨phase, hphase, hnotify⟩ := Option.bind_eq_some_iff.mp hnotify
      cases h
      exact .wakeAll hphase hnotify
    · cases h
  | finishPush t =>
    unfold step at h
    dsimp only at h
    split at h
    · next callback hphase => cases h; exact .invoke hphase
    · next hphase => cases h; exact .finish hphase
    · cases h
  | spurious t =>
    unfold step at h
    dsimp only at h
    split at h
    · next item hphase => cases h; exact .spurious hphase (.inr ⟨item, rfl⟩)
    · next hphase => cases h; exact .spurious hphase (.inl rfl)
    · cases h
  | requestStop t target => obtain ⟨hphase, heq⟩ := of_call h; cases heq; exact .requestStop hphase

end Monitor

/-! ### Seen from `QueueThreads` -/

/-- Between its section and its callback a thread holds an accepted item; it is idle everywhere else. -/
def MonitorPhase.toThread : MonitorPhase α κ → ThreadPhase κ
  | .notifyEmpty callback => .accepted callback
  | .calling callback => .accepted callback
  | _ => .idle

namespace Monitor

def toQueue (s : Monitor α κ) : QueueState α κ where
  queue := s.queue
  onPush := s.onPush
  phase t := (s.threads[t]?.map MonitorPhase.toThread).getD .idle
  stopRequested := s.stopRequested

variable {t u : Nat} {phase next sleeper : MonitorPhase α κ} {asleep : QueuePlace}

theorem phase_toQueue (h : s.threads[t]? = some phase) : s.toQueue.phase t = phase.toThread := by
  unfold toQueue; dsimp only; rw [h]; rfl

theorem idle_toQueue (h : s.threads[t]? = some phase) (hidle : phase.toThread = .idle) :
    s.toQueue.idle t = true := by
  unfold QueueState.idle
  rw [phase_toQueue h, hidle]

theorem step_push (h : s.threads[t]? = some phase) (hidle : phase.toThread = .idle) (item : α) :
    s.toQueue.step (.push t item) = match s.queue.push item with
      | none => none
      | some (.kOk, queue) => some (s.toQueue.accept t queue, [.accepted t item])
      | some (_, queue) => some ({ s.toQueue with queue }, [.pushClosed t item]) :=
  if_pos (idle_toQueue h hidle)

theorem step_pop (h : s.threads[t]? = some phase) (hidle : phase.toThread = .idle) :
    s.toQueue.step (.pop t) = match s.queue.pop (s.stopRequested t) with
      | none => none
      | some (.kOk item queue) => some ({ s.toQueue with queue }, [.popped t item])
      | some .kClosed => some (s.toQueue, [.popClosed t])
      | some .kStopped => some (s.toQueue, [.popStopped t]) :=
  if_pos (idle_toQueue h hidle)

theorem toQueue_set (h : s.threads[t]? = some phase) (next : MonitorPhase α κ) :
    (s.set t next).toQueue = s.toQueue.setPhase t next.toThread := by
  have hlt : t < s.threads.length := (List.getElem?_eq_some_iff.mp h).1
  have hphase : (s.set t next).toQueue.phase = Function.update s.toQueue.phase t next.toThread := by
    funext u
    unfold toQueue set
    dsimp only
    rw [Function.update_apply, List.getElem?_set]
    rcases eq_or_ne t u with rfl | hne
    · rw [if_pos rfl, if_pos hlt, if_pos rfl]; rfl
    · rw [if_neg hne, if_neg hne.symm]
  calc (s.set t next).toQueue
      = ⟨s.queue, s.onPush, (s.set t next).toQueue.phase, s.stopRequested⟩ := rfl
    _ = s.toQueue.setPhase t next.toThread := by rw [hphase]; rfl

theorem toQueue_set_eq (h : s.threads[t]? = some phase) (next : MonitorPhase α κ)
    (hsame : next.toThread = phase.toThread) : (s.set t next).toQueue = s.toQueue := by
  rw [toQueue_set h, hsame, ← phase_toQueue h]
  unfold QueueState.setPhase
  rw [Function.update_eq_self]

theorem toThread_awakened (phase : MonitorPhase α κ) : phase.awakened.toThread = phase.toThread := by
  cases phase <;> rfl

theorem toQueue_wakeAll (s : Monitor α κ) (asleep : QueuePlace) : (s.wakeAll asleep).toQueue = s.toQueue := by
  have hphase : (s.wakeAll asleep).toQueue.phase = s.toQueue.phase := by
    funext u
    unfold toQueue wakeAll
    dsimp only
    rw [List.getElem?_map]
    cases s.threads[u]? with
    | none => rfl
    | some phase =>
      rw [Option.map_some, Option.map_some, Option.map_some]
      split_ifs
      · rw [toThread_awakened]
      · rfl
  calc (s.wakeAll asleep).toQueue
      = ⟨s.queue, s.onPush, (s.wakeAll asleep).toQueue.phase, s.stopRequested⟩ := rfl
    _ = s.toQueue := by rw [hphase]; rfl

theorem notifyOne_cases (h : phase.notifyOne = some (asleep, next)) :
    (∃ callback, phase = .notifyEmpty callback ∧ asleep = .popAsleep ∧ next = .calling callback) ∨
      (phase = .notifyFull ∧ asleep = .pushAsleep ∧ next = .outside) := by
  cases phase <;> cases h
  · exact .inl ⟨_, rfl, rfl, rfl⟩
  · exact .inr ⟨rfl, rfl, rfl⟩

theorem notifyAll_cases (h : phase.notifyAll = some (asleep, next)) :
    (phase = .closingEmpty ∧ asleep = .popAsleep ∧ next = .closingFull) ∨
      (phase = .closingFull ∧ asleep = .pushAsleep ∧ next = .outside) ∨
      (phase = .stopping ∧ asleep = .popAsleep ∧ next = .outside) := by
  cases phase <;> cases h
  · exact .inl ⟨rfl, rfl, rfl⟩
  · exact .inr (.inl ⟨rfl, rfl, rfl⟩)
  · exact .inr (.inr ⟨rfl, rfl, rfl⟩)

theorem toThread_notifyOne (h : phase.notifyOne = some (asleep, next)) : next.toThread = phase.toThread := by
  rcases notifyOne_cases h with ⟨callback, rfl, -, rfl⟩ | ⟨rfl, -, rfl⟩ <;> rfl

theorem toThread_notifyAll (h : phase.notifyAll = some (asleep, next)) :
    next.toThread = phase.toThread := by
  rcases notifyAll_cases h with ⟨rfl, -, rfl⟩ | ⟨rfl, -, rfl⟩ | ⟨rfl, -, rfl⟩ <;> rfl

theorem ne_of_notifyOne (ht : s.threads[t]? = some phase) (h : phase.notifyOne = some (asleep, next))
    (hu : s.threads[u]? = some sleeper) (hplace : sleeper.place = asleep) : u ≠ t := by
  rintro rfl
  cases ht.symm.trans hu
  rcases notifyOne_cases h with ⟨callback, rfl, rfl, -⟩ | ⟨rfl, rfl, -⟩ <;> cases hplace

theorem getElem?_set_of_ne (h : u ≠ t) (next : MonitorPhase α κ) : (s.set u next).threads[t]? = s.threads[t]? :=
  List.getElem?_set_ne h

theorem getElem?_wakeAll (h : s.threads[t]? = some phase) (hne : phase.place ≠ asleep) :
    (s.wakeAll asleep).threads[t]? = some phase := by
  unfold wakeAll
  dsimp only
  rw [List.getElem?_map, h, Option.map_some, if_neg hne]

theorem place_ne_of_notifyAll (h : phase.notifyAll = some (asleep, next)) : phase.place ≠ asleep := by
  rcases notifyAll_cases h with ⟨rfl, rfl, -⟩ | ⟨rfl, rfl, -⟩ | ⟨rfl, rfl, -⟩ <;> exact QueuePlace.noConfusion

end Monitor

theorem MonitorMove.toQueue {own : Bool} (h : MonitorMove s own evs s') :
    Exec (Step QueueState.step) s.toQueue evs s'.toQueue := by
  cases h with
  | call ht hphase =>
    rw [Monitor.toQueue_set_eq ht _ (by rcases hphase with rfl | ⟨item, rfl⟩ <;> rfl)]
    exact .refl
  | @accept _ t item phase hroom ht hphase hopen =>
    have hidle : phase.toThread = .idle := by rcases hphase with ⟨rfl, -⟩ | ⟨rfl, -⟩ <;> rfl
    have hpush : s.queue.push item = some (.kOk, s.queue.enqueue item hroom) := by
      unfold BoundedQueue.push
      rw [hopen, if_neg Bool.false_ne_true, dif_pos hroom]
    unfold Monitor.accept
    rw [Monitor.toQueue_set (s := { s with queue := s.queue.enqueue item hroom }) ht]
    exact .single ⟨.push t item, by rw [Monitor.step_push ht hidle, hpush]; rfl⟩
  | @pushClosed t item ht hclosed =>
    have hpush : s.queue.push item = some (.kClosed, s.queue) := if_pos hclosed
    rw [Monitor.toQueue_set_eq ht .outside rfl]
    exact .single ⟨.push t item, by rw [Monitor.step_push ht rfl, hpush]; rfl⟩
  | @pushSleep t item ht _ _ =>
    rw [Monitor.toQueue_set_eq ht (.pushAsleep item) rfl]
    exact .refl
  | @tryRefused t item status ht htry hne =>
    refine .single ⟨.tryPush t item, ?_⟩
    unfold QueueState.step
    dsimp only
    rw [if_pos (Monitor.idle_toQueue ht rfl), show s.toQueue.queue = s.queue from rfl, htry]
    cases status with
    | kOk => exact absurd rfl hne
    | kFull => rfl
    | kClosed => rfl
  | @take _ t item rest phase ht hphase hitems =>
    have hidle : phase.toThread = .idle := by rcases hphase with ⟨rfl, -⟩ | ⟨⟨waited, rfl⟩, -⟩ <;> rfl
    have hpop : s.queue.pop (s.stopRequested t) = some (.kOk item s.queue.dequeue) := by
      unfold BoundedQueue.pop
      rw [hitems]
    rw [Monitor.toQueue_set_eq (s := { s with queue := s.queue.dequeue }) ht .notifyFull hidle.symm]
    exact .single ⟨.pop t, by rw [Monitor.step_pop ht hidle, hpop]; rfl⟩
  | @popClosed t waited ht hnil hclosed =>
    have hpop : s.queue.pop (s.stopRequested t) = some .kClosed := by
      unfold BoundedQueue.pop
      rw [hnil]
      exact if_pos hclosed
    rw [Monitor.toQueue_set_eq ht .outside rfl]
    exact .single ⟨.pop t, by rw [Monitor.step_pop ht rfl, hpop]⟩
  | @popStopped t waited ht hnil hopen hstop =>
    have hpop : s.queue.pop (s.stopRequested t) = some .kStopped := by
      unfold BoundedQueue.pop
      rw [hnil, hopen, hstop]
      rfl
    rw [Monitor.toQueue_set_eq ht .outside rfl]
    exact .single ⟨.pop t, by rw [Monitor.step_pop ht rfl, hpop]⟩
  | popSleep ht _ _ _ =>
    rw [Monitor.toQueue_set_eq ht .popAsleep rfl]
    exact .refl
  | @tryEmpty t ht hnil =>
    refine .single ⟨.tryPop t, ?_⟩
    unfold QueueState.step BoundedQueue.tryPop
    dsimp only
    rw [if_pos (Monitor.idle_toQueue ht rfl), show s.toQueue.queue.items = [] from hnil]
  | @close t ht =>
    rw [Monitor.toQueue_set_eq (s := { s with queue := s.queue.close }) ht .closingEmpty rfl]
    exact .single ⟨.close t, if_pos (Monitor.idle_toQueue ht rfl)⟩
  | @setOnPush t callback ht => exact .single ⟨.setOnPush t callback, if_pos (Monitor.idle_toQueue ht rfl)⟩
  | wakeOne ht hnotify hu hplace =>
    have hne := Monitor.ne_of_notifyOne ht hnotify hu hplace
    rw [Monitor.toQueue_set_eq ((Monitor.getElem?_set_of_ne hne _).trans ht) _ (Monitor.toThread_notifyOne hnotify),
      Monitor.toQueue_set_eq hu _ (Monitor.toThread_awakened _)]
    exact .refl
  | wakeNone ht hnotify _ =>
    rw [Monitor.toQueue_set_eq ht _ (Monitor.toThread_notifyOne hnotify)]
    exact .refl
  | wakeAll ht hnotify =>
    rw [Monitor.toQueue_set_eq (Monitor.getElem?_wakeAll ht (Monitor.place_ne_of_notifyAll hnotify)) _
      (Monitor.toThread_notifyAll hnotify), Monitor.toQueue_wakeAll]
    exact .refl
  | @invoke t callback ht =>
    rw [Monitor.toQueue_set ht]
    refine .single ⟨.finishPush t, ?_⟩
    unfold QueueState.step
    dsimp only
    rw [Monitor.phase_toQueue ht]
    rfl
  | @finish t ht =>
    rw [Monitor.toQueue_set ht]
    refine .single ⟨.finishPush t, ?_⟩
    unfold QueueState.step
    dsimp only
    rw [Monitor.phase_toQueue ht]
    rfl
  | spurious ht _ =>
    rw [Monitor.toQueue_set_eq ht _ (Monitor.toThread_awakened _)]
    exact .refl
  | @requestStop t target ht =>
    have hidle : (s.stopNotice target).toThread = .idle := by
      unfold Monitor.stopNotice
      split_ifs <;> rfl
    have hset := Monitor.toQueue_set_eq
      (s := { s with stopRequested := Function.update s.stopRequested target true }) ht (s.stopNotice target) hidle
    rw [hset]
    exact .single ⟨.requestStop target, rfl⟩

theorem Monitor.toQueue_start (capacity : Nat) (h : 0 < capacity) (threads : Nat) :
    (Monitor.start capacity h threads : Monitor α κ).toQueue = QueueState.start capacity h := by
  have hphase : (Monitor.start capacity h threads : Monitor α κ).toQueue.phase = fun _ => .idle := by
    funext t
    unfold Monitor.toQueue Monitor.start
    dsimp only
    rw [List.getElem?_replicate]
    split_ifs <;> rfl
  calc (Monitor.start capacity h threads : Monitor α κ).toQueue
      = ⟨.make capacity h, none, (Monitor.start capacity h threads).toQueue.phase, fun _ => false⟩ := rfl
    _ = QueueState.start capacity h := by rw [hphase]; rfl

/-- Sleeping, waking for a reason or for none, and notifying do not show: any number of threads that use the
condition variables produce a log of `QueueThreads`, and leave the queue as it is left there. -/
theorem monitor_refines {capacity threads : Nat} {hpos : 0 < capacity}
    (hrun : Monitor.Run capacity hpos threads log s) : QueueState.Run capacity hpos log s.toQueue := by
  have hexec : Exec (Step QueueState.step) (Monitor.start capacity hpos threads).toQueue log s.toQueue := by
    refine Exec.map Monitor.toQueue (fun s evs s' hstep => ?_) hrun
    obtain ⟨choice, hstep⟩ := hstep
    exact (Monitor.move_of_step hstep).toQueue
  rwa [Monitor.toQueue_start] at hexec

end

/-- Thread 0 finds the queue empty and sleeps; thread 1 puts an item in. -/
def handover : List (MonitorChoice Nat Nat) := [.pop 0, .enter 0, .push 1 5, .enter 1]

/-- What `handover` leaves: an item, a sleeper and the notification for it still to come. -/
def handedOver : Monitor Nat Nat where
  queue := (BoundedQueue.make 1 Nat.zero_lt_one).enqueue 5 Nat.zero_lt_one
  threads := [.popAsleep, .notifyEmpty none]

theorem run_handover :
    run Monitor.step (Monitor.start 1 Nat.zero_lt_one 2) handover = some (handedOver, [.accepted 1 5]) := rfl

theorem monitor_refines_handover :
    Monitor.Run 1 Nat.zero_lt_one 2 [.accepted 1 5] handedOver ∧
      QueueState.Run 1 Nat.zero_lt_one [.accepted 1 5] handedOver.toQueue :=
  have hrun : Monitor.Run 1 Nat.zero_lt_one 2 [.accepted 1 5] handedOver := exec_of_run run_handover
  ⟨hrun, monitor_refines hrun⟩

end KvStore
