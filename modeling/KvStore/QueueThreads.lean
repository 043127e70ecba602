import KvStore.BoundedQueue
import KvStore.Lib.Transition
import Mathlib.Logic.Function.Basic

/-!
# A bounded queue among threads

Any number of threads use one `BoundedQueue`: each critical section is one step, and so is the callback that a
thread calls after an item of its was accepted, outside the lock, with the copy of `on_push_` it made inside.
A thread that has to wait has no step. `QueueMove` lists the steps, `queueMove_of_step` says that there are no
others.

`bounded_fifo`: the queue is a bounded FIFO with `close`. `callback_final`: a callback is not called any more
after `set_on_push(nullptr)`, provided no thread held a copy of it when it was cleared; a thread that does hold
one calls it afterwards (`callback_after_clear`).
-/

namespace KvStore
open Transition

namespace BoundedQueue
variable {α : Type}

/-- `try_push(T& item)` with what it leaves in the caller's variable; `none` is a value that was moved from. -/
def tryPushRef (q : BoundedQueue α) (item : α) : PushStatus × Option α × BoundedQueue α :=
  if q.closed then (.kClosed, some item, q)
  else if h : q.items.length < q.capacity then (.kOk, none, q.enqueue item h)
  else (.kFull, some item, q)

theorem tryPushRef_eq (q : BoundedQueue α) (item : α) :
    ((q.tryPushRef item).1, (q.tryPushRef item).2.2) = q.tryPush item := by
  unfold tryPushRef tryPush
  split_ifs <;> rfl

end BoundedQueue

/-- Where a thread stands. -/
inductive ThreadPhase (κ : Type) where
  | idle
  /-- Its item was accepted; it has still to call the callback it copied, if there was one. -/
  | accepted (callback : Option κ)

structure QueueState (α κ : Type) where
  queue : BoundedQueue α
  onPush : Option κ := none
  phase : Nat → ThreadPhase κ := fun _ => .idle
  /-- The stop tokens of the threads. -/
  stopRequested : Nat → Bool := fun _ => false

inductive QueueEvent (α κ : Type) where
  | accepted (thread : Nat) (item : α)
  | pushClosed (thread : Nat) (item : α)
  /-- `try_push` answered `status` and left `left` in the caller's variable. -/
  | tryRefused (thread : Nat) (item : α) (status : PushStatus) (left : Option α)
  | popped (thread : Nat) (item : α)
  | popClosed (thread : Nat)
  | popStopped (thread : Nat)
  | tryEmpty (thread : Nat)
  | closed (thread : Nat)
  | registered (callback : κ)
  | cleared
  | invoked (thread : Nat) (callback : κ)
deriving DecidableEq

/-- Which thread goes on, and with which call. -/
inductive QueueChoice (α κ : Type) where
  | push (thread : Nat) (item : α)
  | tryPush (thread : Nat) (item : α)
  /-- The second half of an accepted `push` or `try_push`. -/
  | finishPush (thread : Nat)
  | pop (thread : Nat)
  | tryPop (thread : Nat)
  | close (thread : Nat)
  | setOnPush (thread : Nat) (callback : Option κ)
  | requestStop (thread : Nat)

namespace QueueState
variable {α κ : Type}

def start (capacity : Nat) (h : 0 < capacity) : QueueState α κ := { queue := .make capacity h }

def idle (s : QueueState α κ) (t : Nat) : Bool :=
  match s.phase t with
  | .idle => true
  | .accepted _ => false

def setPhase (s : QueueState α κ) (t : Nat) (phase : ThreadPhase κ) : QueueState α κ :=
  { s with phase := Function.update s.phase t phase }

/-- The callback is copied under the lock. -/
def accept (s : QueueState α κ) (t : Nat) (queue : BoundedQueue α) : QueueState α κ :=
  { s with queue }.setPhase t (.accepted s.onPush)

def step (s : QueueState α κ) : QueueChoice α κ → Option (QueueState α κ × List (QueueEvent α κ))
  | .push t item =>
    if s.idle t then
      match s.queue.push item with
      | none => none
      | some (.kOk, queue) => some (s.accept t queue, [.accepted t item])
      | some (_, queue) => some ({ s with queue }, [.pushClosed t item])
    else none
  | .tryPush t item =>
    if s.idle t then
      match s.queue.tryPushRef item with
      | (.kOk, _, queue) => some (s.accept t queue, [.accepted t item])
      | (status, left, queue) => some ({ s with queue }, [.tryRefused t item status left])
    else none
  | .finishPush t =>
    match s.phase t with
    | .accepted (some callback) => some (s.setPhase t .idle, [.invoked t callback])
    | .accepted none => some (s.setPhase t .idle, [])
    | .idle => none
  | .pop t =>
    if s.idle t then
      match s.queue.pop (s.stopRequested t) with
      | none => none
      | some (.kOk item queue) => some ({ s with queue }, [.popped t item])
      | some .kClosed => some (s, [.popClosed t])
      | some .kStopped => some (s, [.popStopped t])
    else none
  | .tryPop t =>
    if s.idle t then
      match s.queue.tryPop with
      | some (item, queue) => some ({ s with queue }, [.popped t item])
      | none => some (s, [.tryEmpty t])
    else none
  | .close t => if s.idle t then some ({ s with queue := s.queue.close }, [.closed t]) else none
  | .setOnPush t callback =>
    if s.idle t then
      some ({ s with onPush := callback }, [match callback with | some callback => .registered callback | none => .cleared])
    else none
  | .requestStop t => some ({ s with stopRequested := Function.update s.stopRequested t true }, [])

def Run (capacity : Nat) (h : 0 < capacity) (log : List (QueueEvent α κ)) (s : QueueState α κ) : Prop :=
  Exec (Step QueueState.step) (start capacity h) log s

end QueueState

section
variable {α κ : Type} {s s' : QueueState α κ} {evs log : List (QueueEvent α κ)}

/-- A step of some thread. -/
inductive QueueMove (s : QueueState α κ) : List (QueueEvent α κ) → QueueState α κ → Prop
  | accept {t : Nat} {item : α} (hroom : s.queue.items.length < s.queue.capacity) : s.queue.closed = false →
    QueueMove s [.accepted t item] (s.accept t (s.queue.enqueue item hroom))
  | pushClosed {t : Nat} {item : α} : s.queue.closed = true → QueueMove s [.pushClosed t item] s
  | tryRefused {t : Nat} {item : α} {status : PushStatus} :
    status = .kClosed ∧ s.queue.closed = true ∨
      status = .kFull ∧ s.queue.closed = false ∧ s.queue.items.length = s.queue.capacity →
    QueueMove s [.tryRefused t item status (some item)] s
  | invoke {t : Nat} {callback : κ} : s.phase t = .accepted (some callback) →
    QueueMove s [.invoked t callback] (s.setPhase t .idle)
  | finish {t : Nat} : s.phase t = .accepted none → QueueMove s [] (s.setPhase t .idle)
  | take {t : Nat} {item : α} {rest : List α} : s.queue.items = item :: rest →
    QueueMove s [.popped t item] { s with queue := s.queue.dequeue }
  | popClosed {t : Nat} : s.queue.items = [] → s.queue.closed = true → QueueMove s [.popClosed t] s
  | popStopped {t : Nat} : s.queue.items = [] → s.queue.closed = false → QueueMove s [.popStopped t] s
  | tryEmpty {t : Nat} : s.queue.items = [] → QueueMove s [.tryEmpty t] s
  | close {t : Nat} : QueueMove s [.closed t] { s with queue := s.queue.close }
  | register {callback : κ} : QueueMove s [.registered callback] { s with onPush := some callback }
  | clear : QueueMove s [.cleared] { s with onPush := none }
  | requestStop {t : Nat} :
    QueueMove s [] { s with stopRequested := Function.update s.stopRequested t true }

theorem push_move {t : Nat} {item : α} (h : s.step (.push t item) = some (s', evs)) : QueueMove s evs s' := by
  unfold QueueState.step at h
  dsimp only at h
  split_ifs at h
  cases hpush : s.queue.push item with
  | none => rw [hpush] at h; cases h
  | some r =>
    obtain ⟨status, queue⟩ := r
    rw [hpush] at h
    rcases BoundedQueue.push_cases hpush with ⟨hclosed, rfl, rfl⟩ | ⟨hopen, rfl, hroom, rfl⟩
    · cases h; exact .pushClosed hclosed
    · cases h; exact .accept hroom hopen

theorem tryPush_move {t : Nat} {item : α} (h : s.step (.tryPush t item) = some (s', evs)) :
    QueueMove s evs s' := by
  unfold QueueState.step BoundedQueue.tryPushRef at h
  dsimp only at h
  split_ifs at h with _ hclosed hroom
  · cases h; exact .tryRefused (.inl ⟨rfl, hclosed⟩)
  · cases h; exact .accept hroom (Bool.eq_false_iff.mpr hclosed)
  · cases h
    have hfull := Nat.le_antisymm s.queue.length_le (Nat.le_of_not_lt hroom)
    exact .tryRefused (.inr ⟨rfl, Bool.eq_false_iff.mpr hclosed, hfull⟩)

theorem pop_move {t : Nat} (h : s.step (.pop t) = some (s', evs)) : QueueMove s evs s' := by
  unfold QueueState.step at h
  dsimp only at h
  split_ifs at h
  cases hpop : s.queue.pop (s.stopRequested t) with
  | none => rw [hpop] at h; cases h
  | some r =>
    rw [hpop] at h
    rcases BoundedQueue.pop_cases hpop with ⟨item, rest, hitems, rfl⟩ | ⟨hnil, hclosed, rfl⟩ | ⟨hnil, hopen, -, rfl⟩
    · cases h; exact .take hitems
    · cases h; exact .popClosed hnil hclosed
    · cases h; exact .popStopped hnil hopen

theorem tryPop_move {t : Nat} (h : s.step (.tryPop t) = some (s', evs)) : QueueMove s evs s' := by
  unfold QueueState.step at h
  dsimp only at h
  split_ifs at h
  rcases s.queue.tryPop_cases with ⟨hnil, hpop⟩ | ⟨item, rest, hitems, hpop⟩
  · rw [hpop] at h; cases h; exact .tryEmpty hnil
  · rw [hpop] at h; cases h; exact .take hitems

theorem finishPush_move {t : Nat} (h : s.step (.finishPush t) = some (s', evs)) : QueueMove s evs s' := by
  unfold QueueState.step at h
  dsimp only at h
  rcases hphase : s.phase t with _ | _ | callback <;> rw [hphase] at h <;> cases h
  · exact .finish hphase
  · exact .invoke hphase

theorem queueMove_of_step {choice : QueueChoice α κ} (h : s.step choice = some (s', evs)) : QueueMove s evs s' := by
  cases choice with
  | push t item => exact push_move h
  | tryPush t item => exact tryPush_move h
  | finishPush t => exact finishPush_move h
  | pop t => exact pop_move h
  | tryPop t => exact tryPop_move h
  | close t =>
    unfold QueueState.step at h
    dsimp only at h
    split_ifs at h
    cases h; exact .close
  | setOnPush t callback =>
    unfold QueueState.step at h
    dsimp only at h
    split_ifs at h
    cases callback with
    | none => cases h; exact .clear
    | some callback => cases h; exact .register
  | requestStop t => cases h; exact .requestStop

/-! ### First in, first out -/

def QueueEvent.acceptedItem : QueueEvent α κ → Option α
  | .accepted _ item => some item
  | _ => none

def QueueEvent.poppedItem : QueueEvent α κ → Option α
  | .popped _ item => some item
  | _ => none

def acceptedItems (log : List (QueueEvent α κ)) : List α := log.filterMap QueueEvent.acceptedItem

def poppedItems (log : List (QueueEvent α κ)) : List α := log.filterMap QueueEvent.poppedItem

/-- The items in the queue continue those that were popped, and a closed queue accepts nothing. -/
structure QueueFifoInv (capacity : Nat) (log : List (QueueEvent α κ)) (s : QueueState α κ) : Prop where
  capacity : s.queue.capacity = capacity
  fifo : acceptedItems log = poppedItems log ++ s.queue.items
  final : ∀ before t after, log = before ++ .closed t :: after → s.queue.closed = true ∧ acceptedItems after = []

theorem QueueFifoInv.event {capacity : Nat} {e : QueueEvent α κ} (h : QueueFifoInv capacity log s)
    (hcapacity : s'.queue.capacity = s.queue.capacity)
    (hitems : s.queue.items ++ e.acceptedItem.toList = e.poppedItem.toList ++ s'.queue.items)
    (hclosed : s.queue.closed = true → s'.queue.closed = true ∧ e.acceptedItem = none)
    (hclose : ∀ t, e = .closed t → s'.queue.closed = true) : QueueFifoInv capacity (log ++ [e]) s' := by
  have haccepted : ∀ l : List (QueueEvent α κ), acceptedItems (l ++ [e]) = acceptedItems l ++ e.acceptedItem.toList := by
    intro l
    unfold acceptedItems
    rw [List.filterMap_append]
    cases e <;> rfl
  have hpopped : poppedItems (log ++ [e]) = poppedItems log ++ e.poppedItem.toList := by
    unfold poppedItems
    rw [List.filterMap_append]
    cases e <;> rfl
  refine ⟨hcapacity.trans h.capacity, ?_, fun before t after hlog => ?_⟩
  · rw [haccepted, hpopped, h.fifo, List.append_assoc, hitems, List.append_assoc]
  · rcases concat_eq_append_cons hlog with ⟨-, he, rfl⟩ | ⟨rest, rfl, hold⟩
    · exact ⟨hclose t he.symm, rfl⟩
    · obtain ⟨hbefore, hnone⟩ := h.final before t rest hold
      obtain ⟨hafter, he⟩ := hclosed hbefore
      refine ⟨hafter, ?_⟩
      rw [haccepted, hnone, he]; rfl

theorem QueueFifoInv.move {capacity : Nat} (h : QueueFifoInv capacity log s) (hmove : QueueMove s evs s') :
    QueueFifoInv capacity (log ++ evs) s' := by
  cases hmove with
  | accept hroom hopen =>
    refine h.event rfl rfl (fun hclosed => ?_) nofun
    rw [hopen] at hclosed
    cases hclosed
  | take hitems =>
    refine h.event rfl ?_ (fun hclosed => ⟨hclosed, rfl⟩) nofun
    rw [hitems, BoundedQueue.items_dequeue, hitems]
    exact List.append_nil _
  | close => exact h.event rfl (List.append_nil _) (fun _ => ⟨rfl, rfl⟩) fun _ _ => rfl
  | finish _ => rw [List.append_nil]; exact ⟨h.capacity, h.fifo, h.final⟩
  | requestStop => rw [List.append_nil]; exact ⟨h.capacity, h.fifo, h.final⟩
  -- the other steps leave the queue alone
  | _ => exact h.event rfl (List.append_nil _) (fun hclosed => ⟨hclosed, rfl⟩) nofun

theorem QueueState.Run.fifoInv {capacity : Nat} {hpos : 0 < capacity} (h : QueueState.Run capacity hpos log s) :
    QueueFifoInv capacity log s := by
  induction h with
  | refl => exact ⟨rfl, rfl, fun before t after h => by simp at h⟩
  | tail _ hstep ih =>
    obtain ⟨choice, hstep⟩ := hstep
    exact ih.move (queueMove_of_step hstep)

/-- A thread that asks for an item gets the first one, whatever its stop token says. -/
theorem QueueState.step_pop {t : Nat} {item : α} {rest : List α} (hidle : s.idle t = true)
    (hitems : s.queue.items = item :: rest) :
    s.step (.pop t) = some ({ s with queue := s.queue.dequeue }, [.popped t item]) := by
  unfold QueueState.step BoundedQueue.pop
  dsimp only
  rw [if_pos hidle, hitems]

theorem QueueState.drains (consumers : List Nat) (hidle : ∀ t ∈ consumers, s.idle t = true)
    (hlength : consumers.length = s.queue.items.length) :
    ∃ s', Exec (Step QueueState.step) s (List.zipWith QueueEvent.popped consumers s.queue.items) s' ∧
      s'.queue.items = [] := by
  induction consumers generalizing s with
  | nil =>
    have hnil : s.queue.items = [] := List.length_eq_zero_iff.mp hlength.symm
    exact ⟨s, .refl, hnil⟩
  | cons t consumers ih =>
    rcases hitems : s.queue.items with _ | ⟨item, rest⟩
    · rw [hitems] at hlength
      cases hlength
    · have hstep := QueueState.step_pop (hidle t List.mem_cons_self) hitems
      have hrest : s.queue.dequeue.items = rest := by rw [BoundedQueue.items_dequeue, hitems]; rfl
      have hlen : consumers.length = s.queue.dequeue.items.length := by
        rw [hitems] at hlength
        rw [hrest]
        exact Nat.succ.inj hlength
      obtain ⟨s', hexec, hnil⟩ := ih (s := { s with queue := s.queue.dequeue })
        (fun t ht => hidle t (List.mem_cons_of_mem _ ht)) hlen
      rw [show ({ s with queue := s.queue.dequeue } : QueueState α κ).queue.items = rest from hrest] at hexec
      exact ⟨s', (Exec.single (R := Step QueueState.step) ⟨_, hstep⟩).trans hexec, hnil⟩

/-- A bounded FIFO queue that can be closed. -/
structure BoundedFifo (capacity : Nat) (log : List (QueueEvent α κ)) (s : QueueState α κ) : Prop where
  /-- What was popped, followed by what waits, is what was accepted, in the order of acceptance. -/
  fifo : acceptedItems log = poppedItems log ++ s.queue.items
  bounded : s.queue.items.length ≤ capacity
  final : ∀ before t after, log = before ++ .closed t :: after → acceptedItems after = []
  /-- A refused `try_push` leaves the queue and the caller's item as they are. -/
  refused : ∀ choice evs s' t item status left, s.step choice = some (s', evs) →
    .tryRefused t item status left ∈ evs →
    (status = .kFull ∨ status = .kClosed) ∧ s'.queue = s.queue ∧ left = some item
  popClosed : ∀ choice evs s' t, s.step choice = some (s', evs) → .popClosed t ∈ evs →
    s.queue.closed = true ∧ s.queue.items = []
  popStopped : ∀ choice evs s' t, s.step choice = some (s', evs) → .popStopped t ∈ evs →
    s.queue.closed = false ∧ s.queue.items = []
  /-- Whoever comes for the items gets them, in order and each once, also with a stop requested. -/
  drains : ∀ consumers : List Nat, (∀ t ∈ consumers, s.idle t = true) →
    consumers.length = s.queue.items.length →
    ∃ s', Exec (Step QueueState.step) s (List.zipWith QueueEvent.popped consumers s.queue.items) s' ∧
      s'.queue.items = []

/-- What an answer says about the queue, before the step and after it. -/
def QueueEvent.Sound (s s' : QueueState α κ) : QueueEvent α κ → Prop
  | .tryRefused _ item status left =>
    (status = .kFull ∨ status = .kClosed) ∧ s'.queue = s.queue ∧ left = some item
  | .popClosed _ => s.queue.closed = true ∧ s.queue.items = []
  | .popStopped _ => s.queue.closed = false ∧ s.queue.items = []
  | _ => True

theorem QueueMove.sound {e : QueueEvent α κ} (h : QueueMove s evs s') (hmem : e ∈ evs) : e.Sound s s' := by
  cases h with
  | tryRefused hwhy =>
    rw [List.mem_singleton.mp hmem]
    exact ⟨hwhy.elim (fun h => .inr h.1) (fun h => .inl h.1), rfl, rfl⟩
  | popClosed hnil hclosed =>
    rw [List.mem_singleton.mp hmem]
    exact ⟨hclosed, hnil⟩
  | popStopped hnil hopen =>
    rw [List.mem_singleton.mp hmem]
    exact ⟨hopen, hnil⟩
  | finish _ => cases hmem
  | requestStop => cases hmem
  | _ =>
    rw [List.mem_singleton.mp hmem]
    trivial

theorem bounded_fifo (capacity : Nat) (hpos : 0 < capacity) (log : List (QueueEvent α κ)) (s : QueueState α κ)
    (h : QueueState.Run capacity hpos log s) : BoundedFifo capacity log s where
  fifo := h.fifoInv.fifo
  bounded := h.fifoInv.capacity ▸ s.queue.length_le
  final := fun before t after hlog => (h.fifoInv.final before t after hlog).2
  refused := fun _ _ _ _ _ _ _ hstep hmem => (queueMove_of_step hstep).sound hmem
  popClosed := fun _ _ _ _ hstep hmem => (queueMove_of_step hstep).sound hmem
  popStopped := fun _ _ _ _ hstep hmem => (queueMove_of_step hstep).sound hmem
  drains := QueueState.drains

/-- A producer fills a queue of one, a second item is refused, the queue is closed, and a consumer whose stop was
requested takes the item that is left. -/
def closedChoices : List (QueueChoice Nat Nat) :=
  [.push 0 5, .finishPush 0, .tryPush 0 6, .close 1, .requestStop 2, .pop 2, .pop 2]

theorem closedRun_isSome :
    (run QueueState.step (QueueState.start 1 Nat.one_pos : QueueState Nat Nat) closedChoices).isSome = true := by decide

theorem bounded_fifo_closed : ∃ (log : List (QueueEvent Nat Nat)) (s : QueueState Nat Nat),
    QueueState.Run 1 Nat.one_pos log s ∧
      log = [.accepted 0 5, .tryRefused 0 6 .kFull (some 6), .closed 1, .popped 2 5, .popClosed 2] ∧
      BoundedFifo 1 log s := by
  have hrun := exec_of_isSome closedRun_isSome
  exact ⟨_, _, hrun, by decide, bounded_fifo 1 Nat.one_pos _ _ hrun⟩

/-! ### The callback -/

/-- The callback was registered and has not been cleared since. -/
def RegisteredSince (log : List (QueueEvent α κ)) (callback : κ) : Prop :=
  ∃ before after, log = before ++ .registered callback :: after ∧ .cleared ∉ after

theorem RegisteredSince.concat {callback : κ} {e : QueueEvent α κ} (h : RegisteredSince log callback)
    (he : e ≠ .cleared) : RegisteredSince (log ++ [e]) callback := by
  obtain ⟨before, after, rfl, hnot⟩ := h
  refine ⟨before, after ++ [e], ?_, ?_⟩
  · rw [List.append_assoc]; rfl
  · rw [List.mem_append, List.mem_singleton]
    exact fun hmem => hmem.elim hnot he.symm

/-- After a callback was cleared it is only called again if it was registered again. -/
def CallbackFinal (log : List (QueueEvent α κ)) : Prop :=
  ∀ before between after t callback,
    log = before ++ .cleared :: between ++ .invoked t callback :: after → .registered callback ∈ between

def QueueState.quiet (s : QueueState α κ) : Prop := ∀ t callback, s.phase t ≠ .accepted (some callback)

def QueueChoice.clears : QueueChoice α κ → Bool
  | .setOnPush _ none => true
  | _ => false

/-- The steps of the threads, where the callback is cleared only while no thread holds a copy of it. -/
def QueueState.QuietStep (s : QueueState α κ) (evs : List (QueueEvent α κ)) (s' : QueueState α κ) : Prop :=
  ∃ choice, s.step choice = some (s', evs) ∧ (choice.clears = true → s.quiet)

theorem clears_of_step {choice : QueueChoice α κ} (h : s.step choice = some (s', evs)) (hmem : .cleared ∈ evs) :
    choice.clears = true := by
  unfold QueueState.step at h
  cases choice with
  | setOnPush t callback =>
    cases callback with
    | none => rfl
    | some callback =>
      dsimp only at h
      split_ifs at h
      cases h
      simp at hmem
  | close t =>
    dsimp only at h
    split_ifs at h
    cases h
    simp at hmem
  | requestStop t => cases h; cases hmem
  | finishPush t =>
    dsimp only at h
    split at h <;> cases h <;> simp at hmem
  | _ =>
    dsimp only at h
    split_ifs at h
    split at h <;> cases h <;> simp at hmem

structure CallbackInv (log : List (QueueEvent α κ)) (s : QueueState α κ) : Prop where
  onPush : ∀ callback, s.onPush = some callback → RegisteredSince log callback
  copied : ∀ t callback, s.phase t = .accepted (some callback) → RegisteredSince log callback
  final : CallbackFinal log

theorem CallbackFinal.concat {e : QueueEvent α κ} (h : CallbackFinal log) (he : ∀ t callback, e ≠ .invoked t callback) :
    CallbackFinal (log ++ [e]) := by
  intro before between after t callback hlog
  rcases concat_eq_append_cons hlog with ⟨-, hx, -⟩ | ⟨rest, -, hold⟩
  · exact absurd hx.symm (he t callback)
  · exact h before between rest t callback hold

theorem CallbackFinal.invoked {t : Nat} {callback : κ} (h : CallbackFinal log) (hsince : RegisteredSince log callback) :
    CallbackFinal (log ++ [.invoked t callback]) := by
  intro before between after t' callback' hlog
  rcases concat_eq_append_cons hlog with ⟨hbefore, hx, -⟩ | ⟨rest, -, hold⟩
  · cases hx
    -- the registration stands after the last clearing, so after this one
    obtain ⟨earlier, later, hsplit, hnot⟩ := hsince
    rw [← hbefore] at hsplit
    rcases List.append_eq_append_iff.mp hsplit with ⟨mid, rfl, hmid⟩ | ⟨mid, rfl, hmid⟩
    · cases mid with
      | nil => cases hmid
      | cons e mid =>
        cases hmid
        exact List.mem_append_right _ List.mem_cons_self
    · rcases mid with _ | ⟨e, mid⟩
      · cases hmid
      · cases hmid
        exact absurd (List.mem_append_right _ List.mem_cons_self) hnot
  · exact h before between rest t' callback' hold

/-- An event that is neither a call nor a clearing, and that brings no new holder of a callback. -/
theorem CallbackInv.event {e : QueueEvent α κ} (h : CallbackInv log s) (hclear : e ≠ .cleared)
    (hinvoke : ∀ t callback, e ≠ .invoked t callback)
    (honPush : ∀ callback, s'.onPush = some callback → s.onPush = some callback ∨ e = .registered callback)
    (hphase : ∀ t callback, s'.phase t = .accepted (some callback) →
      s.onPush = some callback ∨ s.phase t = .accepted (some callback)) :
    CallbackInv (log ++ [e]) s' := by
  refine ⟨fun callback hc => ?_, fun t callback ht => ?_, h.final.concat hinvoke⟩
  · rcases honPush callback hc with hold | rfl
    · exact (h.onPush callback hold).concat hclear
    · exact ⟨log, [], rfl, List.not_mem_nil⟩
  · rcases hphase t callback ht with hold | hold
    · exact (h.onPush callback hold).concat hclear
    · exact (h.copied t callback hold).concat hclear

theorem QueueState.phase_setPhase_idle {t t' : Nat} {callback : κ}
    (h : (s.setPhase t .idle).phase t' = .accepted (some callback)) :
    t' ≠ t ∧ s.phase t' = .accepted (some callback) := by
  unfold setPhase at h
  dsimp only at h
  by_cases ht : t' = t
  · rw [ht, Function.update_self] at h
    cases h
  · rw [Function.update_of_ne ht] at h
    exact ⟨ht, h⟩

theorem CallbackInv.move (h : CallbackInv log s) (hmove : QueueMove s evs s') (hquiet : .cleared ∈ evs → s.quiet) :
    CallbackInv (log ++ evs) s' := by
  cases hmove with
  | @accept t item hroom _ =>
    refine h.event nofun nofun (fun _ hc => .inl hc) fun t' callback ht => ?_
    unfold QueueState.accept QueueState.setPhase at ht
    dsimp only at ht
    by_cases htt : t' = t
    · rw [htt, Function.update_self] at ht
      exact .inl (by injection ht)
    · rw [Function.update_of_ne htt] at ht
      exact .inr ht
  | @invoke t callback hphase =>
    have hsince := h.copied t callback hphase
    refine ⟨fun c hc => (h.onPush c hc).concat nofun, fun t' c ht => ?_, h.final.invoked hsince⟩
    exact (h.copied t' c (QueueState.phase_setPhase_idle ht).2).concat nofun
  | finish _ =>
    rw [List.append_nil]
    exact ⟨h.onPush, fun t c ht => h.copied t c (QueueState.phase_setPhase_idle ht).2, h.final⟩
  | register =>
    refine h.event nofun nofun (fun c hc => .inr ?_) fun _ _ ht => .inr ht
    rw [Option.some.inj hc]
  | clear =>
    -- nobody holds a callback any more
    have hnobody := hquiet (List.mem_singleton_self _)
    exact ⟨nofun, fun t c ht => absurd ht (hnobody t c), h.final.concat nofun⟩
  | requestStop => rw [List.append_nil]; exact ⟨h.onPush, h.copied, h.final⟩
  | _ => exact h.event nofun nofun (fun _ hc => .inl hc) fun _ _ ht => .inr ht

/-- If the callback is only cleared while no thread is between its critical section and its call, then a
callback that was cleared is not called any more. -/
theorem callback_final (capacity : Nat) (hpos : 0 < capacity) (log : List (QueueEvent α κ)) (s : QueueState α κ)
    (h : Exec QueueState.QuietStep (QueueState.start capacity hpos) log s) : CallbackFinal log := by
  have hinv : CallbackInv log s := by
    induction h with
    | refl =>
      exact ⟨nofun, nofun, fun before between after t callback h => by simp at h⟩
    | tail _ hstep ih =>
      obtain ⟨choice, hstep, hquiet⟩ := hstep
      exact ih.move (queueMove_of_step hstep) fun hmem => hquiet (clears_of_step hstep hmem)
  exact hinv.final

end

/-- After the clear an item is pushed and nothing is called; a callback that is registered later is. -/
theorem callback_final_cleared : ∃ (log : List (QueueEvent Nat Nat)) (s : QueueState Nat Nat),
    Exec QueueState.QuietStep (QueueState.start 3 (by decide)) log s ∧
      log = [.registered 9, .accepted 1 5, .invoked 1 9, .cleared, .accepted 1 6, .registered 8, .accepted 1 7,
        .invoked 1 8] ∧ CallbackFinal log := by
  let start : QueueState Nat Nat := QueueState.start 3 (by decide)
  let registered : QueueState Nat Nat := { start with onPush := some 9 }
  let pushed := registered.accept 1 (start.queue.enqueue 5 (by decide))
  let called := pushed.setPhase 1 .idle
  let cleared : QueueState Nat Nat := { called with onPush := none }
  let again := cleared.accept 1 (cleared.queue.enqueue 6 (by decide))
  let silent := again.setPhase 1 .idle
  let other : QueueState Nat Nat := { silent with onPush := some 8 }
  let last := other.accept 1 (other.queue.enqueue 7 (by decide))
  have hquiet : called.quiet := by
    intro t callback ht
    obtain ⟨hne, hold⟩ := QueueState.phase_setPhase_idle ht
    have hidle : pushed.phase t = .idle := Function.update_of_ne hne _ _
    rw [hidle] at hold
    cases hold
  have h1 : QueueState.QuietStep start [.registered 9] registered := ⟨.setOnPush 0 (some 9), rfl, nofun⟩
  have h2 : QueueState.QuietStep registered [.accepted 1 5] pushed := ⟨.push 1 5, rfl, nofun⟩
  have h3 : QueueState.QuietStep pushed [.invoked 1 9] called := ⟨.finishPush 1, rfl, nofun⟩
  have h4 : QueueState.QuietStep called [.cleared] cleared := ⟨.setOnPush 0 none, rfl, fun _ => hquiet⟩
  have h5 : QueueState.QuietStep cleared [.accepted 1 6] again := ⟨.push 1 6, rfl, nofun⟩
  have h6 : QueueState.QuietStep again [] silent := ⟨.finishPush 1, rfl, nofun⟩
  have h7 : QueueState.QuietStep silent [.registered 8] other := ⟨.setOnPush 0 (some 8), rfl, nofun⟩
  have h8 : QueueState.QuietStep other [.accepted 1 7] last := ⟨.push 1 7, rfl, nofun⟩
  have h9 : QueueState.QuietStep last [.invoked 1 8] (last.setPhase 1 .idle) := ⟨.finishPush 1, rfl, nofun⟩
  have hrun := ((((((((Exec.single h1).tail h2).tail h3).tail h4).tail h5).tail h6).tail h7).tail h8).tail h9
  exact ⟨_, _, hrun, rfl, callback_final 3 (by decide) _ _ hrun⟩

/-- A producer's item is accepted, the callback is cleared, and then the producer calls it. -/
def clearChoices : List (QueueChoice Nat Nat) :=
  [.setOnPush 0 (some 9), .push 1 5, .setOnPush 0 none, .finishPush 1]

theorem clearRun_isSome :
    (run QueueState.step (QueueState.start 1 Nat.one_pos : QueueState Nat Nat) clearChoices).isSome = true := by decide

theorem callback_after_clear : ∃ (log : List (QueueEvent Nat Nat)) (s : QueueState Nat Nat),
    QueueState.Run 1 Nat.one_pos log s ∧ log = [.registered 9, .accepted 1 5, .cleared, .invoked 1 9] ∧
      ¬ CallbackFinal log := by
  have hlog : ((run QueueState.step (QueueState.start 1 Nat.one_pos : QueueState Nat Nat) clearChoices).get
      clearRun_isSome).2 = [.registered 9, .accepted 1 5, .cleared, .invoked 1 9] := by decide
  refine ⟨_, _, exec_of_isSome clearRun_isSome, hlog, fun hfinal => ?_⟩
  rw [hlog] at hfinal
  exact absurd (hfinal [.registered 9, .accepted 1 5] [] [] 1 9 rfl) List.not_mem_nil

end KvStore
