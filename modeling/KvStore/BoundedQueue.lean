import Mathlib.Data.List.Basic

/-!
# Bounded queues

`worker/bounded_queue.hpp`. Each operation is its critical section; `none` stands for a thread that has to
wait. The structure carries that the queue never holds more than its capacity.
-/

namespace KvStore

inductive PushStatus where
  | kOk | kFull | kClosed
deriving DecidableEq, Repr

structure BoundedQueue (α : Type) where
  items : List α
  capacity : Nat
  closed : Bool
  capacity_pos : 0 < capacity
  length_le : items.length ≤ capacity

/-- What `pop` returns when it returns. -/
inductive PopResult (α : Type) where
  | kOk (out : α) (q : BoundedQueue α)
  | kClosed
  | kStopped

namespace BoundedQueue
variable {α : Type} (q : BoundedQueue α)

/-- The constructor; a zero capacity throws. -/
def make (capacity : Nat) (h : 0 < capacity) : BoundedQueue α := ⟨[], capacity, false, h, Nat.zero_le _⟩

def enqueue (item : α) (h : q.items.length < q.capacity) : BoundedQueue α :=
  { q with items := q.items ++ [item], length_le := by rw [List.length_append]; exact h }

def dequeue : BoundedQueue α :=
  { q with
    items := q.items.tail
    length_le := by rw [List.length_tail]; exact Nat.le_trans (Nat.sub_le _ _) q.length_le }

/-- Waits while the queue is full and open. -/
def push (item : α) : Option (PushStatus × BoundedQueue α) :=
  if q.closed then some (.kClosed, q)
  else if h : q.items.length < q.capacity then some (.kOk, q.enqueue item h)
  else none

def tryPush (item : α) : PushStatus × BoundedQueue α :=
  if q.closed then (.kClosed, q)
  else if h : q.items.length < q.capacity then (.kOk, q.enqueue item h)
  else (.kFull, q)

/-- Waits while the queue is empty, open and no stop was requested; an item wins over a stop request. -/
def pop (stopRequested : Bool) : Option (PopResult α) :=
  match q.items with
  | out :: _ => some (.kOk out q.dequeue)
  | [] => if q.closed then some .kClosed else if stopRequested then some .kStopped else none

def tryPop : Option (α × BoundedQueue α) :=
  match q.items with
  | out :: _ => some (out, q.dequeue)
  | [] => none

def close : BoundedQueue α := { q with closed := true }

variable {q}

@[simp] theorem items_enqueue (item : α) (h : q.items.length < q.capacity) :
    (q.enqueue item h).items = q.items ++ [item] := rfl

@[simp] theorem items_dequeue : q.dequeue.items = q.items.tail := rfl

theorem push_cases {item : α} {status : PushStatus} {q' : BoundedQueue α}
    (h : q.push item = some (status, q')) :
    (q.closed = true ∧ status = .kClosed ∧ q' = q) ∨
      (q.closed = false ∧ status = .kOk ∧ ∃ hroom, q' = q.enqueue item hroom) := by
  unfold push at h
  split_ifs at h with hc hroom
  · cases h; exact .inl ⟨hc, rfl, rfl⟩
  · cases h; exact .inr ⟨by simpa using hc, rfl, hroom, rfl⟩

theorem tryPush_cases (q : BoundedQueue α) (item : α) :
    (∃ hroom, q.closed = false ∧ q.tryPush item = (.kOk, q.enqueue item hroom)) ∨
      (q.tryPush item = (.kClosed, q) ∧ q.closed = true) ∨
      (q.tryPush item = (.kFull, q) ∧ q.capacity ≤ q.items.length) := by
  unfold tryPush
  split_ifs with hc hroom
  · exact .inr (.inl ⟨rfl, hc⟩)
  · exact .inl ⟨hroom, by simpa using hc, rfl⟩
  · exact .inr (.inr ⟨rfl, Nat.le_of_not_lt hroom⟩)

theorem pop_cases {stop : Bool} {r : PopResult α} (h : q.pop stop = some r) :
    (∃ out rest, q.items = out :: rest ∧ r = .kOk out q.dequeue) ∨
      (q.items = [] ∧ q.closed = true ∧ r = .kClosed) ∨
      (q.items = [] ∧ q.closed = false ∧ stop = true ∧ r = .kStopped) := by
  unfold pop at h
  cases hi : q.items with
  | cons out rest => rw [hi] at h; cases h; exact .inl ⟨out, rest, rfl, rfl⟩
  | nil =>
    rw [hi] at h; dsimp only at h
    split_ifs at h with hc hs
    · cases h; exact .inr (.inl ⟨rfl, hc, rfl⟩)
    · cases h; exact .inr (.inr ⟨rfl, by simpa using hc, hs, rfl⟩)

theorem tryPop_cases (q : BoundedQueue α) :
    (q.items = [] ∧ q.tryPop = none) ∨
      ∃ out rest, q.items = out :: rest ∧ q.tryPop = some (out, q.dequeue) := by
  unfold tryPop
  cases hi : q.items with
  | nil => exact .inl ⟨rfl, rfl⟩
  | cons out rest => exact .inr ⟨out, rest, rfl, rfl⟩

end BoundedQueue
end KvStore
