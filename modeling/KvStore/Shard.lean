import KvStore.Lib.ByteString
import KvStore.Lib.PriorityQueue
import Mathlib.Data.Finmap

/-!
# One shard of the store

The data of `storage/shard.hpp` and the lock-protected sections of `storage/store.cpp`, one function
per section: `readLive` has two (`find` under the shared lock, `eraseExpired` under the exclusive
one), every other operation has one. `now` is the clock value the operation read before it took the
lock.

`Platform` collects what the C++ standard leaves to the platform: `std::hash`, the arithmetic of
`std::chrono` time points, and which of several equal deadlines a `std::priority_queue` shows first.
-/

namespace KvStore
open ByteString

/-- `std::chrono` arithmetic on `steady_clock` time points, in nanoseconds. -/
structure Chrono where
  addSeconds : Int → Int → Int
  sub : Int → Int → Int

def nanosPerSecond : Int := 1000000000

/-- Time points as exact integers. -/
def Chrono.exact : Chrono where
  addSeconds t s := t + s * nanosPerSecond
  sub a b := a - b

/-- The `int64` value congruent to `x`. -/
def wrap64 (x : Int) : Int := Int.bmod x (2 ^ 64)

/-- `int64` nanoseconds that wrap around; seconds are scaled before they are added. -/
def Chrono.int64 : Chrono where
  addSeconds t s := wrap64 (t + wrap64 (s * nanosPerSecond))
  sub a b := wrap64 (a - b)

structure Entry where
  value : Bytes
  deadline : Option Int
  generation : Nat
deriving DecidableEq, Repr

structure ExpirationCandidate where
  deadline : Int
  generation : Nat
  key : Bytes
deriving DecidableEq, Repr

structure Platform where
  hash : Bytes → Nat
  chrono : Chrono
  heap : PriorityQueue ExpirationCandidate ExpirationCandidate.deadline

/-- A platform the model can be run on. -/
def Platform.reference (chrono : Chrono) : Platform :=
  ⟨List.length, chrono, PriorityQueue.sortedList ExpirationCandidate ExpirationCandidate.deadline⟩

abbrev Entries := Finmap fun _ : Bytes => Entry

structure Shard (P : Platform) where
  entries : Entries
  nextGeneration : Nat
  expirationHeap : P.heap.Rep

def isExpired (entry : Entry) (now : Int) : Bool :=
  match entry.deadline with
  | some deadline => deadline ≤ now
  | none => false

/-- What the shared-lock section of `read_live` finds. -/
inductive Found where
  | live (entry : Entry)
  | missing
  | expired
deriving DecidableEq, Repr

namespace Shard
variable {P : Platform}

def empty (P : Platform) : Shard P := ⟨∅, 0, P.heap.empty⟩

def set (sh : Shard P) (key value : Bytes) : Shard P :=
  let generation := sh.nextGeneration + 1
  { sh with entries := sh.entries.insert key ⟨value, none, generation⟩, nextGeneration := generation }

def find (sh : Shard P) (now : Int) (key : Bytes) : Found :=
  match sh.entries.lookup key with
  | some entry => if isExpired entry now then .expired else .live entry
  | none => .missing

/-- The exclusive-lock section of `read_live`: look again, erase what is still expired. -/
def eraseExpired (sh : Shard P) (now : Int) (key : Bytes) : Shard P :=
  match sh.entries.lookup key with
  | some entry => if isExpired entry now then { sh with entries := sh.entries.erase key } else sh
  | none => sh

/-- `read_live`; the entry is what `on_live` is called with, `none` stands for `on_missing`. -/
def readLive (sh : Shard P) (now : Int) (key : Bytes) : Shard P × Option Entry :=
  match sh.find now key with
  | .live entry => (sh, some entry)
  | .missing => (sh, none)
  | .expired => (sh.eraseExpired now key, none)

def del (sh : Shard P) (now : Int) (key : Bytes) : Shard P × Bool :=
  match sh.entries.lookup key with
  | none => (sh, false)
  | some entry => ({ sh with entries := sh.entries.erase key }, !isExpired entry now)

def expire (sh : Shard P) (now : Int) (key : Bytes) (ttlSeconds : Int) : Shard P × Bool :=
  match sh.entries.lookup key with
  | none => (sh, false)
  | some entry =>
    if isExpired entry now then ({ sh with entries := sh.entries.erase key }, false)
    else
      let deadline := P.chrono.addSeconds now ttlSeconds
      let generation := sh.nextGeneration + 1
      ({ entries := sh.entries.insert key { entry with deadline := some deadline, generation }
         nextGeneration := generation
         expirationHeap := P.heap.push ⟨deadline, generation, key⟩ sh.expirationHeap }, true)

/-- The live entry still carries the deadline and the generation the candidate was scheduled for. -/
def matchesEntry (candidate : ExpirationCandidate) (entry : Entry) : Bool :=
  entry.generation = candidate.generation ∧ entry.deadline = some candidate.deadline

/-- The loop of `sweep_expired` over one shard: `budget` candidates may still be popped. -/
def sweepLoop (now : Int) : Nat → Shard P → Nat → Shard P × Nat
  | 0, sh, removed => (sh, removed)
  | budget + 1, sh, removed =>
    match P.heap.top? sh.expirationHeap with
    | none => (sh, removed)
    | some candidate =>
      -- the heap is ordered soonest first; nothing else is due yet
      if now < candidate.deadline then (sh, removed)
      else
        let popped := { sh with expirationHeap := P.heap.pop sh.expirationHeap }
        match sh.entries.lookup candidate.key with
        | some entry =>
          if matchesEntry candidate entry then
            sweepLoop now budget { popped with entries := sh.entries.erase candidate.key } (removed + 1)
          else sweepLoop now budget popped removed
        | none => sweepLoop now budget popped removed

def sweep (sh : Shard P) (now : Int) (maxItems : Nat) : Shard P × Nat := sweepLoop now maxItems sh 0

end Shard
end KvStore
