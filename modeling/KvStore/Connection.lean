import KvStore.ResponseSequencer

/-!
# Connections

`net/bounded_buffer.cpp`, `net/connection.hpp` and `net/connection_registry.cpp`. A connection is named by
its fd number (`id`), which the system reuses, together with its generation, which it does not.
-/

namespace KvStore
open ByteString

/-- A byte buffer that never holds more than its capacity. -/
structure BoundedBuffer where
  data : Bytes
  capacity : Nat
  length_le : data.length ≤ capacity

namespace BoundedBuffer

/-- The constructor, which throws for a zero capacity: `EventLoopConfig` admits none. -/
def empty (capacity : Nat) : BoundedBuffer := ⟨[], capacity, Nat.zero_le _⟩

/-- `none` if the data does not fit; the buffer is then unchanged. -/
def append (b : BoundedBuffer) (data : Bytes) : Option BoundedBuffer :=
  if h : b.data.length + data.length ≤ b.capacity then
    some { b with data := b.data ++ data, length_le := by rwa [List.length_append] }
  else none

def consume (b : BoundedBuffer) (count : Nat) : BoundedBuffer :=
  { b with
    data := b.data.drop count
    length_le := by rw [List.length_drop]; exact Nat.le_trans (Nat.sub_le _ _) b.length_le }

theorem exists_append {b : BoundedBuffer} {data : Bytes} (h : b.data.length + data.length ≤ b.capacity) :
    ∃ b', b.append data = some b' := ⟨_, dif_pos h⟩

theorem data_of_append {b b' : BoundedBuffer} {data : Bytes} (h : b.append data = some b') :
    b'.data = b.data ++ data := by
  unfold append at h
  split_ifs at h
  cases h; rfl

theorem capacity_of_append {b b' : BoundedBuffer} {data : Bytes} (h : b.append data = some b') :
    b'.capacity = b.capacity := by
  unfold append at h
  split_ifs at h
  cases h; rfl

end BoundedBuffer

def kDefaultMaxInputBufferBytes : Nat := 2 * 1024 * 1024
def kDefaultMaxOutputBufferBytes : Nat := 2 * 1024 * 1024

structure Connection where
  id : Nat
  generation : Nat
  input : BoundedBuffer
  output : BoundedBuffer
  sequencer : ResponseSequencer

/-- Every open connection by its fd, and the generation the next one will get. -/
structure ConnectionRegistry where
  nextGeneration : Nat := 1
  connections : Finmap fun _ : Nat => Connection := ∅

namespace ConnectionRegistry

/-- What `add` puts under the fd. -/
def fresh (r : ConnectionRegistry) (fd maxInputBytes maxOutputBytes : Nat) : Connection :=
  ⟨fd, r.nextGeneration, .empty maxInputBytes, .empty maxOutputBytes, {}⟩

/-- `erase` and `try_emplace`: an entry that is already there is replaced. -/
def add (r : ConnectionRegistry) (fd maxInputBytes maxOutputBytes : Nat) : ConnectionRegistry where
  nextGeneration := r.nextGeneration + 1
  connections := r.connections.insert fd (r.fresh fd maxInputBytes maxOutputBytes)

def findCurrent (r : ConnectionRegistry) (id : Nat) : Option Connection := r.connections.lookup id

def find (r : ConnectionRegistry) (id generation : Nat) : Option Connection :=
  match r.connections.lookup id with
  | some c => if c.generation = generation then some c else none
  | none => none

def close (r : ConnectionRegistry) (id generation : Nat) : ConnectionRegistry :=
  match r.find id generation with
  | some _ => { r with connections := r.connections.erase id }
  | none => r

/-- The source changes a connection in place; here the new value is written back. -/
def put (r : ConnectionRegistry) (id : Nat) (c : Connection) : ConnectionRegistry :=
  { r with connections := r.connections.insert id c }

variable {r : ConnectionRegistry} {id id' g : Nat} {c c' : Connection}

theorem find_eq_some_iff : r.find id g = some c ↔ r.findCurrent id = some c ∧ c.generation = g := by
  unfold find findCurrent
  cases r.connections.lookup id with
  | none => simp
  | some c' =>
    by_cases h : c'.generation = g
    · simp only [h, if_true, Option.some.injEq]
      exact ⟨fun hc => ⟨hc, hc ▸ h⟩, fun hc => hc.1⟩
    · dsimp only
      rw [if_neg h]
      refine iff_of_false (Option.some_ne_none c).symm ?_
      rintro ⟨hc, hg⟩
      cases hc; exact h hg

theorem findCurrent_add (r : ConnectionRegistry) (fd m n id : Nat) :
    (r.add fd m n).findCurrent id = if id = fd then some (r.fresh fd m n) else r.findCurrent id :=
  Finmap.lookup_insert_ite ..

theorem findCurrent_put (r : ConnectionRegistry) (id : Nat) (c : Connection) (id' : Nat) :
    (r.put id c).findCurrent id' = if id' = id then some c else r.findCurrent id' :=
  Finmap.lookup_insert_ite ..

theorem put_self (h : r.findCurrent id = some c) : r.put id c = r := by
  obtain ⟨n, connections⟩ := r
  refine congrArg (ConnectionRegistry.mk n) (Finmap.ext_lookup fun id' => ?_)
  have hput := findCurrent_put ⟨n, connections⟩ id c id'
  rw [← h] at hput
  refine hput.trans ?_
  split_ifs with hid
  · rw [hid]; rfl
  · rfl

theorem find_put_self {r : ConnectionRegistry} (hg : c.generation = g) : (r.put id c).find id g = some c :=
  find_eq_some_iff.mpr ⟨(findCurrent_put ..).trans (if_pos rfl), hg⟩

theorem findCurrent_close (h : r.find id g = some c) (id' : Nat) :
    (r.close id g).findCurrent id' = if id' = id then none else r.findCurrent id' := by
  unfold close
  rw [h]
  exact Finmap.lookup_erase_ite ..

theorem findCurrent_close_ne (r : ConnectionRegistry) (g : Nat) (h : id' ≠ id) :
    (r.close id g).findCurrent id' = r.findCurrent id' := by
  unfold close
  cases r.find id g with
  | none => rfl
  | some c => exact Finmap.lookup_erase_ne h

theorem of_findCurrent_put (h : (r.put id c).findCurrent id' = some c') :
    (id' = id ∧ c' = c) ∨ (id' ≠ id ∧ r.findCurrent id' = some c') := by
  rw [findCurrent_put] at h
  split_ifs at h with hid
  · exact .inl ⟨hid, (Option.some.inj h).symm⟩
  · exact .inr ⟨hid, h⟩

theorem of_findCurrent_close (hf : r.find id g = some c) (h : (r.close id g).findCurrent id' = some c') :
    id' ≠ id ∧ r.findCurrent id' = some c' := by
  rw [findCurrent_close hf] at h
  split_ifs at h with hid
  exact ⟨hid, h⟩

theorem of_findCurrent_put_close {c₀ : Connection} (hf : r.find id g = some c₀) (hg : c.generation = c₀.generation)
    (h : ((r.put id c).close id g).findCurrent id' = some c') : id' ≠ id ∧ r.findCurrent id' = some c' := by
  obtain ⟨hid, hput⟩ := of_findCurrent_close (find_put_self (hg.trans (find_eq_some_iff.mp hf).2)) h
  rcases of_findCurrent_put hput with ⟨heq, -⟩ | hold
  · exact absurd heq hid
  · exact hold

theorem of_findCurrent_add {fd m n : Nat} (h : (r.add fd m n).findCurrent id' = some c') :
    (id' = fd ∧ c' = r.fresh fd m n) ∨ (id' ≠ fd ∧ r.findCurrent id' = some c') := by
  rw [findCurrent_add] at h
  split_ifs at h with hid
  · exact .inl ⟨hid, (Option.some.inj h).symm⟩
  · exact .inr ⟨hid, h⟩

theorem find_add_self (r : ConnectionRegistry) (fd m n : Nat) :
    (r.add fd m n).find fd r.nextGeneration = some (r.fresh fd m n) :=
  find_eq_some_iff.mpr ⟨(findCurrent_add ..).trans (if_pos rfl), rfl⟩

theorem of_findCurrent_add_close {fd m n : Nat}
    (h : ((r.add fd m n).close fd r.nextGeneration).findCurrent id' = some c') :
    id' ≠ fd ∧ r.findCurrent id' = some c' := by
  obtain ⟨hid, hadd⟩ := of_findCurrent_close (r.find_add_self fd m n) h
  rcases of_findCurrent_add hadd with ⟨heq, -⟩ | hold
  · exact absurd heq hid
  · exact hold

@[simp] theorem nextGeneration_close : (r.close id g).nextGeneration = r.nextGeneration := by
  unfold close; cases r.find id g <;> rfl

end ConnectionRegistry
end KvStore
