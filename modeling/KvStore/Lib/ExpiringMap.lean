import KvStore.Lib.Updates

/-!
# Maps whose entries may carry a deadline

`ExpiringMap κ ν` is a finite map from keys to values with an optional deadline. A cell is live at `now`
when it has no deadline or one strictly after `now`. `liveAt` is all a reader can see of a map; the
operations are characterised by what they do to it.
-/

abbrev ExpiringMap.Cell (ν : Type) := ν × Option Int

abbrev ExpiringMap (κ ν : Type) := Finmap fun _ : κ => ExpiringMap.Cell ν

namespace ExpiringMap
variable {κ ν : Type}

def Cell.live (now : Int) (c : Cell ν) : Bool :=
  match c.2 with
  | none => true
  | some deadline => now < deadline

theorem Cell.live_of_le {c : Cell ν} {now t : Int} (hle : now ≤ t) (h : Cell.live t c = true) :
    Cell.live now c = true := by
  rcases c with ⟨v, _ | d⟩
  · rfl
  · simp only [Cell.live, decide_eq_true_eq] at h ⊢; omega

def liveIn (now : Int) (c : Option (Cell ν)) : Option (Cell ν) := c.filter (Cell.live now)

@[simp] theorem liveIn_none (now : Int) : liveIn now (none : Option (Cell ν)) = none := rfl

theorem liveIn_some (now : Int) (c : Cell ν) :
    liveIn now (some c) = if Cell.live now c then some c else none := rfl

theorem liveIn_liveIn {now t : Int} (hle : now ≤ t) (c : Option (Cell ν)) :
    liveIn t (liveIn now c) = liveIn t c := by
  rcases c with _ | c
  · rfl
  by_cases h : Cell.live now c = true
  · rw [liveIn_some now, if_pos h]
  · have ht : ¬ Cell.live t c = true := fun ht => h (Cell.live_of_le hle ht)
    rw [liveIn_some now, if_neg h, liveIn_some t, if_neg ht]; rfl

theorem live_of_liveIn {now : Int} {c : Option (Cell ν)} {c' : Cell ν} (h : liveIn now c = some c') :
    Cell.live now c' = true :=
  (Option.filter_eq_some_iff.mp h).2

variable [DecidableEq κ] {m : ExpiringMap κ ν}

/-- What a reader at time `now` sees under `k`. -/
def liveAt (m : ExpiringMap κ ν) (now : Int) (k : κ) : Option (Cell ν) := liveIn now (m.lookup k)

@[simp] theorem liveAt_empty (now : Int) (k : κ) : liveAt (∅ : ExpiringMap κ ν) now k = none := rfl

theorem liveAt_insert (m : ExpiringMap κ ν) (key : κ) (c : Cell ν) (t : Int) (k : κ) :
    liveAt (m.insert key c) t k = if k = key then liveIn t (some c) else liveAt m t k := by
  unfold liveAt
  rw [Finmap.lookup_insert_ite]
  split_ifs <;> rfl

theorem liveAt_erase (m : ExpiringMap κ ν) (key : κ) (t : Int) (k : κ) :
    liveAt (m.erase key) t k = if k = key then none else liveAt m t k := by
  unfold liveAt
  rw [Finmap.lookup_erase_ite]
  split_ifs <;> rfl

/-- Give a live key a new deadline; other keys are left alone. -/
def setDeadline (m : ExpiringMap κ ν) (now : Int) (key : κ) (deadline : Int) : ExpiringMap κ ν :=
  match m.liveAt now key with
  | none => m
  | some c => m.insert key (c.1, some deadline)

theorem liveAt_setDeadline {now t : Int} (hle : now ≤ t) (key : κ) (deadline : Int) (k : κ) :
    liveAt (m.setDeadline now key deadline) t k =
      if k = key then liveIn t ((m.liveAt now key).map fun c => (c.1, some deadline))
      else m.liveAt t k := by
  unfold setDeadline
  cases hl : m.liveAt now key with
  | none =>
    dsimp only
    split_ifs with hk
    · rw [hk, liveAt, ← liveIn_liveIn hle]
      exact congrArg (liveIn t) hl
    · rfl
  | some c => exact liveAt_insert ..

end ExpiringMap
