import KvStore.Lib.ByteString
import KvStore.Lib.Updates

/-!
# Response sequencing

`net/response_sequencer.cpp`: requests get consecutive sequence numbers, responses come back in any order
and are released in request order. `Released` says what the release loop of `record` does to the pending
responses; `record_released` is its specification.
-/

namespace KvStore
open ByteString

structure ResponseSequencer where
  nextRequestSequence : Nat := 0
  nextExpected : Nat := 0
  pending : Finmap fun _ : Nat => Bytes := ∅

namespace ResponseSequencer

/-- `next_request_sequence()`; the number handed out is the old counter. -/
def advance (s : ResponseSequencer) : ResponseSequencer :=
  { s with nextRequestSequence := s.nextRequestSequence + 1 }

def inFlightCount (s : ResponseSequencer) : Nat := s.nextRequestSequence - s.nextExpected

/-- `pending_.emplace`, which keeps a response that is already there. -/
def emplace (s : ResponseSequencer) (sequence : Nat) (response : Bytes) : ResponseSequencer :=
  match s.pending.lookup sequence with
  | some _ => s
  | none => { s with pending := s.pending.insert sequence response }

/-- The release loop; every round takes one response out of `pending`. -/
def release : Nat → ResponseSequencer → ResponseSequencer × List Bytes
  | 0, s => (s, [])
  | fuel + 1, s =>
    match s.pending.lookup s.nextExpected with
    | none => (s, [])
    | some response =>
      let (s', ready) :=
        release fuel { s with pending := s.pending.erase s.nextExpected, nextExpected := s.nextExpected + 1 }
      (s', response :: ready)

def record (s : ResponseSequencer) (sequence : Nat) (response : Bytes) : ResponseSequencer × List Bytes :=
  let s := s.emplace sequence response
  release s.pending.keys.card s

/-- From `s` exactly the responses `ready` were released, and the next one is not there. -/
structure Released (s s' : ResponseSequencer) (ready : List Bytes) : Prop where
  request : s'.nextRequestSequence = s.nextRequestSequence
  expected : s'.nextExpected = s.nextExpected + ready.length
  lookup_ready : ∀ i r, ready[i]? = some r → s.pending.lookup (s.nextExpected + i) = some r
  lookup_pending : ∀ k, s'.pending.lookup k =
    if s.nextExpected ≤ k ∧ k < s'.nextExpected then none else s.pending.lookup k
  gap : s'.pending.lookup s'.nextExpected = none

theorem Released.nil {s : ResponseSequencer} (h : s.pending.lookup s.nextExpected = none) :
    Released s s [] :=
  ⟨rfl, rfl, fun _ _ h => by simp at h, fun k => by rw [if_neg (by omega)], h⟩

theorem Released.cons {s s' : ResponseSequencer} {response : Bytes} {ready : List Bytes}
    (hr : s.pending.lookup s.nextExpected = some response)
    (h : Released { s with pending := s.pending.erase s.nextExpected, nextExpected := s.nextExpected + 1 }
      s' ready) : Released s s' (response :: ready) := by
  have hexp := h.expected
  simp only at hexp
  refine ⟨h.request, by rw [hexp, List.length_cons]; omega, fun i r hi => ?_, fun k => ?_, h.gap⟩
  · cases i with
    | zero => exact hr.trans hi
    | succ i =>
      have := h.lookup_ready i r (by simpa using hi)
      rw [Finmap.lookup_erase_ne (by simp only; omega)] at this
      rw [← this]; congr 1; simp only; omega
  · have hk := h.lookup_pending k
    simp only at hk
    by_cases hke : k = s.nextExpected
    · subst hke
      rw [hk, if_neg (by omega), if_pos (by omega), Finmap.lookup_erase]
    · rw [Finmap.lookup_erase_ne hke] at hk
      rw [hk]
      exact if_congr (by omega) rfl rfl

theorem release_released (fuel : Nat) (s : ResponseSequencer) (hfuel : s.pending.keys.card ≤ fuel) :
    Released s (release fuel s).1 (release fuel s).2 := by
  induction fuel generalizing s with
  | zero =>
    refine Released.nil ?_
    have hempty : s.pending.keys = ∅ := Finset.card_eq_zero.mp (Nat.le_zero.mp hfuel)
    rw [Finmap.lookup_eq_none, ← Finmap.mem_keys, hempty]
    exact Finset.notMem_empty _
  | succ fuel ih =>
    rw [release]
    cases hr : s.pending.lookup s.nextExpected with
    | none => exact Released.nil hr
    | some response =>
      refine Released.cons hr (ih _ ?_)
      have hmem : s.nextExpected ∈ s.pending.keys :=
        Finmap.mem_keys.mpr (Finmap.mem_of_lookup_eq_some hr)
      simp only [Finmap.keys_erase]
      rw [Finset.card_erase_of_mem hmem]
      omega

/-- `record` files the response and releases everything that is now in order. -/
theorem record_released (s : ResponseSequencer) (sequence : Nat) (response : Bytes) :
    Released (s.emplace sequence response) (s.record sequence response).1
      (s.record sequence response).2 :=
  release_released _ _ le_rfl

theorem emplace_of_none {s : ResponseSequencer} {sequence : Nat} {response : Bytes}
    (h : s.pending.lookup sequence = none) : s.emplace sequence response =
      { s with pending := s.pending.insert sequence response } := by
  unfold emplace; rw [h]

@[simp] theorem nextExpected_emplace (s : ResponseSequencer) (sequence : Nat) (response : Bytes) :
    (s.emplace sequence response).nextExpected = s.nextExpected := by
  unfold emplace
  split <;> rfl

@[simp] theorem nextRequestSequence_emplace (s : ResponseSequencer) (sequence : Nat) (response : Bytes) :
    (s.emplace sequence response).nextRequestSequence = s.nextRequestSequence := by
  unfold emplace
  split <;> rfl

theorem lookup_emplace_of_ne (s : ResponseSequencer) {sequence q : Nat} (response : Bytes) (h : q ≠ sequence) :
    (s.emplace sequence response).pending.lookup q = s.pending.lookup q := by
  unfold emplace
  split
  · rfl
  · exact Finmap.lookup_insert_of_ne _ h

/-! ### Outstanding requests -/

/-- 1 if the response to `q` waits in `pending`. -/
def isPending (s : ResponseSequencer) (q : Nat) : Nat := if (s.pending.lookup q).isSome then 1 else 0

/-- 1 if `q` was assigned and its response has not been released. -/
def outstanding (s : ResponseSequencer) (q : Nat) : Nat :=
  if s.nextExpected ≤ q ∧ q < s.nextRequestSequence then 1 else 0

theorem isPending_emplace {s : ResponseSequencer} {sequence : Nat} {response : Bytes}
    (h : s.pending.lookup sequence = none) (q : Nat) :
    (s.emplace sequence response).isPending q = s.isPending q + if q = sequence then 1 else 0 := by
  rw [emplace_of_none h]
  unfold isPending
  by_cases hq : q = sequence
  · rw [hq, Finmap.lookup_insert, h, if_pos rfl]; rfl
  · rw [Finmap.lookup_insert_of_ne _ hq, if_neg hq]; rfl

theorem outstanding_advance {s : ResponseSequencer} (h : s.nextExpected ≤ s.nextRequestSequence) (q : Nat) :
    s.advance.outstanding q = s.outstanding q + if q = s.nextRequestSequence then 1 else 0 := by
  unfold outstanding advance
  dsimp only
  split_ifs <;> omega

/-- Of the outstanding requests, `record` takes out exactly those that were or became pending and are now
released. -/
theorem record_outstanding {s : ResponseSequencer} {sequence : Nat} (response : Bytes)
    (hord : s.nextExpected ≤ s.nextRequestSequence) (hnone : s.pending.lookup sequence = none)
    (hle : ∀ q, s.isPending q + (if q = sequence then 1 else 0) ≤ s.outstanding q) :
    (∀ q, (s.record sequence response).1.outstanding q +
        (s.isPending q + if q = sequence then 1 else 0) =
      s.outstanding q + (s.record sequence response).1.isPending q) ∧
    (s.record sequence response).1.nextExpected ≤ (s.record sequence response).1.nextRequestSequence := by
  have hrel := s.record_released sequence response
  have hemp : ∀ q, (s.emplace sequence response).isPending q =
      s.isPending q + if q = sequence then 1 else 0 := isPending_emplace hnone
  generalize (s.record sequence response).1 = s' at hrel ⊢
  generalize (s.record sequence response).2 = ready at hrel
  have hexp := hrel.expected
  have hreq := hrel.request
  rw [nextExpected_emplace] at hexp
  rw [nextRequestSequence_emplace] at hreq
  -- what was released had been pending, so it was outstanding
  have hreleased : ∀ q, s.nextExpected ≤ q → q < s'.nextExpected →
      (s.emplace sequence response).isPending q = 1 := by
    intro q h1 h2
    have hi : q - s.nextExpected < ready.length := by omega
    have hlook := hrel.lookup_ready _ _ (List.getElem?_eq_getElem hi)
    rw [nextExpected_emplace, Nat.add_sub_cancel' h1] at hlook
    unfold isPending; rw [hlook]; rfl
  have hord' : s'.nextExpected ≤ s'.nextRequestSequence := by
    by_contra hlt
    have h1 := hreleased (s'.nextExpected - 1) (by omega) (by omega)
    have h2 := hle (s'.nextExpected - 1)
    rw [← hemp, h1] at h2
    unfold outstanding at h2
    split_ifs at h2 <;> omega
  refine ⟨fun q => ?_, hord'⟩
  have hq := hrel.lookup_pending q
  rw [nextExpected_emplace] at hq
  rw [← hemp]
  have hleq := hle q
  rw [← hemp] at hleq
  by_cases hrange : s.nextExpected ≤ q ∧ q < s'.nextExpected
  · rw [if_pos hrange] at hq
    have h1 := hreleased q hrange.1 hrange.2
    have h2 : s'.isPending q = 0 := by unfold isPending; rw [hq]; rfl
    have h3 : s'.outstanding q = 0 := by unfold outstanding; rw [if_neg (by omega)]
    have h4 : s.outstanding q = 1 := by
      unfold outstanding at hleq ⊢; split_ifs at hleq ⊢ <;> omega
    omega
  · rw [if_neg hrange] at hq
    have h1 : s'.isPending q = (s.emplace sequence response).isPending q := by
      unfold isPending; rw [hq]
    have h2 : s'.outstanding q = s.outstanding q := by
      unfold outstanding; rw [hreq]
      exact if_congr (by omega) rfl rfl
    omega

end ResponseSequencer
end KvStore
