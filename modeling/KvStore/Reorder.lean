import KvStore.ResponseSequencer
import Mathlib.Order.Bounds.Basic

/-!
# Responses come out in request order

The calls of one connection on its sequencer: numbers are handed out, and the response to a number that was
handed out comes once, at any later time. `Sequenced` describes the sequencer after such calls by the calls
alone: what has been released are the responses to the first numbers, up to the least one without a response.
So it does not matter in which order the responses came.
-/

namespace KvStore
open ByteString

inductive SequencerCall where
  | nextRequestSequence
  | record (sequence : Nat) (response : Bytes)
deriving DecidableEq, Repr

namespace SequencerCall

/-- One call, on a sequencer and the responses it has released so far. -/
def apply (st : ResponseSequencer × List Bytes) : SequencerCall → ResponseSequencer × List Bytes
  | .nextRequestSequence => (st.1.advance, st.2)
  | .record sequence response =>
    ((st.1.record sequence response).1, st.2 ++ (st.1.record sequence response).2)

def after (calls : List SequencerCall) : ResponseSequencer × List Bytes := calls.foldl apply ({}, [])

def assigned (calls : List SequencerCall) : Nat := calls.count .nextRequestSequence

def responseTo (q : Nat) : SequencerCall → Option Bytes
  | .nextRequestSequence => none
  | .record sequence response => if sequence = q then some response else none

def responseOf (calls : List SequencerCall) (q : Nat) : Option Bytes := calls.findSome? (responseTo q)

/-- Every recorded number was handed out before, and it is recorded once. -/
inductive Legal : List SequencerCall → Prop
  | nil : Legal []
  | nextRequestSequence {calls : List SequencerCall} : Legal calls → Legal (calls ++ [.nextRequestSequence])
  | record {calls : List SequencerCall} {q : Nat} (r : Bytes) : Legal calls → q < assigned calls →
    responseOf calls q = none → Legal (calls ++ [.record q r])

variable {calls calls' : List SequencerCall} {q : Nat} {r : Bytes}

theorem after_concat (calls : List SequencerCall) (call : SequencerCall) :
    after (calls ++ [call]) = apply (after calls) call := List.foldl_concat ..

@[simp] theorem assigned_nextRequestSequence : assigned (calls ++ [.nextRequestSequence]) = assigned calls + 1 := by
  simp [assigned]

@[simp] theorem assigned_record : assigned (calls ++ [.record q r]) = assigned calls := by
  simp [assigned]

@[simp] theorem responseOf_nextRequestSequence (i : Nat) :
    responseOf (calls ++ [.nextRequestSequence]) i = responseOf calls i := by
  simp [responseOf, responseTo]

theorem responseOf_record (i : Nat) :
    responseOf (calls ++ [.record q r]) i = (responseOf calls i).or (if q = i then some r else none) := by
  simp [responseOf, responseTo]

theorem responseOf_record_self (h : responseOf calls q = none) : responseOf (calls ++ [.record q r]) q = some r := by
  rw [responseOf_record, h, if_pos rfl]; rfl

theorem responseOf_record_ne {i : Nat} (h : i ≠ q) : responseOf (calls ++ [.record q r]) i = responseOf calls i := by
  rw [responseOf_record, if_neg h.symm, Option.or_none]

/-! ### The state after the calls -/

/-- The sequencer `s` and what it has `released` are what the calls make them. -/
structure Sequenced (calls : List SequencerCall) (s : ResponseSequencer) (released : List Bytes) : Prop where
  request : s.nextRequestSequence = assigned calls
  lookup : ∀ i, s.pending.lookup i = if i < s.nextExpected then none else responseOf calls i
  gap : responseOf calls s.nextExpected = none
  released : released.map some = (List.range s.nextExpected).map (responseOf calls)

variable {s s' : ResponseSequencer} {released : List Bytes}

theorem Sequenced.responseOf_lt (h : Sequenced calls s released) {i : Nat} (hi : i < s.nextExpected) :
    (responseOf calls i).isSome = true := by
  have hget := congrArg (fun l => l[i]?) h.released
  simp only [List.getElem?_map, List.getElem?_range hi, Option.map_some] at hget
  obtain ⟨r, -, hr⟩ := Option.map_eq_some_iff.mp hget
  rw [← hr]; rfl

theorem Sequenced.isLeast (h : Sequenced calls s released) :
    IsLeast {i | responseOf calls i = none} s.nextExpected := by
  refine ⟨h.gap, fun i hi => ?_⟩
  by_contra hlt
  have hsome := h.responseOf_lt (Nat.lt_of_not_le hlt)
  rw [show responseOf calls i = none from hi] at hsome
  cases hsome

theorem Sequenced.nextRequestSequence (h : Sequenced calls s released) :
    Sequenced (calls ++ [.nextRequestSequence]) s.advance released := by
  have hsame : responseOf (calls ++ [.nextRequestSequence]) = responseOf calls :=
    funext responseOf_nextRequestSequence
  refine ⟨?_, ?_, ?_, ?_⟩
  · rw [assigned_nextRequestSequence, ← h.request]; rfl
  · rw [hsame]; exact h.lookup
  · rw [hsame]; exact h.gap
  · rw [hsame]; exact h.released

theorem Sequenced.emplace_lookup (h : Sequenced calls s released) (hq : responseOf calls q = none) (i : Nat) :
    (s.emplace q r).pending.lookup i =
      if i < s.nextExpected then none else responseOf (calls ++ [.record q r]) i := by
  have hge : s.nextExpected ≤ q := h.isLeast.2 hq
  by_cases hi : i = q
  · subst hi
    have hnone : s.pending.lookup i = none := by rw [h.lookup, hq, ite_self]
    rw [ResponseSequencer.emplace_of_none hnone, Finmap.lookup_insert, if_neg (Nat.not_lt.mpr hge),
      responseOf_record_self hq]
  · rw [ResponseSequencer.lookup_emplace_of_ne s r hi, h.lookup, responseOf_record_ne hi]

/-- `record` returns the responses from the next number on, up to the first one that is missing. -/
theorem Sequenced.record_ready (h : Sequenced calls s released) (hq : responseOf calls q = none) :
    (s.record q r).2.map some = (List.range (s.record q r).2.length).map fun i =>
      responseOf (calls ++ [.record q r]) (s.nextExpected + i) := by
  have hrel := s.record_released q r
  refine List.ext_getElem? fun i => ?_
  rw [List.getElem?_map, List.getElem?_map]
  cases hi : (s.record q r).2[i]? with
  | none =>
    rw [List.getElem?_eq_none (by rw [List.length_range]; exact List.getElem?_eq_none_iff.mp hi)]
    rfl
  | some response =>
    have hlt := (List.getElem?_eq_some_iff.mp hi).1
    have hlook := hrel.lookup_ready i response hi
    rw [ResponseSequencer.nextExpected_emplace, h.emplace_lookup hq, if_neg (by omega)] at hlook
    rw [List.getElem?_range hlt, Option.map_some, Option.map_some, hlook]

theorem Sequenced.record (h : Sequenced calls s released) (hq : responseOf calls q = none) :
    Sequenced (calls ++ [.record q r]) (s.record q r).1 (released ++ (s.record q r).2) := by
  have hrel := s.record_released q r
  have hready := h.record_ready (r := r) hq
  have hexp := hrel.expected
  rw [ResponseSequencer.nextExpected_emplace] at hexp
  have hlookup : ∀ i, (s.record q r).1.pending.lookup i =
      if i < (s.record q r).1.nextExpected then none else responseOf (calls ++ [.record q r]) i := by
    intro i
    rw [hrel.lookup_pending, ResponseSequencer.nextExpected_emplace, h.emplace_lookup hq]
    by_cases hi : i < (s.record q r).1.nextExpected
    · rw [if_pos hi]
      split_ifs with h1 h2
      · rfl
      · rfl
      · exact absurd ⟨Nat.le_of_not_lt h2, hi⟩ h1
    · rw [if_neg hi, if_neg (fun hrange => hi hrange.2), if_neg (by omega)]
  refine ⟨?_, hlookup, ?_, ?_⟩
  · rw [assigned_record, ← h.request, hrel.request, ResponseSequencer.nextRequestSequence_emplace]
  · have hgap := hrel.gap
    rwa [hlookup, if_neg (Nat.lt_irrefl _)] at hgap
  · have hold : (List.range s.nextExpected).map (responseOf (calls ++ [.record q r])) =
        (List.range s.nextExpected).map (responseOf calls) := by
      refine List.map_congr_left fun i hi => responseOf_record_ne ?_
      rintro rfl
      have hsome := h.responseOf_lt (List.mem_range.mp hi)
      rw [hq] at hsome
      cases hsome
    rw [hexp, List.map_append, List.range_add, List.map_append, List.map_map, hold, h.released, hready]
    rfl

theorem Legal.sequenced (h : Legal calls) : Sequenced calls (after calls).1 (after calls).2 := by
  induction h with
  | nil => exact ⟨rfl, fun i => by simp [after, responseOf], rfl, rfl⟩
  | nextRequestSequence _ ih => rw [after_concat]; exact ih.nextRequestSequence
  | record r _ _ hq ih => rw [after_concat]; exact ih.record hq

/-! ### What the order of the calls does not change -/

theorem Legal.responseOf_eq_some_iff (h : Legal calls) : responseOf calls q = some r ↔ .record q r ∈ calls := by
  induction h with
  | nil => simp [responseOf]
  | nextRequestSequence _ ih => rw [responseOf_nextRequestSequence, ih]; simp
  | @record calls q₀ r₀ _ _ hq₀ ih =>
    rw [List.mem_append, ← ih, List.mem_singleton]
    by_cases hq : q = q₀
    · rw [hq, responseOf_record_self hq₀, hq₀]
      simp [eq_comm]
    · rw [responseOf_record_ne hq]
      simp [hq]

theorem Legal.lt_assigned (h : Legal calls) (hq : (responseOf calls q).isSome = true) : q < assigned calls := by
  induction h with
  | nil => cases hq
  | nextRequestSequence _ ih =>
    rw [responseOf_nextRequestSequence] at hq
    rw [assigned_nextRequestSequence]
    exact Nat.lt_succ_of_lt (ih hq)
  | @record calls q₀ r₀ _ hlt _ ih =>
    rw [assigned_record]
    by_cases hqq : q = q₀
    · rw [hqq]; exact hlt
    · rw [responseOf_record_ne hqq] at hq
      exact ih hq

theorem Legal.nextExpected_le (h : Legal calls) : (after calls).1.nextExpected ≤ assigned calls := by
  rcases Nat.eq_zero_or_pos (after calls).1.nextExpected with hzero | hpos
  · rw [hzero]; exact Nat.zero_le _
  · have := h.lt_assigned (h.sequenced.responseOf_lt (Nat.sub_lt hpos Nat.one_pos))
    omega

theorem Legal.responseOf_perm (h : Legal calls) (h' : Legal calls') (hperm : calls'.Perm calls) :
    responseOf calls' = responseOf calls := by
  funext q
  refine Option.ext fun r => ?_
  rw [h'.responseOf_eq_some_iff, h.responseOf_eq_some_iff, hperm.mem_iff]

/-- The calls determine the sequencer through what they hand out and record. -/
theorem Sequenced.unique {released' : List Bytes} (h : Sequenced calls s released)
    (h' : Sequenced calls' s' released') (hassigned : assigned calls' = assigned calls)
    (hresponse : responseOf calls' = responseOf calls) : s' = s ∧ released' = released := by
  have hexp : s'.nextExpected = s.nextExpected := by
    have hleast := h'.isLeast
    rw [hresponse] at hleast
    exact hleast.unique h.isLeast
  have hpending : s'.pending = s.pending := by
    refine Finmap.ext_lookup fun i => ?_
    rw [h'.lookup, h.lookup, hexp, hresponse]
  have hrequest : s'.nextRequestSequence = s.nextRequestSequence := by
    rw [h'.request, h.request, hassigned]
  refine ⟨?_, ?_⟩
  · obtain ⟨_, _, _⟩ := s
    obtain ⟨_, _, _⟩ := s'
    simp only at hexp hpending hrequest
    rw [hexp, hpending, hrequest]
  · refine List.map_injective_iff.mpr (Option.some_injective Bytes) ?_
    rw [h'.released, h.released, hexp, hresponse]

/-- Whatever the order of the calls, the responses come out in the order of their numbers, each as soon as
every earlier one is there. -/
theorem responses_in_request_order (calls : List SequencerCall) (h : Legal calls) :
    ∃ k, IsLeast {q | responseOf calls q = none} k ∧ k ≤ assigned calls ∧
      (after calls).2.map some = (List.range k).map (responseOf calls) ∧
      (after calls).1.inFlightCount = assigned calls - k ∧
      (∀ q r k', Legal (calls ++ [.record q r]) →
        IsLeast {q' | responseOf (calls ++ [.record q r]) q' = none} k' →
        ((after calls).1.record q r).2.map some =
          (List.range (k' - k)).map fun i => responseOf (calls ++ [.record q r]) (k + i)) ∧
      ∀ calls', Legal calls' → calls'.Perm calls → after calls' = after calls := by
  have hseq := h.sequenced
  refine ⟨(after calls).1.nextExpected, hseq.isLeast, h.nextExpected_le, hseq.released, ?_, ?_, ?_⟩
  · unfold ResponseSequencer.inFlightCount
    rw [hseq.request]
  · intro q r k' hlegal hk'
    have hq : responseOf calls q = none := by
      generalize hcalls : calls ++ [.record q r] = all at hlegal
      cases hlegal with
      | nil => simp at hcalls
      | nextRequestSequence _ => simpa using (List.append_inj' hcalls rfl).2
      | record _ _ _ hq =>
        obtain ⟨rfl, hcall⟩ := List.append_inj' hcalls rfl
        cases hcall
        exact hq
    have hk := hk'.unique (hseq.record (r := r) hq).isLeast
    have hexp := ((after calls).1.record_released q r).expected
    rw [ResponseSequencer.nextExpected_emplace] at hexp
    rw [hk, hexp, Nat.add_sub_cancel_left]
    exact hseq.record_ready hq
  · intro calls' h' hperm
    have hassigned : assigned calls' = assigned calls := hperm.count_eq _
    obtain ⟨hs, hreleased⟩ := hseq.unique h'.sequenced hassigned (h.responseOf_perm h' hperm)
    exact Prod.ext hs hreleased

/-- Three requests; the responses come in the order 1, 0, and the third is missing. -/
def sampleCalls : List SequencerCall :=
  [.nextRequestSequence, .nextRequestSequence, .nextRequestSequence, .record 1 (ascii "+B\r\n"),
    .record 0 (ascii "+A\r\n")]

theorem sampleCalls_legal : Legal sampleCalls := by
  have hone : Legal [.nextRequestSequence] := .nextRequestSequence .nil
  have htwo : Legal [.nextRequestSequence, .nextRequestSequence] := .nextRequestSequence hone
  have hthree : Legal [.nextRequestSequence, .nextRequestSequence, .nextRequestSequence] :=
    .nextRequestSequence htwo
  exact .record (ascii "+A\r\n") (.record (ascii "+B\r\n") hthree (by decide) rfl) (by decide) rfl

theorem responses_in_request_order_sample :
    (after sampleCalls).2 = [ascii "+A\r\n", ascii "+B\r\n"] ∧
      ∃ k, IsLeast {q | responseOf sampleCalls q = none} k ∧
        (after sampleCalls).2.map some = (List.range k).map (responseOf sampleCalls) := by
  obtain ⟨k, hk, -, hreleased, -⟩ := responses_in_request_order sampleCalls sampleCalls_legal
  exact ⟨by decide +kernel, k, hk, hreleased⟩

end SequencerCall
end KvStore
