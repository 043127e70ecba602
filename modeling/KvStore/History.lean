import KvStore.EventLoop

/-!
# What a log says about one connection

The bytes received and sent on a generation and the frames taken from it, in order, read off the events of
a run.
-/

namespace KvStore
open ByteString

/-- A frame `process_input` took; `own` is the reply the loop gave itself. -/
structure TakenFrame where
  verdict : ParseResult
  raw : Bytes
  own : Option Bytes
deriving DecidableEq, Repr

namespace Event

def generation : Event → Nat
  | accepted _ g | received g _ | taken g _ _ _ _ | dispatched g _ _ _ | sent g _ | closed g _ => g

def sentBytes (g : Nat) : Event → Bytes
  | sent g' bytes => if g' = g then bytes else []
  | _ => []

def receivedBytes (g : Nat) : Event → Bytes
  | received g' chunk => if g' = g then chunk else []
  | _ => []

def frame (g : Nat) : Event → Option TakenFrame
  | taken g' _ verdict raw own => if g' = g then some ⟨verdict, raw, own⟩ else none
  | _ => none

def dispatches (g sequence : Nat) : Event → Bool
  | dispatched g' sequence' _ _ => g' = g ∧ sequence' = sequence
  | _ => false

end Event

def sentOf (g : Nat) (log : List Event) : Bytes := log.flatMap (Event.sentBytes g)

def receivedOf (g : Nat) (log : List Event) : Bytes := log.flatMap (Event.receivedBytes g)

/-- The frames taken from generation `g`; the `i`-th one has sequence number `i`. -/
def framesOf (g : Nat) (log : List Event) : List TakenFrame := log.filterMap (Event.frame g)

def dispatchCount (g sequence : Nat) (log : List Event) : Nat := log.countP (Event.dispatches g sequence)

section
variable {g : Nat} {log evs : List Event}

@[simp] theorem sentOf_append : sentOf g (log ++ evs) = sentOf g log ++ sentOf g evs :=
  List.flatMap_append

@[simp] theorem receivedOf_append : receivedOf g (log ++ evs) = receivedOf g log ++ receivedOf g evs :=
  List.flatMap_append

@[simp] theorem framesOf_append : framesOf g (log ++ evs) = framesOf g log ++ framesOf g evs :=
  List.filterMap_append

@[simp] theorem dispatchCount_append {q : Nat} :
    dispatchCount g q (log ++ evs) = dispatchCount g q log + dispatchCount g q evs :=
  List.countP_append

theorem history_eq_nil (h : ∀ e ∈ evs, e.generation ≠ g) :
    sentOf g evs = [] ∧ receivedOf g evs = [] ∧ framesOf g evs = [] ∧ ∀ q, dispatchCount g q evs = 0 := by
  refine ⟨List.flatMap_eq_nil_iff.mpr fun e he => ?_, List.flatMap_eq_nil_iff.mpr fun e he => ?_,
    List.filterMap_eq_nil_iff.mpr fun e he => ?_, fun q => List.countP_eq_zero.mpr fun e he => ?_⟩
  all_goals
    have hne := h e he
    cases e <;> simp_all [Event.generation, Event.sentBytes, Event.receivedBytes, Event.frame,
      Event.dispatches]

end
end KvStore
