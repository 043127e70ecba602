import KvStore.Dispatcher
import KvStore.Lib.Serial
import KvStore.StoreSpec

/-!
# Commands as operations on live keys

At a fixed clock reading a command looks at one key and changes at most that key. `dispatch_reply` and
`dispatch_liveAt` say what it answers and what it leaves there, in terms of the live cell under the key;
`commandOps` packs this up, and `sequentialReplies_eq` connects it to dispatching one command after another.
-/

namespace KvStore
open ByteString ExpiringMap

namespace Command

/-- Every command but PING looks at its key. -/
def Touches (c : Command) (k : Bytes) : Prop := c.type ≠ .kPing ∧ c.key = k

def Writes (c : Command) (k : Bytes) : Prop :=
  (c.type = .kSet ∨ c.type = .kDel ∨ c.type = .kExpire) ∧ c.key = k

theorem Writes.touches {c : Command} {k : Bytes} (h : c.Writes k) : c.Touches k := by
  obtain ⟨htype, hk⟩ := h
  refine ⟨fun hping => ?_, hk⟩
  rw [hping] at htype
  rcases htype with h | h | h <;> cases h

/-- Both look at one key and at least one of them changes it. -/
def Conflicts (c c' : Command) : Prop :=
  c.Touches c'.key ∧ c'.Touches c.key ∧ (c.Writes c.key ∨ c'.Writes c'.key)

instance (c : Command) (k : Bytes) : Decidable (c.Touches k) := inferInstanceAs (Decidable (_ ∧ _))

instance (c : Command) (k : Bytes) : Decidable (c.Writes k) := inferInstanceAs (Decidable (_ ∧ _))

instance (c c' : Command) : Decidable (c.Conflicts c') := inferInstanceAs (Decidable (_ ∧ _ ∧ _))

/-- What becomes of the live cell under the command's key. -/
def effect (P : Platform) (now : Int) (c : Command) (cell : Option (Cell Bytes)) : Option (Cell Bytes) :=
  match c.type with
  | .kSet => some (c.value, none)
  | .kDel => none
  | .kExpire => liveIn now (cell.map fun x => (x.1, some (P.chrono.addSeconds now c.seconds)))
  | _ => cell

def encodeValue : Option Bytes → Bytes
  | none => encodeNullBulkString
  | some value => encodeBulkString value

/-- The reply, given the live cell under the command's key. -/
def answer (P : Platform) (now : Int) (c : Command) (cell : Option (Cell Bytes)) : Bytes :=
  match c.type with
  | .kPing => encodeSimpleString (ascii "PONG")
  | .kSet => encodeSimpleString (ascii "OK")
  | .kGet => encodeValue (cell.map Prod.fst)
  | .kDel | .kExists | .kExpire => encodeFlag cell.isSome
  | .kTtl => encodeTtl (match cell with
    | none => .kMissing
    | some x => Store.ttlOf P x.2 now)

end Command

section
variable {P : Platform} (st : Store P) (now : Int) (c : Command)

theorem dispatch_reply : (dispatch st now c).2 = c.answer P now (st.liveAt now c.key) := by
  unfold dispatch Command.answer
  cases c.type with
  | kPing => rfl
  | kSet => rfl
  | kGet =>
    have hget : (st.get now c.key).2 = _ := Store.get_result
    dsimp only
    rw [← hget]
    unfold dispatchGet
    rcases st.get now c.key with ⟨st', _ | value⟩ <;> rfl
  | kDel => exact congrArg encodeFlag Store.del_result
  | kExists => exact congrArg encodeFlag Store.exists_result
  | kExpire => exact congrArg encodeFlag (Store.expire_result c.seconds)
  | kTtl => exact congrArg encodeTtl Store.ttl_result

theorem fst_dispatchGet : (dispatchGet st now c).1 = (st.get now c.key).1 := by
  unfold dispatchGet
  rcases st.get now c.key with ⟨st', _ | value⟩ <;> rfl

theorem dispatch_liveAt (k : Bytes) : (dispatch st now c).1.liveAt now k =
    if k = c.key then c.effect P now (st.liveAt now c.key) else st.liveAt now k := by
  have hkept : (if k = c.key then st.liveAt now c.key else st.liveAt now k) = st.liveAt now k := by
    split_ifs with hk
    · rw [hk]
    · rfl
  unfold dispatch Command.effect
  cases c.type with
  | kPing => exact hkept.symm
  | kSet => exact Store.set_liveAt ..
  | kGet =>
    dsimp only
    rw [fst_dispatchGet, Store.get_liveAt le_rfl, hkept]
  | kDel => exact Store.del_liveAt ..
  | kExists => exact (Store.exists_liveAt le_rfl).trans hkept.symm
  | kExpire => exact Store.expire_liveAt c.seconds
  | kTtl => exact (Store.ttl_liveAt le_rfl).trans hkept.symm

end

/-- The commands at clock reading `now`, as operations on what is live then. -/
def commandOps (P : Platform) (now : Int) : Serial.Ops Bytes (Option (Cell Bytes)) Bytes Command where
  touches := Command.Touches
  writes := Command.Writes
  apply c st k := if k = c.key then c.effect P now (st c.key) else st k
  reply c st := c.answer P now (st c.key)
  touches_of_writes := Command.Writes.touches
  apply_frame := by
    intro c k st hno
    split_ifs with hk
    · subst hk
      unfold Command.effect
      split
      · rename_i ht; exact absurd ⟨.inl ht, rfl⟩ hno
      · rename_i ht; exact absurd ⟨.inr (.inl ht), rfl⟩ hno
      · rename_i ht; exact absurd ⟨.inr (.inr ht), rfl⟩ hno
      · rfl
    · rfl
  apply_local := by
    intro c k st st' hsame hw
    have hk := hw.2.symm
    rw [if_pos hk, if_pos hk, hsame c.key (hk ▸ hw.touches)]
  reply_local := by
    intro c st st' hsame
    by_cases hping : c.type = .kPing
    · unfold Command.answer; rw [hping]
    · rw [hsame c.key ⟨hping, rfl⟩]

theorem conflicts_of_conflict {P : Platform} {now : Int} {c c' : Command} (h : (commandOps P now).Conflict c c') :
    c.Conflicts c' := by
  obtain ⟨k, ⟨htype, rfl⟩, ⟨htype', hk⟩, hw⟩ := h
  refine ⟨⟨htype, hk.symm⟩, ⟨htype', hk⟩, hw.imp id fun hw => ⟨hw.1, rfl⟩⟩

/-- The replies to the commands, dispatched one after another at clock reading `now`. -/
def sequentialReplies {P : Platform} (st : Store P) (now : Int) : List Command → List Bytes
  | [] => []
  | c :: commands => (dispatch st now c).2 :: sequentialReplies (dispatch st now c).1 now commands

theorem dispatch_apply {P : Platform} (st : Store P) (now : Int) (c : Command) :
    (dispatch st now c).1.liveAt now = (commandOps P now).apply c (st.liveAt now) :=
  funext (dispatch_liveAt st now c)

theorem sequentialReplies_eq {P : Platform} (st : Store P) (now : Int) (commands : List Command) :
    sequentialReplies st now commands = (commandOps P now).replies (st.liveAt now) commands := by
  induction commands generalizing st with
  | nil => rfl
  | cons c commands ih =>
    rw [sequentialReplies, Serial.Ops.replies, ih, dispatch_apply, dispatch_reply]; rfl

end KvStore
