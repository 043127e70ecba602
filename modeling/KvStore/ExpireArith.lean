import KvStore.ParserSpec
import KvStore.StoreRefine

/-!
# The arithmetic of `EXPIRE`

The parser accepts every number of seconds below `2 ^ 63`, the store scales it to `int64` nanoseconds and
adds the clock reading. The deadline it stores is the exact one iff that exact deadline is itself an
`int64` (`expire_exact_iff`); otherwise the wrapped deadline is too early for every later reading.
-/

namespace KvStore
open ByteString ExpiringMap

/-- A number of seconds that `parse_command` lets through to `Store::expire`. -/
def AcceptedSeconds (s : Int) : Prop :=
  ∃ input c n, parseCommand input = .parsedCommand c n ∧ c.type = .kExpire ∧ c.seconds = s

theorem AcceptedSeconds.bounds {s : Int} (h : AcceptedSeconds s) : 0 ≤ s ∧ s < 2 ^ 63 := by
  obtain ⟨input, c, n, hp, htype, rfl⟩ := h
  obtain ⟨args, raw, rest, -, -, -, hc⟩ := isCommand_of_parseCommand hp
  cases hc with
  | expire hname hkey hnum hle =>
    dsimp only
    constructor
    · exact Int.natCast_nonneg _
    · norm_cast; omega
  | _ => cases htype

/-! ### Wrapping -/

theorem wrap64_eq_self {x : Int} (h : -2 ^ 63 ≤ x) (h' : x < 2 ^ 63) : wrap64 x = x :=
  Int.bmod_eq_of_le_mul_two (by norm_num; omega) (by norm_num; omega)

theorem wrap64_lt (x : Int) : wrap64 x < 2 ^ 63 := by
  have : wrap64 x < ((2 ^ 64 : Nat) + 1 : Int) / 2 := Int.bmod_lt (by decide)
  norm_num at this ⊢; omega

theorem addSeconds_int64_eq {now s : Int} (hnow : 0 ≤ now) (hs : 0 ≤ s)
    (h : now + s * nanosPerSecond < 2 ^ 63) :
    Chrono.int64.addSeconds now s = now + s * nanosPerSecond := by
  have hpos : 0 ≤ s * nanosPerSecond := Int.mul_nonneg hs (by decide)
  have hscaled : wrap64 (s * nanosPerSecond) = s * nanosPerSecond := wrap64_eq_self (by omega) (by omega)
  show wrap64 (now + wrap64 (s * nanosPerSecond)) = _
  rw [hscaled, wrap64_eq_self (by omega) h]

/-! ### Calls that do not write a key -/

/-- The operation may change what is stored under `key`. -/
def StoreOp.writes (key : Bytes) : StoreOp → Bool
  | .set k _ | .del k | .expire k _ => k = key
  | _ => false

def Store.after {P : Platform} (st : Store P) (calls : List StoreCall) : Store P :=
  calls.foldl (fun st c => (st.call c).1) st

section
variable {P : Platform} {st : Store P} {key : Bytes} {now t s : Int}

theorem Store.call_liveAt {c : StoreCall} (hw : c.op.writes key = false) (hle : c.now ≤ t) :
    (st.call c).1.liveAt t key = st.liveAt t key := by
  obtain ⟨now, op⟩ := c
  rcases op with ⟨k, value⟩ | k | k | k | ⟨k, s⟩ | k | n
  · have hne : ¬ key = k := fun h => by simp [StoreOp.writes, h] at hw
    exact (Store.set_liveAt st k value t key).trans (if_neg hne)
  · exact Store.get_liveAt hle
  · have hne : ¬ key = k := fun h => by simp [StoreOp.writes, h] at hw
    exact (Store.del_liveAt st now k t key).trans (if_neg hne)
  · exact Store.exists_liveAt hle
  · have hne : ¬ key = k := fun h => by simp [StoreOp.writes, h] at hw
    exact (Store.expire_liveAt s).trans (if_neg hne)
  · exact Store.ttl_liveAt hle
  · exact Store.sweepExpired_liveAt n hle

theorem Store.after_liveAt {calls : List StoreCall}
    (h : ∀ c ∈ calls, c.now ≤ t ∧ c.op.writes key = false) :
    (st.after calls).liveAt t key = st.liveAt t key := by
  induction calls generalizing st with
  | nil => rfl
  | cons c calls ih =>
    obtain ⟨hle, hw⟩ := h c List.mem_cons_self
    exact (ih fun c' hc' => h c' (List.mem_cons_of_mem c hc')).trans (Store.call_liveAt hw hle)

/-! ### Exactness -/

/-- After `EXPIRE key s` at `now` and any calls that do not write the key, the key exists at `t` exactly
before `now + s` seconds, and a `TTL` at the same reading answers `s`. -/
def ExpiryExact (st : Store P) (now : Int) (key : Bytes) (s : Int) : Prop :=
  (st.expire now key s).2 = true ∧
  (∀ (calls : List StoreCall) (t : Int), (∀ c ∈ calls, c.now ≤ t ∧ c.op.writes key = false) →
    now ≤ t → t < 2 ^ 63 →
    ((((st.expire now key s).1.after calls).exists t key).2 = true ↔ t < now + s * nanosPerSecond)) ∧
  (1 ≤ s → ((st.expire now key s).1.ttl now key).2 = .kHasTtl s)

theorem expire_liveAt_key {c : Cell Bytes} (hlive : st.liveAt now key = some c) :
    (st.expire now key s).1.liveAt t key =
      if t < P.chrono.addSeconds now s then some (c.1, some (P.chrono.addSeconds now s)) else none := by
  rw [Store.expire_liveAt, if_pos rfl, hlive, Option.map_some, liveIn_some]
  simp only [Cell.live, decide_eq_true_eq]

theorem exists_after_expire {c : Cell Bytes} (hlive : st.liveAt now key = some c) {calls : List StoreCall}
    (h : ∀ c ∈ calls, c.now ≤ t ∧ c.op.writes key = false) :
    (((st.expire now key s).1.after calls).exists t key).2 = true ↔ t < P.chrono.addSeconds now s := by
  rw [Store.exists_result, Store.after_liveAt h, expire_liveAt_key hlive]
  split_ifs with hlt
  · exact iff_of_true rfl hlt
  · exact iff_of_false Bool.false_ne_true hlt

theorem ttl_after_expire (hP : P.chrono = .int64) {c : Cell Bytes} (hlive : st.liveAt now key = some c)
    (hnow : 0 ≤ now) (hs : 1 ≤ s) (hfit : now + s * nanosPerSecond < 2 ^ 63) :
    ((st.expire now key s).1.ttl now key).2 = .kHasTtl s := by
  have hpos : 0 < s * nanosPerSecond := Int.mul_pos (by omega) (by decide)
  have hd := addSeconds_int64_eq hnow (by omega : 0 ≤ s) hfit
  rw [Store.ttl_result, expire_liveAt_key hlive, hP, hd, if_pos (by omega)]
  have hsub : Chrono.int64.sub (now + s * nanosPerSecond) now = s * nanosPerSecond := by
    have hdiff : now + s * nanosPerSecond - now = s * nanosPerSecond := by omega
    show wrap64 (now + s * nanosPerSecond - now) = _
    rw [hdiff, wrap64_eq_self (by omega) (by omega)]
  show TtlResult.kHasTtl (Store.durationCastSeconds (P.chrono.sub _ now)) = _
  rw [hP, hsub, Store.durationCastSeconds, Int.mul_tdiv_cancel s (by decide)]

/-- `EXPIRE` is exact iff the exact deadline fits the clock's `int64`. -/
theorem expire_exact_iff (hP : P.chrono = .int64) (haccepted : AcceptedSeconds s) (hnow : 0 ≤ now)
    (hnow' : now < 2 ^ 63) (hexists : (st.exists now key).2 = true) :
    ExpiryExact st now key s ↔ now + s * nanosPerSecond < 2 ^ 63 := by
  obtain ⟨c, hlive⟩ := Option.isSome_iff_exists.mp (Store.exists_result.symm.trans hexists)
  constructor
  · rintro ⟨-, hexact, -⟩
    by_contra hover
    -- the stored deadline is an `int64`, so the last clock reading is past it
    have hlast := (hexact [] (2 ^ 63 - 1) (by simp) (by omega) (by omega)).mpr (by omega)
    rw [exists_after_expire hlive (by simp), hP] at hlast
    have : Chrono.int64.addSeconds now s < 2 ^ 63 := wrap64_lt _
    omega
  · intro hfit
    refine ⟨?_, fun calls t hcalls _ _ => ?_, fun hs => ttl_after_expire hP hlive hnow hs hfit⟩
    · rw [Store.expire_result, hlive]; rfl
    · rw [exists_after_expire hlive hcalls, hP, addSeconds_int64_eq hnow haccepted.bounds.1 hfit]

end

/-- A live key with an hour to live, at reading 5. -/
theorem expire_exact_hour :
    ExpiryExact ((Store.ofCount (.reference .int64) ⟨2, 1, rfl⟩).set (ascii "k") (ascii "v")) 5 (ascii "k")
      3600 ↔ (5 : Int) + 3600 * nanosPerSecond < 2 ^ 63 :=
  expire_exact_iff rfl
    ⟨ascii "*3\r\n$6\r\nEXPIRE\r\n$1\r\nk\r\n$4\r\n3600\r\n",
      { type := .kExpire, key := ascii "k", seconds := 3600 }, 33, by decide +kernel, rfl, rfl⟩
    (by decide) (by decide) (by decide +kernel)

/-- `EXPIRE k 9223372037` at reading 0 answers that the key got its 292 years, and the key is gone. -/
theorem expire_overflow :
    AcceptedSeconds 9223372037 ∧
    ((((Store.ofCount (.reference .int64) ⟨2, 1, rfl⟩).set (ascii "k") (ascii "v")).exists 0 (ascii "k")).2 = true) ∧
    ¬ ExpiryExact ((Store.ofCount (.reference .int64) ⟨2, 1, rfl⟩).set (ascii "k") (ascii "v")) 0 (ascii "k")
      9223372037 := by
  refine ⟨⟨ascii "*3\r\n$6\r\nEXPIRE\r\n$1\r\nk\r\n$10\r\n9223372037\r\n",
    { type := .kExpire, key := ascii "k", seconds := 9223372037 }, 40, by decide +kernel, rfl, rfl⟩,
    by decide +kernel, ?_⟩
  rintro ⟨-, hexact, -⟩
  have hgone := (hexact [] 1 (by simp) (by decide) (by decide)).mpr (by decide)
  revert hgone
  decide +kernel

end KvStore
