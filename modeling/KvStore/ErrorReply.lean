import KvStore.Framing
import KvStore.Lib.Resp2

/-!
# Error replies on the wire

`encode_error` copies the message of a protocol error as it is, and the message for an unknown command
quotes the name the client sent. `oneLine_message_iff`: the message fits on one line exactly if that name
does. `error_reply_iff` states it for every input and, with what dispatching can answer, for the whole
stream a client decodes.
-/

namespace KvStore
open ByteString Decimal Transition Resp2

/-- A RESP2 error reply: one line, with no CR or LF before its end. -/
def IsErrorReply (reply : Bytes) : Prop := ∃ text, OneLine text ∧ reply = 45 :: (text ++ crlf)

/-- The frame at the front of the input has a command name with a CR or an LF in it. -/
def NameBreaksLine (input : Bytes) : Prop :=
  ∃ name params raw rest, IsFrame (name :: params) raw ∧ input = raw ++ rest ∧ ¬ OneLine name

theorem isErrorReply_encodeError_iff {message : Bytes} :
    IsErrorReply (encodeError message) ↔ OneLine message := by
  constructor
  · rintro ⟨text, hone, heq⟩
    have : message ++ crlf = text ++ crlf := (List.cons.inj heq).2
    rw [List.append_cancel_right this]; exact hone
  · intro h
    exact ⟨message, h, rfl⟩

/-! ### Messages -/

section
variable {name key : Bytes} {params args : List Bytes} {e : SemanticError}

theorem oneLine_arityError (h : OneLine name) : OneLine (arityError name).message := by
  unfold arityError
  rw [oneLine_append, oneLine_append]
  exact ⟨⟨oneLine_ascii (by decide), h⟩, oneLine_ascii (by decide)⟩

theorem oneLine_checkKeyLength (h : checkKeyLength key = some e) : OneLine e.message := by
  unfold checkKeyLength at h
  split_ifs at h
  cases h
  show OneLine (ascii _)
  exact oneLine_ascii (by decide)

theorem oneLine_buildKeyCommand {type : CommandType} (hname : OneLine name)
    (h : buildKeyCommand type name params = .error e) : OneLine e.message := by
  unfold buildKeyCommand at h
  split at h
  · rename_i key
    cases hk : checkKeyLength key with
    | some err => rw [hk] at h; cases h; exact oneLine_checkKeyLength hk
    | none => rw [hk] at h; cases h
  · cases h; exact oneLine_arityError hname

theorem oneLine_buildSet (hname : OneLine name) (h : buildSet name params = .error e) : OneLine e.message := by
  unfold buildSet at h
  split at h
  · rename_i key value
    cases hk : checkKeyLength key with
    | some err => rw [hk] at h; cases h; exact oneLine_checkKeyLength hk
    | none =>
      rw [hk] at h; dsimp only at h
      split_ifs at h
      cases h
      show OneLine (ascii _)
      exact oneLine_ascii (by decide)
  · cases h; exact oneLine_arityError hname

theorem oneLine_buildExpire (hname : OneLine name) (h : buildExpire name params = .error e) :
    OneLine e.message := by
  unfold buildExpire at h
  split at h
  · rename_i key seconds
    cases hk : checkKeyLength key with
    | some err => rw [hk] at h; cases h; exact oneLine_checkKeyLength hk
    | none =>
      rw [hk] at h; dsimp only at h
      cases hs : parseNonnegativeInteger seconds with
      | none =>
        rw [hs] at h; cases h
        show OneLine (ascii _)
        exact oneLine_ascii (by decide)
      | some n => rw [hs] at h; cases h
  · cases h; exact oneLine_arityError hname

theorem oneLine_of_toUpperAscii (h : OneLine (toUpperAscii name)) : OneLine name := by
  have hmem : ∀ b : UInt8, ¬ (97 ≤ b ∧ b ≤ 122) → b ∈ name → b ∈ toUpperAscii name := by
    intro b hb hm
    exact List.mem_map.mpr ⟨b, hm, if_neg hb⟩
  exact ⟨fun hm => h.1 (hmem cr (by decide) hm), fun hm => h.2 (hmem lf (by decide) hm)⟩

/-- No command's name has a line break. -/
theorem buildCommand_unknown (h : ¬ OneLine name) :
    buildCommand (name :: params) = .error (unknownCommand name) := by
  have hne : ∀ {text : Bytes}, OneLine text → toUpperAscii name ≠ text := fun htext heq =>
    h (oneLine_of_toUpperAscii (heq ▸ htext))
  unfold buildCommand
  dsimp only
  rw [if_neg (hne (oneLine_ascii (by decide))), if_neg (hne (oneLine_ascii (by decide))),
    if_neg (hne (oneLine_ascii (by decide))), if_neg (hne (oneLine_ascii (by decide))),
    if_neg (hne (oneLine_ascii (by decide))), if_neg (hne (oneLine_ascii (by decide))),
    if_neg (hne (oneLine_ascii (by decide)))]

theorem oneLine_unknownCommand_iff : OneLine (unknownCommand name).message ↔ OneLine name := by
  unfold unknownCommand
  rw [oneLine_append, oneLine_append]
  exact ⟨fun hm => hm.1.2, fun hn => ⟨⟨oneLine_ascii (by decide), hn⟩, oneLine_ascii (by decide)⟩⟩

theorem oneLine_message_iff (h : buildCommand (name :: params) = .error e) :
    OneLine e.message ↔ OneLine name := by
  by_cases hname : OneLine name
  · refine iff_of_true ?_ hname
    unfold buildCommand at h
    dsimp only at h
    split_ifs at h with hping hparams hset hget hdel hexists hexpire httl
    · cases h; exact oneLine_arityError (hping ▸ oneLine_ascii (by decide))
    · exact oneLine_buildSet (hset ▸ oneLine_ascii (by decide)) h
    · exact oneLine_buildKeyCommand (hget ▸ oneLine_ascii (by decide)) h
    · exact oneLine_buildKeyCommand (hdel ▸ oneLine_ascii (by decide)) h
    · exact oneLine_buildKeyCommand (hexists ▸ oneLine_ascii (by decide)) h
    · exact oneLine_buildExpire (hexpire ▸ oneLine_ascii (by decide)) h
    · exact oneLine_buildKeyCommand (httl ▸ oneLine_ascii (by decide)) h
    · cases h; exact oneLine_unknownCommand_iff.mpr hname
  · rw [buildCommand_unknown hname] at h
    cases h
    exact oneLine_unknownCommand_iff

end

/-! ### Inputs -/

theorem IsFrame.unique {args args' : List Bytes} {raw raw' rest rest' : Bytes} (h : IsFrame args raw)
    (h' : IsFrame args' raw') (heq : raw ++ rest = raw' ++ rest') : args' = args := by
  have h1 := readMultibulkFrame_complete h rest
  have h2 := readMultibulkFrame_complete h' rest'
  rw [heq, h2] at h1
  exact (FrameResult.frameArgs.inj h1).1

theorem NameBreaksLine.recoverable {input : Bytes} (h : NameBreaksLine input) :
    ∃ e, parseCommand input = .protocolError e ∧ e.recoverable = true := by
  obtain ⟨name, params, raw, rest, hframe, rfl, hname⟩ := h
  rw [parseCommand_of_isFrame hframe rest, frameVerdict, buildCommand_unknown hname]
  exact ⟨_, rfl, rfl⟩

theorem oneLine_of_mem_frameErrors {e : ProtocolError} (h : e ∈ frameErrors) : OneLine e.message := by
  simp only [frameErrors, List.mem_cons, List.not_mem_nil, or_false] at h
  rcases h with rfl | rfl | rfl | rfl | rfl | rfl | rfl | rfl | rfl
  all_goals
    show OneLine (ascii _)
    exact oneLine_ascii (by decide)

theorem isErrorReply_iff_name {input : Bytes} {e : ProtocolError} (h : parseCommand input = .protocolError e) :
    IsErrorReply (encodeError e.message) ↔ ¬ NameBreaksLine input := by
  rw [isErrorReply_encodeError_iff]
  rcases parseCommand_cases input with hp | ⟨e', he', hp⟩ | ⟨args, raw, rest, hframe, hin, hp⟩
  · rw [hp] at h; cases h
  · rw [hp] at h; cases h
    refine iff_of_true (oneLine_of_mem_frameErrors he') fun hname => ?_
    obtain ⟨e', he, hrec⟩ := hname.recoverable
    rw [hp] at he; cases he
    rw [recoverable_of_mem_frameErrors he'] at hrec; cases hrec
  · rw [hp] at h
    unfold frameVerdict at h
    cases hb : buildCommand args with
    | ok c => rw [hb] at h; cases h
    | error err =>
      rw [hb] at h; cases h
      cases args with
      | nil =>
        cases hb
        refine iff_of_true (oneLine_unknownCommand_iff.mpr ⟨List.not_mem_nil, List.not_mem_nil⟩) ?_
        rintro ⟨name, params, raw', rest', hframe', hin', -⟩
        cases IsFrame.unique hframe' hframe (hin'.symm.trans hin)
      | cons name params =>
        dsimp only
        rw [oneLine_message_iff hb]
        constructor
        · rintro hone ⟨name', params', raw', rest', hframe', hin', hname⟩
          cases IsFrame.unique hframe' hframe (hin'.symm.trans hin)
          exact hname hone
        · intro hno
          by_contra hname
          exact hno ⟨name, params, raw, rest, hframe, hin, hname⟩

/-! ### Replies of the store -/

theorem readInt_decimalText (n : Int) : readInt (decimalText n) = some n := by
  cases n with
  | ofNat n =>
    have hsign : (ofNat n).head? ≠ some 45 := fun h => by
      have := isDigit_of_mem_ofNat (List.mem_of_mem_head? h)
      exact absurd this (by decide)
    show readInt (ofNat n) = _
    rw [readInt, if_neg hsign, readNat_ofNat]; rfl
  | negSucc n =>
    show readInt (45 :: ofNat (n + 1)) = _
    rw [readInt, if_pos List.head?_cons, List.tail_cons, readNat_ofNat]; rfl

theorem oneLine_decimalText (n : Int) : OneLine (decimalText n) := by
  cases n with
  | ofNat n => exact oneLine_ofNat n
  | negSucc n =>
    have : OneLine ([45] ++ ofNat (n + 1)) := oneLine_append.mpr ⟨by decide, oneLine_ofNat _⟩
    exact this

theorem decodes_encodeInteger (n : Int) : Decodes (encodeInteger n) [.integer n] :=
  decodes_integer (oneLine_decimalText n) (readInt_decimalText n)

def TtlResult.number : TtlResult → Int
  | .kMissing => -2
  | .kNoTtl => -1
  | .kHasTtl remaining => remaining

theorem encodeTtl_eq (result : TtlResult) : encodeTtl result = encodeInteger result.number := by
  cases result <;> rfl

/-- What a client decodes from the reply to a command. -/
def decodedReply {P : Platform} (st : Store P) (now : Int) (c : Command) : Reply :=
  match c.type with
  | .kPing => .simpleString (ascii "PONG")
  | .kSet => .simpleString (ascii "OK")
  | .kGet =>
    match (st.get now c.key).2 with
    | none => .nullBulkString
    | some value => .bulkString value
  | .kDel => .integer (if (st.del now c.key).2 then 1 else 0)
  | .kExists => .integer (if (st.exists now c.key).2 then 1 else 0)
  | .kExpire => .integer (if (st.expire now c.key c.seconds).2 then 1 else 0)
  | .kTtl => .integer (st.ttl now c.key).2.number

theorem decodes_dispatch {P : Platform} (st : Store P) (now : Int) (c : Command) :
    Decodes (dispatch st now c).2 [decodedReply st now c] := by
  unfold dispatch decodedReply
  cases c.type with
  | kPing => exact decodes_simpleString (oneLine_ascii (by decide))
  | kSet => exact decodes_simpleString (oneLine_ascii (by decide))
  | kGet =>
    dsimp only
    unfold dispatchGet
    rcases st.get now c.key with ⟨st', _ | value⟩
    · have hnull : decodeOne encodeNullBulkString = some (.nullBulkString, []) := by decide
      exact decodes_single hnull
    · exact decodes_bulkString value
  | kDel => exact decodes_encodeInteger _
  | kExists => exact decodes_encodeInteger _
  | kExpire => exact decodes_encodeInteger _
  | kTtl =>
    show Decodes (encodeTtl (st.ttl now c.key).2) _
    rw [encodeTtl_eq]
    exact decodes_encodeInteger _

theorem IsReply.decodes {command : Command} {reply : Bytes} (h : IsReply command reply) :
    ∃ r, Decodes reply [r] := by
  obtain ⟨P, st, now, rfl⟩ := h
  exact ⟨_, decodes_dispatch st now command⟩

/-! ### What a client decodes -/

/-- The verdict on a taken frame is the parser's verdict on its bytes (a fatal error takes none), and a
dispatch is answered by the store. -/
def Event.Sound : Event → Prop
  | .taken _ _ verdict raw _ =>
    parseCommand raw = verdict ∨ raw = [] ∧ ∃ e ∈ frameErrors, verdict = .protocolError e
  | .dispatched _ _ command reply => IsReply command reply
  | _ => True

section
variable {cfg : EventLoopConfig} {k k' : Core} {evs log : List Event} {g i : Nat} {c : Connection}

theorem OwnAnswer.sound {verdict : ParseResult} {n : Nat} {reply : Bytes} {goOn : Bool}
    (h : OwnAnswer c verdict n reply goOn) : (c.takenEvent verdict n (some reply)).Sound := by
  cases h with
  | refused hp _ =>
    rw [← hp]
    exact .inl (parseCommand_take_consumed (by rw [hp]; rfl))
  | recoverable hp hr =>
    rw [← hp]
    exact .inl (parseCommand_take_consumed (by rw [hp]; exact if_pos hr))
  | @fatal e hp hr =>
    refine .inr ⟨rfl, ?_⟩
    rcases parseCommand_cases c.input.data with hp' | ⟨e', he', hp'⟩ | ⟨args, raw, rest, -, -, hp'⟩
    · rw [hp'] at hp; cases hp
    · rw [hp'] at hp; cases hp; exact ⟨_, he', rfl⟩
    · have hcons := consumed_frameVerdict args raw.length
      rw [← hp', hp, ParseResult.consumed, hr] at hcons
      cases hcons

theorem CloseEvents.sound {output : Bytes} (h : CloseEvents g output evs) : ∀ e ∈ evs, e.Sound := by
  intro e he
  cases h with
  | quiet => rw [List.mem_singleton.mp he]; trivial
  | flushed _ =>
    rcases List.mem_cons.mp he with rfl | he
    · trivial
    · rw [List.mem_singleton.mp he]; trivial

theorem Move.sound (h : Move cfg k evs k') : ∀ e ∈ evs, e.Sound := by
  have hone : ∀ {e₀ : Event}, e₀.Sound → ∀ e ∈ [e₀], e.Sound := fun h₀ e he =>
    List.mem_singleton.mp he ▸ h₀
  cases h with
  | accept _ => exact hone trivial
  | close _ hevs => exact hevs.sound
  | send _ _ => exact hone trivial
  | receive _ _ => exact hone trivial
  | handOver _ _ hparse =>
    refine hone ?_
    rw [← hparse]
    exact .inl (parseCommand_take_consumed (by rw [hparse]; rfl))
  | answer _ _ hown _ => exact hone hown.sound
  | answerClose _ _ hown _ hevs =>
    intro e he
    rcases List.mem_cons.mp he with rfl | he
    · exact hown.sound
    · exact hevs.sound e he
  | completeClose _ _ _ hevs => exact hevs.sound
  | dispatch _ hreply => exact hone hreply
  | _ => exact fun _ he => by cases he

theorem exists_taken_of_frame {frame : TakenFrame} (h : (framesOf g log)[i]? = some frame) :
    ∃ q, .taken g q frame.verdict frame.raw frame.own ∈ log := by
  obtain ⟨e, he, hframe⟩ := List.mem_filterMap.mp (List.mem_of_getElem? h)
  cases e with
  | taken g' q verdict raw own =>
    simp only [Event.frame] at hframe
    split_ifs at hframe with hg
    cases hframe
    exact ⟨q, hg ▸ he⟩
  | _ => cases hframe

theorem IsResponse.decodes_iff {r : Bytes} {frame : TakenFrame} (hsound : ∀ e ∈ log, e.Sound)
    (h : IsResponse log g i r) (hframe : (framesOf g log)[i]? = some frame) :
    (∃ reply, Decodes r [reply]) ↔ ¬ NameBreaksLine frame.raw := by
  obtain ⟨q, hq⟩ := exists_taken_of_frame hframe
  have htaken := hsound _ hq
  have hcommand : ∀ {command : Command} {n : Nat}, frame.verdict = .parsedCommand command n →
      ¬ NameBreaksLine frame.raw := by
    intro command n hv hname
    rcases htaken with hp | ⟨-, e, -, he⟩
    · obtain ⟨e, he, -⟩ := hname.recoverable
      rw [hp, hv] at he; cases he
    · rw [hv] at he; cases he
  cases h with
  | dispatched hf hd =>
    rw [hframe] at hf; cases hf
    exact iff_of_true (hsound _ hd).decodes (hcommand rfl)
  | refused hf hr =>
    rw [hframe] at hf; cases hf
    refine iff_of_true ?_ (hcommand rfl)
    rcases hr with rfl | rfl
    · exact decodes_error_iff.mpr (oneLine_ascii (by decide))
    · exact decodes_error_iff.mpr (oneLine_ascii (by decide))
  | protocolError hf =>
    rw [hframe] at hf; cases hf
    rw [show (∃ reply, Decodes (encodeError _) [reply]) ↔ _ from decodes_error_iff,
      ← isErrorReply_encodeError_iff]
    rcases htaken with hp | ⟨hnil, e, he, heq⟩
    · exact isErrorReply_iff_name hp
    · cases heq
      refine iff_of_true (isErrorReply_encodeError_iff.mpr (oneLine_of_mem_frameErrors he)) fun hname => ?_
      obtain ⟨e', he', -⟩ := hname.recoverable
      rw [show _ = ([] : Bytes) from hnil] at he'
      cases he'

end

section
variable {P : Platform} {cfg : ServerConfig} {store : Store P} {clock : Int} {log : List Event} {s : System P}

theorem System.Run.sound (h : System.Run cfg store clock log s) : ∀ e ∈ log, e.Sound := by
  have hstep : ∀ log evs k k', (∀ e ∈ log, e.Sound) → Move cfg.toEventLoopConfig k evs k' →
      ∀ e ∈ log ++ evs, e.Sound := by
    intro log evs k k' hinv hmove e he
    rcases List.mem_append.mp he with he | he
    · exact hinv e he
    · exact hmove.sound e he
  exact h.invariant (fun _ he => by cases he) hstep

end

theorem IsResponse.frame {log : List Event} {g i : Nat} {r : Bytes} (h : IsResponse log g i r) :
    ∃ frame, (framesOf g log)[i]? = some frame := by
  cases h with
  | dispatched hf _ => exact ⟨_, hf⟩
  | refused hf _ => exact ⟨_, hf⟩
  | protocolError hf => exact ⟨_, hf⟩

/-- A client decodes the stream in one way, and finds one reply for each of the responses `rs`. -/
def OneReplyEach (stream : Bytes) (rs : List Bytes) : Prop :=
  ∃ replies, List.Forall₂ (fun r reply => Decodes r [reply]) rs replies ∧
    ∀ replies', Decodes stream replies' ↔ replies' = replies

theorem oneReplyEach_iff {rs : List Bytes} :
    OneReplyEach rs.flatten rs ↔ ∀ r ∈ rs, ∃ reply, Decodes r [reply] := by
  constructor
  · rintro ⟨replies, hall, -⟩ r hr
    induction hall with
    | nil => cases hr
    | cons hone _ ih =>
      rcases List.mem_cons.mp hr with rfl | hr
      · exact ⟨_, hone⟩
      · exact ih hr
  · intro hall
    have hreplies : ∃ replies, List.Forall₂ (fun r reply => Decodes r [reply]) rs replies := by
      induction rs with
      | nil => exact ⟨[], .nil⟩
      | cons r rs ih =>
        obtain ⟨reply, hreply⟩ := hall r List.mem_cons_self
        obtain ⟨replies, hreplies⟩ := ih fun r' hr' => hall r' (List.mem_cons_of_mem _ hr')
        exact ⟨reply :: replies, .cons hreply hreplies⟩
    obtain ⟨replies, hreplies⟩ := hreplies
    have hdec := decodes_flatten hreplies
    exact ⟨replies, hreplies, fun replies' => ⟨hdec.unique, fun h => h ▸ hdec⟩⟩

/-- The reply to a protocol error is one RESP2 error exactly if the refused frame's name has no CR or LF; and
a client of any run finds one reply for each answered request exactly if none of these requests has such a
name. -/
theorem error_reply_iff (input : Bytes) :
    (∀ e, parseCommand input = .protocolError e →
      (IsErrorReply (encodeError e.message) ↔ ¬ NameBreaksLine input)) ∧
    ∀ (P : Platform) (cfg : ServerConfig) (store : Store P) (clock : Int) (log : List Event) (s : System P),
      System.Run cfg store clock log s → ∀ id g, .accepted id g ∈ log → ∀ b, Unsent log s g b →
        ∃ rs : List Bytes, sentOf g log ++ b = rs.flatten ∧
          (∀ i r, rs[i]? = some r → IsResponse log g i r) ∧
          (OneReplyEach (sentOf g log ++ b) rs ↔
            ∀ frame ∈ (framesOf g log).take rs.length, ¬ NameBreaksLine frame.raw) := by
  refine ⟨fun e => isErrorReply_iff_name, fun P cfg store clock log s h id g haccepted b hb => ?_⟩
  obtain ⟨m, rs, -, hstream, hall⟩ := h.serverInv.stream.unsent hb
  refine ⟨rs, hstream, hall, ?_⟩
  rw [hstream, oneReplyEach_iff]
  constructor
  · intro hone frame hframe
    obtain ⟨i, hi, hget⟩ := List.getElem_of_mem hframe
    rw [List.getElem_take] at hget
    have hlt : i < rs.length := lt_of_lt_of_le hi (List.length_take_le _ _)
    have hframe : (framesOf g log)[i]? = some frame := List.getElem?_eq_some_iff.mpr ⟨_, hget⟩
    have hresp := hall i rs[i] (List.getElem?_eq_getElem hlt)
    exact (hresp.decodes_iff h.sound hframe).mp (hone _ (List.getElem_mem hlt))
  · intro hno r hr
    obtain ⟨i, hi, rfl⟩ := List.getElem_of_mem hr
    have hresp := hall i rs[i] (List.getElem?_eq_getElem hi)
    obtain ⟨frame, hframe⟩ := hresp.frame
    refine (hresp.decodes_iff h.sound hframe).mpr (hno frame ?_)
    obtain ⟨hlt, hget⟩ := List.getElem?_eq_some_iff.mp hframe
    rw [← hget]
    exact List.mem_take_iff_getElem.mpr ⟨i, by omega, rfl⟩

/-- The reply to an unknown `x`, and the replies of the sample run. -/
theorem error_reply_unknown_x : ¬ NameBreaksLine (ascii "*1\r\n$1\r\nx\r\n") ∧
    ∀ b, Unsent sampleLog sampleState 1 b → ∃ rs : List Bytes, sentOf 1 sampleLog ++ b = rs.flatten ∧
      (∀ i r, rs[i]? = some r → IsResponse sampleLog 1 i r) ∧
      (OneReplyEach (sentOf 1 sampleLog ++ b) rs ↔
        ∀ frame ∈ (framesOf 1 sampleLog).take rs.length, ¬ NameBreaksLine frame.raw) := by
  refine ⟨?_, (error_reply_iff []).2 _ _ _ _ _ _ sample_run 7 1 (by decide +kernel)⟩
  have hparse : parseCommand (ascii "*1\r\n$1\r\nx\r\n") = .protocolError
      ⟨.kUnknownCommand, ascii "ERR unknown command 'x'", true, 11⟩ := by decide +kernel
  exact ((error_reply_iff _).1 _ hparse).mp ⟨ascii "ERR unknown command 'x'", by decide, rfl⟩

/-- A name with a line break in it: the client that sent one request finds two replies. -/
theorem error_reply_injected : ∃ e,
    parseCommand (ascii "*1\r\n$6\r\nx\r\n+OK\r\n") = .protocolError e ∧
      ¬ IsErrorReply (encodeError e.message) ∧
      Decodes (encodeError e.message)
        [.error (ascii "ERR unknown command 'x"), .simpleString (ascii "OK'")] := by
  refine ⟨⟨.kUnknownCommand, ascii "ERR unknown command 'x\r\n+OK'", true, 16⟩, by decide +kernel, ?_, ?_⟩
  · rw [isErrorReply_encodeError_iff]; decide
  · exact .cons (show decodeOne _ = some (_, ascii "+OK'\r\n") by decide) (.cons (by decide) .nil)

end KvStore
