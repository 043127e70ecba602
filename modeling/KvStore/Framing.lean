import KvStore.ParserStable
import KvStore.Routing

/-!
# Framing of pipelined streams

A client encodes its argument lists with `encodeCommand` and writes them one behind the other. Its headers
are short, so no read can end in a header that the parser takes for too long: a strict prefix of an encoding
is always incomplete (`parseCommand_encodePrefix`). `ReceivedInv` says that the bytes received on an open
connection are the frames taken so far followed by the input buffer. From a stream of frames the frames are
taken one by one, however it is cut (`Framed.tookFrames`); for encoded commands this gives `frames_of_stream`.
-/

namespace KvStore
open ByteString Decimal Transition

/-! ### The client's encoding -/

/-- `'$' L CRLF body CRLF`. -/
def encodePart (part : Bytes) : Bytes := 36 :: (ofNat part.length ++ (crlf ++ (part ++ crlf)))

/-- `encode_command` of `benchmarks/client/kv_bench.cpp`. -/
def encodeCommand (parts : List Bytes) : Bytes :=
  42 :: (ofNat parts.length ++ (crlf ++ (parts.map encodePart).flatten))

/-- At most three parts of at most a mebibyte each. -/
structure Encodable (parts : List Bytes) : Prop where
  length_le : parts.length ≤ 3
  part_le : ∀ part ∈ parts, part.length ≤ 1048576

theorem isHeader_ofNat {n : Nat} (h : n ≤ 1048576) : IsHeader (ofNat n) n := by
  have hlen : (ofNat n).length ≤ 20 := length_ofNat_le (by decide) (by omega)
  exact ⟨isNumeral_ofNat n, hlen⟩

/-- A client may choose the spelling of each length. -/
theorem isBlocks_map {parts : List Bytes} {encode : Bytes → Bytes} (h : ∀ part ∈ parts, IsBlock part (encode part)) :
    IsBlocks parts (parts.map encode).flatten := by
  induction parts with
  | nil => exact .nil
  | cons part parts ih =>
    exact .cons (h part List.mem_cons_self) (ih fun p hp => h p (List.mem_cons_of_mem _ hp))

theorem isBlock_encode {part : Bytes} (h : part.length ≤ 1048576) : IsBlock part (encodePart part) :=
  ⟨ofNat part.length, isHeader_ofNat h, h, rfl⟩

theorem Encodable.isFrame {parts : List Bytes} (h : Encodable parts) :
    IsFrame parts (encodeCommand parts) :=
  ⟨ofNat parts.length, _, isHeader_ofNat (le_trans h.length_le (by decide)), h.length_le,
    isBlocks_map fun part hpart => isBlock_encode (h.part_le part hpart), rfl⟩

theorem cr_notMem_ofNat (n : Nat) : cr ∉ ofNat n := Decimal.cr_notMem fun _ hb => isDigit_of_mem_ofNat hb

/-- Inside encoded parts every length line is the client's own, with at most seven digits. -/
theorem header_short_of_blocks {parts args : List Bytes} {blocks L : Bytes} {v : Nat}
    (hparts : ∀ part ∈ parts, part.length ≤ 1048576) (hb : IsBlocks args blocks) (hL : IsHeader L v)
    (h : blocks ++ 36 :: (L ++ [cr]) <+: (parts.map encodePart).flatten) : L.length ≤ 7 := by
  induction hb generalizing parts with
  | nil =>
    cases parts with
    | nil => simp at h
    | cons part parts =>
      have hline : L ++ cr :: [] <+:
          ofNat part.length ++ cr :: (lf :: (part ++ crlf) ++ (parts.map encodePart).flatten) := by
        simpa [encodePart, crlf] using h
      obtain ⟨rfl, -⟩ := split_unique hL.cr_notMem (cr_notMem_ofNat _) hline
      have := hparts part List.mem_cons_self
      exact length_ofNat_le (by decide) (by omega)
  | @cons body raw bodies raws hblock _ ih =>
    obtain ⟨L₁, hL₁, -, rfl⟩ := hblock
    cases parts with
    | nil => simp at h
    | cons part parts =>
      have hline : L₁ ++ cr :: (lf :: (body ++ (crlf ++ (raws ++ 36 :: (L ++ [cr]))))) <+:
          ofNat part.length ++ cr :: (lf :: (part ++ (crlf ++ (parts.map encodePart).flatten))) := by
        simpa [encodePart, crlf] using h
      obtain ⟨rfl, hrest⟩ := split_unique hL₁.cr_notMem (cr_notMem_ofNat _) hline
      -- the announced lengths agree, so the bodies do
      have hlen : body.length = part.length := by rw [← hL₁.value_eq, value_ofNat]
      obtain ⟨t, ht⟩ := (List.cons_prefix_cons.mp hrest).2
      rw [List.append_assoc] at ht
      obtain ⟨-, htail⟩ := List.append_inj ht hlen
      rw [List.append_assoc] at htail
      refine ih (fun p hp => hparts p (List.mem_cons_of_mem _ hp)) ⟨t, ?_⟩
      exact List.append_cancel_left htail

theorem not_headerCut_encode {parts : List Bytes} (henc : Encodable parts) {s : Bytes}
    (h : s <+: encodeCommand parts) : ¬ HeaderCut s := by
  intro hcut
  have hsmall : (ofNat parts.length).length ≤ 1 :=
    length_ofNat_le (by decide) (by have := henc.length_le; omega)
  cases hcut with
  | @array D n hD hlen _ =>
    have hline : D ++ cr :: [] <+: ofNat parts.length ++ cr :: (lf :: (parts.map encodePart).flatten) := by
      simpa [encodeCommand, crlf] using h
    obtain ⟨rfl, -⟩ := split_unique hD.cr_notMem (cr_notMem_ofNat _) hline
    omega
  | @bulk D blocks L n v args hD _ hblocks _ hL hlen _ =>
    have hline : D ++ cr :: (lf :: (blocks ++ 36 :: (L ++ [cr]))) <+:
        ofNat parts.length ++ cr :: (lf :: (parts.map encodePart).flatten) := by
      simpa [encodeCommand, crlf] using h
    obtain ⟨-, hrest⟩ := split_unique hD.cr_notMem (cr_notMem_ofNat _) hline
    have := header_short_of_blocks henc.part_le hblocks hL (List.cons_prefix_cons.mp hrest).2
    omega

/-- How many bytes a verdict takes off the buffer. -/
def ParseResult.consumed : ParseResult → Option Nat
  | .needMoreData => none
  | .parsedCommand _ n => some n
  | .protocolError e => if e.recoverable then some e.consumedBytes else none

theorem SameVerdict.consumed {r r' : ParseResult} (h : SameVerdict r r') : r.consumed = r'.consumed := by
  have herase : ∀ r : ParseResult, r.eraseMessage.consumed = r.consumed := fun r => by cases r <;> rfl
  rw [← herase r, ← herase r', show r.eraseMessage = r'.eraseMessage from h]

theorem consumed_frameVerdict (args : List Bytes) (n : Nat) : (frameVerdict args n).consumed = some n := by
  unfold frameVerdict
  cases buildCommand args <;> rfl

theorem frame_of_consumed {input : Bytes} {n : Nat} (h : (parseCommand input).consumed = some n) :
    ∃ args raw rest, IsFrame args raw ∧ input = raw ++ rest ∧ raw.length = n ∧
      parseCommand input = frameVerdict args n := by
  rcases parseCommand_cases input with hp | ⟨e, he, hp⟩ | ⟨args, raw, rest, hframe, hin, hp⟩
  · rw [hp] at h; cases h
  · rw [hp] at h
    simp [ParseResult.consumed, recoverable_of_mem_frameErrors he] at h
  · rw [hp, consumed_frameVerdict] at h
    cases h
    exact ⟨args, raw, rest, hframe, hin, rfl, hp⟩

/-- `'*'`, a digit and CRLF are always there. -/
theorem IsFrame.four_le {args : List Bytes} {raw : Bytes} (h : IsFrame args raw) : 4 ≤ raw.length := by
  obtain ⟨D, blocks, hD, -, -, rfl⟩ := h
  have := List.length_pos_iff.mpr hD.ne_nil
  simp only [List.length_cons, List.length_append, crlf]
  omega

theorem consumed_bounds {input : Bytes} {n : Nat} (h : (parseCommand input).consumed = some n) :
    4 ≤ n ∧ n ≤ input.length := by
  obtain ⟨args, raw, rest, hframe, rfl, rfl, -⟩ := frame_of_consumed h
  refine ⟨hframe.four_le, ?_⟩
  rw [List.length_append]
  exact Nat.le_add_right _ _

theorem parseCommand_take_consumed {input : Bytes} {n : Nat} (h : (parseCommand input).consumed = some n) :
    parseCommand (input.take n) = parseCommand input := by
  obtain ⟨args, raw, rest, hframe, rfl, rfl, hp⟩ := frame_of_consumed h
  have := parseCommand_of_isFrame hframe []
  rw [List.append_nil] at this
  rw [hp, List.take_left, this]

theorem isFrame_of_consumed {f : Bytes} (h : (parseCommand f).consumed = some f.length) :
    ∃ args, IsFrame args f := by
  obtain ⟨args, raw, rest, hframe, hin, hlen, -⟩ := frame_of_consumed h
  have hraw : raw = f := List.IsPrefix.eq_of_length ⟨rest, hin.symm⟩ hlen
  exact ⟨args, hraw ▸ hframe⟩

theorem parseCommand_encodePrefix {parts : List Bytes} (henc : Encodable parts) {s : Bytes}
    (h : s <+: encodeCommand parts) (hne : s ≠ encodeCommand parts) : parseCommand s = .needMoreData := by
  by_contra hmore
  obtain ⟨t, ht⟩ := h
  have hfull : parseCommand (s ++ t) = frameVerdict parts (encodeCommand parts).length := by
    rw [ht]
    simpa using parseCommand_of_isFrame henc.isFrame []
  have hsame : SameVerdict (parseCommand (s ++ t)) (parseCommand s) :=
    parseCommand_append hmore (not_headerCut_encode henc ⟨t, ht⟩)
  have hsame := hsame.consumed
  rw [hfull, consumed_frameVerdict] at hsame
  obtain ⟨args, raw, rest, -, hin, hlen, -⟩ := frame_of_consumed hsame.symm
  -- the verdict would consume more than there is
  have hle : (encodeCommand parts).length ≤ s.length := by rw [← hlen, hin]; simp
  exact hne (List.IsPrefix.eq_of_length_le ⟨t, ht⟩ hle)

/-! ### Frames out of a stream -/

/-- Bytes arrive behind the buffer and frames are taken off its front, in any order: `Framed s frames rest`
if so far `s` arrived, `frames` were taken and `rest` is in the buffer. -/
inductive Framed : Bytes → List TakenFrame → Bytes → Prop
  | start : Framed [] [] []
  | received {s rest chunk : Bytes} {frames : List TakenFrame} : Framed s frames rest →
    Framed (s ++ chunk) frames (rest ++ chunk)
  | taken {s rest : Bytes} {frames : List TakenFrame} {n : Nat} {own : Option Bytes} : Framed s frames rest →
    (parseCommand rest).consumed = some n →
    Framed s (frames ++ [⟨parseCommand rest, rest.take n, own⟩]) (rest.drop n)

theorem IsFrame.front_unique {args args' : List Bytes} {raw raw' input : Bytes} (h : IsFrame args raw)
    (h' : IsFrame args' raw') (hfront : raw <+: input) (hfront' : raw' <+: input) : raw = raw' := by
  obtain ⟨t, rfl⟩ := hfront
  obtain ⟨t', ht'⟩ := hfront'
  have hverdict := parseCommand_of_isFrame h' t'
  rw [ht', parseCommand_of_isFrame h t] at hverdict
  have hlen := congrArg ParseResult.consumed hverdict
  rw [consumed_frameVerdict, consumed_frameVerdict] at hlen
  exact (List.append_inj ht' (Option.some.inj hlen).symm).1.symm

/-- The first `k` frames of a stream were taken, with the parser's verdict on each of them, and `rest` is in
the buffer. -/
structure TookFrames (frames : List Bytes) (s : Bytes) (taken : List TakenFrame) (rest : Bytes) (k : Nat) :
    Prop where
  le : k ≤ frames.length
  raws : taken.map (·.raw) = frames.take k
  verdicts : taken.map (·.verdict) = (frames.take k).map parseCommand
  received : s = (frames.take k).flatten ++ rest

theorem TookFrames.rest_prefix {frames : List Bytes} {s rest tail : Bytes} {taken : List TakenFrame} {k : Nat}
    (h : TookFrames frames s taken rest k) (hs : s <+: frames.flatten ++ tail) :
    rest <+: (frames.drop k).flatten ++ tail := by
  rw [h.received] at hs
  nth_rewrite 2 [← List.take_append_drop k frames] at hs
  rw [List.flatten_append, List.append_assoc] at hs
  exact (List.prefix_append_right_inj _).mp hs

/-- From frames followed by bytes that are no frame, only the frames are taken. -/
theorem Framed.tookFrames {frames : List Bytes} (hframes : ∀ f ∈ frames, ∃ args, IsFrame args f) {tail : Bytes}
    (htail : (parseCommand tail).consumed = none) {s rest : Bytes} {taken : List TakenFrame}
    (h : Framed s taken rest) (hs : s <+: frames.flatten ++ tail) : ∃ k, TookFrames frames s taken rest k := by
  induction h with
  | start => exact ⟨0, Nat.zero_le _, rfl, rfl, rfl⟩
  | @received s rest chunk taken _ ih =>
    obtain ⟨k, htook⟩ := ih ((List.prefix_append _ _).trans hs)
    refine ⟨k, htook.le, htook.raws, htook.verdicts, ?_⟩
    rw [htook.received, List.append_assoc]
  | @taken s rest taken n own _ hn ih =>
    obtain ⟨k, htook⟩ := ih hs
    have hrest := htook.rest_prefix hs
    obtain ⟨args, raw, more, hraw, hsplit, hlen, hverdict⟩ := frame_of_consumed hn
    have hfront : raw <+: (frames.drop k).flatten ++ tail := (show raw <+: rest from ⟨more, hsplit.symm⟩).trans hrest
    cases hdrop : frames.drop k with
    | nil =>
      -- the bytes behind the frames would be a frame
      rw [hdrop] at hfront
      obtain ⟨t, ht⟩ := hfront
      rw [List.flatten_nil, List.nil_append] at ht
      rw [← ht, parseCommand_of_isFrame hraw, consumed_frameVerdict] at htail
      cases htail
    | cons f later =>
      have hf : f ∈ frames := List.mem_of_mem_drop (hdrop ▸ List.mem_cons_self)
      obtain ⟨args', hframe⟩ := hframes f hf
      rw [hdrop, List.flatten_cons, List.append_assoc] at hfront
      obtain rfl : raw = f := hraw.front_unique hframe hfront (List.prefix_append _ _)
      have hlt : k < frames.length := by
        have := congrArg List.length hdrop
        rw [List.length_drop, List.length_cons] at this
        omega
      have htake : frames.take (k + 1) = frames.take k ++ [raw] := by
        rw [List.take_add, hdrop]; rfl
      have hparse : parseCommand raw = frameVerdict args n := by
        rw [← hlen]; simpa using parseCommand_of_isFrame hraw []
      refine ⟨k + 1, hlt, ?_, ?_, ?_⟩
      · rw [htake, List.map_append, htook.raws, hsplit, ← hlen]
        simp
      · rw [htake, List.map_append, List.map_append, htook.verdicts, hverdict]
        simp [hparse]
      · rw [htake, List.flatten_append, List.append_assoc, htook.received, hsplit, ← hlen]
        simp

/-- The frames taken are the commands of `argss`, their bytes the encodings, and what is left of the
received bytes `s` is `rest`. -/
structure TookCommands (argss : List (List Bytes)) (s : Bytes) (frames : List TakenFrame) (rest : Bytes) : Prop where
  verdicts : frames.map (·.verdict) = argss.map fun args => frameVerdict args (encodeCommand args).length
  raws : frames.map (·.raw) = argss.map encodeCommand
  received : s = (argss.map encodeCommand).flatten ++ rest

theorem Framed.tookCommands {argss : List (List Bytes)} (henc : ∀ args ∈ argss, Encodable args) {s rest : Bytes}
    {frames : List TakenFrame} (h : Framed s frames rest) (hs : s <+: (argss.map encodeCommand).flatten) :
    ∃ k, k ≤ argss.length ∧ TookCommands (argss.take k) s frames rest := by
  have hframes : ∀ f ∈ argss.map encodeCommand, ∃ args, IsFrame args f := by
    intro f hf
    obtain ⟨args, hargs, rfl⟩ := List.mem_map.mp hf
    exact ⟨args, (henc args hargs).isFrame⟩
  have hnil : (parseCommand []).consumed = none := rfl
  obtain ⟨k, htook⟩ := h.tookFrames hframes hnil ((List.append_nil _).symm ▸ hs)
  have htake : (argss.map encodeCommand).take k = (argss.take k).map encodeCommand := List.map_take.symm
  refine ⟨k, by simpa using htook.le, ?_, ?_, ?_⟩
  · rw [htook.verdicts, htake, List.map_map]
    refine List.map_congr_left fun args hargs => ?_
    simpa using parseCommand_of_isFrame (henc args (List.mem_of_mem_take hargs)).isFrame []
  · rw [htook.raws, htake]
  · rw [htook.received, htake]

/-! ### The server -/

section
variable {cfg : EventLoopConfig} {k k' : Core} {evs log : List Event} {c : Connection}

/-- The input buffer of an open connection is what its frames left of the received bytes. -/
def ReceivedInv (log : List Event) (k : Core) : Prop :=
  ∀ id c, k.registry.findCurrent id = some c →
    Framed (receivedOf c.generation log) (framesOf c.generation log) c.input.data

theorem OwnAnswer.consumed {verdict : ParseResult} {n : Nat} {reply : Bytes}
    (h : OwnAnswer c verdict n reply true) :
    verdict = parseCommand c.input.data ∧ (parseCommand c.input.data).consumed = some n := by
  cases h with
  | refused hp _ => rw [hp]; exact ⟨rfl, rfl⟩
  | recoverable hp hr => rw [hp]; exact ⟨rfl, if_pos hr⟩

theorem respond_input {c' : Connection} {q : Nat} {r : Bytes} {ok : Bool} (h : c.respond q r = (c', ok)) :
    c'.input = c.input := by
  have : (c.respond q r).1.input = c.input := rfl
  rw [h] at this; exact this

theorem Framed.takeFrame {n : Nat} {own : Option Bytes}
    (h : Framed (receivedOf c.generation log) (framesOf c.generation log) c.input.data)
    (hn : (parseCommand c.input.data).consumed = some n) :
    Framed (receivedOf c.generation (log ++ [c.takenEvent (parseCommand c.input.data) n own]))
      (framesOf c.generation (log ++ [c.takenEvent (parseCommand c.input.data) n own]))
      (c.takeFrame n).input.data := by
  have hnone : receivedOf c.generation [c.takenEvent (parseCommand c.input.data) n own] = [] := rfl
  rw [receivedOf_append, framesOf_append, hnone, List.append_nil, Connection.takenEvent, framesOf_taken_self]
  exact .taken h hn

theorem Touched.framed {c' : Connection} (h : Touched cfg k k' c evs c')
    (hinv : Framed (receivedOf c.generation log) (framesOf c.generation log) c.input.data) :
    Framed (receivedOf c'.generation (log ++ evs)) (framesOf c'.generation (log ++ evs)) c'.input.data := by
  cases h with
  | send _ _ =>
    rw [receivedOf_append, framesOf_append]
    show Framed (_ ++ []) (_ ++ []) _
    rw [List.append_nil, List.append_nil]; exact hinv
  | @receive chunk input happ _ =>
    have hchunk : receivedOf c.generation [.received c.generation chunk] = chunk := by
      simp [receivedOf, Event.receivedBytes]
    rw [receivedOf_append, framesOf_append, BoundedBuffer.data_of_append happ, hchunk]
    show Framed _ (_ ++ []) _
    rw [List.append_nil]; exact hinv.received
  | handOver _ hparse _ =>
    rw [← hparse]
    exact hinv.takeFrame (by rw [hparse]; rfl)
  | answer _ hown hresp _ =>
    obtain ⟨rfl, hn⟩ := hown.consumed
    rw [(respond_id_generation hresp).2, respond_input hresp]
    exact hinv.takeFrame hn
  | complete _ _ _ hresp _ =>
    rw [(respond_id_generation hresp).2, respond_input hresp, List.append_nil]
    exact hinv

theorem ReceivedInv.move (hreg : RegistryInv log k) (hinv : ReceivedInv log k) (h : Move cfg k evs k') :
    ReceivedInv (log ++ evs) k' := by
  intro id c hc
  rcases h.origin hreg hc with ⟨rfl, rfl, -⟩ | ⟨hc₀, hsilent, -⟩ | ⟨c₀, hc₀, htouch⟩
  · obtain ⟨-, hreceived, hframes⟩ := hreg.history_next
    rw [receivedOf_append, framesOf_append]
    show Framed (receivedOf k.registry.nextGeneration log ++ []) (framesOf k.registry.nextGeneration log ++ []) []
    rw [hreceived, hframes]; exact .start
  · rw [receivedOf_append, framesOf_append, hsilent.received, hsilent.frames, List.append_nil, List.append_nil]
    exact hinv id c hc₀
  · exact htouch.framed (hinv id c₀ hc₀)

end

section
variable {P : Platform} {cfg : ServerConfig} {store : Store P} {clock : Int} {log : List Event} {s : System P}

theorem System.Run.receivedInv (h : System.Run cfg store clock log s) : ReceivedInv log s.core := by
  have hinit : RegistryInv [] (Core.start cfg) ∧ ReceivedInv [] (Core.start cfg) :=
    ⟨.start cfg, fun _ _ hc => by cases hc⟩
  have hstep : ∀ log evs k k', RegistryInv log k ∧ ReceivedInv log k → Move cfg.toEventLoopConfig k evs k' →
      RegistryInv (log ++ evs) k' ∧ ReceivedInv (log ++ evs) k' := fun _ _ _ _ hinv hmove =>
    ⟨hinv.1.move hmove, hinv.2.move hinv.1 hmove⟩
  exact (h.invariant hinit hstep).2

/-- As long as a connection is open and what it received is a beginning of encoded commands, the frames
taken are the first of these commands and the rest of the received bytes is the input buffer. -/
theorem frames_of_stream (argss : List (List Bytes)) (henc : ∀ args ∈ argss, Encodable args)
    (h : System.Run cfg store clock log s) (id : Nat) (c : Connection)
    (hc : s.loop.registry.findCurrent id = some c)
    (hreceived : receivedOf c.generation log <+: (argss.map encodeCommand).flatten) :
    ∃ k, k ≤ argss.length ∧ TookCommands (argss.take k) (receivedOf c.generation log)
      (framesOf c.generation log) c.input.data :=
  (h.receivedInv id c hc).tookCommands henc hreceived

end

/-- The client of the sample run. -/
theorem frames_of_stream_sample : ∃ c, sampleState.loop.registry.findCurrent 7 = some c ∧
    ∃ k, k ≤ 2 ∧ TookCommands ([[ascii "SET", ascii "k", ascii "v"], [ascii "GET", ascii "k"]].take k)
      (receivedOf c.generation sampleLog) (framesOf c.generation sampleLog) c.input.data := by
  have hopen : (sampleState.loop.registry.findCurrent 7).map (·.generation) = some 1 := by decide +kernel
  obtain ⟨c, hc, hg⟩ := Option.map_eq_some_iff.mp hopen
  refine ⟨c, hc, frames_of_stream [[ascii "SET", ascii "k", ascii "v"], [ascii "GET", ascii "k"]]
    (fun args hargs => ?_) sample_run 7 c hc ?_⟩
  · simp only [List.mem_cons, List.not_mem_nil, or_false] at hargs
    rcases hargs with rfl | rfl <;> exact ⟨by decide, by decide⟩
  · rw [hg]
    decide +kernel

end KvStore
