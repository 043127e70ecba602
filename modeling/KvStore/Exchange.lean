import KvStore.Client
import KvStore.Origin

/-!
# The client gets the replies to its requests

The server may have any number of other clients. On this connection it never gets ahead of the client: it has taken at most
the requests that were sent, so what it has sent is at most their replies (`System.Run.replies_of_requests`). A client
that waits for a whole reply before it goes on therefore never reads a byte that belongs to another one: each call of
`send_and_receive` ends with exactly the reply to its own request in the buffer, and nothing is on the way when the next
request goes out (`closed_loop_exchange`).
-/

namespace KvStore
open ByteString Resp2 Transition

/-! ### What the server has taken -/

section
variable {cfg : EventLoopConfig} {k k' : Core} {evs log : List Event} {g : Nat} {argss : List (List Bytes)}

/-- If the bytes received are a beginning of these requests, the frames taken are the first of them. -/
def Heard (argss : List (List Bytes)) (g : Nat) (log : List Event) : Prop :=
  receivedOf g log <+: (argss.map encodeCommand).flatten →
    ∃ n rest, n ≤ argss.length ∧ TookCommands (argss.take n) (receivedOf g log) (framesOf g log) rest

theorem Heard.quiet (h : Heard argss g log) (hreceived : receivedOf g evs = []) (hframes : framesOf g evs = []) :
    Heard argss g (log ++ evs) := by
  unfold Heard
  rw [receivedOf_append, framesOf_append, hreceived, hframes, List.append_nil, List.append_nil]
  exact h

theorem heard_of_framed {rest : Bytes} (henc : ∀ args ∈ argss, Encodable args)
    (h : Framed (receivedOf g log) (framesOf g log) rest) : Heard argss g log := fun hreceived => by
  obtain ⟨n, hn, htook⟩ := h.tookCommands henc hreceived
  exact ⟨n, rest, hn, htook⟩

theorem CloseEvents.takes_nothing {g' : Nat} {output : Bytes} (h : CloseEvents g' output evs) :
    receivedOf g evs = [] ∧ framesOf g evs = [] := by
  cases h with
  | quiet => exact ⟨rfl, rfl⟩
  | flushed _ => exact ⟨rfl, rfl⟩

theorem parseCommand_requests {rest : Bytes} (henc : ∀ args ∈ argss, Encodable args)
    (hrest : rest <+: (argss.map encodeCommand).flatten) {e : ProtocolError} (hfatal : e.recoverable = false) :
    parseCommand rest ≠ .protocolError e := by
  intro hparse
  cases argss with
  | nil =>
    rw [List.prefix_nil.mp hrest] at hparse
    cases hparse
  | cons args argss =>
    have henc₁ := henc args List.mem_cons_self
    rw [List.map_cons, List.flatten_cons] at hrest
    by_cases hlong : encodeCommand args <+: rest
    · obtain ⟨t, rfl⟩ := hlong
      have hcons := consumed_frameVerdict args (encodeCommand args).length
      rw [← parseCommand_of_isFrame henc₁.isFrame t, hparse, ParseResult.consumed, hfatal] at hcons
      cases hcons
    · have hshort : rest <+: encodeCommand args :=
        (List.prefix_or_prefix_of_prefix hrest (List.prefix_append _ _)).resolve_right hlong
      have hne : rest ≠ encodeCommand args := fun heq => hlong (heq ▸ List.prefix_refl _)
      rw [parseCommand_encodePrefix henc₁ hshort hne] at hparse
      cases hparse

theorem TookCommands.rest_prefix {n : Nat} {s rest : Bytes} {frames : List TakenFrame}
    (h : TookCommands (argss.take n) s frames rest) (hs : s <+: (argss.map encodeCommand).flatten) :
    rest <+: ((argss.drop n).map encodeCommand).flatten := by
  rw [h.received] at hs
  nth_rewrite 2 [← List.take_append_drop n argss] at hs
  rw [List.map_append, List.flatten_append] at hs
  exact (List.prefix_append_right_inj _).mp hs

theorem Heard.move (henc : ∀ args ∈ argss, Encodable args) (hinv : ReceivedInv log k) (hheard : Heard argss g log)
    (h : Move cfg k evs k') : Heard argss g (log ++ evs) := by
  have hother : ∀ {c : Connection} {verdict : ParseResult} {n : Nat} {own : Option Bytes}, c.generation ≠ g →
      Heard argss g (log ++ [c.takenEvent verdict n own]) := fun hne =>
    hheard.quiet rfl (by simp [framesOf, Connection.takenEvent, Event.frame, hne])
  have htake : ∀ {id g' n : Nat} {c : Connection} {own : Option Bytes}, k.registry.find id g' = some c →
      (parseCommand c.input.data).consumed = some n →
      Heard argss g (log ++ [c.takenEvent (parseCommand c.input.data) n own]) := by
    intro id g' n c own hf hn
    obtain ⟨hc, rfl⟩ := ConnectionRegistry.find_eq_some_iff.mp hf
    by_cases hg : c.generation = g
    · subst hg
      exact heard_of_framed henc ((hinv id c hc).takeFrame hn)
    · exact hother hg
  cases h with
  | accept _ => exact hheard.quiet rfl rfl
  | close _ hevs => exact hheard.quiet hevs.takes_nothing.1 hevs.takes_nothing.2
  | send _ _ => exact hheard.quiet rfl rfl
  | @receive id g' c chunk input hf happ =>
    obtain ⟨hc, rfl⟩ := ConnectionRegistry.find_eq_some_iff.mp hf
    by_cases hg : c.generation = g
    · subst hg
      have htouch : Touched cfg k { k with registry := k.registry.put id { c with input } } c
          [.received c.generation chunk] { c with input } := .receive happ rfl
      exact heard_of_framed henc (htouch.framed (hinv id c hc))
    · exact hheard.quiet (by simp [receivedOf, Event.receivedBytes, hg]) rfl
  | handOver hf _ hparse =>
    rw [← hparse]
    exact htake hf (by rw [hparse]; rfl)
  | answer hf _ hown _ =>
    obtain ⟨rfl, hn⟩ := hown.consumed
    exact htake hf hn
  | @answerClose id g' n c c' verdict reply goOn ok evs hf _ hown _ hevs =>
    rw [List.append_cons]
    refine Heard.quiet ?_ hevs.takes_nothing.1 hevs.takes_nothing.2
    cases goOn with
    | true =>
      obtain ⟨rfl, hn⟩ := hown.consumed
      exact htake hf hn
    | false =>
      obtain ⟨hc, rfl⟩ := ConnectionRegistry.find_eq_some_iff.mp hf
      by_cases hg : c.generation = g
      · -- the requests of this client give no cause for a fatal error
        subst hg
        intro hreceived
        have hold : receivedOf c.generation log <+: (argss.map encodeCommand).flatten := by
          rw [receivedOf_append] at hreceived
          exact (List.prefix_append _ _).trans hreceived
        obtain ⟨m, -, htook⟩ := (hinv id c hc).tookCommands henc hold
        cases hown with
        | fatal hparse hfatal =>
          exact absurd hparse (parseCommand_requests (fun args hargs => henc args (List.mem_of_mem_drop hargs))
            (htook.rest_prefix hold) hfatal)
      · exact hother hg
  | complete _ _ _ => exact hheard.quiet rfl rfl
  | completeClose _ _ _ hevs => exact hheard.quiet hevs.takes_nothing.1 hevs.takes_nothing.2
  | dispatch _ _ => exact hheard.quiet rfl rfl
  | _ => exact hheard.quiet rfl rfl

/-! ### What the server has sent -/

theorem Move.sent_open (h : Move cfg k evs k') (hsent : sentOf g evs ≠ []) :
    ∃ id c, k.registry.findCurrent id = some c ∧ c.generation = g := by
  have hopen : ∀ {id g' : Nat} {c : Connection}, k.registry.find id g' = some c → g' = g →
      ∃ id c, k.registry.findCurrent id = some c ∧ c.generation = g := by
    rintro id g' c hf rfl
    exact ⟨id, c, ConnectionRegistry.find_eq_some_iff.mp hf⟩
  have hclose : ∀ {id g' : Nat} {c : Connection} {output : Bytes} {evs : List Event},
      k.registry.find id g' = some c → CloseEvents g' output evs → sentOf g evs ≠ [] →
      ∃ id c, k.registry.findCurrent id = some c ∧ c.generation = g := by
    intro id g' c output evs hf hevs hsent
    refine hopen hf (by_contra fun hne => hsent ?_)
    cases hevs with
    | quiet => rfl
    | flushed _ => simp [sentOf, Event.sentBytes, hne]
  cases h with
  | close hf hevs => exact hclose hf hevs hsent
  | send hf _ =>
    refine hopen hf (by_contra fun hne => hsent ?_)
    simp [sentOf, Event.sentBytes, hne]
  | answerClose hf _ _ _ hevs => exact hclose hf hevs hsent
  | completeClose _ hf _ hevs => exact hclose hf hevs hsent
  | _ => exact absurd rfl hsent

/-- Nothing is open and nothing was sent that was not accepted. -/
structure AcceptedInv (log : List Event) (k : Core) : Prop where
  opened : ∀ id c, k.registry.findCurrent id = some c → ∃ id', .accepted id' c.generation ∈ log
  sent : ∀ g, sentOf g log ≠ [] → ∃ id, .accepted id g ∈ log

theorem Touched.generation_eq {c c' : Connection} (h : Touched cfg k k' c evs c') : c'.generation = c.generation := by
  cases h with
  | answer _ _ hresp _ => exact (respond_id_generation hresp).2
  | complete _ _ _ hresp _ => exact (respond_id_generation hresp).2
  | _ => rfl

theorem AcceptedInv.move (hreg : RegistryInv log k) (hinv : AcceptedInv log k) (h : Move cfg k evs k') :
    AcceptedInv (log ++ evs) k' := by
  have hmono : ∀ {g : Nat}, (∃ id, .accepted id g ∈ log) → ∃ id, .accepted id g ∈ log ++ evs := fun ⟨id, hmem⟩ =>
    ⟨id, List.mem_append_left _ hmem⟩
  refine ⟨fun id c hc => ?_, fun g hsent => ?_⟩
  · rcases h.origin hreg hc with ⟨-, rfl, -⟩ | ⟨hc₀, -, -⟩ | ⟨c₀, hc₀, htouch⟩
    · exact ⟨id, List.mem_append_right _ (List.mem_singleton_self _)⟩
    · exact hmono (hinv.opened id c hc₀)
    · rw [htouch.generation_eq]
      exact hmono (hinv.opened id c₀ hc₀)
  · by_cases hold : sentOf g log = []
    · rw [sentOf_append, hold, List.nil_append] at hsent
      obtain ⟨id, c, hc, rfl⟩ := h.sent_open hsent
      exact hmono (hinv.opened id c hc)
    · exact hmono (hinv.sent g hold)

end

section
variable {P : Platform} {cfg : ServerConfig} {count : ShardCount} {store : Store P} {clock : Int}
  {log : List Event} {s : System P} {g : Nat} {argss : List (List Bytes)}

/-- The commands' replies are complete when the client thinks they are. -/
theorem IsReply.whole {command : Command} {reply : Bytes} (h : IsReply command reply) (htype : command.type ≠ .kGet) :
    WholeReply reply := by
  obtain ⟨P, st, now, rfl⟩ := h
  have hinteger : ∀ n, WholeReply (encodeInteger n) := fun n =>
    wholeReply_line (.inr (.inr rfl)) (oneLine_decimalText n)
  unfold dispatch
  cases hc : command.type with
  | kPing => exact wholeReply_line (.inl rfl) (oneLine_ascii (by decide))
  | kSet => exact wholeReply_line (.inl rfl) (oneLine_ascii (by decide))
  | kGet => exact absurd hc htype
  | kDel => exact hinteger _
  | kExists => exact hinteger _
  | kExpire => exact hinteger _
  | kTtl =>
    show WholeReply (encodeTtl (st.ttl now command.key).2)
    rw [encodeTtl_eq]
    exact hinteger _

theorem System.Run.wholeReply (h : System.Run cfg (Store.ofCount P count) clock log s) {i : Nat} {r : Bytes}
    {frame : TakenFrame} (hr : IsResponse log g i r) (hframe : (framesOf g log)[i]? = some frame)
    (hname : ¬ NameBreaksLine frame.raw) : WholeReply r := by
  have hdecodes := (hr.decodes_iff h.sound hframe).mpr hname
  cases hr with
  | @dispatched command n raw r hf hd =>
    by_cases htype : command.type = .kGet
    · have hinv := h.originInv
      obtain ⟨before, after, hlog⟩ := List.append_of_mem hd
      rcases hinv.read before g i command r after hlog htype with rfl | ⟨v, rfl, hfrom⟩
      · exact wholeReply_null
      · have hset := hfrom.resolve_left (Store.not_has_ofCount count command.key v)
        have hlimits := hinv.limits (k := command.key) (v := v) (hlog ▸ hset.mono)
        have hmax : kMaxValueLength ≤ int64Max := by decide
        exact wholeReply_bulk (hlimits.2.trans hmax)
    · exact (h.sound _ hd).whole htype
  | refused hf hreply =>
    rcases hreply with rfl | rfl
    · exact wholeReply_line (.inr (.inl rfl)) (oneLine_ascii (by decide))
    · exact wholeReply_line (.inr (.inl rfl)) (oneLine_ascii (by decide))
  | protocolError hf => exact wholeReply_line (.inr (.inl rfl)) (decodes_error_iff.mp hdecodes)

theorem System.Run.heard (h : System.Run cfg store clock log s) (henc : ∀ args ∈ argss, Encodable args) :
    Heard argss g log := by
  have hinit : (RegistryInv [] (Core.start cfg) ∧ ReceivedInv [] (Core.start cfg)) ∧ Heard argss g [] := by
    refine ⟨⟨.start cfg, fun _ _ hc => by cases hc⟩, fun _ => ⟨0, [], Nat.zero_le _, ?_⟩⟩
    exact ⟨rfl, rfl, rfl⟩
  have hstep : ∀ log evs k k', (RegistryInv log k ∧ ReceivedInv log k) ∧ Heard argss g log →
      Move cfg.toEventLoopConfig k evs k' →
      (RegistryInv (log ++ evs) k' ∧ ReceivedInv (log ++ evs) k') ∧ Heard argss g (log ++ evs) :=
    fun _ _ _ _ hinv hmove =>
      ⟨⟨hinv.1.1.move hmove, hinv.1.2.move hinv.1.1 hmove⟩, hinv.2.move henc hinv.1.2 hmove⟩
  exact (h.invariant hinit hstep).2

theorem System.Run.acceptedInv (h : System.Run cfg store clock log s) : AcceptedInv log s.core := by
  have hinit : RegistryInv [] (Core.start cfg) ∧ AcceptedInv [] (Core.start cfg) :=
    ⟨.start cfg, ⟨fun _ _ hc => (by cases hc), fun _ hsent => absurd rfl hsent⟩⟩
  have hstep : ∀ log evs k k', RegistryInv log k ∧ AcceptedInv log k → Move cfg.toEventLoopConfig k evs k' →
      RegistryInv (log ++ evs) k' ∧ AcceptedInv (log ++ evs) k' := fun _ _ _ _ hinv hmove =>
    ⟨hinv.1.move hmove, hinv.2.move hinv.1 hmove⟩
  exact (h.invariant hinit hstep).2

theorem TookCommands.getElem? {n i : Nat} {bytes rest : Bytes} {frames : List TakenFrame} {frame : TakenFrame}
    (h : TookCommands (argss.take n) bytes frames rest) (hframe : frames[i]? = some frame) :
    ∃ args, argss[i]? = some args ∧ frame.raw = encodeCommand args := by
  have hraw := congrArg (·[i]?) h.raws
  simp only [List.getElem?_map, hframe, Option.map_some] at hraw
  obtain ⟨args, hargs, heq⟩ := Option.map_eq_some_iff.mp hraw.symm
  rw [List.getElem?_take] at hargs
  split_ifs at hargs
  exact ⟨args, hargs, heq.symm⟩

/-- Requests that were received in part give rise to replies to some of them, in order; what was sent is a beginning
of these replies. -/
theorem System.Run.replies_of_requests (h : System.Run cfg (Store.ofCount P count) clock log s)
    (hsend : ∀ args ∈ argss, Sendable args) (hreceived : receivedOf g log <+: (argss.map encodeCommand).flatten) :
    ∃ rs : List Bytes, rs.length ≤ argss.length ∧ sentOf g log <+: rs.flatten ∧
      ∀ i r, rs[i]? = some r → IsResponse log g i r ∧ WholeReply r := by
  by_cases hsent : sentOf g log = []
  · exact ⟨[], Nat.zero_le _, by rw [hsent]; exact List.nil_prefix, fun i r hi => by cases hi⟩
  obtain ⟨id, haccepted⟩ := h.acceptedInv.sent g hsent
  obtain ⟨b, m, rs, -, heq, hall⟩ := h.serverInv.stream.of_accepted haccepted
  obtain ⟨n, rest, -, htook⟩ := h.heard (fun args hargs => (hsend args hargs).encodable) hreceived
  have hrequest : ∀ (i : Nat) (r : Bytes), rs[i]? = some r → ∃ (frame : TakenFrame) (args : List Bytes),
      (framesOf g log)[i]? = some frame ∧ argss[i]? = some args ∧ frame.raw = encodeCommand args := by
    intro i r hi
    obtain ⟨frame, hframe⟩ := (hall i r hi).frame
    obtain ⟨args, hargs, hraw⟩ := htook.getElem? hframe
    exact ⟨frame, args, hframe, hargs, hraw⟩
  refine ⟨rs, ?_, ⟨b, heq⟩, fun i r hi => ⟨hall i r hi, ?_⟩⟩
  · by_contra hlong
    have hlast := List.getElem?_eq_getElem (not_le.mp hlong)
    obtain ⟨frame, args, -, hargs, -⟩ := hrequest _ _ hlast
    rw [List.getElem?_eq_none le_rfl] at hargs
    cases hargs
  · obtain ⟨frame, args, hframe, hargs, hraw⟩ := hrequest i r hi
    exact h.wholeReply (hall i r hi) hframe (hraw ▸ (hsend args (List.mem_of_getElem? hargs)).not_nameBreaksLine)

end

/-! ### The conversation -/

/-- What of the last request has not been sent. -/
def ClientPhase.Leaves : ClientPhase → Bytes → Prop
  | .idle, rest | .receiving _, rest => rest = []
  | .sending r, rest => rest = r
  | .lost, _ | .refused, _ => True

/-- What has been read of the next reply. -/
def ClientPhase.Reads : ClientPhase → Bytes → Prop
  | .idle, buffer | .sending _, buffer => buffer = []
  | .receiving b, buffer => buffer = b
  | .lost, _ | .refused, _ => True

/-- One request at a time. -/
def Client.Counts (c : Client) : Prop :=
  match c.phase with
  | .idle => c.replies.length = c.asked.length
  | .sending _ | .receiving _ => c.replies.length + 1 = c.asked.length
  | .lost | .refused => c.replies.length ≤ c.asked.length

structure TalkInv {P : Platform} (g : Nat) (log : List Event) (s : Session P) : Prop where
  requests : ∃ rest, receivedOf g log ++ (s.toServer ++ rest) = (s.client.asked.map encodeCommand).flatten ∧
    s.client.phase.Leaves rest
  replies : ∃ buffer, sentOf g log = s.client.replies.flatten ++ (buffer ++ s.toClient) ∧
    s.client.phase.Reads buffer
  counts : s.client.Counts
  answered : ∀ i r, s.client.replies[i]? = some r → IsResponse log g i r
  known : s.client.phase ≠ .refused
  /-- The reply that is being read is not complete. -/
  partly : ∀ buffer, s.client.phase = .receiving buffer →
    buffer = [] ∨ ∃ r, IsResponse log g s.client.replies.length r ∧ buffer <+: r ∧ buffer ≠ r

section
variable {P : Platform} {cfg : ServerConfig} {count : ShardCount} {clock : Int} {log evs : List Event}
  {s s' : Session P} {g : Nat}

theorem TalkInv.start (server : System P) : TalkInv g [] { server } where
  requests := ⟨[], rfl, rfl⟩
  replies := ⟨[], rfl, rfl⟩
  counts := rfl
  answered i r hi := by cases hi
  known := nofun
  partly := nofun

theorem TalkInv.received_prefix (h : TalkInv g log s) :
    receivedOf g log <+: (s.client.asked.map encodeCommand).flatten := by
  obtain ⟨rest, heq, -⟩ := h.requests
  exact ⟨_, heq⟩

theorem TalkInv.server {server : System P} (h : TalkInv g log s) (hreceived : receivedOf g evs <+: s.toServer) :
    TalkInv g (log ++ evs) { s with
      server
      toServer := s.toServer.drop (receivedOf g evs).length
      toClient := s.toClient ++ sentOf g evs } where
  requests := by
    obtain ⟨rest, heq, hrest⟩ := h.requests
    refine ⟨rest, ?_, hrest⟩
    obtain ⟨t, ht⟩ := hreceived
    dsimp only
    rw [← ht, List.drop_left, receivedOf_append, ← heq, ← ht]
    simp only [List.append_assoc]
  replies := by
    obtain ⟨buffer, heq, hbuffer⟩ := h.replies
    refine ⟨buffer, ?_, hbuffer⟩
    rw [sentOf_append, heq]
    simp only [List.append_assoc]
  counts := h.counts
  answered i r hi := (h.answered i r hi).mono
  known := h.known
  partly buffer hphase := by
    refine (h.partly buffer hphase).imp_right ?_
    rintro ⟨r, hr, hpart⟩
    exact ⟨r, hr.mono, hpart⟩

theorem TalkInv.ask {args : List Bytes} (h : TalkInv g log s) (hphase : s.client.phase = .idle) :
    TalkInv g log { s with client := { s.client with
      phase := .sending (encodeCommand args)
      asked := s.client.asked ++ [args] } } where
  requests := by
    obtain ⟨rest, heq, hrest⟩ := h.requests
    rw [hphase] at hrest
    cases hrest
    refine ⟨encodeCommand args, ?_, rfl⟩
    rw [List.append_nil] at heq
    rw [List.map_append, List.flatten_append, ← heq]
    simp
  replies := by
    obtain ⟨buffer, heq, hbuffer⟩ := h.replies
    rw [hphase] at hbuffer
    exact ⟨buffer, heq, hbuffer⟩
  counts := by
    have hcounts := h.counts
    unfold Client.Counts at hcounts ⊢
    rw [hphase] at hcounts
    rw [List.length_append, List.length_singleton, hcounts]
  answered := h.answered
  known := nofun
  partly := nofun

theorem TalkInv.sent {rest : Bytes} (h : TalkInv g log s) (hphase : s.client.phase = .sending rest) (n : Nat) :
    TalkInv g log (s.sent rest n) := by
  have hcounts := h.counts
  unfold Client.Counts at hcounts
  rw [hphase] at hcounts
  obtain ⟨rest', heq, hrest⟩ := h.requests
  rw [hphase] at hrest
  cases hrest
  obtain ⟨buffer, hsent, hbuffer⟩ := h.replies
  rw [hphase] at hbuffer
  cases hbuffer
  have hrequests : receivedOf g log ++ ((s.toServer ++ rest.take n) ++ rest.drop n) =
      (s.client.asked.map encodeCommand).flatten := by
    rw [List.append_assoc, List.take_append_drop]
    exact heq
  unfold Session.sent
  by_cases hall : n = rest.length
  · rw [if_pos hall]
    refine ⟨⟨rest.drop n, hrequests, ?_⟩, ⟨[], hsent, rfl⟩, hcounts, h.answered, nofun, ?_⟩
    · rw [hall, List.drop_length]
      rfl
    · rintro buffer hb
      cases hb
      exact .inl rfl
  · rw [if_neg hall]
    exact ⟨⟨rest.drop n, hrequests, rfl⟩, ⟨[], hsent, rfl⟩, hcounts, h.answered, nofun, nofun⟩

theorem TalkInv.lose (h : TalkInv g log s) : TalkInv g log { s with client := { s.client with phase := .lost } } where
  requests := by
    obtain ⟨rest, heq, -⟩ := h.requests
    exact ⟨rest, heq, trivial⟩
  replies := by
    obtain ⟨buffer, heq, -⟩ := h.replies
    exact ⟨buffer, heq, trivial⟩
  counts := by
    have hcounts := h.counts
    unfold Client.Counts at hcounts ⊢
    dsimp only
    split at hcounts <;> omega
  answered := h.answered
  known := nofun
  partly := nofun

/-- What follows the replies that were read is a beginning of the next one, if there is at most one more. -/
theorem next_reply {done rs : List Bytes} {more : Bytes} (hmore : more ≠ [])
    (hstream : done.flatten ++ more <+: rs.flatten) (hlen : rs.length ≤ done.length + 1)
    (hsame : ∀ (i : Nat) (r r' : Bytes), rs[i]? = some r → done[i]? = some r' → r' = r) :
    ∃ r, rs[done.length]? = some r ∧ more <+: r := by
  induction done generalizing rs with
  | nil =>
    cases rs with
    | nil => exact absurd (List.prefix_nil.mp hstream) hmore
    | cons r rs =>
      have hnil : rs = [] := List.length_eq_zero_iff.mp (by rw [List.length_cons] at hlen; simpa using hlen)
      rw [hnil] at hstream
      exact ⟨r, rfl, by simpa using hstream⟩
  | cons d done ih =>
    cases rs with
    | nil => exact absurd (List.append_eq_nil_iff.mp (List.prefix_nil.mp hstream)).2 hmore
    | cons r rs =>
      obtain rfl := hsame 0 r d rfl rfl
      rw [List.flatten_cons, List.flatten_cons, List.append_assoc, List.prefix_append_right_inj] at hstream
      refine ih hstream (by rw [List.length_cons, List.length_cons] at hlen; omega) fun i r r' hr hr' => ?_
      exact hsame (i + 1) r r' hr hr'

theorem TalkInv.next (h : TalkInv g log s) (hrun : System.Run cfg (Store.ofCount P count) clock log s.server)
    (hsend : ∀ args ∈ s.client.asked, Sendable args) {more : Bytes} (hmore : more ≠ [])
    (hsent : sentOf g log = s.client.replies.flatten ++ more)
    (hcounts : s.client.asked.length ≤ s.client.replies.length + 1) :
    s.client.replies.length < s.client.asked.length ∧
      ∃ r, IsResponse log g s.client.replies.length r ∧ WholeReply r ∧ more <+: r := by
  obtain ⟨rs, hlen, hprefix, hall⟩ := hrun.replies_of_requests hsend h.received_prefix
  obtain ⟨r, hr, hstart⟩ := next_reply hmore (hsent ▸ hprefix) (hlen.trans hcounts) fun i r r' hr hr' =>
    (hall i r hr).1.unique hrun.serverInv.book.dispatch (h.answered i r' hr')
  obtain ⟨hresponse, hwhole⟩ := hall _ r hr
  obtain ⟨hlt, -⟩ := List.getElem?_eq_some_iff.mp hr
  exact ⟨hlt.trans_le hlen, r, hresponse, hwhole, hstart⟩

theorem TalkInv.received {buffer : Bytes} {n : Nat} (h : TalkInv g log s)
    (hrun : System.Run cfg (Store.ofCount P count) clock log s.server)
    (hsend : ∀ args ∈ s.client.asked, Sendable args) (hphase : s.client.phase = .receiving buffer) (hpos : 0 < n)
    (hn : n ≤ s.toClient.length) : TalkInv g log (s.received buffer n) := by
  have hcounts := h.counts
  unfold Client.Counts at hcounts
  rw [hphase] at hcounts
  obtain ⟨rest, hrequests, hrest⟩ := h.requests
  rw [hphase] at hrest
  obtain ⟨buffer', hsent, hbuffer⟩ := h.replies
  rw [hphase] at hbuffer
  cases hbuffer
  have hnew : s.toClient.take n ≠ [] := fun hnil => by
    have := congrArg List.length hnil
    rw [List.length_take, List.length_nil] at this
    omega
  have hmore : buffer ++ s.toClient ≠ [] := fun hnil => hnew (by
    rw [(List.append_eq_nil_iff.mp hnil).2, List.take_nil])
  -- the next reply is the only one that can be on the way
  obtain ⟨-, r, hresponse, ⟨-, hcheck⟩, hstart⟩ := h.next hrun hsend hmore hsent hcounts.ge
  have hread : buffer ++ s.toClient.take n <+: r :=
    ((List.prefix_append_right_inj buffer).mpr (List.take_prefix n s.toClient)).trans hstart
  have hchecked := hcheck _ (fun hnil => hnew (List.append_eq_nil_iff.mp hnil).2) hread
  have hstream : sentOf g log = s.client.replies.flatten ++
      ((buffer ++ s.toClient.take n) ++ s.toClient.drop n) := by
    rw [List.append_assoc buffer, List.take_append_drop]
    exact hsent
  unfold Session.received
  dsimp only
  rw [hchecked]
  by_cases hwhole : buffer ++ s.toClient.take n = r
  · rw [if_pos hwhole]
    refine ⟨⟨rest, hrequests, hrest⟩, ⟨[], ?_, rfl⟩, ?_, fun i r' hi => ?_, nofun, nofun⟩
    · dsimp only
      rw [hstream, List.flatten_append]
      simp
    · unfold Client.Counts
      dsimp only
      rw [List.length_append, List.length_singleton]
      exact hcounts
    · rw [hwhole] at hi
      rcases Nat.lt_trichotomy i s.client.replies.length with hlt | rfl | hgt
      · exact h.answered i r' ((List.getElem?_append_left hlt).symm.trans hi)
      · rw [List.getElem?_concat_length] at hi
        cases hi
        exact hresponse
      · rw [List.getElem?_eq_none (by rw [List.length_append, List.length_singleton]; exact hgt)] at hi
        cases hi
  · rw [if_neg hwhole]
    refine ⟨⟨rest, hrequests, hrest⟩, ⟨_, hstream, rfl⟩, hcounts, h.answered, nofun, ?_⟩
    rintro b hb
    cases hb
    exact .inr ⟨r, hresponse, hread, hwhole⟩

/-! ### Runs -/

/-- What a step of a session can be. -/
inductive SessionMove (cfg : EventLoopConfig) (g : Nat) (s : Session P) : List Event → Session P → Prop
  | server {choice : Choice} {server : System P} {evs : List Event} : s.server.step cfg choice = some (server, evs) →
    receivedOf g evs <+: s.toServer →
    SessionMove cfg g s evs { s with
      server
      toServer := s.toServer.drop (receivedOf g evs).length
      toClient := s.toClient ++ sentOf g evs }
  | ask {args : List Bytes} : s.client.phase = .idle →
    SessionMove cfg g s [] { s with client := { s.client with
      phase := .sending (encodeCommand args)
      asked := s.client.asked ++ [args] } }
  | send {rest : Bytes} {n : Nat} : s.client.phase = .sending rest → SessionMove cfg g s [] (s.sent rest n)
  | recv {buffer : Bytes} {n : Nat} : s.client.phase = .receiving buffer → 0 < n → n ≤ s.toClient.length →
    SessionMove cfg g s [] (s.received buffer n)
  | fail : SessionMove cfg g s [] { s with client := { s.client with phase := .lost } }

theorem sessionMove_of_step {cfg : EventLoopConfig} {choice : SessionChoice}
    (h : s.step cfg g choice = some (s', evs)) : SessionMove cfg g s evs s' := by
  cases choice with
  | server choice =>
    simp only [Session.step, Session.serverStep] at h
    split at h
    · cases h
    · next hstep =>
      split_ifs at h with hreceived
      cases h
      exact .server hstep hreceived
  | ask args =>
    simp only [Session.step] at h
    split at h
    · next hphase => cases h; exact .ask hphase
    · cases h
  | send n =>
    simp only [Session.step] at h
    split at h
    · next hphase =>
      split_ifs at h
      cases h
      exact .send hphase
    · cases h
  | recv n =>
    simp only [Session.step] at h
    split at h
    · next hphase =>
      split_ifs at h with hn
      cases h
      exact .recv hphase hn.1 hn.2.2
    · cases h
  | fail =>
    simp only [Session.step] at h
    split at h
    · cases h; exact .fail
    · cases h; exact .fail
    · cases h

theorem Session.Run.server {store : Store P} (h : Session.Run cfg g store clock log s) :
    System.Run cfg store clock log s.server := by
  refine Exec.map Session.server ?_ h
  rintro s evs s' ⟨choice, hstep⟩
  cases sessionMove_of_step hstep with
  | server hserver _ => exact .single ⟨_, hserver⟩
  | recv => exact .refl
  | _ => exact .refl

theorem SessionMove.asked_prefix {cfg : EventLoopConfig} (h : SessionMove cfg g s evs s') :
    s.client.asked <+: s'.client.asked := by
  cases h with
  | ask => exact List.prefix_append _ _
  | recv =>
    unfold Session.received
    dsimp only
    split <;> exact List.prefix_refl _
  | _ => exact List.prefix_refl _

theorem Session.Run.talkInv (h : Session.Run cfg g (Store.ofCount P count) clock log s)
    (hsend : ∀ args ∈ s.client.asked, Sendable args) : TalkInv g log s := by
  induction h with
  | refl => exact .start _
  | @tail log evs s s' hpre hstep ih =>
    obtain ⟨choice, hstep⟩ := hstep
    have hmove := sessionMove_of_step hstep
    have hbefore : ∀ args ∈ s.client.asked, Sendable args := fun args hargs =>
      hsend args (hmove.asked_prefix.subset hargs)
    have hinv := ih hbefore
    have hrun : System.Run cfg (Store.ofCount P count) clock log s.server := Session.Run.server hpre
    cases hmove with
    | server _ hreceived => exact hinv.server hreceived
    | ask hphase => rw [List.append_nil]; exact hinv.ask hphase
    | send hphase => rw [List.append_nil]; exact hinv.sent hphase _
    | recv hphase hpos hn => rw [List.append_nil]; exact hinv.received hrun hbefore hphase hpos hn
    | fail => rw [List.append_nil]; exact hinv.lose

theorem Session.Run.request (h : Session.Run cfg g (Store.ofCount P count) clock log s)
    (hsend : ∀ args ∈ s.client.asked, Sendable args) {i : Nat} {r : Bytes} (hr : IsResponse log g i r) :
    ∃ args frame, s.client.asked[i]? = some args ∧ (framesOf g log)[i]? = some frame ∧
      frame.raw = encodeCommand args := by
  have hinv := h.talkInv hsend
  obtain ⟨n, rest, -, htook⟩ := h.server.heard (fun args hargs => (hsend args hargs).encodable) hinv.received_prefix
  obtain ⟨frame, hframe⟩ := hr.frame
  obtain ⟨args, hargs, hraw⟩ := htook.getElem? hframe
  exact ⟨args, frame, hargs, hframe, hraw⟩

theorem Session.Run.all_received (h : Session.Run cfg g (Store.ofCount P count) clock log s)
    (hsend : ∀ args ∈ s.client.asked, Sendable args) (hcounts : s.client.replies.length = s.client.asked.length) :
    (s.client.asked.map encodeCommand).flatten <+: receivedOf g log := by
  have hinv := h.talkInv hsend
  obtain ⟨n, rest, hn, htook⟩ := h.server.heard (fun args hargs => (hsend args hargs).encodable) hinv.received_prefix
  have hframes : (framesOf g log).length = n := by
    have := congrArg List.length htook.raws
    rwa [List.length_map, List.length_map, List.length_take, Nat.min_eq_left hn] at this
  have hall : s.client.asked.length ≤ n := by
    by_contra hlt
    rw [not_le, ← hcounts] at hlt
    have hreply := List.getElem?_eq_getElem hlt
    obtain ⟨frame, hframe⟩ := (hinv.answered n _ hreply).frame
    rw [List.getElem?_eq_none (hframes ▸ le_rfl)] at hframe
    cases hframe
  rw [htook.received, List.take_of_length_le hall]
  exact List.prefix_append _ _

/-- A client that waits for each reply, on any connection of a server with any other clients: no reply is of an unknown
type to it, each call that succeeds has read exactly the server's reply to its own request, and before the next request
nothing is on the way. While it reads, what it has read and what is on the way are a beginning of the reply, and it
goes on reading only as long as the reply is not complete. -/
theorem closed_loop_exchange (h : Session.Run cfg g (Store.ofCount P count) clock log s)
    (hsend : ∀ args ∈ s.client.asked, Sendable args) :
    s.client.phase ≠ .refused ∧
    (∀ i r, s.client.replies[i]? = some r → IsResponse log g i r ∧
      ∃ args frame, s.client.asked[i]? = some args ∧ (framesOf g log)[i]? = some frame ∧
        frame.raw = encodeCommand args) ∧
    (s.client.phase = .idle → s.client.replies.length = s.client.asked.length ∧ s.toServer = [] ∧ s.toClient = []) ∧
    ∀ buffer, s.client.phase = .receiving buffer → ∀ r, IsResponse log g s.client.replies.length r →
      buffer ≠ r ∧ buffer ++ s.toClient <+: r := by
  have hinv := h.talkInv hsend
  have hcounts := hinv.counts
  unfold Client.Counts at hcounts
  obtain ⟨rest, hrequests, hrest⟩ := hinv.requests
  obtain ⟨buffer', hsent, hbuffer⟩ := hinv.replies
  refine ⟨hinv.known, fun i r hi => ?_, fun hphase => ?_, fun buffer hphase r hr => ?_⟩
  · have hr := hinv.answered i r hi
    exact ⟨hr, h.request hsend hr⟩
  · rw [hphase] at hcounts hrest hbuffer
    cases hrest
    cases hbuffer
    refine ⟨hcounts, ?_, by_contra fun hmore => ?_⟩
    · have hle := (h.all_received hsend hcounts).length_le
      rw [← hrequests, List.length_append, List.append_nil] at hle
      exact List.length_eq_zero_iff.mp (by omega)
    · obtain ⟨hlt, -⟩ := hinv.next h.server hsend hmore hsent (by omega)
      omega
  · rw [hphase] at hcounts hbuffer
    rw [show buffer' = buffer from hbuffer] at hsent
    have hunique : ∀ r', IsResponse log g s.client.replies.length r' → r' = r := fun r' hr' =>
      hr.unique h.server.serverInv.book.dispatch hr'
    refine ⟨?_, ?_⟩
    · rcases hinv.partly buffer hphase with rfl | ⟨r', hr', -, hne⟩
      · obtain ⟨args, frame, hargs, hframe, hraw⟩ := h.request hsend hr
        have hname := (hsend args (List.mem_of_getElem? hargs)).not_nameBreaksLine
        exact (h.server.wholeReply hr hframe (hraw ▸ hname)).1.symm
      · exact hunique r' hr' ▸ hne
    · by_cases hmore : buffer ++ s.toClient = []
      · rw [hmore]
        exact List.nil_prefix
      · obtain ⟨-, r', hr', -, hstart⟩ := hinv.next h.server hsend hmore hsent (by omega)
        exact hunique r' hr' ▸ hstart

end

/-- The server answers the first request of `populate_keyspace`. -/
def populateServer : List Choice :=
  Choice.connect (encodeCommand (benchRequest 1 0 true)) ++ List.replicate 6 (.loop {}) ++
    List.replicate 4 (.worker 0) ++ .loop { poll := .events [.wakeup] } :: List.replicate 4 (.loop {}) ++
    [.loop { send := .wrote 5 }]

/-- The client sends it in two pieces, and reads the reply in two pieces. -/
def populateChoices : List SessionChoice :=
  [.ask (benchRequest 1 0 true), .send 20, .send 13] ++ populateServer.map .server ++ [.recv 2, .recv 3]

def populateResult : Option (Session (.reference .exact) × List Event) :=
  run (Session.step (ServerConfig.small 1 Nat.one_pos).toEventLoopConfig 1)
    { server := System.start (ServerConfig.small 1 Nat.one_pos) Store.small 0 } populateChoices

theorem populate_state : populateResult.map (fun r => decide (r.1.client.phase = .idle ∧
    r.1.client.asked = [benchRequest 1 0 true] ∧ r.1.client.replies = [ascii "+OK\r\n"])) = some true := by
  decide +kernel

theorem closed_loop_exchange_populate : ∃ (log : List Event) (s : Session (.reference .exact)),
    Session.Run (ServerConfig.small 1 Nat.one_pos) 1 Store.small 0 log s ∧
      s.client.replies = [ascii "+OK\r\n"] ∧ IsResponse log 1 0 (ascii "+OK\r\n") ∧ s.toClient = [] := by
  obtain ⟨⟨s, log⟩, hresult, hstate⟩ := Option.map_eq_some_iff.mp populate_state
  obtain ⟨hidle, hasked, hreplies⟩ := of_decide_eq_true hstate
  have hrun : Session.Run (ServerConfig.small 1 Nat.one_pos) 1 Store.small 0 log s := exec_of_run hresult
  have hsend : ∀ args ∈ s.client.asked, Sendable args := by
    intro args hargs
    rw [hasked, List.mem_singleton] at hargs
    exact hargs ▸ sendable_benchRequest (by decide) (Nat.zero_le _) true
  obtain ⟨-, hanswered, hquiet, -⟩ := closed_loop_exchange hrun hsend
  exact ⟨log, s, hrun, hreplies, (hanswered 0 _ (by rw [hreplies]; rfl)).1, (hquiet hidle).2.2⟩

end KvStore
