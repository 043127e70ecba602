import KvStore.Kernel
import KvStore.Limits
import KvStore.OutputCap

/-!
# What the loop is waiting for

The kernel knows a client by its descriptor, the server by its registry. `KernelMove` says which calls a step of
the loop makes and which descriptors are open afterwards; everything here is a case analysis on it.

`descriptors_exact`: the sockets of the process are those of the registered connections, no more and no fewer, so
none leaks and `accept4` never returns the descriptor of a connection that is still there. `write_interest`: whenever
the loop is between two handlers, the epoll set asks for `EPOLLOUT` exactly for the connections with output waiting.
The source updates the set only at the end of `handle_connection_writable`; that this is enough is the work of
`FlushDue`: whoever appends to an output buffer has that call ahead of it.
-/

namespace KvStore
open ByteString Transition

/-! ### Open descriptors -/

def ConnectionRegistry.isOpen (r : ConnectionRegistry) (fd : Nat) : Bool := (r.findCurrent fd).isSome

section
variable {r : ConnectionRegistry} {id g fd : Nat} {c c' : Connection}

theorem ConnectionRegistry.isOpen_of_find (h : r.find id g = some c) : r.isOpen id = true := by
  unfold isOpen
  rw [(find_eq_some_iff.mp h).1]; rfl

theorem ConnectionRegistry.isOpen_of_findCurrent (h : r.findCurrent id = some c) : r.isOpen id = true := by
  unfold isOpen
  rw [h]; rfl

theorem ConnectionRegistry.isOpen_of_none (h : r.findCurrent id = none) : r.isOpen id = false := by
  unfold isOpen
  rw [h]; rfl

theorem ConnectionRegistry.findCurrent_of_isOpen (h : r.isOpen fd = true) : ∃ c, r.findCurrent fd = some c :=
  Option.isSome_iff_exists.mp h

theorem ConnectionRegistry.isOpen_put (h : r.find id g = some c) (fd : Nat) : (r.put id c').isOpen fd = r.isOpen fd := by
  have hopen := isOpen_of_find h
  unfold isOpen at hopen ⊢
  rw [findCurrent_put]
  split_ifs with hfd
  · rw [hfd, hopen]; rfl
  · rfl

theorem ConnectionRegistry.isOpen_close (h : r.find id g = some c) (fd : Nat) :
    (r.close id g).isOpen fd = (decide (fd ≠ id) && r.isOpen fd) := by
  unfold isOpen
  rw [findCurrent_close h]
  split_ifs with hfd
  · simp [hfd]
  · simp [hfd]

theorem ConnectionRegistry.isOpen_put_close (h : r.find id g = some c) (hg : c'.generation = g) (fd : Nat) :
    ((r.put id c').close id g).isOpen fd = (decide (fd ≠ id) && r.isOpen fd) := by
  rw [isOpen_close (find_put_self hg), isOpen_put h]

theorem ConnectionRegistry.isOpen_add (r : ConnectionRegistry) (id m n fd : Nat) :
    (r.add id m n).isOpen fd = (decide (fd = id) || r.isOpen fd) := by
  unfold isOpen
  rw [findCurrent_add]
  split_ifs with hfd
  · simp [hfd]
  · simp [hfd]

theorem ConnectionRegistry.isOpen_add_close (hnone : r.findCurrent id = none) (m n fd : Nat) :
    ((r.add id m n).close id r.nextGeneration).isOpen fd = r.isOpen fd := by
  rw [isOpen_close (r.find_add_self id m n), isOpen_add]
  by_cases hfd : fd = id
  · simp [hfd, isOpen, hnone]
  · simp [hfd]

end

/-! ### The calls of a step -/

/-- The calls of a step, and what they have to do with the connections. -/
inductive KernelMove (l l' : LoopState) : List KernelCall → Prop
  | silent : (∀ fd, l'.registry.isOpen fd = l.registry.isOpen fd) → KernelMove l l' []
  | accept {fd : Nat} : l.registry.isOpen fd = false →
    (∀ fd', l'.registry.isOpen fd' = (decide (fd' = fd) || l.registry.isOpen fd')) →
    KernelMove l l' [.accept fd, .epollAdd fd]
  | refuse {fd : Nat} : l.registry.isOpen fd = false → (∀ fd', l'.registry.isOpen fd' = l.registry.isOpen fd') →
    KernelMove l l' [.accept fd, .close fd]
  | recv {fd n : Nat} : (∀ fd', l'.registry.isOpen fd' = l.registry.isOpen fd') → KernelMove l l' [.recv fd n]
  | send {fd n : Nat} : (∀ fd', l'.registry.isOpen fd' = l.registry.isOpen fd') → KernelMove l l' [.send fd n]
  | interest {fd g : Nat} {rest : List Task} {c : Connection} : l.tasks = .write fd g :: rest →
    l.registry.find fd g = some c → l'.registry = l.registry →
    KernelMove l l' [.epollMod fd (decide (c.output.data ≠ []))]
  | close {fd : Nat} {sends : List KernelCall} : l.registry.isOpen fd = true →
    (∀ fd', l'.registry.isOpen fd' = (decide (fd' ≠ fd) && l.registry.isOpen fd')) →
    (∀ call ∈ sends, ∃ n, call = .send fd n) → KernelMove l l' (sends ++ [.epollDel fd, .close fd])

section
variable {cfg : EventLoopConfig} {l l' : LoopState} {io : Io} {evs : List Event} {id g : Nat} {c : Connection}

theorem closeCalls_eq {r : ConnectionRegistry} (flush : SendResult) (h : r.find id g = some c) :
    ∃ sends, closeCalls r id g flush = sends ++ [.epollDel id, .close id] ∧ ∀ call ∈ sends, ∃ n, call = .send id n := by
  unfold closeCalls
  rw [h]
  dsimp only
  split_ifs
  · exact ⟨[], rfl, nofun⟩
  · refine ⟨_, rfl, fun call hcall => ?_⟩
    exact ⟨_, List.mem_singleton.mp hcall⟩

theorem KernelMove.closing {r : ConnectionRegistry} {c' : Connection} {calls : List KernelCall} (flush : SendResult)
    (hf : l.registry.find id g = some c) (hr : r.find id g = some c') (hcalls : calls = closeCalls r id g flush)
    (hopen : ∀ fd, l'.registry.isOpen fd = (decide (fd ≠ id) && l.registry.isOpen fd)) :
    KernelMove l l' calls := by
  obtain ⟨sends, heq, hsends⟩ := closeCalls_eq flush hr
  rw [hcalls, heq]
  exact .close (ConnectionRegistry.isOpen_of_find hf) hopen hsends

theorem received_calls {rest : List Task} {chunk : Bytes} (ht : l.tasks = .read id g :: rest)
    (hf : l.registry.find id g = some c) (hrecv : io.recv = .bytes chunk) (hne : chunk ≠ [])
    (hlen : chunk.length ≤ min (c.input.capacity - c.input.data.length) kReadChunkSize) :
    l.calls cfg io = [.recv id chunk.length] := by
  have hroom : ¬ c.input.capacity - c.input.data.length = 0 := fun hfull => by
    rw [hfull, Nat.zero_min, Nat.le_zero, List.length_eq_zero_iff] at hlen
    exact hne hlen
  simp only [LoopState.calls, ht, hf, LoopState.readCalls, if_neg hroom, hrecv]

theorem sent_calls {rest : List Task} {n : Nat} (ht : l.tasks = .write id g :: rest)
    (hf : l.registry.find id g = some c) (hsend : io.send = .wrote n) (hpos : 0 < n)
    (hle : n ≤ c.output.data.length) : l.calls cfg io = [.send id n] := by
  have hne : c.output.data ≠ [] := fun hempty => by
    rw [hempty, List.length_nil] at hle
    omega
  simp only [LoopState.calls, ht, hf, LoopState.writeCalls, if_neg hne, hsend]

theorem writeDone_calls {rest : List Task} (ht : l.tasks = .write id g :: rest)
    (hf : l.registry.find id g = some c) (hwhy : c.output.data = [] ∨ io.send = .wouldBlock) :
    l.calls cfg io = [.epollMod id (decide (c.output.data ≠ []))] := by
  simp only [LoopState.calls, ht, hf, LoopState.writeCalls]
  by_cases hempty : c.output.data = []
  · simp [hempty]
  · simp [hempty, hwhy.resolve_left hempty]

/-- `process_input` makes no calls, or its caller closes the connection. -/
theorem process_calls {rest : List Task} (h : l.step cfg io = some (l', evs)) (ht : l.tasks = .process id g :: rest)
    (hf : l.registry.find id g = some c) :
    l.calls cfg io = [] ∧ (∀ fd, l'.registry.isOpen fd = l.registry.isOpen fd) ∨
      ∃ c', (l.registry.put id c').find id g = some c' ∧
        l.calls cfg io = closeCalls (l.registry.put id c') id g io.flush ∧
        ∀ fd, l'.registry.isOpen fd = (decide (fd ≠ id) && l.registry.isOpen fd) := by
  have hgen : c.generation = g := (ConnectionRegistry.find_eq_some_iff.mp hf).2
  have hcalls : l.calls cfg io = l.processCalls cfg id g c io := by
    unfold LoopState.calls
    rw [ht]; dsimp only
    rw [hf]
  have hexited := (loopMove_of_step h).1
  unfold LoopState.step at h
  rw [hexited, if_neg Bool.false_ne_true, ht] at h
  dsimp only at h
  unfold LoopState.handleProcess at h
  rw [hf] at h
  rw [hcalls]
  unfold LoopState.processCalls
  dsimp only at h ⊢
  cases hflow : (processInput cfg.maxInFlightPerConnection c l.workQueue).flow with
  | more =>
    rw [hflow] at h
    cases h
    exact .inl ⟨rfl, ConnectionRegistry.isOpen_put hf⟩
  | returnTrue =>
    rw [hflow] at h
    cases h
    exact .inl ⟨rfl, ConnectionRegistry.isOpen_put hf⟩
  | returnFalse =>
    rw [hflow] at h
    have hgen' : (processInput cfg.maxInFlightPerConnection c l.workQueue).connection.generation = g := by
      rcases processInput_cases cfg.maxInFlightPerConnection c l.workQueue with
        ⟨-, hr⟩ | ⟨-, command, n, hroom, -, -, hr⟩ | ⟨-, verdict, n, reply, goOn, -, -, hr⟩
      · rw [hr]; exact hgen
      · rw [hr]; exact hgen
      · rw [hr]; exact hgen
    have hput : (l.registry.put id _).find id g = some _ := ConnectionRegistry.find_put_self hgen'
    obtain ⟨closeEvs, -, -, rfl⟩ := closing_cases hput h
    exact .inr ⟨_, hput, rfl, ConnectionRegistry.isOpen_put_close hf hgen'⟩

theorem kernelMove_of_step (h : l.step cfg io = some (l', evs)) : KernelMove l l' (l.calls cfg io) := by
  obtain ⟨-, hmove⟩ := loopMove_of_step h
  -- a step of `process_input` is read off the round it makes
  by_cases hprocess : ∃ id g rest c, l.tasks = .process id g :: rest ∧ l.registry.find id g = some c
  · obtain ⟨id, g, rest, c, ht, hf⟩ := hprocess
    rcases process_calls h ht hf with ⟨hnil, hopen⟩ | ⟨c', hput, hclose, hopen⟩
    · rw [hnil]
      exact .silent hopen
    · exact .closing io.flush hf hput hclose hopen
  have hcalls : ∀ {cs}, l.calls cfg io = cs → KernelMove l l' cs → KernelMove l l' (l.calls cfg io) :=
    fun heq hmove => heq ▸ hmove
  have hsilent : l.calls cfg io = [] → l'.registry = l.registry → KernelMove l l' (l.calls cfg io) :=
    fun heq hreg => hcalls heq (.silent fun fd => by rw [hreg])
  cases hmove with
  | stop ht _ | poll ht _ _ | pollFailed ht _ _ | batchDone ht | wakeup ht | listener ht | client ht =>
    exact hsilent (by simp only [LoopState.calls, ht]) rfl
  | interrupted ht _ _ => exact hsilent (by simp only [LoopState.calls, ht]) rfl
  | hangupGone ht hnone => exact hsilent (by simp only [LoopState.calls, ht, hnone]) rfl
  | hangup ht hcur _ =>
    have hf := ConnectionRegistry.find_eq_some_iff.mpr ⟨hcur, rfl⟩
    exact .closing io.flush hf hf (by simp only [LoopState.calls, ht, hcur]) (ConnectionRegistry.isOpen_close hf)
  | acceptDone ht ha | acceptRetry ht ha | acceptFailed ht ha =>
    exact hsilent (by simp only [LoopState.calls, ht, ha, LoopState.acceptCalls]) rfl
  | @accept fd rest ht ha hnone =>
    have heq : l.calls cfg io = [.accept fd, .epollAdd fd] := by
      simp only [LoopState.calls, ht, ha, LoopState.acceptCalls]
    exact hcalls heq (.accept (ConnectionRegistry.isOpen_of_none hnone) (l.registry.isOpen_add _ _ _))
  | @acceptUnregistered fd rest ht ha hnone =>
    have heq : l.calls cfg io = [.accept fd, .close fd] := by
      simp only [LoopState.calls, ht, ha, LoopState.acceptCalls]
    exact hcalls heq
      (.refuse (ConnectionRegistry.isOpen_of_none hnone) (ConnectionRegistry.isOpen_add_close hnone _ _))
  | readable ht _ | writable ht _ => exact hsilent (by simp only [LoopState.calls, ht]) rfl
  | gone ht hgone =>
    refine hsilent ?_ rfl
    cases hgone with
    | readable _ | writable _ => simp only [LoopState.calls, ht]
    | read hnone | process hnone | write hnone => simp only [LoopState.calls, ht, hnone]
  | readFull ht hf hfull _ =>
    refine .closing io.flush hf hf ?_ (ConnectionRegistry.isOpen_close hf)
    simp only [LoopState.calls, ht, hf, LoopState.readCalls, if_pos hfull]
  | received ht hf hrecv hne hlen _ =>
    exact hcalls (received_calls ht hf hrecv hne hlen) (.recv (ConnectionRegistry.isOpen_put hf))
  | readBlocked ht hf hroom hrecv =>
    exact hsilent (by simp only [LoopState.calls, ht, hf, LoopState.readCalls, if_neg hroom, hrecv]) rfl
  | readEnded ht hf hroom hwhy _ =>
    refine .closing io.flush hf hf ?_ (ConnectionRegistry.isOpen_close hf)
    rcases hwhy with hrecv | hrecv <;>
      simp only [LoopState.calls, ht, hf, LoopState.readCalls, if_neg hroom, hrecv]
  | processDone ht hf _ => exact absurd ⟨_, _, _, _, ht, hf⟩ hprocess
  | handOver _ ht hf _ _ _ => exact absurd ⟨_, _, _, _, ht, hf⟩ hprocess
  | answer ht hf _ _ _ _ => exact absurd ⟨_, _, _, _, ht, hf⟩ hprocess
  | answerClose ht hf _ _ _ _ _ _ => exact absurd ⟨_, _, _, _, ht, hf⟩ hprocess
  | writeDone ht hf hwhy => exact hcalls (writeDone_calls ht hf hwhy) (.interest ht hf rfl)
  | sent ht hf hsend hpos hle =>
    exact hcalls (sent_calls ht hf hsend hpos hle) (.send (ConnectionRegistry.isOpen_put hf))
  | writeFailed ht hf hne hsend _ =>
    refine .closing io.flush hf hf ?_ (ConnectionRegistry.isOpen_close hf)
    simp only [LoopState.calls, ht, hf, LoopState.writeCalls, if_neg hne, hsend]
  | drained ht hnil =>
    refine hsilent ?_ rfl
    simp only [LoopState.calls, ht, LoopState.drainCalls, BoundedQueue.tryPop, hnil]
  | stale ht hitems hnone =>
    refine hsilent ?_ rfl
    simp only [LoopState.calls, ht, LoopState.drainCalls, BoundedQueue.tryPop, hitems, hnone]
  | complete ht hitems hf hresp =>
    refine hcalls ?_ (.silent (ConnectionRegistry.isOpen_put hf))
    simp only [LoopState.calls, ht, LoopState.drainCalls, BoundedQueue.tryPop, hitems, hf, hresp, if_true]
  | @overflow rest completion queue c c' closeEvs ht hitems hf hresp _ =>
    have hgen' := (respond_id_generation hresp).2.trans (ConnectionRegistry.find_eq_some_iff.mp hf).2
    have hput : (l.registry.put completion.connectionId c').find completion.connectionId
        completion.connectionGeneration = some c' := ConnectionRegistry.find_put_self hgen'
    refine .closing io.flush hf hput ?_ (ConnectionRegistry.isOpen_put_close hf hgen')
    simp only [LoopState.calls, ht, LoopState.drainCalls, BoundedQueue.tryPop, hitems, hf, hresp,
      if_neg Bool.false_ne_true]

end

/-! ### What the calls do -/

namespace Kernel
variable {k : Kernel} {fd fd' : Nat}

theorem lookup_update (k : Kernel) (fd : Nat) (f : Socket → Socket) (fd' : Nat) :
    (k.update fd f).sockets.lookup fd' = if fd' = fd then (k.sockets.lookup fd).map f else k.sockets.lookup fd' := by
  unfold update
  cases hs : k.sockets.lookup fd with
  | none =>
    split_ifs with hfd
    · rw [hfd, hs]; rfl
    · rfl
  | some s => rw [Finmap.lookup_insert_ite]; rfl

theorem isSome_lookup_update (k : Kernel) (fd : Nat) (f : Socket → Socket) (fd' : Nat) :
    ((k.update fd f).sockets.lookup fd').isSome = (k.sockets.lookup fd').isSome := by
  rw [lookup_update]
  split_ifs with hfd
  · rw [hfd, Option.isSome_map]
  · rfl

@[simp] theorem interest_update (k : Kernel) (fd : Nat) (f : Socket → Socket) : (k.update fd f).interest = k.interest := by
  unfold update
  cases k.sockets.lookup fd <;> rfl

@[simp] theorem backlog_update (k : Kernel) (fd : Nat) (f : Socket → Socket) : (k.update fd f).backlog = k.backlog := by
  unfold update
  cases k.sockets.lookup fd <;> rfl

theorem run_sends {sends : List KernelCall} (hsends : ∀ call ∈ sends, ∃ n, call = .send fd n) (k : Kernel) :
    (∀ fd', ((k.run sends).sockets.lookup fd').isSome = (k.sockets.lookup fd').isSome) ∧
      (k.run sends).interest = k.interest ∧ (k.run sends).backlog = k.backlog := by
  induction sends generalizing k with
  | nil => exact ⟨fun _ => rfl, rfl, rfl⟩
  | cons call sends ih =>
    obtain ⟨n, rfl⟩ := hsends call List.mem_cons_self
    obtain ⟨hsockets, hinterest, hbacklog⟩ :=
      ih (fun call hcall => hsends call (List.mem_cons_of_mem _ hcall)) (k.call (.send fd n))
    refine ⟨fun fd' => (hsockets fd').trans (isSome_lookup_update k fd _ fd'), ?_, ?_⟩
    · exact hinterest.trans (interest_update k fd _)
    · exact hbacklog.trans (backlog_update k fd _)

theorem run_append (k : Kernel) (calls calls' : List KernelCall) : k.run (calls ++ calls') = (k.run calls).run calls' :=
  List.foldl_append

end Kernel

/-! ### Descriptors -/

/-- The registered connections are the open sockets, and these are the descriptors in the epoll set. -/
structure DescriptorInv (r : ConnectionRegistry) (k : Kernel) : Prop where
  sockets : ∀ fd, (k.sockets.lookup fd).isSome = r.isOpen fd
  interest : ∀ fd, (k.interest.lookup fd).isSome = r.isOpen fd

theorem DescriptorInv.move {l l' : LoopState} {k : Kernel} {calls : List KernelCall} (h : DescriptorInv l.registry k)
    (hmove : KernelMove l l' calls) : DescriptorInv l'.registry (k.run calls) := by
  cases hmove with
  | silent hopen => exact ⟨fun fd => (h.sockets fd).trans (hopen fd).symm, fun fd => (h.interest fd).trans (hopen fd).symm⟩
  | @accept fd _ hopen =>
    refine ⟨fun fd' => ?_, fun fd' => ?_⟩
    · show ((k.sockets.insert fd {}).lookup fd').isSome = _
      rw [Finmap.lookup_insert_ite, hopen, ← h.sockets fd']
      split_ifs with hfd <;> simp [hfd]
    · show ((k.interest.insert fd false).lookup fd').isSome = _
      rw [Finmap.lookup_insert_ite, hopen, ← h.interest fd']
      split_ifs with hfd <;> simp [hfd]
  | @refuse fd hnot hopen =>
    refine ⟨fun fd' => ?_, fun fd' => ?_⟩
    · show (((k.sockets.insert fd {}).erase fd).lookup fd').isSome = _
      rw [Finmap.lookup_erase_ite, Finmap.lookup_insert_ite, hopen, ← h.sockets fd']
      split_ifs with hfd
      · rw [hfd, h.sockets fd, hnot]; rfl
      · rfl
    · show ((k.interest.erase fd).lookup fd').isSome = _
      rw [Finmap.lookup_erase_ite, hopen, ← h.interest fd']
      split_ifs with hfd
      · rw [hfd, h.interest fd, hnot]; rfl
      · rfl
  | @recv fd n hopen =>
    refine ⟨fun fd' => ?_, fun fd' => ?_⟩
    · exact (k.isSome_lookup_update fd _ fd').trans ((h.sockets fd').trans (hopen fd').symm)
    · show ((k.update fd _).interest.lookup fd').isSome = _
      rw [Kernel.interest_update, hopen]; exact h.interest fd'
  | @send fd n hopen =>
    refine ⟨fun fd' => ?_, fun fd' => ?_⟩
    · exact (k.isSome_lookup_update fd _ fd').trans ((h.sockets fd').trans (hopen fd').symm)
    · show ((k.update fd _).interest.lookup fd').isSome = _
      rw [Kernel.interest_update, hopen]; exact h.interest fd'
  | @interest fd g rest c ht hf hreg =>
    have hmem : (k.interest.lookup fd).isSome = true := (h.interest fd).trans (ConnectionRegistry.isOpen_of_find hf)
    have hcall : k.run [.epollMod fd (decide (c.output.data ≠ []))] =
        { k with interest := k.interest.insert fd (decide (c.output.data ≠ [])) } := if_pos hmem
    rw [hcall, hreg]
    refine ⟨h.sockets, fun fd' => ?_⟩
    dsimp only
    rw [Finmap.lookup_insert_ite, ← h.interest fd']
    split_ifs with hfd
    · rw [hfd, hmem]; rfl
    · rfl
  | @close fd sends _ hopen hsends =>
    obtain ⟨hsockets, hinterest, -⟩ := Kernel.run_sends hsends k
    rw [Kernel.run_append]
    refine ⟨fun fd' => ?_, fun fd' => ?_⟩
    · show (((k.run sends).sockets.erase fd).lookup fd').isSome = _
      rw [Finmap.lookup_erase_ite, hopen, ← h.sockets fd', ← hsockets fd']
      split_ifs with hfd <;> simp [hfd]
    · show ((((k.run sends).interest.erase fd).erase fd).lookup fd').isSome = _
      rw [Finmap.lookup_erase_ite, Finmap.lookup_erase_ite, hinterest, hopen, ← h.interest fd']
      split_ifs with hfd <;> simp [hfd]

/-! ### Interest in writing -/

/-- The epoll set asks for `EPOLLOUT` exactly if output is waiting, or its update is still ahead. -/
def InterestInv (l : LoopState) (k : Kernel) : Prop :=
  ∀ id c, l.registry.findCurrent id = some c →
    FlushDue id c.generation l.tasks ∨ k.interest.lookup id = some (decide (c.output.data ≠ []))

section
variable {cfg : EventLoopConfig} {l l' : LoopState} {io : Io} {evs : List Event} {k : Kernel} {id g : Nat}
  {c c' : Connection} {calls : List KernelCall}

/-- The loop of `handle_connection_writable` ends with `update_epoll_interest`, goes on, or closes the connection. -/
theorem write_cases {rest : List Task} (h : l.step cfg io = some (l', evs)) (ht : l.tasks = .write id g :: rest)
    (hf : l.registry.find id g = some c) :
    l'.registry = l.registry ∧ l.calls cfg io = [.epollMod id (decide (c.output.data ≠ []))] ∨
      l'.tasks = l.tasks ∨ l'.registry.isOpen id = false := by
  have hexited := (loopMove_of_step h).1
  have hcalls : l.calls cfg io = l.writeCalls id g c io := by
    unfold LoopState.calls
    rw [ht]; dsimp only
    rw [hf]
  unfold LoopState.step at h
  rw [hexited, if_neg Bool.false_ne_true, ht] at h
  dsimp only at h
  unfold LoopState.handleConnectionWritable at h
  rw [hf] at h
  rw [hcalls]
  unfold LoopState.writeCalls
  dsimp only at h
  split_ifs at h with hempty
  · cases h
    exact .inl ⟨rfl, by simp [hempty]⟩
  cases hs : io.send with
  | wrote n =>
    rw [hs] at h
    dsimp only at h
    split_ifs at h
    cases h
    exact .inr (.inl rfl)
  | wouldBlock =>
    rw [hs] at h
    cases h
    exact .inl ⟨rfl, by simp [hempty]⟩
  | failed =>
    rw [hs] at h
    obtain ⟨closeEvs, -, -, rfl⟩ := closing_cases hf h
    refine .inr (.inr ?_)
    show (l.registry.close id g).isOpen id = false
    rw [ConnectionRegistry.isOpen_close hf]
    simp

theorem DescriptorInv.interest_epollMod (hdesc : DescriptorInv l.registry k) (hf : l.registry.find id g = some c)
    (w : Bool) : (k.run [.epollMod id w]).interest.lookup id = some w := by
  have hmem : (k.interest.lookup id).isSome = true :=
    (hdesc.interest id).trans (ConnectionRegistry.isOpen_of_find hf)
  show (k.call (.epollMod id w)).interest.lookup id = some w
  unfold Kernel.call
  dsimp only
  rw [if_pos hmem]
  exact Finmap.lookup_insert _

/-- Nobody else changes the interest in a connection that stays open. -/
theorem KernelMove.interest_eq (h : KernelMove l l' calls) (hopen : l.registry.isOpen id = true)
    (hopen' : l'.registry.isOpen id = true)
    (hnot : ∀ g rest c, l.tasks = .write id g :: rest → l.registry.find id g ≠ some c) (k : Kernel) :
    (k.run calls).interest.lookup id = k.interest.lookup id := by
  have hne : ∀ {fd}, l.registry.isOpen fd = false → id ≠ fd := by
    rintro fd hclosed rfl
    rw [hopen] at hclosed
    cases hclosed
  cases h with
  | silent _ => rfl
  | accept hclosed _ => exact Finmap.lookup_insert_of_ne _ (hne hclosed)
  | refuse hclosed _ => exact Finmap.lookup_erase_ne (hne hclosed)
  | recv _ => exact congrArg (Finmap.lookup id) (k.interest_update _ _)
  | send _ => exact congrArg (Finmap.lookup id) (k.interest_update _ _)
  | @interest fd g rest c ht hf _ =>
    have hid : id ≠ fd := by
      rintro rfl
      exact hnot g rest c ht hf
    show (k.call (.epollMod fd _)).interest.lookup id = _
    unfold Kernel.call
    dsimp only
    split_ifs
    · exact Finmap.lookup_insert_of_ne _ hid
    · rfl
  | @close fd sends _ hafter hsends =>
    have hid : id ≠ fd := by
      rintro rfl
      rw [hafter] at hopen'
      simp at hopen'
    rw [Kernel.run_append, ← (Kernel.run_sends hsends k).2.1]
    exact (Finmap.lookup_erase_ne hid).trans (Finmap.lookup_erase_ne hid)

theorem InterestInv.step (h : InterestInv l k) (hdesc : DescriptorInv l.registry k) (hbacked : Backed l.tasks)
    (hstep : l.step cfg io = some (l', evs)) : InterestInv l' (k.run (l.calls cfg io)) := by
  intro id c' hc'
  have hmove := (loopMove_of_step hstep).2
  have hkernel := kernelMove_of_step hstep
  have hopen' := ConnectionRegistry.isOpen_of_findCurrent hc'
  -- the connection was open before, with the output `c.output`
  have hkept : ∀ c, l.registry.findCurrent id = some c → c'.generation = c.generation →
      (c'.output.data = c.output.data ∨ FlushDue id c'.generation l'.tasks) →
      FlushDue id c'.generation l'.tasks ∨
        (k.run (l.calls cfg io)).interest.lookup id = some (decide (c'.output.data ≠ [])) := by
    intro c hc hg hout
    have hf : l.registry.find id c.generation = some c := ConnectionRegistry.find_eq_some_iff.mpr ⟨hc, rfl⟩
    rcases hout with hout | hdue
    swap
    · exact .inl hdue
    by_cases hwrite : ∃ rest, l.tasks = .write id c.generation :: rest
    · obtain ⟨rest, ht⟩ := hwrite
      rcases write_cases hstep ht hf with ⟨-, hcalls⟩ | htasks | hclosed
      · rw [hcalls, hout]
        exact .inr (hdesc.interest_epollMod hf _)
      · rw [htasks, ht, hg]
        exact .inl (.inl ⟨rfl, rfl⟩)
      · rw [hopen'] at hclosed
        cases hclosed
    · rcases h id c hc with hdue | hinterest
      · left
        rw [hg]
        refine hdue.loopMove hmove hf (by rw [hc']; exact Option.some_ne_none _) fun rest ht => ?_
        exact absurd ⟨rest, ht⟩ hwrite
      · right
        rw [hkernel.interest_eq (ConnectionRegistry.isOpen_of_find hf) hopen' ?_ k, hinterest, hout]
        intro g rest c₁ ht hf₁
        obtain ⟨hc₁, rfl⟩ := ConnectionRegistry.find_eq_some_iff.mp hf₁
        cases hc.symm.trans hc₁
        exact hwrite ⟨rest, ht⟩
  cases hmove.origin hc' with
  | @fresh rest ht hio hfresh =>
    have hcalls : l.calls cfg io = [.accept id, .epollAdd id] := by
      simp only [LoopState.calls, ht, hio, LoopState.acceptCalls]
    right
    rw [hcalls, hfresh]
    exact Finmap.lookup_insert _
  | kept hc _ => exact hkept c' hc rfl (.inl rfl)
  | @touched c hc htouch =>
    have hg := htouch.generation
    cases htouch with
    | received _ _ _ ht' => exact hkept c hc rfl (.inl rfl)
    | handOver _ => exact hkept c hc rfl (.inl rfl)
    | answer ht _ _ hsame =>
      refine hkept c hc hg (.inr ?_)
      rw [hsame, ht, hg]
      rw [ht] at hbacked
      exact .inr ⟨trivial, hbacked.1 _ _ rfl⟩
    | @sent n rest ht hio =>
      have hf : l.registry.find id c.generation = some c := ConnectionRegistry.find_eq_some_iff.mpr ⟨hc, rfl⟩
      rcases write_cases hstep ht hf with ⟨hreg, -⟩ | htasks | hclosed
      · rw [hreg, hc] at hc'
        exact hkept c hc rfl (.inl (congrArg (·.output.data) (Option.some.inj hc').symm))
      · refine hkept c hc rfl (.inr ?_)
        rw [htasks, ht]
        exact .inl ⟨rfl, rfl⟩
      · rw [hopen'] at hclosed
        cases hclosed
    | complete _ _ ht' =>
      refine hkept c hc hg (.inr ?_)
      rw [ht']
      exact .inr ⟨trivial, .inl rfl⟩

end

/-! ### Whole runs -/

section
variable {P : Platform} {cfg : ServerConfig} {store : Store P} {clock : Int} {log : List Event} {h : Host P}

/-- What holds between the loop and its kernel. -/
structure HostInv (l : LoopState) (k : Kernel) : Prop where
  descriptors : DescriptorInv l.registry k
  interest : InterestInv l k
  backed : Backed l.tasks

theorem HostInv.loopStep {cfg : EventLoopConfig} {l l' : LoopState} {io : Io} {evs : List Event} {k : Kernel}
    (hinv : HostInv l k) (hstep : l.step cfg io = some (l', evs)) : HostInv l' (k.run (l.calls cfg io)) where
  descriptors := hinv.descriptors.move (kernelMove_of_step hstep)
  interest := hinv.interest.step hinv.descriptors hinv.backed hstep
  backed := hinv.backed.loopMove (loopMove_of_step hstep).2

theorem HostInv.kept {l l' : LoopState} {k : Kernel} (hinv : HostInv l k) (hkept : LoopKept l l') :
    HostInv l' k where
  descriptors := by rw [hkept.registry]; exact hinv.descriptors
  interest := by
    intro id c hc
    rw [hkept.tasks]
    exact hinv.interest id c (hkept.registry ▸ hc)
  backed := by rw [hkept.tasks]; exact hinv.backed

/-- A peer changes what a socket holds, not which sockets there are. -/
theorem HostInv.peer {l : LoopState} {k : Kernel} (hinv : HostInv l k) (fd : Nat) (f : Socket → Socket) :
    HostInv l (k.update fd f) where
  descriptors :=
    ⟨fun fd' => (k.isSome_lookup_update fd f fd').trans (hinv.descriptors.sockets fd'), fun fd' => by
      rw [k.interest_update]
      exact hinv.descriptors.interest fd'⟩
  interest := by
    intro id c hc
    rw [k.interest_update]
    exact hinv.interest id c hc
  backed := hinv.backed

theorem HostInv.serverStep {cfg : EventLoopConfig} {h' : Host P} {choice : Choice} {evs : List Event}
    (hinv : HostInv h.system.loop h.kernel) (hstep : h.serverStep cfg choice = some (h', evs)) :
    HostInv h'.system.loop h'.kernel := by
  obtain ⟨hsys, hkernel⟩ := Host.serverStep_cases hstep
  rcases (systemMove_of_step hsys).loop_or_kept with ⟨io, rfl, hl⟩ | ⟨hother, hkept, -⟩
  · rcases hkernel with ⟨io', hio, -, hk⟩ | ⟨hno, -⟩
    · cases hio
      rw [hk]
      exact hinv.loopStep hl
    · cases hno
  · rcases hkernel with ⟨io', rfl, -, -⟩ | ⟨-, hk⟩
    · cases hother
    · rw [hk]
      exact hinv.kept hkept

theorem Host.Run.hostInv (hrun : Host.Run cfg store clock log h) : HostInv h.system.loop h.kernel := by
  have hinit : HostInv (Host.start cfg store clock).system.loop (Host.start cfg store clock).kernel := by
    refine ⟨⟨fun _ => rfl, fun _ => rfl⟩, fun id c hc => ?_, trivial⟩
    cases hc
  have hstep : ∀ (log evs : List Event) (h h' : Host P), HostInv h.system.loop h.kernel →
      Step (Host.step cfg.toEventLoopConfig) h evs h' → HostInv h'.system.loop h'.kernel := by
    rintro log evs h h' hinv ⟨choice, hstep⟩
    cases choice with
    | server choice => exact hinv.serverStep hstep
    | connect =>
      cases hstep
      exact ⟨⟨hinv.descriptors.sockets, hinv.descriptors.interest⟩, hinv.interest, hinv.backed⟩
    | peer fd act =>
      simp only [Host.step] at hstep
      split_ifs at hstep
      cases hstep
      exact hinv.peer fd _
  exact Exec.invariant hinit hstep hrun

/-- No descriptor leaks: the connected sockets, the clients in the epoll set and the connections of the registry are
the same, whatever was accepted, refused, reset, finished or closed. What `accept4` returns is never registered. -/
theorem descriptors_exact (hrun : Host.Run cfg store clock log h) :
    (∀ fd, fd ∈ h.kernel.sockets ↔ ∃ c, h.system.loop.registry.findCurrent fd = some c) ∧
      (∀ fd, fd ∈ h.kernel.interest ↔ ∃ c, h.system.loop.registry.findCurrent fd = some c) ∧
      ∀ fd registered rest io, h.system.loop.tasks = .accept :: rest → io.accept = .client fd registered →
        h.kernel.answers h.system.loop io = true → h.system.loop.registry.findCurrent fd = none := by
  have hdesc := hrun.hostInv.descriptors
  have hopen : ∀ fd, h.system.loop.registry.isOpen fd = true ↔
      ∃ c, h.system.loop.registry.findCurrent fd = some c := fun fd => Option.isSome_iff_exists
  refine ⟨fun fd => ?_, fun fd => ?_, fun fd registered rest io ht hio hanswers => ?_⟩
  · rw [← Finmap.lookup_isSome, hdesc.sockets, hopen]
  · rw [← Finmap.lookup_isSome, hdesc.interest, hopen]
  · simp only [Kernel.answers, ht, hio, Bool.and_eq_true, Option.isNone_iff_eq_none] at hanswers
    have hclosed := hdesc.sockets fd
    rw [hanswers.2] at hclosed
    exact Option.not_isSome_iff_eq_none.mp (by rw [← ConnectionRegistry.isOpen, ← hclosed]; exact Bool.false_ne_true)

/-- The epoll set asks for `EPOLLOUT` exactly for the connections that have output. -/
def Host.InterestExact (h : Host P) : Prop :=
  ∀ id c, h.system.loop.registry.findCurrent id = some c →
    h.kernel.interest.lookup id = some (decide (c.output.data ≠ []))

def LoopState.betweenEvents (l : LoopState) : Bool :=
  match l.tasks with
  | [] | .events _ :: _ => true
  | _ => false

/-- With `l'` the first handler of an event has returned and the second one is next. The tasks alone do not tell:
`handle_connection_readable` ends with a call of `handle_connection_writable`, which stands on the stack as the second
handler does. Either that call has just ended or the connection is closed. -/
def LoopState.FirstHandlerEnds (l l' : LoopState) : Prop :=
  ∃ fd batch rest, l'.tasks = .writable fd :: .events batch :: rest ∧
    ((∃ g c, l.tasks = .write fd g :: l'.tasks ∧ l.registry.find fd g = some c) ∨ l'.registry.findCurrent fd = none)

theorem FlushDue.eq_of_writable {id g fd : Nat} {batch : List PollEvent} {rest : List Task}
    (hdue : FlushDue id g (.writable fd :: .events batch :: rest)) : id = fd := by
  rcases hdue with hflush | ⟨-, hflush | ⟨hin, -⟩⟩
  · exact hflush.symm
  · cases hflush
  · cases hin

/-- The call of `handle_connection_writable` at the end of the first handler has updated the interest. -/
theorem HostInv.firstHandlerEnds {cfg : EventLoopConfig} {l l' : LoopState} {io : Io} {evs : List Event} {k : Kernel}
    (hinv : HostInv l k) (hstep : l.step cfg io = some (l', evs)) (hends : l.FirstHandlerEnds l') (id : Nat)
    (c : Connection) (hc : l'.registry.findCurrent id = some c) :
    (k.run (l.calls cfg io)).interest.lookup id = some (decide (c.output.data ≠ [])) := by
  obtain ⟨fd, batch, rest, ht', hends⟩ := hends
  rcases (hinv.loopStep hstep).interest id c hc with hdue | hexact
  swap
  · exact hexact
  rw [ht'] at hdue
  obtain rfl := hdue.eq_of_writable
  rcases hends with ⟨g, c₀, ht, hf⟩ | hnone
  · rcases write_cases hstep ht hf with ⟨hreg, hcalls⟩ | htasks | hclosed
    · rw [hreg, (ConnectionRegistry.find_eq_some_iff.mp hf).1] at hc
      cases hc
      rw [hcalls]
      exact hinv.descriptors.interest_epollMod hf _
    · have hlen := congrArg List.length (htasks.trans ht)
      rw [List.length_cons] at hlen
      omega
    · rw [ConnectionRegistry.isOpen_of_findCurrent hc] at hclosed
      cases hclosed
  · cases hnone.symm.trans hc

def HostChoice.isLoop : HostChoice → Bool
  | .server choice => choice.isLoop
  | _ => false

/-- A step of a worker, of another thread or of a peer. -/
def Host.OthersStep (cfg : EventLoopConfig) (h : Host P) (evs : List Event) (h' : Host P) : Prop :=
  ∃ choice : HostChoice, choice.isLoop = false ∧ h.step cfg choice = some (h', evs)

theorem Host.InterestExact.others {cfg : EventLoopConfig} {h' : Host P} {evs : List Event} (hexact : h.InterestExact)
    (hstep : Host.OthersStep cfg h evs h') : h'.InterestExact := by
  obtain ⟨choice, hother, hstep⟩ := hstep
  cases choice with
  | server choice =>
    obtain ⟨hsys, ⟨io, rfl, -, -⟩ | ⟨-, hk⟩⟩ := Host.serverStep_cases hstep
    · cases hother
    rcases (systemMove_of_step hsys).loop_or_kept with ⟨io, rfl, -⟩ | ⟨-, hkept, -⟩
    · cases hother
    · intro id c hc
      rw [hk]
      exact hexact id c (hkept.registry ▸ hc)
  | connect =>
    cases hstep
    exact hexact
  | peer fd act =>
    simp only [Host.step] at hstep
    split_ifs at hstep
    cases hstep
    intro id c hc
    exact (congrArg (·.lookup id) (h.kernel.interest_update fd _)).trans (hexact id c hc)

/-- Between two handlers the loop waits for room to write exactly on the connections that have output. -/
theorem write_interest (hrun : Host.Run cfg store clock log h) :
    (h.system.loop.betweenEvents = true → h.InterestExact) ∧
      ∀ io h₁ evs log' h₂, h.serverStep cfg.toEventLoopConfig (.loop io) = some (h₁, evs) →
        h.system.loop.FirstHandlerEnds h₁.system.loop → Exec (Host.OthersStep cfg.toEventLoopConfig) h₁ log' h₂ →
        h₂.InterestExact := by
  refine ⟨fun hbetween id c hc => (hrun.hostInv.interest id c hc).resolve_left fun hdue => ?_,
    fun io h₁ evs log' h₂ hstep hends hothers => ?_⟩
  · unfold LoopState.betweenEvents at hbetween
    split at hbetween
    · next ht =>
      rw [ht] at hdue
      exact hdue
    · next ht => exact hdue.not_top ht not_false not_false
    · cases hbetween
  · have hexact : h₁.InterestExact := by
      obtain ⟨hsys, ⟨io', hio, -, hk⟩ | ⟨hno, -⟩⟩ := Host.serverStep_cases hstep
      · cases hio
        obtain ⟨r, hl, heq⟩ := Option.map_eq_some_iff.mp hsys
        obtain ⟨hsystem, rfl⟩ := Prod.mk.inj heq
        unfold Host.InterestExact
        rw [hk]
        rw [← hsystem] at hends ⊢
        exact hrun.hostInv.firstHandlerEnds hl hends
      · cases hno
    have hkeep : ∀ (log evs : List Event) (h h' : Host P), h.InterestExact →
        Host.OthersStep cfg.toEventLoopConfig h evs h' → h'.InterestExact := fun _ _ _ _ => .others
    exact Exec.invariant hexact hkeep hothers

end

/-- A client whose receive window is closed sends `PING`; the loop cannot write the reply and goes back to
`epoll_wait`. -/
def blockedChoices : List HostChoice :=
  [.connect, .server (.loop { poll := .events [.listener] }), .server (.loop {}),
    .server (.loop { accept := .client 7 true }), .server (.loop {}), .server (.loop {}), .peer 7 (.send pingFrame),
    .server (.loop { poll := .events [.client 7 false true false] }), .server (.loop {}), .server (.loop {}),
    .server (.loop { recv := .bytes pingFrame })] ++ List.replicate 6 (.server (.loop {})) ++
    List.replicate 4 (.server (.worker 0)) ++ .server (.loop { poll := .events [.wakeup] }) ::
    List.replicate 7 (.server (.loop {}))

def blockedResult : Option (Host (.reference .exact) × List Event) :=
  run (Host.step (ServerConfig.small 1 Nat.one_pos).toEventLoopConfig)
    (Host.start (ServerConfig.small 1 Nat.one_pos) Store.small 0) blockedChoices

theorem blockedResult_isSome : blockedResult.isSome = true := by decide +kernel

theorem blocked_state : blockedResult.map (fun r => decide (r.1.system.loop.tasks = [] ∧
    (r.1.system.loop.registry.findCurrent 7).map (·.output.data) = some (ascii "+PONG\r\n"))) = some true := by
  decide +kernel

theorem descriptors_exact_blocked : ∃ (log : List Event) (h : Host (.reference .exact)),
    Host.Run (ServerConfig.small 1 Nat.one_pos) Store.small 0 log h ∧
      (∃ c, h.system.loop.registry.findCurrent 7 = some c) ∧ 7 ∈ h.kernel.sockets ∧ 7 ∈ h.kernel.interest := by
  have hrun := exec_of_isSome blockedResult_isSome
  obtain ⟨r, hr, hstate⟩ := Option.map_eq_some_iff.mp blocked_state
  obtain ⟨-, hfound⟩ := of_decide_eq_true hstate
  obtain ⟨c, hc, -⟩ := Option.map_eq_some_iff.mp hfound
  simp only [show run _ _ _ = some r from hr, Option.get_some] at hrun
  obtain ⟨hsockets, hinterest, -⟩ := descriptors_exact hrun
  exact ⟨_, _, hrun, ⟨c, hc⟩, (hsockets 7).mpr ⟨c, hc⟩, (hinterest 7).mpr ⟨c, hc⟩⟩

/-- Then the client takes four bytes of the reply and sends again, which is one event with both flags. The call at the
end of its first handler has written the four bytes. -/
def bothFlagsResult : Option (Host (.reference .exact) × List Event) :=
  run (Host.step (ServerConfig.small 1 Nat.one_pos).toEventLoopConfig)
    (Host.start (ServerConfig.small 1 Nat.one_pos) Store.small 0)
    (blockedChoices ++ [.peer 7 (.send pingFrame), .peer 7 (.read 4),
      .server (.loop { poll := .events [.client 7 false true true] }), .server (.loop {}), .server (.loop {}),
      .server (.loop { recv := .bytes pingFrame }), .server (.loop {}), .server (.loop {}), .server (.loop {}),
      .server (.loop {}), .server (.loop { send := .wrote 4 })])

theorem bothFlagsResult_isSome : bothFlagsResult.isSome = true := by decide +kernel

theorem bothFlags_state : bothFlagsResult.map (fun r =>
    decide (r.1.system.loop.tasks = [.write 7 1, .writable 7, .events []] ∧
      (r.1.system.loop.registry.find 7 1).isSome = true) &&
      (r.1.serverStep (ServerConfig.small 1 Nat.one_pos).toEventLoopConfig (.loop {})).any fun r' =>
        decide (r'.1.system.loop.tasks = [.writable 7, .events []] ∧
          (r'.1.system.loop.registry.findCurrent 7).map (·.output.data) = some (ascii "G\r\n"))) = some true := by
  decide +kernel

theorem write_interest_blocked :
    (∃ (log : List Event) (h : Host (.reference .exact)),
      Host.Run (ServerConfig.small 1 Nat.one_pos) Store.small 0 log h ∧ h.system.loop.betweenEvents = true ∧
        h.kernel.interest.lookup 7 = some true) ∧
      ∃ (log : List Event) (h h' : Host (.reference .exact)) (evs : List Event),
        Host.Run (ServerConfig.small 1 Nat.one_pos) Store.small 0 log h ∧
          h.serverStep (ServerConfig.small 1 Nat.one_pos).toEventLoopConfig (.loop {}) = some (h', evs) ∧
          h.system.loop.FirstHandlerEnds h'.system.loop ∧ h'.kernel.interest.lookup 7 = some true := by
  refine ⟨?_, ?_⟩
  · have hrun := exec_of_isSome blockedResult_isSome
    obtain ⟨r, hr, hstate⟩ := Option.map_eq_some_iff.mp blocked_state
    obtain ⟨htasks, hfound⟩ := of_decide_eq_true hstate
    obtain ⟨c, hc, hout⟩ := Option.map_eq_some_iff.mp hfound
    simp only [show run _ _ _ = some r from hr, Option.get_some] at hrun
    have hbetween : r.1.system.loop.betweenEvents = true := by
      rw [LoopState.betweenEvents, htasks]
    refine ⟨_, _, hrun, hbetween, ((write_interest hrun).1 hbetween 7 c hc).trans ?_⟩
    rw [hout]
    decide +kernel
  · have hrun := exec_of_isSome bothFlagsResult_isSome
    obtain ⟨r, hr, hstate⟩ := Option.map_eq_some_iff.mp bothFlags_state
    obtain ⟨hbefore, hafter⟩ := Bool.and_eq_true_iff.mp hstate
    obtain ⟨htasks, hopen⟩ := of_decide_eq_true hbefore
    obtain ⟨⟨h', evs⟩, hstep, hafter⟩ := (Option.any_eq_true _ _).mp hafter
    obtain ⟨htasks', hfound⟩ := of_decide_eq_true hafter
    obtain ⟨c, hc, hout⟩ := Option.map_eq_some_iff.mp hfound
    obtain ⟨c₀, hc₀⟩ := Option.isSome_iff_exists.mp hopen
    simp only [show run _ _ _ = some r from hr, Option.get_some] at hrun
    have hends : r.1.system.loop.FirstHandlerEnds h'.system.loop :=
      ⟨7, [], [], htasks', .inl ⟨1, c₀, by rw [htasks, htasks'], hc₀⟩⟩
    refine ⟨_, _, h', evs, hrun, hstep, hends,
      ((write_interest hrun).2 {} h' evs [] h' hstep hends .refl 7 c hc).trans ?_⟩
    rw [hout]
    decide +kernel

end KvStore
