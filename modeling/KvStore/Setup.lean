import KvStore.FileDescriptor
import KvStore.Lib.ByteString
import Mathlib.Data.Finset.Basic

/-!
# The descriptors of a server that is being built

The constructors of `net::Listener` and `net::EventLoop` as programs over `FileDescriptor` objects: the sockets'
owners are members and locals, so whichever system call fails, unwinding closes what was opened. A constructor that
returns leaves the listening socket, the epoll instance and the eventfd with one member each, and the destructor
closes the three (`loop_setup_owns`).
-/

namespace KvStore
open ByteString Lifetimes Transition

structure ListenerConfig where
  bindAddress : Bytes := ascii "0.0.0.0"
  backlog : Int := 128

/-- What the system calls of the two constructors return; a flag says that the call succeeds. -/
structure SetupResults where
  socket : Int
  setsockopt : Bool
  inetPton : Bool
  bind : Bool
  listen : Bool
  epollCreate : Int
  eventfd : Int
  addListener : Bool
  addWakeup : Bool

inductive SetupError where
  | socket
  | setsockopt
  | bindAddress (address : Bytes)
  | bind
  | backlog
  | listen
  | epollCreate
  | eventfd
  | epollAdd
deriving DecidableEq, Repr

/-- The text of the exception; that of a `system_error` goes on with the meaning of `errno`. -/
def SetupError.what : SetupError → Bytes
  | .socket => ascii "Listener: socket() failed"
  | .setsockopt => ascii "Listener: setsockopt(SO_REUSEADDR) failed"
  | .bindAddress address => ascii "Listener: invalid IPv4 bind address '" ++ address ++ ascii "'"
  | .bind => ascii "Listener: bind() failed"
  | .backlog => ascii "Listener: backlog must be positive"
  | .listen => ascii "Listener: listen() failed"
  | .epollCreate => ascii "EventLoop: epoll_create1() failed"
  | .eventfd => ascii "EventLoop: eventfd() failed"
  | .epollAdd => ascii "EventLoop: epoll_ctl(ADD) failed"

/-- Where the descriptors' objects are: the members of the loop and of its listener, and the local of the
listener's constructor. -/
structure LoopMembers where
  listener : Nat
  sock : Nat
  epoll : Nat
  wakeup : Nat
  distinct : [listener, sock, epoll, wakeup].Nodup

/-- The system calls of `Listener::Listener` on its socket, up to the first one that fails. -/
def Listener.checks (config : ListenerConfig) (r : SetupResults) (sock : Nat) :
    List DescriptorOp × Option SetupError :=
  if r.socket < 0 then ([], some .socket)
  else if r.setsockopt = false then ([.use sock], some .setsockopt)
  else if r.inetPton = false then ([.use sock], some (.bindAddress config.bindAddress))
  else if r.bind = false then ([.use sock, .use sock], some .bind)
  else if config.backlog ≤ 0 then ([.use sock, .use sock], some .backlog)
  else if r.listen = false then ([.use sock, .use sock, .use sock], some .listen)
  else ([.use sock, .use sock, .use sock], none)

/-- `Listener::Listener`. An exception destroys the local and the member. -/
def Listener.construct (config : ListenerConfig) (r : SetupResults) (m : LoopMembers) :
    List DescriptorOp × Option SetupError :=
  let body := checks config r m.sock
  ([.construct m.listener (-1), .opens r.socket, .construct m.sock r.socket] ++ body.1 ++
    (if body.2.isSome then [.destroy m.sock, .destroy m.listener]
      else [.moveAssign m.listener m.sock, .destroy m.sock]), body.2)

/-- The body of `EventLoop::EventLoop`. -/
def EventLoop.checks (r : SetupResults) (m : LoopMembers) : List DescriptorOp × Option SetupError :=
  if r.epollCreate < 0 then ([], some .epollCreate)
  else if r.eventfd < 0 then ([], some .eventfd)
  else if r.addListener = false then ([.use m.epoll, .use m.listener], some .epollAdd)
  else if r.addWakeup = false then
    ([.use m.epoll, .use m.listener, .use m.epoll, .use m.wakeup], some .epollAdd)
  else ([.use m.epoll, .use m.listener, .use m.epoll, .use m.wakeup], none)

/-- The members go in the reverse order of their declaration. -/
def EventLoop.destroy (m : LoopMembers) : List DescriptorOp :=
  [.destroy m.wakeup, .destroy m.epoll, .destroy m.listener]

/-- `EventLoop::EventLoop`: both descriptors are created before the first of them is checked. -/
def EventLoop.construct (config : ListenerConfig) (r : SetupResults) (m : LoopMembers) :
    List DescriptorOp × Option SetupError :=
  let listener := Listener.construct config r m
  if listener.2.isSome then listener
  else
    let body := checks r m
    (listener.1 ++ [.opens r.epollCreate, .construct m.epoll r.epollCreate] ++
      [.opens r.eventfd, .construct m.wakeup r.eventfd] ++ body.1 ++
      (if body.2.isSome then destroy m else []), body.2)

/-- The kernel returns descriptors that are not open. -/
structure SetupResults.Fresh (r : SetupResults) (opened : Finset Int) : Prop where
  socket : 0 ≤ r.socket → r.socket ∉ opened
  epollCreate : 0 ≤ r.epollCreate → r.epollCreate ∉ opened ∧ r.epollCreate ≠ r.socket
  eventfd : 0 ≤ r.eventfd → r.eventfd ∉ opened ∧ r.eventfd ≠ r.socket ∧ r.eventfd ≠ r.epollCreate

/-! ### Scopes -/

namespace Descriptors
section
variable {s : Descriptors} {a b : Nat} {fd : Int}

/-- With one more object, which owns the new descriptor `fd` unless that is no descriptor. -/
def owning (s : Descriptors) (a : Nat) (fd : Int) : Descriptors where
  objects := Function.update s.objects a (some ⟨fd⟩)
  loose := s.loose
  opened := if 0 ≤ fd then insert fd s.opened else s.opened

/-- What the code holds is open. -/
def Sound (s : Descriptors) : Prop := ∀ fd ∈ s.loose, 0 ≤ fd ∧ fd ∈ s.opened

theorem Sound.owning (h : s.Sound) : (s.owning a fd).Sound := by
  intro x hx
  obtain ⟨hnonneg, hopened⟩ := h x hx
  refine ⟨hnonneg, ?_⟩
  unfold Descriptors.owning
  dsimp only
  split_ifs
  · exact Finset.mem_insert_of_mem hopened
  · exact hopened

theorem Sound.neg_one_notMem (h : s.Sound) : -1 ∉ s.loose := fun hmem => by
  have := (h (-1) hmem).1
  omega

theorem Sound.notMem_new (h : s.Sound) (hnew : 0 ≤ fd → fd ∉ s.opened) : fd ∉ s.loose := fun hmem =>
  hnew (h fd hmem).1 (h fd hmem).2

theorem run_construct_empty (h : s.Sound) (ha : s.objects a = none) :
    run step s [.construct a (-1)] = some (s.owning a (-1), []) := by
  have hloose := h.neg_one_notMem
  simp [run, step, ha, mayTake, constructAt, owning, Finset.erase_eq_of_notMem hloose]

theorem run_opens_construct (h : s.Sound) (ha : s.objects a = none) (hnew : 0 ≤ fd → fd ∉ s.opened) :
    ∃ evs, run step s [.opens fd, .construct a fd] = some (s.owning a fd, evs) := by
  have hloose := h.notMem_new hnew
  by_cases hnonneg : 0 ≤ fd
  · refine ⟨[.starts fd], ?_⟩
    simp [run, step, not_lt.mpr hnonneg, hnew hnonneg, ha, mayTake, constructAt, owning, hnonneg,
      Finset.erase_insert hloose]
  · refine ⟨[], ?_⟩
    simp [run, step, not_le.mp hnonneg, ha, mayTake, constructAt, owning, hnonneg,
      Finset.erase_eq_of_notMem hloose]

theorem run_destroy (h : s.Sound) (ha : s.objects a = none) (hnew : 0 ≤ fd → fd ∉ s.opened) :
    ∃ evs, run step (s.owning a fd) [.destroy a] = some (s, evs) := by
  have hloose := h.neg_one_notMem
  have hobjects : Function.update s.objects a none = s.objects := by rw [← ha, Function.update_eq_self]
  refine ⟨(FileDescriptor.reset ⟨fd⟩ (-1)).2, ?_⟩
  by_cases hnonneg : 0 ≤ fd
  · simp [run, step, owning, resetAt, removeAt, FileDescriptor.valid, hnonneg, hobjects,
      Finset.erase_eq_of_notMem hloose, Finset.erase_insert (hnew hnonneg)]
  · simp [run, step, owning, resetAt, removeAt, FileDescriptor.valid, hnonneg, hobjects,
      Finset.erase_eq_of_notMem hloose]

/-- The local's descriptor is moved into the member, and the empty local goes. -/
theorem run_moveAssign_destroy (h : s.Sound) (hb : s.objects b = none) (hne : a ≠ b)
    (hnew : 0 ≤ fd → fd ∉ s.opened) :
    run step ((s.owning a (-1)).owning b fd) [.moveAssign a b, .destroy b] = some (s.owning a fd, []) := by
  have hloose := h.neg_one_notMem
  have hfd := h.notMem_new hnew
  have hobjects : Function.update (Function.update (Function.update (Function.update s.objects a (some {})) b
      (some {})) a (some ⟨fd⟩)) b none = Function.update s.objects a (some ⟨fd⟩) := by
    rw [Function.update_comm hne.symm, Function.update_idem, Function.update_idem, Function.update_eq_self_iff,
      Function.update_of_ne hne.symm, hb]
  by_cases hnonneg : 0 ≤ fd
  · simp [run, step, owning, resetAt, releaseAt, removeAt, FileDescriptor.valid, FileDescriptor.release,
      FileDescriptor.reset, hnonneg, hne, hne.symm, hobjects, Finset.erase_eq_of_notMem hfd,
      Finset.erase_eq_of_notMem hloose]
  · simp [run, step, owning, resetAt, releaseAt, removeAt, FileDescriptor.valid, FileDescriptor.release,
      FileDescriptor.reset, hnonneg, hne, hne.symm, hobjects, Finset.erase_eq_of_notMem hfd,
      Finset.erase_eq_of_notMem hloose]

theorem run_uses {ops : List DescriptorOp} (h : ∀ op ∈ ops, ∃ a, op = .use a ∧ s.objects a ≠ none) :
    ∃ evs, run step s ops = some (s, evs) := by
  induction ops with
  | nil => exact ⟨[], rfl⟩
  | cons op ops ih =>
    obtain ⟨a, rfl, hsome⟩ := h op List.mem_cons_self
    obtain ⟨d, hd⟩ := Option.ne_none_iff_exists'.mp hsome
    obtain ⟨evs, hrun⟩ := ih fun op hop => h op (List.mem_cons_of_mem _ hop)
    exact ⟨d.use ++ evs, by simp [run, step, hd, hrun]⟩

@[simp] theorem objects_owning_self : (s.owning a fd).objects a = some ⟨fd⟩ := Function.update_self ..

theorem objects_owning_of_ne (hne : b ≠ a) : (s.owning a fd).objects b = s.objects b :=
  Function.update_of_ne hne ..

theorem objects_owning_ne_none (h : s.objects b ≠ none) : (s.owning a fd).objects b ≠ none := by
  by_cases hb : b = a
  · simp [hb]
  · rwa [objects_owning_of_ne hb]

theorem notMem_opened_owning {x : Int} (hx : x ∉ s.opened) (hne : x ≠ fd) : x ∉ (s.owning a fd).opened := by
  unfold owning
  dsimp only
  split_ifs
  · exact fun hmem => (Finset.mem_insert.mp hmem).elim hne hx
  · exact hx

end
end Descriptors

/-! ### The constructors -/

section
variable {s : Descriptors} {log : List (Life Int)} {config : ListenerConfig} {r : SetupResults} {m : LoopMembers}

theorem Listener.checks_uses : ∀ op ∈ (Listener.checks config r m.sock).1, op = .use m.sock := by
  unfold Listener.checks
  split_ifs <;> simp

theorem Listener.socket_of_checks (h : (Listener.checks config r m.sock).2 = none) : 0 ≤ r.socket := by
  unfold Listener.checks at h
  split_ifs at h with hneg
  · exact not_lt.mp hneg

theorem EventLoop.checks_uses :
    ∀ op ∈ (EventLoop.checks r m).1, ∃ a ∈ [m.listener, m.epoll, m.wakeup], op = .use a := by
  unfold EventLoop.checks
  split_ifs <;> simp

theorem EventLoop.nonneg_of_checks (h : (EventLoop.checks r m).2 = none) : 0 ≤ r.epollCreate ∧ 0 ≤ r.eventfd := by
  unfold EventLoop.checks at h
  split_ifs at h with hepoll heventfd
  · exact ⟨not_lt.mp hepoll, not_lt.mp heventfd⟩

theorem EventLoop.nonneg_of_construct (h : (EventLoop.construct config r m).2 = none) :
    0 ≤ r.socket ∧ 0 ≤ r.epollCreate ∧ 0 ≤ r.eventfd := by
  unfold EventLoop.construct at h
  cases hlistener : (Listener.construct config r m).2 with
  | none =>
    simp only [hlistener, Option.isSome_none, Bool.false_eq_true, if_false] at h
    exact ⟨Listener.socket_of_checks hlistener, nonneg_of_checks h⟩
  | some e => simp [hlistener] at h

theorem Listener.run_construct (config : ListenerConfig) (hsound : s.Sound) (hlistener : s.objects m.listener = none)
    (hsock : s.objects m.sock = none) (hne : m.listener ≠ m.sock) (hnew : 0 ≤ r.socket → r.socket ∉ s.opened) :
    ∃ evs, run Descriptors.step s (Listener.construct config r m).1 =
      some (if (Listener.construct config r m).2.isSome then s else s.owning m.listener r.socket, evs) := by
  have hmember := Descriptors.run_construct_empty hsound hlistener
  have hnew' : 0 ≤ r.socket → r.socket ∉ (s.owning m.listener (-1)).opened := fun hnonneg =>
    Descriptors.notMem_opened_owning (hnew hnonneg) (by omega)
  have hsock' : (s.owning m.listener (-1)).objects m.sock = none :=
    (Descriptors.objects_owning_of_ne hne.symm).trans hsock
  obtain ⟨evs₁, hopen⟩ := Descriptors.run_opens_construct hsound.owning hsock' hnew'
  have huses : ∀ op ∈ (Listener.checks config r m.sock).1, ∃ a, op = .use a ∧
      ((s.owning m.listener (-1)).owning m.sock r.socket).objects a ≠ none := fun op hop =>
    ⟨m.sock, checks_uses op hop, by simp⟩
  obtain ⟨evs₂, hbody⟩ := Descriptors.run_uses huses
  have hstart := run_append (run_append hmember hopen) hbody
  cases herror : (Listener.checks config r m.sock).2 with
  | none =>
    have hend := Descriptors.run_moveAssign_destroy hsound hsock hne hnew
    simp only [Listener.construct, herror, Option.isSome_none, Bool.false_eq_true, if_false]
    exact ⟨_, run_append hstart hend⟩
  | some e =>
    obtain ⟨evs₃, hend⟩ := Descriptors.run_destroy hsound.owning hsock' hnew'
    have hnone : 0 ≤ (-1 : Int) → (-1 : Int) ∉ s.opened := fun h => absurd h (by decide)
    obtain ⟨evs₄, hend'⟩ := Descriptors.run_destroy hsound hlistener hnone
    simp only [Listener.construct, herror, Option.isSome_some, if_true]
    exact ⟨_, run_append hstart (run_append hend hend')⟩

/-- The three members of a loop and what they own. -/
def Descriptors.withLoop (s : Descriptors) (r : SetupResults) (m : LoopMembers) : Descriptors :=
  ((s.owning m.listener r.socket).owning m.epoll r.epollCreate).owning m.wakeup r.eventfd

/-- The members' places are free and the kernel's descriptors new, one after the other. -/
structure Descriptors.Ready (s : Descriptors) (r : SetupResults) (m : LoopMembers) : Prop where
  sound : s.Sound
  listener : s.objects m.listener = none
  epoll : (s.owning m.listener r.socket).objects m.epoll = none
  wakeup : ((s.owning m.listener r.socket).owning m.epoll r.epollCreate).objects m.wakeup = none
  newSocket : 0 ≤ r.socket → r.socket ∉ s.opened
  newEpoll : 0 ≤ r.epollCreate → r.epollCreate ∉ (s.owning m.listener r.socket).opened
  newEventfd : 0 ≤ r.eventfd →
    r.eventfd ∉ ((s.owning m.listener r.socket).owning m.epoll r.epollCreate).opened

theorem Descriptors.Sound.ready (hsound : s.Sound)
    (hfree : ∀ a ∈ [m.listener, m.sock, m.epoll, m.wakeup], s.objects a = none) (hfresh : r.Fresh s.opened) :
    s.Ready r m := by
  have hdistinct := m.distinct
  simp only [List.nodup_cons, List.mem_cons, List.not_mem_nil, or_false, not_or] at hdistinct
  obtain ⟨⟨-, hle, hlw⟩, -, hew, -⟩ := hdistinct
  refine ⟨hsound, hfree _ (by simp), ?_, ?_, hfresh.socket, fun h => ?_, fun h => ?_⟩
  · rw [objects_owning_of_ne (Ne.symm hle)]
    exact hfree _ (by simp)
  · rw [objects_owning_of_ne (Ne.symm hew), objects_owning_of_ne (Ne.symm hlw)]
    exact hfree _ (by simp)
  · exact notMem_opened_owning (hfresh.epollCreate h).1 (hfresh.epollCreate h).2
  · obtain ⟨hopened, hsocket, hepoll⟩ := hfresh.eventfd h
    exact notMem_opened_owning (notMem_opened_owning hopened hsocket) hepoll

theorem Descriptors.Ready.run_destroy (h : s.Ready r m) :
    ∃ evs, run step (s.withLoop r m) (EventLoop.destroy m) = some (s, evs) := by
  obtain ⟨evs₁, hwakeup⟩ := Descriptors.run_destroy h.sound.owning.owning h.wakeup h.newEventfd
  obtain ⟨evs₂, hepoll⟩ := Descriptors.run_destroy h.sound.owning h.epoll h.newEpoll
  obtain ⟨evs₃, hlistener⟩ := Descriptors.run_destroy h.sound h.listener h.newSocket
  exact ⟨_, run_append hwakeup (run_append hepoll hlistener)⟩

theorem EventLoop.run_construct (config : ListenerConfig) (h : s.Ready r m) (hsock : s.objects m.sock = none)
    (hne : m.listener ≠ m.sock) : ∃ evs, run Descriptors.step s (EventLoop.construct config r m).1 =
      some (if (EventLoop.construct config r m).2.isSome then s else s.withLoop r m, evs) := by
  obtain ⟨evs₁, hlistener⟩ := Listener.run_construct config h.sound h.listener hsock hne h.newSocket
  cases hmade : (Listener.construct config r m).2.isSome with
  | true =>
    simp only [EventLoop.construct, hmade, if_true] at hlistener ⊢
    exact ⟨evs₁, hlistener⟩
  | false =>
    simp only [hmade, Bool.false_eq_true, if_false] at hlistener
    obtain ⟨evs₂, hepoll⟩ := Descriptors.run_opens_construct h.sound.owning h.epoll h.newEpoll
    obtain ⟨evs₃, hwakeup⟩ := Descriptors.run_opens_construct h.sound.owning.owning h.wakeup h.newEventfd
    have hexist : ∀ a ∈ [m.listener, m.epoll, m.wakeup], (s.withLoop r m).objects a ≠ none := by
      simp only [List.forall_mem_cons, List.not_mem_nil, false_implies, implies_true, and_true]
      refine ⟨?_, ?_, by simp [Descriptors.withLoop]⟩
      · exact Descriptors.objects_owning_ne_none (Descriptors.objects_owning_ne_none (by simp))
      · exact Descriptors.objects_owning_ne_none (by simp)
    have huses : ∀ op ∈ (EventLoop.checks r m).1, ∃ a, op = .use a ∧ (s.withLoop r m).objects a ≠ none := by
      intro op hop
      obtain ⟨a, ha, rfl⟩ := checks_uses op hop
      exact ⟨a, rfl, hexist a ha⟩
    obtain ⟨evs₄, hbody⟩ := Descriptors.run_uses huses
    have hstart := run_append (run_append (run_append hlistener hepoll) hwakeup) hbody
    cases herror : (EventLoop.checks r m).2 with
    | none =>
      simp only [EventLoop.construct, hmade, herror, Bool.false_eq_true, if_false, Option.isSome_none,
        List.append_nil]
      exact ⟨_, hstart⟩
    | some e =>
      obtain ⟨evs₅, hend⟩ := h.run_destroy
      simp only [EventLoop.construct, hmade, herror, Bool.false_eq_true, if_false, Option.isSome_some, if_true]
      exact ⟨_, run_append hstart hend⟩

theorem Descriptors.Run.sound (h : Descriptors.Run log s) : s.Sound := by
  obtain ⟨who, -, hkeeps⟩ := h.keeps
  intro fd hfd
  have hopened := (hkeeps.opened fd).mpr (Ownership.mem_held ((hkeeps.holds .code fd).mpr hfd))
  exact ⟨hkeeps.nonneg fd hopened, hopened⟩

/-- Building an event loop: the constructors' operations are possible whatever the system calls return. If one
throws, everything is as before; otherwise the three new descriptors are open and belong to one member each, and
the destructor brings everything back. -/
theorem loop_setup_owns (config : ListenerConfig) (r : SetupResults) (m : LoopMembers)
    (hrun : Descriptors.Run log s) (hfresh : r.Fresh s.opened)
    (hfree : ∀ a ∈ [m.listener, m.sock, m.epoll, m.wakeup], s.objects a = none) :
    ∃ s' evs, run Descriptors.step s (EventLoop.construct config r m).1 = some (s', evs) ∧
      Descriptors.Run (log ++ evs) s' ∧
      ((EventLoop.construct config r m).2 ≠ none → s' = s) ∧
      ((EventLoop.construct config r m).2 = none →
        s'.opened = insert r.eventfd (insert r.epollCreate (insert r.socket s.opened)) ∧ s'.loose = s.loose ∧
        s'.Holds (.object m.listener) r.socket ∧ s'.Holds (.object m.epoll) r.epollCreate ∧
        s'.Holds (.object m.wakeup) r.eventfd ∧
        ∃ evs', run Descriptors.step s' (EventLoop.destroy m) = some (s, evs')) := by
  have hready := hrun.sound.ready hfree hfresh
  have hdistinct := m.distinct
  simp only [List.nodup_cons, List.mem_cons, List.not_mem_nil, or_false, not_or] at hdistinct
  obtain ⟨⟨hls, hle, hlw⟩, -, hew, -⟩ := hdistinct
  obtain ⟨evs, hmade⟩ := EventLoop.run_construct config hready (hfree _ (by simp)) hls
  refine ⟨_, evs, hmade, hrun.trans (exec_of_run hmade), fun herror => ?_, fun hok => ?_⟩
  · rw [if_pos (Option.isSome_iff_ne_none.mpr herror)]
  · obtain ⟨hsocket, hepoll, heventfd⟩ := EventLoop.nonneg_of_construct hok
    simp only [hok, Option.isSome_none, Bool.false_eq_true, if_false]
    refine ⟨?_, rfl, ⟨hsocket, ?_⟩, ⟨hepoll, ?_⟩, ⟨heventfd, ?_⟩, hready.run_destroy⟩
    · simp [Descriptors.withLoop, Descriptors.owning, hsocket, hepoll, heventfd]
    · rw [Descriptors.withLoop, Descriptors.objects_owning_of_ne hlw, Descriptors.objects_owning_of_ne hle]
      exact Descriptors.objects_owning_self
    · rw [Descriptors.withLoop, Descriptors.objects_owning_of_ne hew]
      exact Descriptors.objects_owning_self
    · exact Descriptors.objects_owning_self

end

/-- The eventfd cannot be created; the socket and the epoll instance are closed again. -/
def noEventfd : SetupResults := ⟨3, true, true, true, true, 4, -1, true, true⟩

theorem nodup_firstPlaces : [0, 1, 2, 3].Nodup := by decide

def firstPlaces : LoopMembers := ⟨0, 1, 2, 3, nodup_firstPlaces⟩

theorem loop_setup_owns_noEventfd : ∃ evs,
    run Descriptors.step {} (EventLoop.construct {} noEventfd firstPlaces).1 = some ({}, evs) := by
  have hfresh : noEventfd.Fresh ∅ := by
    refine ⟨fun _ => by simp, fun _ => by simp [noEventfd], fun h => ?_⟩
    exact absurd h (by decide)
  have hstart : Descriptors.Run [] {} := .refl
  obtain ⟨s', evs, hmade, -, herror, -⟩ := loop_setup_owns {} noEventfd firstPlaces hstart hfresh fun a _ => rfl
  rw [herror (by decide)] at hmade
  exact ⟨evs, hmade⟩

end KvStore
