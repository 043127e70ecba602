import KvStore.Process

/-!
# No thread outlives what it uses

A thread runs only while the object that owns it exists, because the object's destructor joins it, and what it
uses was declared before that object. `LifeInv` says so of every state, phase by phase of the main thread, and
`main_lifetimes` of every run: each use of an object stands between its constructor and its destructor.
-/

namespace KvStore
open ByteString Transition Lifetimes

section
variable {P : Platform} {cfg : ServerConfig} {s s' : Process P} {evs : List ProcessEvent}

/-- How many objects of the block exist. -/
def Process.depth (s : Process P) : Nat := s.innermost.elim 0 ServerObject.depth

theorem Process.depth_eq {o : ServerObject} (h : s.innermost = some o) : s.depth = o.depth := by
  rw [Process.depth, h]; rfl

/-- The objects that can be innermost in a phase of the main thread. -/
def MainPhase.Fits : MainPhase → Option ServerObject → Prop
  | .building, o => o.elim 0 ServerObject.depth ≤ 5
  | .spawning, o | .announcing, o | .startingSignalThread, o | .joiningPool _ _, o => o = some .pool
  | .running, o | .joiningSignalThread, o | .terminated, o => o = some .signalThread
  | .joiningSweeper _, o => o = some .sweeper
  | .unwinding _, _ => True
  | .returned _, o => o = none

theorem MainPhase.Fits.move (h : s.phase.Fits s.innermost) (hmove : ProcessMove cfg s evs s') :
    s'.phase.Fits s'.innermost := by
  cases hmove with
  | announce hphase hnext =>
    rw [hphase] at h
    rcases hnext with rfl | rfl
    · exact h
    · trivial
  | buildStore hphase | buildSweeper hphase | buildWorkQueue hphase | buildCompletionQueue hphase
  | buildLoop hphase => rw [hphase]; simp [Fits, ServerObject.depth]
  | spawnThrows hphase | spawned hphase | joinWorker hphase | loopReturns hphase => rw [hphase] at h; exact h
  | joinSignalThread | throws | loopThrows | endPool | endSweeper => trivial
  | buildPool | startSignalThread => rfl
  | endSignalThread hphase | endLoop hphase | endCompletionQueue hphase | endWorkQueue hphase | endStore hphase =>
    rw [hphase]; trivial
  | terminate _ hin | closePool _ hin | stopSweeper _ hin | returns _ hin => exact hin
  | _ => exact h

def SweeperPhase.running : SweeperPhase → Bool
  | .absent | .exited => false
  | _ => true

def SignalPhase.running : SignalPhase → Bool
  | .absent | .exited => false
  | _ => true

/-- A thread that still runs belongs to an object that still exists. -/
structure LifeInv (s : Process P) : Prop where
  fits : s.phase.Fits s.innermost
  workers : ∀ w ∈ s.server.workers, w.phase ≠ .exited → ServerObject.depth .pool ≤ s.depth
  /-- The threads of the pool that were joined have left. -/
  joined : ∀ failed next, s.phase = .joiningPool failed next → ∀ i < next, ∀ w, s.server.workers[i]? = some w →
    w.phase = .exited
  sweeper : s.sweeper.running = true → ServerObject.depth .sweeper ≤ s.depth
  signal : s.signal.running = true → s.innermost = some .signalThread ∧ s.phase ≠ .unwinding false

theorem LifeInv.start (cfg : ServerConfig) (store : Store P) (clock : Int) :
    LifeInv (Process.start cfg store clock) where
  fits := Nat.zero_le 5
  workers _ hw := by cases hw
  joined _ _ h := by cases h
  sweeper h := by cases h
  signal h := by cases h

theorem WorkerMove.workers_eq {t t' : System P} {i : Nat} {w : Worker} {evs : List Event}
    (h : WorkerMove t i w evs t') : w.phase ≠ .exited ∧ ∃ w', t'.workers = t.workers.set i w' := by
  cases h with
  | pop hph | leave hph | dispatch hph | push _ hph | drop hph | notify hph =>
    exact ⟨by rw [hph]; simp, _, rfl⟩

theorem LifeInv.signal_move (h : LifeInv s) (hmove : ProcessMove cfg s evs s') (hrun : s'.signal.running = true) :
    s'.innermost = some .signalThread ∧ s'.phase ≠ .unwinding false := by
  have hfits := h.fits
  cases hmove with
  | startSignalThread => exact ⟨rfl, by simp⟩
  | stop => cases hrun
  | joinSignalThread _ hexited =>
    rw [hexited] at hrun; cases hrun
  | signalled hwaiting => exact h.signal (by rw [hwaiting]; rfl)
  | announce _ hnext =>
    refine ⟨(h.signal hrun).1, ?_⟩
    rcases hnext with rfl | rfl <;> simp
  | endPool hphase | endSweeper hphase =>
    rw [hphase] at hfits
    cases hfits.symm.trans (h.signal hrun).1
  | endSignalThread hphase => exact absurd hphase (h.signal hrun).2
  | buildStore _ hin | buildSweeper _ hin | buildWorkQueue _ hin | buildCompletionQueue _ hin | buildLoop _ hin
  | buildPool _ hin | endLoop _ hin | endCompletionQueue _ hin | endWorkQueue _ hin | endStore _ hin =>
    cases hin.symm.trans (h.signal hrun).1
  | throws | spawnThrows | spawned | loopReturns | loopThrows | terminate | closePool | joinWorker | stopSweeper
  | returns => exact ⟨(h.signal hrun).1, by simp⟩
  | _ => exact h.signal hrun

theorem LifeInv.sweeper_move (h : LifeInv s) (hmove : ProcessMove cfg s evs s') (hrun : s'.sweeper.running = true) :
    ServerObject.depth .sweeper ≤ s'.depth := by
  cases hmove with
  | check hph | sweep hph | awake hph => exact h.sweeper (by rw [hph]; rfl)
  | endSweeper _ hexited => rw [hexited] at hrun; cases hrun
  | buildStore _ hin =>
    have hle := h.sweeper hrun
    rw [Process.depth, hin] at hle; exact absurd hle (by decide)
  | endStore _ hin =>
    have hle := h.sweeper hrun
    rw [Process.depth_eq hin] at hle; exact absurd hle (by decide)
  | buildSweeper | buildWorkQueue | buildCompletionQueue | buildLoop | buildPool | startSignalThread
  | endSignalThread | endPool | endLoop | endCompletionQueue | endWorkQueue =>
    simp [Process.depth, ServerObject.depth]
  | _ => exact h.sweeper hrun

theorem LifeInv.workers_move (h : LifeInv s) (hmove : ProcessMove cfg s evs s') :
    ∀ w ∈ s'.server.workers, w.phase ≠ .exited → ServerObject.depth .pool ≤ s'.depth := by
  intro w' hw' hrun
  have hfits := h.fits
  have hnot : s.depth < ServerObject.depth .pool → w' ∈ s.server.workers → False := fun hlt hmem =>
    absurd (h.workers w' hmem hrun) (Nat.not_le_of_lt hlt)
  cases hmove with
  | buildStore _ hin => exact (hnot (by rw [Process.depth, hin]; decide) hw').elim
  | buildSweeper _ hin | buildWorkQueue _ hin | buildCompletionQueue _ hin | buildLoop _ hin | endLoop _ hin
  | endCompletionQueue _ hin | endWorkQueue _ hin | endStore _ hin =>
    exact (hnot (by rw [Process.depth_eq hin]; decide) hw').elim
  | endSweeper hphase =>
    rw [hphase] at hfits
    exact (hnot (by rw [Process.depth_eq hfits]; decide) hw').elim
  | buildPool | startSignalThread | endSignalThread => simp [Process.depth, ServerObject.depth]
  | spawn hphase =>
    rw [hphase] at hfits
    exact (Process.depth_eq hfits).ge
  | requestStop hphase =>
    rw [hphase] at hfits
    exact (Process.depth_eq hfits).ge
  -- every thread before `next` was joined, and there is none from `next` on
  | @endPool failed next hphase hnone =>
    obtain ⟨i, hi, rfl⟩ := List.mem_iff_getElem.mp hw'
    have hlt : i < next := Nat.lt_of_lt_of_le hi (List.getElem?_eq_none_iff.mp hnone)
    exact absurd (h.joined failed next hphase i hlt _ (List.getElem?_eq_getElem hi)) hrun
  | worker hw hstep =>
    obtain ⟨hactive, w'', hset⟩ := hstep.workers_eq
    exact h.workers _ (List.mem_of_getElem? hw) hactive
  | _ => exact h.workers w' hw' hrun

theorem LifeInv.joined_move (h : LifeInv s) (hmove : ProcessMove cfg s evs s') {failed : Bool} {next i : Nat}
    (hphase' : s'.phase = .joiningPool failed next) (hi : i < next) {w' : Worker}
    (hw' : s'.server.workers[i]? = some w') : w'.phase = .exited := by
  have hold : s.phase = .joiningPool failed next → ∀ w, s.server.workers[i]? = some w → w.phase = .exited :=
    fun hphase => h.joined failed next hphase i hi
  cases hmove with
  | spawnThrows => cases hphase'; exact absurd hi (Nat.not_lt_zero i)
  | closePool => cases hphase'; exact absurd hi (Nat.not_lt_zero i)
  | @joinWorker failed' next' w hphase hw hexited =>
    cases hphase'
    rcases Nat.lt_succ_iff_lt_or_eq.mp hi with hlt | rfl
    · exact h.joined failed next' hphase i hlt w' hw'
    · cases hw.symm.trans hw'; exact hexited
  | spawn hphase => cases hphase.symm.trans hphase'
  | @requestStop _ _ w hphase hw =>
    cases hphase.symm.trans hphase'
    rw [Process.setWorkers, List.getElem?_set_ne (Nat.ne_of_gt hi)] at hw'
    exact hold hphase w' hw'
  | @worker j w _ _ hw hstep =>
    obtain ⟨hactive, w'', hset⟩ := hstep.workers_eq
    rw [hset] at hw'
    by_cases hij : j = i
    · exact absurd (hold hphase' w (hij ▸ hw)) hactive
    · rw [List.getElem?_set_ne hij] at hw'
      exact hold hphase' w' hw'
  | announce _ hnext => rcases hnext with rfl | rfl <;> cases hphase'
  | throws | buildPool | spawned | startSignalThread | loopReturns | loopThrows | joinSignalThread | terminate
  | endPool | stopSweeper | endSweeper | returns => cases hphase'
  | _ => exact hold hphase' w' hw'

theorem LifeInv.move (h : LifeInv s) (hmove : ProcessMove cfg s evs s') : LifeInv s' where
  fits := h.fits.move hmove
  workers := h.workers_move hmove
  joined _ _ hphase _ hi _ hw := h.joined_move hmove hphase hi hw
  sweeper := h.sweeper_move hmove
  signal := h.signal_move hmove

/-! ### The log -/

def ProcessEvent.life? : ProcessEvent → Option (Life ServerObject)
  | .life e => some e
  | _ => none

/-- The part of the log that is about the objects. -/
def lives (log : List ProcessEvent) : List (Life ServerObject) := log.filterMap ProcessEvent.life?

def Process.live (s : Process P) : Set ServerObject := { o | o.depth ≤ s.depth }

theorem lives_append (log log' : List ProcessEvent) : lives (log ++ log') = lives log ++ lives log' :=
  List.filterMap_append

theorem lives_server (evs : List Event) : lives (evs.map .server) = [] := by
  rw [lives, List.filterMap_map]
  exact List.filterMap_eq_nil_iff.mpr fun _ _ => rfl

theorem lives_used (objects : List ServerObject) : lives (ServerObject.used objects) = objects.map .uses := by
  rw [lives, ServerObject.used, List.filterMap_map]
  exact congrFun List.filterMap_eq_map objects

theorem ServerObject.depth_injective {o o' : ServerObject} (h : o.depth = o'.depth) : o = o' := by
  cases o <;> cases o' <;> first | rfl | cases h

/-- The log of one step is right for the objects that exist, and leaves those that exist after it. -/
def Process.Follows (s : Process P) (log : List (Life ServerObject)) (s' : Process P) : Prop :=
  Proper s.live log ∧ liveAfter s.live log = s'.live

theorem Process.Follows.uses (objects : List ServerObject) {log : List (Life ServerObject)}
    (hlive : ∀ o ∈ objects, o.depth ≤ s.depth) (h : s.Follows log s') : s.Follows (objects.map .uses ++ log) s' := by
  refine ⟨proper_append.mpr ⟨proper_uses.mpr hlive, ?_⟩, ?_⟩
  · rw [liveAfter_uses]; exact h.1
  · rw [liveAfter_append, liveAfter_uses]; exact h.2

theorem Process.Follows.same (h : s'.depth = s.depth) : s.Follows [] s' := by
  refine ⟨trivial, ?_⟩
  rw [liveAfter_nil, live, live, h]

theorem Process.Follows.starts {o : ServerObject} (hdepth : o.depth = s.depth + 1) (hdepth' : s'.depth = o.depth) :
    s.Follows [.starts o] s' := by
  refine ⟨⟨fun hmem : o.depth ≤ s.depth => by omega, trivial⟩, ?_⟩
  ext o'
  have heq : o' = o ↔ o'.depth = o.depth := ⟨congrArg _, ServerObject.depth_injective⟩
  show o' = o ∨ o'.depth ≤ s.depth ↔ o'.depth ≤ s'.depth
  rw [heq]; omega

theorem Process.Follows.ends {o : ServerObject} (hdepth : s.depth = o.depth) (hdepth' : s'.depth + 1 = o.depth) :
    s.Follows [.ends o] s' := by
  refine ⟨⟨hdepth.ge, trivial⟩, ?_⟩
  ext o'
  have heq : o' = o ↔ o'.depth = o.depth := ⟨congrArg _, ServerObject.depth_injective⟩
  show o'.depth ≤ s.depth ∧ ¬ o' = o ↔ o'.depth ≤ s'.depth
  rw [heq]; omega

/-- What a worker uses next was declared before the pool. -/
theorem WorkerPhase.depth_uses_le {phase : WorkerPhase} : ∀ o ∈ phase.uses, o.depth ≤ ServerObject.depth .pool := by
  cases phase <;> simp [WorkerPhase.uses, ServerObject.depth]

theorem LifeInv.follows (h : LifeInv s) (hmove : ProcessMove cfg s evs s') : s.Follows (lives evs) s' := by
  have hfits := h.fits
  have hloop : s.phase = .running → ∀ o ∈ [ServerObject.loop, .workQueue, .completionQueue], o.depth ≤ s.depth := by
    intro hphase
    rw [hphase] at hfits
    rw [Process.depth_eq hfits]; decide
  cases hmove with
  | buildStore _ hin => exact .starts (by rw [Process.depth, hin]; rfl) rfl
  | buildSweeper _ hin | buildWorkQueue _ hin | buildCompletionQueue _ hin | buildPool _ hin =>
    exact .starts (by rw [Process.depth_eq hin]; rfl) rfl
  | buildLoop _ hin =>
    refine Process.Follows.uses [.completionQueue] ?_ (.starts (by rw [Process.depth_eq hin]; rfl) rfl)
    rw [Process.depth_eq hin]; decide
  | startSignalThread hphase =>
    rw [hphase] at hfits
    exact .starts (by rw [Process.depth_eq hfits]; rfl) rfl
  | announce hphase =>
    rw [hphase] at hfits
    refine Process.Follows.uses [.loop] ?_ (.same rfl)
    rw [Process.depth_eq hfits]; decide
  | loop hphase | loopReturns hphase | loopThrows hphase =>
    simp only [lives_append, lives_used, lives_server]
    exact .uses _ (hloop hphase) (.same rfl)
  | endSignalThread _ hin | endCompletionQueue _ hin | endWorkQueue _ hin | endStore _ hin =>
    exact .ends (Process.depth_eq hin) rfl
  | endLoop _ hin =>
    refine Process.Follows.uses [.completionQueue] ?_ (.ends (Process.depth_eq hin) rfl)
    rw [Process.depth_eq hin]; decide
  | endPool hphase | endSweeper hphase =>
    rw [hphase] at hfits
    exact .ends (Process.depth_eq hfits) rfl
  | closePool _ hin =>
    refine Process.Follows.uses [.workQueue] ?_ (.same rfl)
    rw [Process.depth_eq hin]; decide
  | worker hw hstep =>
    rw [lives_append, lives_used, lives_server]
    have hpool := h.workers _ (List.mem_of_getElem? hw) hstep.workers_eq.1
    exact .uses _ (fun o ho => (WorkerPhase.depth_uses_le o ho).trans hpool) (.same rfl)
  | sweep hph =>
    have hsweeper := h.sweeper (by rw [hph]; rfl)
    rw [lives_used, ← List.append_nil (List.map _ _)]
    refine .uses _ ?_ (.same rfl)
    simp only [ServerObject.depth] at hsweeper
    simp [ServerObject.depth]; omega
  | stop hph =>
    rw [lives_used, ← List.append_nil (List.map _ _)]
    refine .uses _ ?_ (.same rfl)
    rw [Process.depth_eq (h.signal (by rw [hph]; rfl)).1]; decide
  | _ => exact .same rfl

/-- The invariant, and that the log so far is right and has led to the objects that exist. -/
structure LogInv (log : List ProcessEvent) (s : Process P) : Prop where
  life : LifeInv s
  proper : Proper ∅ (lives log)
  live : liveAfter ∅ (lives log) = s.live

theorem LogInv.start (cfg : ServerConfig) (store : Store P) (clock : Int) :
    LogInv [] (Process.start cfg store clock) := by
  refine ⟨.start cfg store clock, trivial, (Set.eq_empty_of_forall_notMem fun o => ?_).symm⟩
  show ¬ o.depth ≤ 0
  cases o <;> simp [ServerObject.depth]

theorem LogInv.move {log : List ProcessEvent} (h : LogInv log s) (hmove : ProcessMove cfg s evs s') :
    LogInv (log ++ evs) s' := by
  obtain ⟨hproper, hlive⟩ := h.life.follows hmove
  refine ⟨h.life.move hmove, ?_, ?_⟩
  · rw [lives_append, proper_append, h.live]; exact ⟨h.proper, hproper⟩
  · rw [lives_append, liveAfter_append, h.live]; exact hlive

variable {store : Store P} {clock : Int} {log : List ProcessEvent}

theorem Process.Run.logInv (h : Process.Run cfg store clock log s) : LogInv log s := by
  have hstep : ∀ (log evs : List ProcessEvent) (s s' : Process P), LogInv log s → Step (Process.step cfg) s evs s' →
      LogInv (log ++ evs) s' := fun _ _ _ _ h ⟨_, hs⟩ => h.move (processMove_of_step hs).2
  exact Exec.invariant (.start cfg store clock) hstep h

/-- Every object of the block is used only between its constructor and its destructor, by whatever thread and
however the block is left; and when `main` has returned, no object and no thread is left. -/
theorem main_lifetimes (hrun : Process.Run cfg store clock log s) :
    Proper ∅ (lives log) ∧
      ∀ code, s.phase = .returned code →
        liveAfter ∅ (lives log) = ∅ ∧ (∀ w ∈ s.server.workers, w.phase = .exited) ∧
          s.sweeper.running = false ∧ s.signal.running = false := by
  have hinv := hrun.logInv
  refine ⟨hinv.proper, fun code hphase => ?_⟩
  have hin : s.innermost = none := by
    have hfits := hinv.life.fits
    rwa [hphase] at hfits
  have hdepth : s.depth = 0 := by rw [Process.depth, hin]; rfl
  refine ⟨?_, fun w hw => ?_, ?_, ?_⟩
  · rw [hinv.live]
    refine Set.eq_empty_of_forall_notMem fun o (ho : o.depth ≤ s.depth) => ?_
    rw [hdepth] at ho
    cases o <;> simp [ServerObject.depth] at ho
  · by_contra hactive
    have hle := hinv.life.workers w hw hactive
    rw [hdepth] at hle; exact absurd hle (by decide)
  · by_contra hrunning
    have hle := hinv.life.sweeper (Bool.eq_true_of_not_eq_false hrunning)
    rw [hdepth] at hle; exact absurd hle (by decide)
  · by_contra hrunning
    cases hin.symm.trans (hinv.life.signal (Bool.eq_true_of_not_eq_false hrunning)).1

theorem main_lifetimes_stopped : Proper ∅ (lives stoppedLog) ∧ liveAfter ∅ (lives stoppedLog) = ∅ :=
  ⟨(main_lifetimes run_stopped).1, ((main_lifetimes run_stopped).2 0 phase_stopped).1⟩

end
end KvStore
