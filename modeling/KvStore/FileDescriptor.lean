import KvStore.Lib.Ownership
import Mathlib.Data.Finset.Insert
import Mathlib.Data.Finset.Erase

/-!
# Who closes a descriptor

`net/file_descriptor.cpp`: the class that owns a descriptor, in a program that creates, moves, resets, releases and
destroys its objects in any order. What `release` returns, and what the system calls return, is in the hands of the
code until it is put into an object or closed (`Descriptors.loose`). Such a program is a game of passing things on
(`Ownership`): each open descriptor has one holder, it is closed once and never used after that
(`descriptor_owners`). The constructors of `Listener` and `EventLoop` play it on every path, whichever system
call fails (`loop_setup_owns`).
-/

namespace KvStore
open Lifetimes Transition Ownership

structure FileDescriptor where
  fd : Int := -1
deriving DecidableEq, Repr

namespace FileDescriptor

def valid (d : FileDescriptor) : Bool := 0 ≤ d.fd

/-- The object afterwards, and the `::close` it calls. -/
def reset (d : FileDescriptor) (newFd : Int) : FileDescriptor × List (Life Int) :=
  (⟨newFd⟩, if d.valid then [.ends d.fd] else [])

def release (d : FileDescriptor) : FileDescriptor × Int := (⟨-1⟩, d.fd)

/-- A system call on `get()`; on -1 it fails without touching anything. -/
def use (d : FileDescriptor) : List (Life Int) := if d.valid then [.uses d.fd] else []

end FileDescriptor

structure Descriptors where
  /-- The objects of the class, by address. -/
  objects : Nat → Option FileDescriptor := fun _ => none
  /-- The open descriptors that the code holds as a plain `int` and has to close. -/
  loose : Finset Int := ∅
  /-- The descriptor table of the process. -/
  opened : Finset Int := ∅

inductive DescriptorOp where
  /-- `socket`, `accept4`, `epoll_create1` or `eventfd` returns. -/
  | opens (fd : Int)
  | construct (a : Nat) (fd : Int)
  | moveConstruct (a b : Nat)
  | moveAssign (a b : Nat)
  | reset (a : Nat) (fd : Int)
  | release (a : Nat)
  | use (a : Nat)
  | destroy (a : Nat)
  /-- A system call on a plain `int`, and `::close` of one. -/
  | useLoose (fd : Int)
  | closeLoose (fd : Int)
deriving DecidableEq, Repr

namespace Descriptors

/-- The code may hand over what it holds, or a result that is no descriptor. -/
def mayTake (s : Descriptors) (fd : Int) : Bool := fd < 0 || fd ∈ s.loose

def constructAt (s : Descriptors) (a : Nat) (fd : Int) : Descriptors :=
  { s with objects := Function.update s.objects a (some ⟨fd⟩), loose := s.loose.erase fd }

def releaseAt (s : Descriptors) (a : Nat) (d : FileDescriptor) : Descriptors :=
  { s with
    objects := Function.update s.objects a (some d.release.1)
    loose := if d.valid then insert d.release.2 s.loose else s.loose }

def resetAt (s : Descriptors) (a : Nat) (d : FileDescriptor) (newFd : Int) : Descriptors where
  objects := Function.update s.objects a (some (d.reset newFd).1)
  loose := s.loose.erase newFd
  opened := if d.valid then s.opened.erase d.fd else s.opened

def removeAt (s : Descriptors) (a : Nat) : Descriptors := { s with objects := Function.update s.objects a none }

def step (s : Descriptors) : DescriptorOp → Option (Descriptors × List (Life Int))
  | .opens fd =>
    if fd < 0 then some (s, [])
    else if fd ∈ s.opened then none
    else some ({ s with loose := insert fd s.loose, opened := insert fd s.opened }, [.starts fd])
  | .construct a fd => if (s.objects a).isNone && s.mayTake fd then some (s.constructAt a fd, []) else none
  | .moveConstruct a b =>
    match s.objects a, s.objects b with
    | none, some d => some ((s.releaseAt b d).constructAt a d.release.2, [])
    | _, _ => none
  | .moveAssign a b =>
    match s.objects a, s.objects b with
    | some d, some e =>
      if a = b then some (s, []) else some ((s.releaseAt b e).resetAt a d e.release.2, (d.reset e.release.2).2)
    | _, _ => none
  | .reset a fd =>
    match s.objects a with
    | some d => if s.mayTake fd then some (s.resetAt a d fd, (d.reset fd).2) else none
    | none => none
  | .release a => (s.objects a).map fun d => (s.releaseAt a d, [])
  | .use a => (s.objects a).map fun d => (s, d.use)
  | .destroy a => (s.objects a).map fun d => ((s.resetAt a d (-1)).removeAt a, (d.reset (-1)).2)
  | .useLoose fd => if fd ∈ s.loose then some (s, [.uses fd]) else none
  | .closeLoose fd =>
    if fd ∈ s.loose then
      some ({ s with loose := s.loose.erase fd, opened := s.opened.erase fd }, [.ends fd])
    else none

def Run (log : List (Life Int)) (s : Descriptors) : Prop := Exec (Step Descriptors.step) {} log s

end Descriptors

/-! ### One holder each -/

inductive Holder where
  | code
  | object (a : Nat)
deriving DecidableEq, Repr

def Descriptors.Holds (s : Descriptors) : Holder → Int → Prop
  | .code, fd => fd ∈ s.loose
  | .object a, fd => 0 ≤ fd ∧ s.objects a = some ⟨fd⟩

/-- The objects and the code hold what the custody says. -/
structure Descriptors.Keeps (s : Descriptors) (who : Custody Holder Int) : Prop where
  holds : ∀ h fd, who fd = some h ↔ s.Holds h fd
  opened : ∀ fd, fd ∈ s.opened ↔ fd ∈ who.held
  nonneg : ∀ fd ∈ s.opened, 0 ≤ fd

section
variable {s s' : Descriptors} {who : Custody Holder Int} {a : Nat} {d : FileDescriptor} {fd : Int}
  {evs log : List (Life Int)}

namespace Descriptors

theorem Keeps.same (hkeeps : s.Keeps who) (hholds : ∀ h fd, s'.Holds h fd ↔ s.Holds h fd)
    (hopened : s'.opened = s.opened) : s'.Keeps who where
  holds h fd := (hkeeps.holds h fd).trans (hholds h fd).symm
  opened fd := by rw [hopened]; exact hkeeps.opened fd
  nonneg fd hfd := hkeeps.nonneg fd (hopened ▸ hfd)

theorem Keeps.pass (hkeeps : s.Keeps who) {h : Holder} (h' : Holder) (hold : s.Holds h fd)
    (hholds : ∀ k x, s'.Holds k x ↔ if x = fd then k = h' else s.Holds k x) (hopened : s'.opened = s.opened) :
    Exec Change who [] (Function.update who fd (some h')) ∧ s'.Keeps (Function.update who fd (some h')) := by
  have hwho := (hkeeps.holds h fd).mpr hold
  refine ⟨.single (.pass h' hwho), fun k x => ?_, fun x => ?_, fun x hx => hkeeps.nonneg x (hopened ▸ hx)⟩
  · rw [hholds k x]
    by_cases hx : x = fd
    · rw [hx, Function.update_self, if_pos rfl]
      exact ⟨fun heq => (Option.some.inj heq).symm, fun heq => heq ▸ rfl⟩
    · rw [Function.update_of_ne hx, if_neg hx]
      exact hkeeps.holds k x
  · rw [hopened, hkeeps.opened, held_update_some, Set.insert_eq_of_mem (mem_held hwho)]

theorem Keeps.drop (hkeeps : s.Keeps who) {h : Holder} (hold : s.Holds h fd)
    (hholds : ∀ k x, s'.Holds k x ↔ x ≠ fd ∧ s.Holds k x) (hopened : s'.opened = s.opened.erase fd) :
    Exec Change who [.ends fd] (Function.update who fd none) ∧ s'.Keeps (Function.update who fd none) := by
  refine ⟨.single (.drop ((hkeeps.holds h fd).mpr hold)), fun k x => ?_, fun x => ?_, fun x hx => ?_⟩
  · rw [hholds k x]
    by_cases hx : x = fd
    · rw [hx, Function.update_self]
      exact ⟨fun heq => (Option.some_ne_none k heq.symm).elim, fun hne => (hne.1 rfl).elim⟩
    · rw [Function.update_of_ne hx, and_iff_right hx]
      exact hkeeps.holds k x
  · rw [hopened, held_update_none, Finset.mem_erase, hkeeps.opened, Set.mem_sdiff, Set.mem_singleton_iff, and_comm]
  · rw [hopened] at hx
    exact hkeeps.nonneg x (Finset.mem_of_mem_erase hx)

theorem Keeps.unique (hkeeps : s.Keeps who) {h h' : Holder} (hh : s.Holds h fd) (hh' : s.Holds h' fd) : h' = h := by
  have heq := (hkeeps.holds h fd).mpr hh
  rw [(hkeeps.holds h' fd).mpr hh'] at heq
  exact Option.some.inj heq

theorem Keeps.nonneg_of_holds (hkeeps : s.Keeps who) (h : Holder) (x : Int) (hx : s.Holds h x) : 0 ≤ x :=
  hkeeps.nonneg x ((hkeeps.opened x).mpr (mem_held ((hkeeps.holds h x).mpr hx)))

theorem holds_removeAt {h : Holder} : (s.removeAt a).Holds h fd ↔ h ≠ .object a ∧ s.Holds h fd := by
  cases h with
  | code => simp [Holds, removeAt]
  | object b =>
    by_cases hb : b = a
    · simp [Holds, removeAt, hb]
    · simp [Holds, removeAt, hb]

theorem holds_releaseAt {h : Holder} : (s.releaseAt a d).Holds h fd ↔
    (h = .code ∧ 0 ≤ fd ∧ d.fd = fd) ∨ (h ≠ .object a ∧ s.Holds h fd) := by
  cases h with
  | code =>
    by_cases hvalid : 0 ≤ d.fd
    · simp only [Holds, releaseAt, FileDescriptor.valid, hvalid, FileDescriptor.release]
      grind
    · simp only [Holds, releaseAt, FileDescriptor.valid, hvalid]
      grind
  | object b =>
    by_cases hb : b = a
    · simp [Holds, releaseAt, hb, FileDescriptor.release]
      omega
    · simp [Holds, releaseAt, hb]

theorem holds_constructAt {h : Holder} {newFd : Int} : (s.constructAt a newFd).Holds h fd ↔
    (h = .object a ∧ 0 ≤ fd ∧ newFd = fd) ∨ (h ≠ .object a ∧ (h = .code → fd ≠ newFd) ∧ s.Holds h fd) := by
  cases h with
  | code => simp [Holds, constructAt]
  | object b =>
    by_cases hb : b = a
    · simp [Holds, constructAt, hb]
    · simp [Holds, constructAt, hb]

theorem holds_resetAt {h : Holder} {newFd : Int} :
    (s.resetAt a d newFd).Holds h fd ↔ (s.constructAt a newFd).Holds h fd := by
  cases h with
  | code => rfl
  | object b => rfl

theorem holds_object (hd : s.objects a = some d) : s.Holds (.object a) fd ↔ 0 ≤ fd ∧ d.fd = fd := by
  obtain ⟨fd'⟩ := d
  simp [Holds, hd]

theorem Keeps.releaseAt (hkeeps : s.Keeps who) (hd : s.objects a = some d) :
    ∃ who', Exec Change who [] who' ∧ (s.releaseAt a d).Keeps who' := by
  have hobject : ∀ x, s.Holds (.object a) x ↔ 0 ≤ x ∧ d.fd = x := fun x => holds_object hd
  by_cases hvalid : 0 ≤ d.fd
  · have hold := (hobject d.fd).mpr ⟨hvalid, rfl⟩
    refine ⟨_, hkeeps.pass .code hold (fun k x => ?_) rfl⟩
    rw [holds_releaseAt]
    by_cases hx : x = d.fd
    · have hunique : s.Holds k x → k = .object a := fun hk => hkeeps.unique hold (hx ▸ hk)
      grind
    · grind
  · refine ⟨who, .refl, hkeeps.same (fun k x => ?_) rfl⟩
    rw [holds_releaseAt]
    grind

theorem Keeps.constructAt (hkeeps : s.Keeps who) (hempty : ∀ x, ¬ s.Holds (.object a) x)
    (htake : s.mayTake fd = true) : ∃ who', Exec Change who [] who' ∧ (s.constructAt a fd).Keeps who' := by
  have hloose := hkeeps.nonneg_of_holds .code
  by_cases hneg : fd < 0
  · refine ⟨who, .refl, hkeeps.same (fun k x => ?_) rfl⟩
    rw [holds_constructAt]
    grind
  · have hold : s.Holds .code fd := by simpa [Holds, mayTake, hneg] using htake
    refine ⟨_, hkeeps.pass (.object a) hold (fun k x => ?_) rfl⟩
    rw [holds_constructAt]
    by_cases hx : x = fd
    · have hunique : s.Holds k x → k = .code := fun hk => hkeeps.unique hold (hx ▸ hk)
      grind
    · grind

theorem Keeps.closeAt (hkeeps : s.Keeps who) (hd : s.objects a = some d) :
    ∃ who', Exec Change who (d.reset (-1)).2 who' ∧ (s.resetAt a d (-1)).Keeps who' := by
  have hobject : ∀ x, s.Holds (.object a) x ↔ 0 ≤ x ∧ d.fd = x := fun x => holds_object hd
  have hloose := hkeeps.nonneg_of_holds .code
  by_cases hvalid : 0 ≤ d.fd
  · have hold := (hobject d.fd).mpr ⟨hvalid, rfl⟩
    have hclose : (d.reset (-1)).2 = [.ends d.fd] := if_pos (decide_eq_true hvalid)
    rw [hclose]
    refine ⟨_, hkeeps.drop hold (fun k x => ?_) (if_pos (decide_eq_true hvalid))⟩
    rw [holds_resetAt, holds_constructAt]
    by_cases hx : x = d.fd
    · have hunique : s.Holds k x → k = .object a := fun hk => hkeeps.unique hold (hx ▸ hk)
      grind
    · grind
  · have hclose : (d.reset (-1)).2 = [] := if_neg fun h => hvalid (of_decide_eq_true h)
    rw [hclose]
    refine ⟨who, .refl, hkeeps.same (fun k x => ?_) (if_neg fun h => hvalid (of_decide_eq_true h))⟩
    rw [holds_resetAt, holds_constructAt]
    grind

theorem Keeps.neg_one_notMem (hkeeps : s.Keeps who) : -1 ∉ s.loose := fun hmem => by
  have hnonneg := hkeeps.nonneg_of_holds .code (-1) hmem
  omega

/-- `reset` closes first and takes the new descriptor then. -/
theorem resetAt_eq (hloose : -1 ∉ s.loose) : s.resetAt a d fd = (s.resetAt a d (-1)).constructAt a fd := by
  simp [resetAt, Descriptors.constructAt, FileDescriptor.reset, Finset.erase_eq_of_notMem hloose]

theorem not_holds_resetAt (x : Int) : ¬ (s.resetAt a d (-1)).Holds (.object a) x := by
  rw [holds_resetAt, holds_constructAt]
  grind

theorem Keeps.resetAt (hkeeps : s.Keeps who) (hd : s.objects a = some d) (htake : s.mayTake fd = true) :
    ∃ who', Exec Change who (d.reset fd).2 who' ∧ (s.resetAt a d fd).Keeps who' := by
  obtain ⟨who₁, hexec₁, hkeeps₁⟩ := hkeeps.closeAt hd
  have htake₁ : (s.resetAt a d (-1)).mayTake fd = true := by
    rw [mayTake, Descriptors.resetAt, Finset.erase_eq_of_notMem hkeeps.neg_one_notMem]
    exact htake
  obtain ⟨who₂, hexec₂, hkeeps₂⟩ := hkeeps₁.constructAt not_holds_resetAt htake₁
  rw [resetAt_eq hkeeps.neg_one_notMem]
  have hexec := hexec₁.trans hexec₂
  rw [List.append_nil] at hexec
  exact ⟨who₂, hexec, hkeeps₂⟩

theorem Keeps.removeAt (hkeeps : s.Keeps who) (hempty : ∀ x, ¬ s.Holds (.object a) x) :
    (s.removeAt a).Keeps who := by
  refine hkeeps.same (fun k x => ?_) rfl
  rw [holds_removeAt]
  grind

theorem not_holds_of_none (h : s.objects a = none) (x : Int) : ¬ s.Holds (.object a) x := fun hx => by
  have heq := hx.2
  rw [h] at heq
  cases heq

theorem objects_releaseAt_of_ne {b : Nat} (hne : a ≠ b) : (s.releaseAt b d).objects a = s.objects a :=
  Function.update_of_ne hne _ _

theorem mayTake_releaseAt : (s.releaseAt a d).mayTake d.release.2 = true := by
  by_cases hvalid : 0 ≤ d.fd
  · simp [mayTake, Descriptors.releaseAt, FileDescriptor.valid, hvalid, FileDescriptor.release]
  · simp [mayTake, FileDescriptor.release, not_le.mp hvalid]

theorem Keeps.opens (hkeeps : s.Keeps who) (hnonneg : ¬ fd < 0) (hopen : fd ∉ s.opened) :
    ∃ who', Exec Change who [.starts fd] who' ∧
      Keeps { s with loose := insert fd s.loose, opened := insert fd s.opened } who' := by
  have hnone : who fd = none := not_not.mp fun hheld => hopen ((hkeeps.opened fd).mpr hheld)
  refine ⟨_, .single (.acquire .code hnone), fun k x => ?_, fun x => ?_, fun x hx => ?_⟩
  · by_cases hx : x = fd
    · rw [hx, Function.update_self]
      cases k with
      | code => simp [Holds]
      | object b =>
        refine iff_of_false (by simp) fun hk => ?_
        have hsome := (hkeeps.holds (.object b) fd).mpr hk
        rw [hnone] at hsome
        cases hsome
    · rw [Function.update_of_ne hx, hkeeps.holds]
      cases k with
      | code => simp [Holds, hx]
      | object b => rfl
  · rw [held_update_some, Finset.mem_insert, Set.mem_insert_iff, hkeeps.opened]
  · rcases Finset.mem_insert.mp hx with rfl | hx
    · exact not_lt.mp hnonneg
    · exact hkeeps.nonneg x hx

theorem Keeps.step {op : DescriptorOp} (hkeeps : s.Keeps who) (h : s.step op = some (s', evs)) :
    ∃ who', Exec Change who evs who' ∧ s'.Keeps who' := by
  cases op with
  | opens fd =>
    simp only [Descriptors.step] at h
    split_ifs at h with hneg hopen
    · cases h
      exact ⟨who, .refl, hkeeps⟩
    · cases h
      exact hkeeps.opens hneg hopen
  | construct a fd =>
    simp only [Descriptors.step] at h
    split_ifs at h with hguard
    cases h
    rw [Bool.and_eq_true, Option.isNone_iff_eq_none] at hguard
    exact hkeeps.constructAt (not_holds_of_none hguard.1) hguard.2
  | moveConstruct a b =>
    simp only [Descriptors.step] at h
    split at h
    · next d ha hb =>
      cases h
      have hne : a ≠ b := fun heq => by
        rw [heq, hb] at ha
        cases ha
      obtain ⟨who₁, hexec₁, hkeeps₁⟩ := hkeeps.releaseAt hb
      have hempty := not_holds_of_none ((objects_releaseAt_of_ne (d := d) hne).trans ha)
      obtain ⟨who₂, hexec₂, hkeeps₂⟩ := hkeeps₁.constructAt hempty mayTake_releaseAt
      exact ⟨who₂, hexec₁.trans hexec₂, hkeeps₂⟩
    · cases h
  | moveAssign a b =>
    simp only [Descriptors.step] at h
    split at h
    · next d e ha hb =>
      split_ifs at h with heq
      · cases h
        exact ⟨who, .refl, hkeeps⟩
      · cases h
        obtain ⟨who₁, hexec₁, hkeeps₁⟩ := hkeeps.releaseAt hb
        have ha₁ := (objects_releaseAt_of_ne (d := e) heq).trans ha
        obtain ⟨who₂, hexec₂, hkeeps₂⟩ := hkeeps₁.resetAt ha₁ mayTake_releaseAt
        exact ⟨who₂, hexec₁.trans hexec₂, hkeeps₂⟩
    · cases h
  | reset a fd =>
    simp only [Descriptors.step] at h
    split at h
    · next hd =>
      split_ifs at h with htake
      cases h
      exact hkeeps.resetAt hd htake
    · cases h
  | release a =>
    obtain ⟨d, hd, heq⟩ := Option.map_eq_some_iff.mp h
    cases heq
    exact hkeeps.releaseAt hd
  | use a =>
    obtain ⟨d, hd, heq⟩ := Option.map_eq_some_iff.mp h
    cases heq
    refine ⟨who, ?_, hkeeps⟩
    by_cases hvalid : 0 ≤ d.fd
    · have hold := (holds_object hd).mpr ⟨hvalid, rfl⟩
      have huse : d.use = [.uses d.fd] := if_pos (decide_eq_true hvalid)
      rw [huse]
      exact .single (.use ((hkeeps.holds _ _).mpr hold))
    · have huse : d.use = [] := if_neg fun h => hvalid (of_decide_eq_true h)
      rw [huse]
      exact .refl
  | destroy a =>
    obtain ⟨d, hd, heq⟩ := Option.map_eq_some_iff.mp h
    cases heq
    obtain ⟨who₁, hexec₁, hkeeps₁⟩ := hkeeps.closeAt hd
    exact ⟨who₁, hexec₁, hkeeps₁.removeAt not_holds_resetAt⟩
  | useLoose fd =>
    simp only [Descriptors.step] at h
    split_ifs at h with hmem
    cases h
    exact ⟨who, .single (.use ((hkeeps.holds .code fd).mpr hmem)), hkeeps⟩
  | closeLoose fd =>
    simp only [Descriptors.step] at h
    split_ifs at h with hmem
    cases h
    have hold : s.Holds .code fd := hmem
    refine ⟨_, hkeeps.drop hold (fun k x => ?_) rfl⟩
    cases k with
    | code => simp [Holds]
    | object b =>
      refine ⟨fun hx => ⟨?_, hx⟩, fun hx => hx.2⟩
      rintro rfl
      have hobject : s.Holds (.object b) x := hx
      cases hkeeps.unique hold hobject

theorem Run.keeps (h : Descriptors.Run log s) :
    ∃ who : Custody Holder Int, Exec Change (fun _ => none) log who ∧ s.Keeps who := by
  have hinit : Descriptors.Keeps {} fun _ => none := by
    refine ⟨fun k x => ?_, fun x => ?_, fun x hx => ?_⟩
    · cases k with
      | code => simp [Holds]
      | object b => simp [Holds]
    · simp [Custody.held]
    · simp at hx
  have hstep : ∀ (s : Descriptors) who evs s', s.Keeps who → Step Descriptors.step s evs s' →
      ∃ who', Exec Change who evs who' ∧ s'.Keeps who' := by
    rintro s who evs s' hkeeps ⟨op, hop⟩
    exact hkeeps.step hop
  exact h.simulate hstep hinit

end Descriptors

/-- In any program that uses the class, a descriptor is used and closed only after it was opened and before it is
closed again; the open descriptors have one holder each, and nobody holds one that is closed. -/
theorem descriptor_owners (h : Descriptors.Run log s) :
    (∀ before e after fd, log = before ++ e :: after → e = .uses fd ∨ e = .ends fd →
      ∃ earlier between, before = earlier ++ .starts fd :: between ∧ .ends fd ∉ between) ∧
    (∀ fd, fd ∈ s.opened ↔ fd ∈ liveAfter ∅ log) ∧
    (∀ fd ∈ s.opened, ∃! holder, s.Holds holder fd) ∧ ∀ holder fd, s.Holds holder fd → fd ∈ s.opened := by
  obtain ⟨who, hexec, hkeeps⟩ := h.keeps
  obtain ⟨hproper, hlive⟩ := proper_of_exec hexec
  refine ⟨fun before e after fd hlog he => hproper.alive hlog he, fun fd => ?_, fun fd hfd => ?_, fun k fd hk => ?_⟩
  · rw [hlive]
    exact hkeeps.opened fd
  · obtain ⟨k, hk⟩ := Option.ne_none_iff_exists'.mp ((hkeeps.opened fd).mp hfd)
    have hold := (hkeeps.holds k fd).mp hk
    exact ⟨k, hold, fun k' hk' => hkeeps.unique hold hk'⟩
  · exact (hkeeps.opened fd).mpr (mem_held ((hkeeps.holds k fd).mpr hk))

end

/-- An object takes a new descriptor over the one it has, hands it on, and both objects go. -/
def passedOn : List DescriptorOp :=
  [.opens 3, .construct 0 3, .opens 4, .construct 1 4, .moveAssign 0 1, .use 0, .opens 3, .reset 1 3, .release 0,
    .destroy 0, .destroy 1]

theorem descriptor_owners_passedOn : ∃ (log : List (Life Int)) (s : Descriptors), Descriptors.Run log s ∧
    s.opened = {4} ∧ ∃! holder, s.Holds holder 4 := by
  have hopened : (run Descriptors.step {} passedOn).map (fun r => decide (r.1.opened = {4})) = some true := by
    decide +kernel
  obtain ⟨r, hr, h4⟩ := Option.map_eq_some_iff.mp hopened
  have hrun : Descriptors.Run r.2 r.1 := exec_of_run hr
  refine ⟨r.2, r.1, hrun, of_decide_eq_true h4, (descriptor_owners hrun).2.2.1 4 ?_⟩
  rw [of_decide_eq_true h4]
  exact Finset.mem_singleton_self 4

end KvStore
