import ExecContext.Demo.Workers
import ExecContext.Proofs.Interleaving.Discipline
import ExecContext.Proofs.Process.Alone

set_option autoImplicit false

/-!
# What a worker has to itself

Each worker has a state of its own: the name of its thread, its native variable, the activity of its
scheduler, the call counters of its contexts, and the lines that it has printed. No other worker
touches it, so a worker finds there what it left there itself (`ThreadStates.access`), on a platform
that creates keys and stores behind them.
-/

namespace ExecContext

/-! ## Lines and who printed them -/

namespace Event

/-- The lines printed, in order, each with the thread that printed it. -/
def prints (events : List Event) : List (ThreadId × Line) :=
  events.filterMap fun
    | .printed t line => some (t, line)
    | _ => none

theorem prints_append (first rest : List Event) :
    prints (first ++ rest) = prints first ++ prints rest :=
  List.filterMap_append

theorem printedLines_eq_prints (events : List Event) :
    printedLines events = (prints events).map Prod.snd := by
  induction events with
  | nil => rfl
  | cons event rest ih =>
    cases event with
    | printed t line => exact congrArg (line :: ·) ih
    | _ => exact ih

end Event

/-- The lines that an access prints. -/
def Access.lines : Access → List Line
  | .print line => [line]
  | _ => []

theorem Process.prints_perform {s : Process} {t : ThreadId} {a : Access} {effect : Effect a.Answer}
    (h : s.perform t a = some effect) :
    Event.prints effect.events = a.lines.map (Prod.mk t) := by
  rw [perform_events h]
  cases a <;> rfl

namespace Demo.Workers

open Discipline (setStage forall_setStage)

/-! ## ThreadStates -/

/-- The scheduler of the workers. -/
def fibers : Scheduler := ⟨.perThread, 0⟩

/-- The thread of the worker that a context belongs to. -/
def owner (c : ContextId) : ThreadId := c / (fiberCount + 1) + 2

/-- What a thread has to itself. -/
structure ThreadState where
  thread : ThreadId
  /-- the name that it was started with -/
  name : Option String
  native : Pointer
  activity : Activity
  /-- the call counters of its contexts -/
  calls : ContextId → Int64
  /-- the lines that it has printed -/
  printed : List Line

namespace ThreadState

/-- The state of a thread that has not been started. -/
def blank (t : ThreadId) : ThreadState := ⟨t, none, none, .idle, fun _ => 0, []⟩

/-- The call counters after something is added to one. -/
def count (φ : ThreadState) (c : ContextId) (amount : Int64) : ContextId → Int64 :=
  fun d => if d = c then φ.calls c + amount else φ.calls d

end ThreadState

/-- A thread changes the activity of the workers' scheduler only, and the counters of its own
contexts only. What it reads of its state is what it left there, and the platform never fails. -/
def threadDiscipline : Discipline ThreadState where
  permits φ
    | .setActivity s _ => s = fibers
    | .addCalls c _ => owner c = φ.thread
    | _ => True
  moves φ a answer φ' :=
    match a, answer with
    | .createKey, answer => (∃ k, answer = .ok k) ∧ φ' = φ
    | .setSpecific .., code => code = 0 ∧ φ' = φ
    | .tag, tag => (∀ name, φ.name = some name → tag = .named name) ∧ φ' = φ
    | .loadNative, p => p = φ.native ∧ φ' = φ
    | .storeNative p, _ => φ' = { φ with native := p }
    | .activity s, a => (s = fibers → a = φ.activity) ∧ φ' = φ
    | .setActivity _ a, _ => φ' = { φ with activity := a }
    | .addCalls c amount, sum =>
      sum = φ.calls c + amount ∧ φ' = { φ with calls := φ.count c amount }
    | .print line, _ => φ' = { φ with printed := φ.printed ++ [line] }
    | _, _ => φ' = φ

/-- The lines that an access prints are added to those of its thread. -/
theorem printed_of_moves {φ φ' : ThreadState} {a : Access} {answer : a.Answer}
    (h : threadDiscipline.moves φ a answer φ') : φ'.printed = φ.printed ++ a.lines := by
  have hsame (h : φ' = φ) : φ'.printed = φ.printed ++ [] := by
    rw [h, List.append_nil]
  cases a with
  | createKey => exact hsame h.2
  | setSpecific k p => exact hsame h.2
  | tag => exact hsame h.2
  | loadNative => exact hsame h.2
  | activity s => exact hsame h.2
  | storeNative p =>
    obtain rfl := h
    exact (List.append_nil _).symm
  | setActivity s activity =>
    obtain rfl := h
    exact (List.append_nil _).symm
  | addCalls c amount =>
    obtain ⟨-, rfl⟩ := h
    exact (List.append_nil _).symm
  | print line =>
    obtain rfl := h
    rfl
  | _ => exact hsame h

/-- The process is as the states of its threads say. -/
structure ThreadStates (s : Process) (states : ThreadId → ThreadState) : Prop where
  thread : ∀ t, (states t).thread = t
  name : ∀ t name, (states t).name = some name → s.tagOf t = .named name
  native : ∀ t, s.native t = (states t).native
  activity : ∀ t, s.activities 0 (some t) = (states t).activity
  calls : ∀ c, s.calls c = (states (owner c)).calls c
  createFault : s.platform.createFault = 0
  storeFault : s.platform.storeFault = 0

/-! ## One access -/

variable {s s' : Process} {states : ThreadId → ThreadState} {t : ThreadId} {a : Access}

/-- The state of one thread has changed, and the process with it. -/
theorem ThreadStates.update (h : ThreadStates s states) {φ : ThreadState}
    (hthread : φ.thread = (states t).thread)
    (hname : φ.name = (states t).name) (hroster : s'.roster = s.roster)
    (hnative : s'.native = s.native.set t φ.native)
    (hactivity : ∀ u, s'.activities 0 (some u) =
      if u = t then φ.activity else s.activities 0 (some u))
    (hcalls : ∀ c, s'.calls c = if owner c = t then φ.calls c else s.calls c)
    (hcreate : s'.platform.createFault = 0) (hstore : s'.platform.storeFault = 0) :
    ThreadStates s' (setStage states t φ) where
  thread := forall_setStage (P := fun u (φ : ThreadState) => φ.thread = u)
    (hthread.trans (h.thread t)) fun u _ => h.thread u
  name := by
    have htag (u : ThreadId) : s'.tagOf u = s.tagOf u := by
      simp [Process.tagOf, Process.nameOf, hroster]
    refine forall_setStage
      (P := fun u (φ : ThreadState) => ∀ name, φ.name = some name → s'.tagOf u = .named name) ?_ ?_
    · rw [hname, htag]
      exact h.name t
    · intro u _
      rw [htag]
      exact h.name u
  native := by
    rw [hnative]
    refine forall_setStage
      (P := fun u (φ' : ThreadState) => s.native.set t φ.native u = φ'.native) ?_ ?_
    · rw [Slots.set_same]
    · intro u hu
      rw [Slots.set_other _ _ hu, h.native]
  activity := by
    refine forall_setStage
      (P := fun u (φ : ThreadState) => s'.activities 0 (some u) = φ.activity) ?_ ?_
    · rw [hactivity, if_pos rfl]
    · intro u hu
      rw [hactivity, if_neg hu, h.activity]
  calls c := by
    rw [hcalls]
    by_cases hc : owner c = t
    · rw [if_pos hc, hc, Discipline.setStage_same]
    · rw [if_neg hc, Discipline.setStage_other _ _ hc, h.calls]
  createFault := hcreate
  storeFault := hstore

theorem ThreadStates.native_same (h : ThreadStates s states) (t : ThreadId) :
    s.native = s.native.set t (states t).native := by
  funext u
  by_cases hu : u = t
  · rw [hu, Slots.set_same, h.native]
  · rw [Slots.set_other _ _ hu]

theorem ThreadStates.activity_same (h : ThreadStates s states) (t u : ThreadId) :
    s.activities 0 (some u) = if u = t then (states t).activity else s.activities 0 (some u) := by
  split
  · rename_i hu
    rw [hu, h.activity]
  · rfl

theorem ThreadStates.calls_same (h : ThreadStates s states) (t : ThreadId) (c : ContextId) :
    s.calls c = if owner c = t then (states t).calls c else s.calls c := by
  split
  · rename_i hc
    rw [h.calls, hc]
  · rfl

/-- The states hold where nothing changes that they speak of. -/
theorem ThreadStates.unchanged (h : ThreadStates s states) (t : ThreadId)
    (hroster : s'.roster = s.roster) (hnative : s'.native = s.native)
    (hactivities : s'.activities = s.activities) (hcalls : s'.calls = s.calls)
    (hcreate : s'.platform.createFault = 0) (hstore : s'.platform.storeFault = 0) :
    ThreadStates s' (setStage states t (states t)) :=
  h.update rfl rfl hroster (hnative.trans (h.native_same t)) (hactivities ▸ h.activity_same t)
    (hcalls ▸ h.calls_same t) hcreate hstore

/-- The access concerns no thread's state. -/
def Neutral : Access → Prop
  | .createKey => False
  | .setSpecific .. => False
  | .tag => False
  | .loadNative => False
  | .storeNative _ => False
  | .activity _ => False
  | .setActivity .. => False
  | .addCalls .. => False
  | .print _ => False
  | _ => True

/-- Such an access is permitted and leads nowhere else. -/
theorem threadDiscipline_neutral (φ : ThreadState) (ha : Neutral a) :
    threadDiscipline.permits φ a ∧
      ∀ answer φ', threadDiscipline.moves φ a answer φ' ↔ φ' = φ := by
  cases a with
  | createKey => exact ha.elim
  | setSpecific k p => exact ha.elim
  | tag => exact ha.elim
  | loadNative => exact ha.elim
  | storeNative p => exact ha.elim
  | activity sched => exact ha.elim
  | setActivity sched activity => exact ha.elim
  | addCalls c amount => exact ha.elim
  | print line => exact ha.elim
  | _ => exact ⟨trivial, fun _ _ => Iff.rfl⟩

/-- Such an access leaves what the states speak of as it was. -/
theorem perform_neutral {effect : Effect a.Answer} (ha : Neutral a)
    (heffect : s.perform t a = some effect) :
    effect.process.native = s.native ∧ effect.process.activities = s.activities ∧
      effect.process.calls = s.calls := by
  refine ⟨Process.perform_frame heffect .native ?_,
    Process.perform_frame heffect .activities ?_,
    Process.perform_frame heffect .calls ?_⟩ <;>
  cases a <;> first | exact ha.elim | exact nofun

/-- An access of a thread is answered as its state promises. -/
def Served (s : Process) (states : ThreadId → ThreadState) (t : ThreadId) (a : Access) : Prop :=
  ∀ effect, s.perform t a = some effect →
    ∃ φ, threadDiscipline.moves (states t) a effect.answer φ ∧
      ThreadStates effect.process (setStage states t φ)

theorem ThreadStates.access (h : ThreadStates s states)
    (hpermits : threadDiscipline.permits (states t) a) :
    Served s states t a := by
  intro effect heffect
  have hself : ThreadStates s (setStage states t (states t)) := by
    rw [Discipline.setStage_self]
    exact h
  by_cases ha : Neutral a
  · obtain ⟨hnative, hactivities, hcalls⟩ := perform_neutral ha heffect
    obtain ⟨-, -, hcreate, hstore, -⟩ := Process.perform_surroundings heffect
    exact ⟨states t, ((threadDiscipline_neutral (states t) ha).2 _ _).mpr rfl,
      h.unchanged t (Process.perform_roster heffect) hnative hactivities hcalls
        (hcreate.trans h.createFault) (hstore.trans h.storeFault)⟩
  cases a with
  | createKey =>
    simp only [Process.perform, Process.createKey, if_pos h.createFault,
      Option.some.injEq] at heffect
    subst heffect
    exact ⟨states t, ⟨⟨_, rfl⟩, rfl⟩, h.unchanged t rfl rfl rfl rfl h.createFault h.storeFault⟩
  | setSpecific k p =>
    simp only [Process.perform, Process.setSpecific, if_pos h.storeFault,
      Option.some.injEq] at heffect
    subst heffect
    exact ⟨states t, ⟨rfl, rfl⟩, h.unchanged t rfl rfl rfl rfl h.createFault h.storeFault⟩
  | tag =>
    cases heffect
    exact ⟨states t, ⟨h.name t, rfl⟩, hself⟩
  | loadNative =>
    cases heffect
    exact ⟨states t, ⟨h.native t, rfl⟩, hself⟩
  | activity sched =>
    cases heffect
    refine ⟨states t, ⟨?_, rfl⟩, hself⟩
    rintro rfl
    exact h.activity t
  | storeNative p =>
    cases heffect
    exact ⟨{ states t with native := p }, rfl, h.update rfl rfl rfl rfl (h.activity_same t)
      (h.calls_same t) h.createFault h.storeFault⟩
  | setActivity sched activity =>
    obtain rfl : sched = fibers := hpermits
    cases heffect
    refine ⟨{ states t with activity := activity }, rfl, h.update rfl rfl rfl (h.native_same t)
      (fun u => ?_) (h.calls_same t) h.createFault h.storeFault⟩
    simp [Effect.write, Activities.set, fibers, Scheduler.seat]
  | addCalls c amount =>
    have hc : owner c = t := hpermits.trans (h.thread t)
    have hsum : s.calls c = (states t).calls c := hc ▸ h.calls c
    cases heffect
    refine ⟨{ states t with calls := (states t).count c amount }, ⟨congrArg (· + amount) hsum, rfl⟩,
      h.update rfl rfl rfl (h.native_same t) (h.activity_same t) (fun d => ?_)
        h.createFault h.storeFault⟩
    by_cases hd : d = c
    · simp [hd, hc, hsum, ThreadState.count]
    · simpa [hd, ThreadState.count] using h.calls_same t d
  | print line =>
    cases heffect
    exact ⟨{ states t with printed := (states t).printed ++ [line] }, rfl,
      h.update rfl rfl rfl (h.native_same t) (h.activity_same t) (h.calls_same t)
        h.createFault h.storeFault⟩
  | _ => exact (ha trivial).elim

/-! ## Starting a thread -/

/-- A thread that was just started has its name, and the others keep theirs. -/
theorem ThreadStates.start (h : ThreadStates s states) {n : Nat} (hn : s.roster.length = n + 1)
    (name : String) :
    ThreadStates (s.start (some name)).2
      (setStage states (n + 2) { states (n + 2) with name := some name }) where
  thread := forall_setStage (P := fun u (φ : ThreadState) => φ.thread = u) (h.thread _)
    fun u _ => h.thread u
  name := by
    refine forall_setStage (P := fun u (φ : ThreadState) =>
      ∀ name', φ.name = some name' → (s.start (some name)).2.tagOf u = .named name') ?_ ?_
    · rintro _ ⟨⟩
      simp [Process.start, Process.tagOf, Process.nameOf, ← hn]
    · intro u _ name' hname'
      have htag := h.name u name' hname'
      cases u with
      | zero => exact htag
      | succ m =>
        by_cases hm : m < s.roster.length
        · have hsame : (s.start (some name)).2.nameOf (m + 1) = s.nameOf (m + 1) :=
            congrArg Option.join (List.getElem?_append_left hm)
          rw [Process.tagOf, hsame]
          exact htag
        · have hnone : s.nameOf (m + 1) = none :=
            congrArg Option.join (List.getElem?_eq_none (Nat.le_of_not_lt hm))
          rw [Process.tagOf, hnone] at htag
          cases htag
  native := forall_setStage (P := fun u (φ : ThreadState) => s.native u = φ.native) (h.native _)
    fun u _ => h.native u
  activity := forall_setStage (P := fun u (φ : ThreadState) => s.activities 0 (some u) = φ.activity)
    (h.activity _) fun u _ => h.activity u
  calls c := by
    by_cases hc : owner c = n + 2
    · rw [hc, Discipline.setStage_same, ← hc]
      exact h.calls c
    · rw [Discipline.setStage_other states _ hc]
      exact h.calls c
  createFault := h.createFault
  storeFault := h.storeFault

end Demo.Workers

end ExecContext
