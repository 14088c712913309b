import ExecContext.Proofs.Process.Paths
import ExecContext.Session.Task

set_option autoImplicit false

/-!
# Reading

The accesses that change nothing, the requests that are served by them alone, and the calls of a
resolver that make no other requests.
-/

namespace ExecContext

/-! ## Accesses -/

/-- The access changes nothing. What may be seen of it is a request that is observed. -/
def Access.Inert : Access → Prop
  | .peek _ => True
  | .getSpecific _ => True
  | .readSlot .. => True
  | .loadNative => True
  | .loadSpy => True
  | .activity _ => True
  | .observe _ => True
  | _ => False

/-- The end of a run that changed nothing, of which only observed requests can be seen. -/
def Finish.IsInert {α : Type} (f : Finish α) (t : ThreadId) (s : Process) : Prop :=
  f.outcome ≠ .blocked ∧ f.process = s ∧
    ∃ seen : List Resolver.Query, f.events = seen.map (.observed t)

namespace Process

variable {s : Process} {t : ThreadId}

theorem perform_inert {a : Access} (h : a.Inert) :
    ∃ answer, ∃ seen : List Resolver.Query,
      s.perform t a = some ⟨answer, s, seen.map (.observed t)⟩ := by
  cases a with
  | peek c => exact ⟨_, [], rfl⟩
  | getSpecific k => exact ⟨_, [], rfl⟩
  | readSlot base k => exact ⟨_, [], rfl⟩
  | loadNative => exact ⟨_, [], rfl⟩
  | loadSpy => exact ⟨_, [], rfl⟩
  | activity sched => exact ⟨_, [], rfl⟩
  | observe q => exact ⟨(), [q], rfl⟩
  | _ => exact h.elim

/-- A program of inert accesses runs to its end and leaves the process as it was. -/
theorem run_inert {α : Type} {p : Action α} (h : p.Only Access.Inert) :
    (s.run t p).IsInert t s := by
  unfold run
  suffices hfrom : ∀ seen : List Resolver.Query,
      (runFrom t p s (seen.map (.observed t))).IsInert t s from hfrom []
  induction p with
  | done value => exact fun seen => ⟨by simp [runFrom], rfl, seen, rfl⟩
  | fail cause => exact fun seen => ⟨by simp [runFrom], rfl, seen, rfl⟩
  | call a resume ih =>
    intro seen
    obtain ⟨answer, more, heffect⟩ := perform_inert (s := s) (t := t) h.1
    have hrest := ih answer (h.2 answer) (seen ++ more)
    rw [List.map_append] at hrest
    simpa only [runFrom, heffect] using hrest

end Process

/-! ## Calls that only read -/

/-- The request reads and changes nothing. -/
def Resolver.Query.Reads : Resolver.Query → Prop
  | .ownsThread => True
  | .runningFiber => True
  | .contextOf _ => True
  | .held => True
  | .hold _ => False
  | .announce _ => False

/-- The call reads and changes nothing. -/
def Session.Call.isRead : Session.Call → Bool
  | .current => true
  | .current? => true
  | .resolve => true
  | .held => true
  | .backendName => true
  | .ownsThread => true
  | .runningFiber => true
  | _ => false

theorem within_held (b : Backend) : b.held.Within Access.Inert := by
  cases b with
  | native => exact ⟨trivial, fun _ => trivial⟩
  | key =>
    refine ⟨trivial, fun k? => ?_⟩
    cases k? with
    | none => trivial
    | some k => exact ⟨trivial, fun _ => trivial⟩
  | direct =>
    refine ⟨trivial, fun slot? => ?_⟩
    cases slot? with
    | none => trivial
    | some slot => exact ⟨trivial, fun _ => trivial⟩
  | spy => exact ⟨trivial, fun _ => ⟨trivial, fun _ => trivial⟩⟩

theorem within_ownsThread (sched : Scheduler) : sched.ownsThread.Within Access.Inert := by
  unfold Scheduler.ownsThread
  cases sched.kind with
  | absent => trivial
  | constant f => trivial
  | perThread => exact ⟨trivial, fun _ => ⟨trivial, fun _ => trivial⟩⟩
  | shared => exact ⟨trivial, fun _ => ⟨trivial, fun _ => trivial⟩⟩

theorem within_runningFiber (sched : Scheduler) : sched.runningFiber.Within Access.Inert := by
  unfold Scheduler.runningFiber
  cases sched.kind with
  | absent => trivial
  | constant f => trivial
  | perThread => exact ⟨trivial, fun _ => ⟨trivial, fun _ => trivial⟩⟩
  | shared => exact ⟨trivial, fun _ => ⟨trivial, fun _ => trivial⟩⟩

theorem within_contextOf (sched : Scheduler) (f : Fiber) :
    (sched.contextOf f).Within Access.Inert := by
  unfold Scheduler.contextOf
  cases sched.kind with
  | absent => trivial
  | constant f => trivial
  | perThread => exact ⟨trivial, fun _ => trivial⟩
  | shared => exact ⟨trivial, fun _ => trivial⟩

/-- A resolver serves a request that reads by inert accesses, and does not fail in it. -/
theorem within_answer (r : Resolver) {q : Resolver.Query} (hq : q.Reads) :
    (r.answer q).Within Access.Inert := by
  cases q with
  | ownsThread => exact within_ownsThread r.scheduler
  | runningFiber => exact within_runningFiber r.scheduler
  | contextOf f => exact within_contextOf r.scheduler f
  | held => exact within_held r.backend
  | hold p => exact hq.elim
  | announce address => exact hq.elim

/-- A resolver serves an operation that only reads by inert accesses. -/
theorem only_perform {α : Type} (r : Resolver) {operation : Resolver.Operation α}
    (h : operation.Only Resolver.Query.Reads) : (r.perform operation).Only Access.Inert :=
  h.serve fun _ hq => (within_answer r hq).only

theorem only_resolve : Resolver.resolve.Only Resolver.Query.Reads := by
  have hthread : Resolver.resolveThread.Only Resolver.Query.Reads := ⟨trivial, fun _ => trivial⟩
  refine ⟨trivial, fun active => ?_⟩
  cases active with
  | false => exact hthread
  | true =>
    refine ⟨trivial, fun f? => ?_⟩
    cases f? with
    | none => exact hthread
    | some f => exact ⟨trivial, fun _ => trivial⟩

theorem only_current? : Resolver.current?.Only Resolver.Query.Reads :=
  only_resolve.bind fun _ => trivial

theorem only_current : Resolver.current.Only Resolver.Query.Reads := by
  refine only_current?.bind fun p => ?_
  cases p with
  | none => trivial
  | some address => trivial

theorem only_action (contexts : List String) (r : Resolver) {c : Session.Call}
    (hc : c.isRead = true) : (c.action contexts r).Only Access.Inert := by
  have hheld : Resolver.held.Only Resolver.Query.Reads := ⟨trivial, fun _ => trivial⟩
  have howns : Resolver.ownsThread.Only Resolver.Query.Reads := ⟨trivial, fun _ => trivial⟩
  have hfiber : Resolver.runningFiber.Only Resolver.Query.Reads := ⟨trivial, fun _ => trivial⟩
  have hcontext (f : Fiber) : (Resolver.contextOf f).Only Resolver.Query.Reads :=
    ⟨trivial, fun _ => trivial⟩
  cases c with
  | current => exact (only_perform r only_current).bind fun _ => trivial
  | current? => exact (only_perform r only_current?).bind fun _ => trivial
  | resolve => exact (only_perform r only_resolve).bind fun _ => trivial
  | held => exact (only_perform r hheld).bind fun _ => trivial
  | backendName => trivial
  | ownsThread => exact (only_perform r howns).bind fun _ => trivial
  | runningFiber =>
    refine (only_perform r hfiber).bind fun f? => ?_
    cases f? with
    | none => trivial
    | some f => exact (only_perform r (hcontext f)).bind fun _ => trivial
  | _ => cases hc

end ExecContext
