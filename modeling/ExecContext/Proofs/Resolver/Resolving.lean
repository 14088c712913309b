import ExecContext.Resolver.Serve
import ExecContext.Proofs.Storage.Storing

set_option autoImplicit false

/-!
# What a resolver finds and what it binds

Resolving changes nothing. It finds the context of the fiber that runs on the thread, if the
scheduler owns the thread and runs one there, and what the backend holds for the thread otherwise.
Binding is the use of the backend, after the notice in the log.
-/

namespace ExecContext

/-- Where the current context is to be found, by what the scheduler does on the thread and by what
the backend holds for it. -/
def Resolution.found (a : Activity) (p : Pointer) : Resolution :=
  match a with
  | ⟨true, some f⟩ => .fiber f.context
  | _ => .ofPointer p

namespace Process

variable {s : Process} {t : ThreadId}

/-- What a scheduler does on a thread. -/
def activity (s : Process) (sched : Scheduler) (t : ThreadId) : Activity :=
  match sched.kind with
  | .absent => .idle
  | .constant f => ⟨true, some f⟩
  | _ => s.activities sched.number (sched.seat t)

/-- Where a resolver finds the current context of a thread. -/
def resolution (s : Process) (r : Resolver) (t : ThreadId) : Resolution :=
  .found (s.activity r.scheduler t) (s.held r.backend t)

/-! ## Asking the scheduler -/

theorem reads_ownsThread (s : Process) (t : ThreadId) (sched : Scheduler) :
    s.Reads t sched.ownsThread (s.activity sched t).active := by
  unfold Scheduler.ownsThread activity
  cases sched.kind with
  | absent => exact .done s t _
  | constant f => exact .done s t _
  | perThread => exact ⟨[.ownsThread], by simp [run_call, perform, Effect.emit, Effect.read]⟩
  | shared => exact ⟨[.ownsThread], by simp [run_call, perform, Effect.emit, Effect.read]⟩

theorem reads_runningFiber (s : Process) (t : ThreadId) (sched : Scheduler) :
    s.Reads t sched.runningFiber (s.activity sched t).fiber := by
  unfold Scheduler.runningFiber activity
  cases sched.kind with
  | absent => exact .done s t _
  | constant f => exact .done s t _
  | perThread => exact ⟨[.runningFiber], by simp [run_call, perform, Effect.emit, Effect.read]⟩
  | shared => exact ⟨[.runningFiber], by simp [run_call, perform, Effect.emit, Effect.read]⟩

theorem reads_contextOf (s : Process) (t : ThreadId) (sched : Scheduler) (f : Fiber) :
    s.Reads t (sched.contextOf f) f.context := by
  unfold Scheduler.contextOf
  cases sched.kind with
  | absent => exact .done s t _
  | constant f => exact .done s t _
  | perThread => exact ⟨[.contextOf f], by simp [run_call, perform, Effect.emit]⟩
  | shared => exact ⟨[.contextOf f], by simp [run_call, perform, Effect.emit]⟩

/-! ## Single requests -/

theorem perform_request (r : Resolver) (q : Resolver.Query) :
    r.perform (.call q .done) = r.answer q :=
  Program.bind_done (r.answer q)

theorem perform_bind {α β : Type} (r : Resolver) (p : Resolver.Operation α)
    (next : α → Resolver.Operation β) :
    r.perform (p >>= next) = (r.perform p >>= fun value => r.perform (next value)) :=
  Program.serve_bind (σ := Resolver.Queries) (τ := Accesses) r.answer p next

/-! ## Resolving -/

theorem reads_resolveThread (s : Process) (t : ThreadId) (r : Resolver) :
    s.Reads t (r.perform Resolver.resolveThread) (.ofPointer (s.held r.backend t)) := by
  unfold Resolver.resolveThread Resolver.held
  rw [perform_bind, perform_request]
  exact (reads_held s t r.backend).bind (.done s t _)

theorem reads_resolve (s : Process) (t : ThreadId) (r : Resolver) :
    s.Reads t (r.perform Resolver.resolve) (s.resolution r t) := by
  have hthread := reads_resolveThread s t r
  unfold resolution
  unfold Resolver.resolve Resolver.ownsThread
  rw [perform_bind, perform_request]
  refine (reads_ownsThread s t r.scheduler).bind ?_
  generalize hactivity : s.activity r.scheduler t = a
  obtain ⟨active, fiber⟩ := a
  cases active with
  | false => exact hthread
  | true =>
    simp only [if_true]
    unfold Resolver.runningFiber
    rw [perform_bind, perform_request]
    refine (reads_runningFiber s t r.scheduler).bind ?_
    rw [hactivity]
    cases fiber with
    | none => exact hthread
    | some f =>
      unfold Resolver.contextOf
      rw [perform_bind, perform_request]
      exact (reads_contextOf s t r.scheduler f).bind (.done s t _)

theorem reads_current? (s : Process) (t : ThreadId) (r : Resolver) :
    s.Reads t (r.perform Resolver.current?) (s.resolution r t).toPointer := by
  unfold Resolver.current?
  rw [perform_bind]
  exact (reads_resolve s t r).bind (.done s t _)

theorem reads_current {r : Resolver} {address : Address}
    (h : (s.resolution r t).toPointer = some address) :
    s.Reads t (r.perform Resolver.current) address := by
  unfold Resolver.current
  rw [perform_bind]
  refine (reads_current? s t r).bind ?_
  rw [h]
  exact .done s t _

/-- Asking for the current context fails where there is none, and changes nothing. -/
theorem run_current_of_unbound {r : Resolver} (h : (s.resolution r t).toPointer = none) :
    ∃ seen : List Resolver.Query,
      s.run t (r.perform Resolver.current) =
        ⟨.failed .unbound, s, seen.map (.observed t)⟩ := by
  obtain ⟨seen, hrun⟩ := reads_current? s t r
  refine ⟨seen, ?_⟩
  unfold Resolver.current
  rw [perform_bind, run_bind_of_returned hrun, h]
  simp [Resolver.perform, Program.serve]

/-! ## Binding -/

theorem held_bindAddress (h : s.Sound) (t : ThreadId) (r : Resolver) (address : Address) :
    s.Held t r.backend (some address) () (s.run t (r.perform (Resolver.bindAddress address))) := by
  have hnotice : s.run t (r.answer (.announce address)) =
      ⟨.returned (), s.loaded, s.recordEvents t .trace (.binding address r.backend)⟩ := by
    rw [← show s.noted .trace = s.loaded from rfl]
    exact run_write h.logFree .trace _
  have hs := h.steady_loaded
  have hfault : s.loaded.fault? r.backend = s.fault? r.backend := by
    simp [fault?, keyOf_loaded]
  unfold Resolver.bindAddress Resolver.announce Resolver.hold
  rw [perform_bind, perform_request, perform_request, run_bind_of_returned hnotice]
  exact .after hs (fun b _ => s.keyOf_loaded b) hfault (fun _ => s.base_loaded)
    (held_run_hold hs.sound t r.backend _) _

theorem held_hold (h : s.Sound) (t : ThreadId) (r : Resolver) (p : Pointer) :
    s.Held t r.backend p () (s.run t (r.perform (Resolver.hold p))) := by
  unfold Resolver.hold
  rw [perform_request]
  exact held_run_hold h t r.backend p

end Process

end ExecContext
