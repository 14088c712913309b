import ExecContext.Resolver.Resolution
import ExecContext.Storage.Holding

set_option autoImplicit false

/-!
# Resolvers at work

How the requests of a resolver are served within a process: by its scheduler, by its backend, and by
the log. A scheduler whose activity may change is observed; one that always answers the same is not.
-/

namespace ExecContext

/-! ## Schedulers -/

namespace Scheduler

/-- Whether the scheduler owns the calling thread. -/
def ownsThread (s : Scheduler) : Action Bool :=
  match s.kind with
  | .absent => return false
  | .constant _ => return true
  | _ => do
    .call (Access.observe .ownsThread) .done
    let a ← .call (Access.activity s) .done
    return a.active

/-- The fiber that the scheduler runs on the calling thread. -/
def runningFiber (s : Scheduler) : Action (Option Fiber) :=
  match s.kind with
  | .absent => return none
  | .constant f => return some f
  | _ => do
    .call (Access.observe .runningFiber) .done
    let a ← .call (Access.activity s) .done
    return a.fiber

/-- The context of a fiber. -/
def contextOf (s : Scheduler) (f : Fiber) : Action ContextId :=
  match s.kind with
  | .absent => return f.context
  | .constant _ => return f.context
  | _ => do
    .call (Access.observe (.contextOf f)) .done
    return f.context

end Scheduler

/-! ## Resolvers -/

namespace Resolver

/-- Serves one request. -/
def answer (r : Resolver) : (q : Query) → Action q.Answer
  | .ownsThread => r.scheduler.ownsThread
  | .runningFiber => r.scheduler.runningFiber
  | .contextOf f => r.scheduler.contextOf f
  | .held => r.backend.held
  | .hold p => r.backend.hold p
  | .announce address => Log.write .trace (.binding address r.backend)

/-- Carries out an operation. -/
def perform {α : Type} (r : Resolver) (operation : Operation α) : Action α :=
  operation.serve r.answer

/-- Adds to the call counter of the current context: the context's address, and the sum. An address
that is not a context's has no counter. -/
def countCalls (r : Resolver) (amount : Int64) : Action (Address × Option Int64) := do
  let address ← r.perform current
  match address with
  | .context c =>
    let sum ← .call (Access.addCalls c amount) .done
    return (address, some sum)
  | .foreign _ => return (address, none)

end Resolver

end ExecContext
