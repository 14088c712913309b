import ExecContext.Session.Step

set_option autoImplicit false

/-!
# What tasks do

The action of each use of a resolver, and of each use of the log or of the platform, ending in the
answer that the session gives.
-/

namespace ExecContext.Session

/-! ## Answers about contexts -/

/-- The answer that gives a context with its name. -/
def Answer.ofAddress (contexts : List String) : Address → Answer
  | .context c => .bound c (contexts.getD c "")
  | .foreign _ => .refused .dangling

/-- The answer that gives the current context, if there is one. -/
def Answer.ofPointer (contexts : List String) : Pointer → Answer
  | some address => .ofAddress contexts address
  | none => .unbound

/-! ## Calls -/

/-- Changes what a resolver's scheduler does on the calling thread, if there is a scheduler. -/
def reschedule (r : Resolver) (change : Activity → Activity) : Action Answer :=
  match r.scheduler.kind with
  | .absent => return .applied false
  | .constant _ => return .applied false
  | _ => do
    let a ← .call (Access.activity r.scheduler) .done
    .call (Access.setActivity r.scheduler (change a)) .done
    return .applied true

/-- What a call does through a resolver. -/
def Call.action (contexts : List String) (r : Resolver) : Call → Action Answer
  | .bind c => do
    r.perform (Resolver.bind c)
    return .ok
  | .bindAddress c => do
    r.perform (Resolver.bindAddress (.context c))
    return .ok
  | .unbind => do
    r.perform Resolver.unbind
    return .ok
  | .current => do
    let address ← r.perform Resolver.current
    return .ofAddress contexts address
  | .current? => do
    let p ← r.perform Resolver.current?
    return .ofPointer contexts p
  | .countCalls amount => do
    match ← r.countCalls amount with
    | (.context c, some calls) => return .counted c calls
    | _ => return .refused .dangling
  | .resolve => do
    let found ← r.perform Resolver.resolve
    return .resolved found
  | .hold p => do
    r.perform (Resolver.hold p)
    return .ok
  | .held => do
    let p ← r.perform Resolver.held
    return .pointer p
  | .backendName => return .backendName r.backend.name
  | .ownsThread => do
    let active ← r.perform Resolver.ownsThread
    return .active active
  | .runningFiber => do
    match ← r.perform Resolver.runningFiber with
    | some f =>
      let c ← r.perform (Resolver.contextOf f)
      return .fiber (some c)
    | none => return .fiber none
  | .enter c => reschedule r fun _ => .running c
  | .leave => reschedule r fun _ => .idle
  | .setActive active => reschedule r fun a => { a with active }
  | .setFiber c => reschedule r fun a => { a with fiber := c.map Fiber.mk }

/-! ## Services -/

/-- What a use of the log or of the platform does. -/
def Service.action : Service → Action Answer
  | .log level text => do
    Log.write level (.text text)
    return .ok
  | .setLevel level => do
    Log.setLevel level
    return .ok
  | .setFlush flush => do
    Log.setFlush flush
    return .ok
  | .load => do
    Log.load
    return .ok
  | .currentLevel => do
    let level ← Log.currentLevel
    return .level level
  | .isEnabled level => do
    let enabled ← Log.isEnabled level
    return .enabled enabled
  | .environmentSettings => do
    let settings ← Log.environmentSettings
    return .settings settings
  | .processBase => do
    let n ← Kernel.processBase
    return .base n
  | .askRelease => do
    match ← Kernel.askRelease with
    | .ok text => return .release text
    | .error e => return .noRelease e
  | .reportedBase release => do
    let n ← Kernel.reportedBase release
    return .base n

end ExecContext.Session
