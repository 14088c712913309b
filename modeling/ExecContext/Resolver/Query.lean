import ExecContext.Program
import ExecContext.Storage.Backend

set_option autoImplicit false

/-!
# What a resolver asks

A resolver works with two collaborators: a scheduler, which may run fibers on the calling thread,
and a backend, which holds the thread's pointer. All that a resolver asks of them, and the notice
that it gives before it binds an address, is a request here. What the collaborators answer is left
open, so an operation is the same program whoever serves it.
-/

namespace ExecContext

/-- A fiber, which runs under one context. -/
structure Fiber where
  context : ContextId
  deriving DecidableEq, Repr, Inhabited

/-- Why an operation could not return. -/
inductive Cause where
  /-- no context is bound to the calling thread -/
  | unbound
  /-- the backend could not hold a pointer -/
  | storage (failure : StorageFailure)
  deriving DecidableEq, Repr, Inhabited

/-- The report of a failure on a thread with the given name. -/
def Cause.message (thread : Option String) : Cause → String
  | .unbound =>
    "rtlocal: no execution context registered on thread " ++ thread.getD "<unnamed>"
  | .storage failure => "rtlocal: " ++ failure.message

namespace Resolver

/-! ## Requests -/

/-- A request of a resolver. -/
inductive Query where
  /-- does the scheduler own the calling thread? -/
  | ownsThread
  /-- which fiber runs on the calling thread? -/
  | runningFiber
  /-- which context does this fiber run under? -/
  | contextOf (f : Fiber)
  /-- which pointer does the backend hold for the calling thread? -/
  | held
  /-- the backend is to hold this pointer for the calling thread -/
  | hold (p : Pointer)
  /-- this address is about to be bound -/
  | announce (address : Address)
  deriving DecidableEq, Repr, Inhabited

/-- The answer to a request. -/
abbrev Query.Answer : Query → Type
  | .ownsThread => Bool
  | .runningFiber => Option Fiber
  | .contextOf _ => ContextId
  | .held => Pointer
  | .hold _ => Unit
  | .announce _ => Unit

/-- The requests of a resolver, with their answers. -/
abbrev Queries : Signature where
  Request := Query
  Answer := Query.Answer

/-- An operation of a resolver. -/
abbrev Operation (α : Type) := Program Queries Cause α

/-! ## Operations of one request -/

/-- Asks the scheduler whether it owns the calling thread. -/
def ownsThread : Operation Bool := .call Query.ownsThread .done

/-- Asks the scheduler for the fiber that runs on the calling thread. -/
def runningFiber : Operation (Option Fiber) := .call Query.runningFiber .done

/-- Asks a fiber for its context. -/
def contextOf (f : Fiber) : Operation ContextId := .call (Query.contextOf f) .done

/-- Asks the backend for the pointer that it holds for the calling thread. -/
def held : Operation Pointer := .call Query.held .done

/-- Lets the backend hold a pointer for the calling thread. -/
def hold (p : Pointer) : Operation Unit := .call (Query.hold p) .done

/-- Gives notice of a binding. -/
def announce (address : Address) : Operation Unit := .call (Query.announce address) .done

end Resolver

end ExecContext
