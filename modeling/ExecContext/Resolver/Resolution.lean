import ExecContext.Resolver.Query

set_option autoImplicit false

/-!
# Resolving and binding

While a scheduler owns the calling thread, the context of the fiber that runs there is the current
one. Otherwise, and while the scheduler runs no fiber, it is the context that the thread was bound
to last. Binding never asks the scheduler.
-/

namespace ExecContext

/-- Where the current context was found. -/
inductive Resolution where
  /-- the context of the fiber that runs on the thread -/
  | fiber (c : ContextId)
  /-- what is bound to the thread -/
  | thread (address : Address)
  /-- nothing is bound to the thread -/
  | unbound
  deriving DecidableEq, Repr, Inhabited

namespace Resolution

/-- A pointer to the context found. -/
def toPointer : Resolution → Pointer
  | .fiber c => some (.context c)
  | .thread address => some address
  | .unbound => none

/-- The context is that of a fiber. -/
def isFiber : Resolution → Bool
  | .fiber _ => true
  | _ => false

/-- The resolution that the pointer of a thread gives. -/
def ofPointer : Pointer → Resolution
  | some address => .thread address
  | none => .unbound

@[simp] theorem toPointer_ofPointer (p : Pointer) : (ofPointer p).toPointer = p := by
  cases p <;> rfl

end Resolution

namespace Resolver

/-! ## Resolving -/

/-- Resolves by what is bound to the thread. -/
def resolveThread : Operation Resolution := do
  let p ← held
  return .ofPointer p

/-- Resolves the context of whatever runs on the calling thread. -/
def resolve : Operation Resolution := do
  if ← ownsThread then
    match ← runningFiber with
    | some f =>
      let c ← contextOf f
      return .fiber c
    | none => resolveThread
  else
    resolveThread

/-- A pointer to the current context, null if there is none. -/
def current? : Operation Pointer := do
  let found ← resolve
  return found.toPointer

/-- The address of the current context; it is a failure if there is none. -/
def current : Operation Address := do
  match ← current? with
  | some address => return address
  | none => .fail .unbound

/-! ## Binding -/

/-- Binds the calling thread to whatever is at an address. -/
def bindAddress (address : Address) : Operation Unit := do
  announce address
  hold (some address)

/-- Binds the calling thread to a context. -/
def bind (c : ContextId) : Operation Unit :=
  bindAddress (.context c)

/-- Ends the binding of the calling thread. -/
def unbind : Operation Unit :=
  hold none

end Resolver

end ExecContext
