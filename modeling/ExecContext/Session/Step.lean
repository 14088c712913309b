import ExecContext.Resolver.Serve

set_option autoImplicit false

/-!
# Sessions

A session sets up contexts, resolvers and threads in a fresh process and then takes steps, each on
one thread and finished before the next begins. This module says what a session starts from, what
its steps are and how they can be answered.
-/

namespace ExecContext.Session

/-! ## What a session starts from -/

/-- What the steps of a session may address. -/
inductive Scope where
  /-- the threads of the session; nothing is logged -/
  | threads
  /-- the whole process: its main thread, its log, its platform -/
  | process
  deriving DecidableEq, Repr, Inhabited

/-- The backend chosen for a resolver. -/
inductive BackendChoice where
  /-- one backend, whatever the build -/
  | fixed (backend : Backend)
  /-- the backend of the platform -/
  | platform
  deriving DecidableEq, Repr, Inhabited

/-- The backend that a choice means under a build. -/
def BackendChoice.backend (build : Build) : BackendChoice → Backend
  | .fixed backend => backend
  | .platform => build.platform

/-- A resolver to set up. Each one has a scheduler of its own. -/
structure ResolverSetup where
  backend : BackendChoice
  scheduler : SchedulerKind
  deriving DecidableEq, Repr, Inhabited

/-- What a session starts from. -/
structure Setup where
  scope : Scope
  build : Build
  /-- the names of the contexts -/
  contexts : List String
  resolvers : List ResolverSetup
  /-- the names of the threads that are started at once -/
  threads : List (Option String)
  environment : List (String × List UInt8)
  uname : Kernel.UnameReply
  host : Host
  deriving Inhabited

/-! ## Steps -/

/-- The beginning of the name of every environment variable that a session may change. -/
def variableStem : String := "RTLOCAL_"

/-- A change of the platform that a session may make. -/
def admitsChange : Platform.Change → Bool
  | .setVariable name _ => variableStem.toList.isPrefixOf name.toList
  | .setUname _ => true
  | .setFaults _ _ => true

@[simp] theorem admitsChange_setVariable (name : String) (value : Option (List UInt8)) :
    admitsChange (.setVariable name value) = true ↔ variableStem.toList <+: name.toList := by
  simp [admitsChange]

/-- A thread as a step refers to it. -/
inductive ThreadRef where
  /-- the main thread -/
  | main
  /-- a thread of the session, by its place among those started -/
  | started (n : Nat)
  deriving DecidableEq, Repr, Inhabited

/-- A use of a resolver. -/
inductive Call where
  | bind (c : ContextId)
  | bindAddress (c : ContextId)
  | unbind
  | current
  | current?
  /-- add to the call counter of the current context -/
  | countCalls (amount : Int64)
  | resolve
  /-- hand a pointer to the backend -/
  | hold (p : Pointer)
  /-- ask the backend for its pointer -/
  | held
  | backendName
  | ownsThread
  | runningFiber
  /-- the scheduler runs a fiber -/
  | enter (c : ContextId)
  /-- the scheduler stops running fibers -/
  | leave
  | setActive (active : Bool)
  | setFiber (c : Option ContextId)
  deriving DecidableEq, Repr, Inhabited

/-- The context that a call names. -/
def Call.context? : Call → Option ContextId
  | .bind c => some c
  | .bindAddress c => some c
  | .hold (some (.context c)) => some c
  | .enter c => some c
  | .setFiber c => c
  | _ => none

/-- The call reads through the pointer that it finds. -/
def Call.followsPointer : Call → Bool
  | .current => true
  | .current? => true
  | .countCalls _ => true
  | _ => false

/-- A use of the log or of the platform. -/
inductive Service where
  | log (level : Log.Level) (text : String)
  | setLevel (level : Log.Level)
  | setFlush (flush : Bool)
  | load
  | currentLevel
  | isEnabled (level : Log.Level)
  | environmentSettings
  | processBase
  | askRelease
  | reportedBase (release : Except Kernel.ProbeFailure String)

/-- Why a step is refused. -/
inductive Refusal where
  /-- the thread was never started or has ended -/
  | noThread
  /-- there is no such resolver -/
  | noResolver
  /-- the step is not known, or lacks something -/
  | badStep
  /-- the step's argument cannot be read -/
  | badInput
  /-- the thread is bound to something that is not a context -/
  | dangling
  /-- the step would wait for ever -/
  | blocked
  deriving DecidableEq, Repr, Inhabited

/-- What a thread is asked to do. -/
inductive Task where
  /-- a use of resolver `r`; `none` for one that is not known -/
  | resolver (r : Option Nat) (call : Option Call)
  /-- a use of the log or of the platform -/
  | service (s : Service)
  /-- a change of the platform -/
  | change (c : Platform.Change)
  /-- how often was the platform called? -/
  | counts
  /-- something that cannot be read -/
  | unreadable (reason : Refusal)

/-- A step of a session. -/
inductive Step where
  /-- a thread does something -/
  | act (t : Option ThreadRef) (task : Task)
  /-- a thread is started -/
  | spawn (name : Option String)
  /-- a thread of the session ends -/
  | exit (t : Option ThreadRef)
  /-- new threads do the same at once -/
  | race (n : Nat) (task : Task)
  /-- new threads bind themselves to the contexts in turn at once; each then asks for its own -/
  | raceBind (n : Nat) (r : Option Nat)
  /-- the step cannot be read -/
  | unreadable (reason : Refusal)

/-! ## Answers -/

/-- The answer to what a thread did. -/
inductive Answer where
  /-- it is done, with nothing to tell -/
  | ok
  /-- the scheduler was there to be changed -/
  | applied (there : Bool)
  /-- the current context, with its name -/
  | bound (c : ContextId) (name : String)
  /-- there is no current context -/
  | unbound
  /-- the current context, with its call counter -/
  | counted (c : ContextId) (calls : Int64)
  | resolved (found : Resolution)
  | pointer (p : Pointer)
  | backendName (name : String)
  | active (yes : Bool)
  | fiber (c : Option ContextId)
  | level (level : Log.Level)
  | enabled (yes : Bool)
  | settings (settings : Log.Settings)
  | base (n : Nat)
  | release (text : String)
  | noRelease (failure : Kernel.ProbeFailure)
  | counts (uname create : Nat)
  | started (n : Nat)
  /-- it failed with this report -/
  | panicked (message : String)
  | refused (reason : Refusal)
  deriving DecidableEq, Repr, Inhabited

/-- An answer, with the observed requests that led to it. -/
structure Report where
  answer : Answer
  observed : List Resolver.Query
  deriving DecidableEq, Repr, Inhabited

/-- The reports of a step. -/
inductive Reply where
  /-- of one thread -/
  | single (report : Report)
  /-- of each racer -/
  | race (reports : List Report)
  /-- of each racer's binding, and of what it then finds -/
  | bindings (reports : List (Report × Report))
  deriving DecidableEq, Repr, Inhabited

/-- What came of a step: the reports, and all that was seen of it. -/
structure Result where
  reply : Reply
  events : List Event
  deriving DecidableEq, Repr, Inhabited

end ExecContext.Session
