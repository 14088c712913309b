import ExecContext.Process.Run
import ExecContext.Session.Task

set_option autoImplicit false

/-!
# Taking the steps of a session

Each step is answered from the state that the steps before it left. A step is refused, without any
effect, if its thread or its resolver does not exist, or if it names a context that does not exist
or an environment variable that is not the session's to change; a step that would read through a
pointer to something that is not a context is refused as well.
-/

namespace ExecContext

/-! ## The state between two steps -/

/-- A thread of a session. -/
structure Seat where
  thread : ThreadId
  alive : Bool
  deriving DecidableEq, Repr, Inhabited

/-- A session between two steps. -/
structure Session where
  setup : Session.Setup
  process : Process
  /-- the threads of the session in the order in which they were started -/
  seats : List Seat

namespace Session

/-- The platform that a session starts on. -/
def Setup.platform (setup : Setup) : Platform :=
  setup.environment.foldl (fun os entry => os.setVariable entry.1 (some entry.2))
    (Platform.fresh setup.uname setup.host)

/-- The process that a session starts in. Where only threads are addressed the log is off. -/
def Setup.process (setup : Setup) : Process :=
  let fresh := Process.fresh setup.platform
  match setup.scope with
  | .process => fresh
  | .threads => { fresh.setCell .settings (.full ()) with level := .off }

/-- Starts a thread of the session. -/
def spawn (session : Session) (name : Option String) : Session :=
  let (t, process) := session.process.start name
  { session with process := process, seats := session.seats ++ [⟨t, true⟩] }

/-- The session before its first step. -/
def start (setup : Setup) : Session :=
  setup.threads.foldl spawn ⟨setup, setup.process, []⟩

/-- The living thread that a step refers to. -/
def thread? (session : Session) : Option ThreadRef → Option ThreadId
  | none => none
  | some .main => if session.setup.scope = .process then some Process.mainThread else none
  | some (.started n) =>
    session.seats[n]?.bind fun seat => if seat.alive then some seat.thread else none

/-- The resolver of a given number. -/
def resolver? (session : Session) (r : Option Nat) : Option Resolver := do
  let number ← r
  let setup ← session.setup.resolvers[number]?
  return ⟨⟨setup.scheduler, number⟩, setup.backend.backend session.setup.build⟩

/-! ## One thread's part of a step -/

/-- What came of a part of a step: its reports, what was seen of it, and the session after it. -/
structure Part (α : Type) where
  reports : α
  events : List Event
  next : Session

/-- The pointer that a backend holds for a thread, looked at unobserved. -/
def heldBy (session : Session) (t : ThreadId) (backend : Backend) : Pointer :=
  match (session.process.run t backend.held).outcome with
  | .returned p => p
  | _ => none

/-- The report on an action of a thread. Requests that led to a failure or to a refusal are left
out. -/
def Report.ofFinish (thread : Option String) (finish : Finish Answer) : Report :=
  match finish.outcome with
  | .returned (.refused reason) => ⟨.refused reason, []⟩
  | .returned answer => ⟨answer, Event.observedQueries finish.events⟩
  | .failed cause => ⟨.panicked (cause.message thread), []⟩
  | .blocked => ⟨.refused .blocked, []⟩

/-- Runs an action of a thread and reports on it. -/
def perform (session : Session) (t : ThreadId) (action : Action Answer) : Part Report :=
  let finish := session.process.run t action
  { reports := .ofFinish (session.process.nameOf t) finish
    events := finish.events
    next := { session with process := finish.process } }

/-- An answer of the session itself, for which nothing is run. -/
def tell (session : Session) (answer : Answer) : Part Report :=
  ⟨⟨answer, []⟩, [], session⟩

/-- A refusal, which changes nothing. -/
def refuse (session : Session) (reason : Refusal) : Part Report :=
  session.tell (.refused reason)

/-- The session after a change of its platform. -/
def changePlatform (session : Session) (c : Platform.Change) : Session :=
  { session with process := session.process.changePlatform c }

/-- A call names a context that does not exist. -/
def namesNoContext (session : Session) (call : Call) : Bool :=
  call.context?.any (session.setup.contexts.length ≤ ·)

/-- A thread makes a call through a resolver. -/
def makeCall (session : Session) (t : ThreadId) (resolver : Resolver) (call : Call) : Part Report :=
  if session.namesNoContext call then
    session.refuse .badStep
  else if call.followsPointer && (session.heldBy t resolver.backend).isForeign then
    session.refuse .dangling
  else
    session.perform t (call.action session.setup.contexts resolver)

/-- A thread does a task. -/
def doTask (session : Session) (t : ThreadId) : Task → Part Report
  | .unreadable reason => session.refuse reason
  | .service s => session.perform t s.action
  | .change c =>
    if admitsChange c then (session.changePlatform c).tell .ok else session.refuse .badStep
  | .counts =>
    let os := session.process.platform
    session.tell (.counts os.unameCalls os.createCalls)
  | .resolver r call =>
    match session.resolver? r, call with
    | none, _ => session.refuse .noResolver
    | some _, none => session.refuse .badStep
    | some resolver, some call => session.makeCall t resolver call

/-! ## Races -/

/-- The name of the threads of a race. -/
def racerName : String := "racer"

/-- The largest number of racers. -/
def raceLimit : Nat := 32

/-- Starts a racer, who is no thread that later steps can refer to. -/
def startRacer (session : Session) : ThreadId × Session :=
  let (t, process) := session.process.start (some racerName)
  (t, { session with process := process })

/-- Racers do a task one after another, which is one of the orders in which they may run. -/
def raceTask (session : Session) (task : Task) : Nat → Part (List Report)
  | 0 => ⟨[], [], session⟩
  | n + 1 =>
    let (t, started) := session.startRacer
    let own := started.doTask t task
    let others := own.next.raceTask task n
    ⟨own.reports :: others.reports, own.events ++ others.events, others.next⟩

/-- Racers bind themselves to the contexts in turn, from context `first` on, and each then asks for
its current context. -/
def raceBind (session : Session) (r : Option Nat) (first : Nat) :
    Nat → Part (List (Report × Report))
  | 0 => ⟨[], [], session⟩
  | n + 1 =>
    let c := first % session.setup.contexts.length
    let (t, started) := session.startRacer
    let bound := started.doTask t (.resolver r (some (.bind c)))
    let found := bound.next.doTask t (.resolver r (some .current?))
    let others := found.next.raceBind r (first + 1) n
    { reports := (bound.reports, found.reports) :: others.reports
      events := bound.events ++ found.events ++ others.events
      next := others.next }

/-! ## Steps -/

/-- The result of a step that only answers. -/
def Result.ofAnswer (answer : Answer) : Result :=
  ⟨.single ⟨answer, []⟩, []⟩

/-- Takes a step. -/
def step (session : Session) : Step → Result × Session
  | .act t task =>
    match session.thread? t with
    | none => (.ofAnswer (.refused .noThread), session)
    | some t =>
      let part := session.doTask t task
      (⟨.single part.reports, part.events⟩, part.next)
  | .spawn name => (.ofAnswer (.started session.seats.length), session.spawn name)
  | .exit (some (.started n)) =>
    match session.thread? (some (.started n)) with
    | none => (.ofAnswer (.refused .noThread), session)
    | some t =>
      (.ofAnswer .ok, { session with seats := session.seats.set n ⟨t, false⟩ })
  | .exit _ => (.ofAnswer (.refused .noThread), session)
  | .race n task =>
    if raceLimit < n then
      (.ofAnswer (.refused .badStep), session)
    else
      let part := session.raceTask task n
      (⟨.race part.reports, part.events⟩, part.next)
  | .raceBind n r =>
    if raceLimit < n then
      (.ofAnswer (.refused .badStep), session)
    else
      let part := session.raceBind r 0 n
      (⟨.bindings part.reports, part.events⟩, part.next)
  | .unreadable reason => (.ofAnswer (.refused reason), session)

/-- Takes steps one after another. -/
def steps (session : Session) : List Step → List Result × Session
  | [] => ([], session)
  | s :: rest =>
    let (result, next) := session.step s
    let (results, last) := next.steps rest
    (result :: results, last)

/-- The results of a whole session. -/
def run (setup : Setup) (list : List Step) : List Result :=
  ((start setup).steps list).1

end Session

end ExecContext
