import ExecContext.Process.Run
import ExecContext.Resolver.Serve

set_option autoImplicit false

/-!
# Workers with fibers

Two workers, each bound to a context of its own, run three fibers one after another, and each fiber
has its own context too. Every worker calls into the engine before, within and after its fibers, and
the context that such a call finds is charged with it. A worker's own context must end up with the
calls made outside the fibers only.
-/

namespace ExecContext.Demo.Workers

/-! ## Contexts -/

/-- The number of workers. -/
def workerCount : Nat := 2

/-- The number of fibers of each worker. -/
def fiberCount : Nat := 3

/-- The context of a worker. -/
def ownContext (w : Nat) : ContextId := (fiberCount + 1) * w

/-- The context of a worker's fiber. -/
def fiberContext (w f : Nat) : ContextId := ownContext w + 1 + f

/-- The name of a context. -/
def contextName (c : ContextId) : String :=
  let w := c / (fiberCount + 1)
  match c % (fiberCount + 1) with
  | 0 => "thread-rt-" ++ toString w
  | f + 1 => "fiber-rt-" ++ toString w ++ "." ++ toString f

/-- The name of the context at an address. -/
def nameAt : Address → String
  | .context c => contextName c
  | .foreign _ => "?"

/-- The name of a worker's thread. -/
def workerName (w : Nat) : String := "worker-" ++ toString w

/-! ## The workers -/

/-- The resolver that all workers use: the fibers of each thread, the platform's backend. -/
def resolver (build : Build) : Resolver where
  scheduler := ⟨.perThread, 0⟩
  backend := build.platform

/-- Prints a line of text. -/
def print (words : String) : Action Unit := .call (Access.print (.text words)) .done

/-- A call into the engine, charged to the current context and reported under a label. -/
def callEngine (r : Resolver) (label : String) : Action Unit := do
  let (address, _) ← r.countCalls 1
  let tag ← .call Access.tag .done
  let thread :=
    match tag with
    | .named name => name
    | .numbered _ => "?"
  print ("[" ++ thread ++ "] " ++ label ++ " -> runtime " ++ nameAt address)

/-- Runs one fiber of a worker: two calls under the fiber's context. -/
def runFiber (r : Resolver) (w f : Nat) : Action Unit := do
  .call (Access.setActivity r.scheduler (.running (fiberContext w f))) .done
  callEngine r ("fiber " ++ toString f)
  callEngine r ("fiber " ++ toString f ++ " again")
  .call (Access.setActivity r.scheduler .idle) .done

/-- Runs `count` fibers of a worker, from fiber `f` on. -/
def runFibers (r : Resolver) (w f : Nat) : Nat → Action Unit
  | 0 => return ()
  | count + 1 => do
    runFiber r w f
    runFibers r w (f + 1) count

/-- A worker; it returns the calls charged to its own context. -/
def worker (r : Resolver) (w : Nat) : Action Int64 := do
  r.perform (Resolver.bind (ownContext w))
  Log.write .info (.text ("registered " ++ contextName (ownContext w)))
  callEngine r "before fibers"
  runFibers r w 0 fiberCount
  callEngine r "after fibers"
  .call (Access.addCalls (ownContext w) 0) .done

/-- The calls that a worker makes outside its fibers. -/
def expectedCalls : Int64 := 2

/-! ## The main thread -/

/-- What the main thread prints before the workers start. -/
def opening (r : Resolver) : Action Unit := do
  print "=== rtlocal Basic Example ==="
  print ""
  print ("backend: " ++ r.backend.name)
  let base ← Kernel.processBase
  print ("platform offset: " ++ Text.hexadecimal base)
  print ""

/-- What the main thread prints after the workers are done. -/
def closing : Action Unit := do
  print ""
  print "=== Example Complete ==="

/-! ## A whole run -/

/-- The end of a program: its exit code and all that was seen of it. -/
structure Exit where
  code : UInt8
  events : List Event
  deriving Repr, Inhabited

/-- The exit code of a program that failed. -/
def failureCode : UInt8 := 101

/-- How far the workers have come. -/
structure Progress where
  process : Process
  events : List Event
  /-- every worker that is done saw its own calls only -/
  agreed : Bool

/-- A worker returned, and its own context was charged with its own calls. -/
def sawOwnCalls : Outcome Int64 → Bool
  | .returned calls => calls == expectedCalls
  | _ => false

/-- Lets `count` workers run one after another, from worker `w` on, which is one of the orders in
which they may run. -/
def runWorkers (r : Resolver) (w : Nat) : Nat → Progress → Progress
  | 0, p => p
  | count + 1, p =>
    let (t, started) := p.process.start (some (workerName w))
    let finish := started.run t (worker r w)
    runWorkers r (w + 1) count
      { process := finish.process
        events := p.events ++ finish.events
        agreed := p.agreed && sawOwnCalls finish.outcome }

/-- Runs the program in a fresh process on a platform. -/
def run (build : Build) (platform : Platform) : Exit :=
  let r := resolver build
  let first := (Process.fresh platform).run Process.mainThread (opening r)
  match first.outcome with
  | .returned () =>
    let p := runWorkers r 0 workerCount ⟨first.process, first.events, true⟩
    if p.agreed then
      ⟨0, p.events ++ (p.process.run Process.mainThread closing).events⟩
    else
      ⟨failureCode, p.events⟩
  | _ => ⟨failureCode, first.events⟩

end ExecContext.Demo.Workers
