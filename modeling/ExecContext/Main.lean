import ExecContext.Demo.Timing
import ExecContext.Demo.Workers

set_option autoImplicit false

/-!
# Command line

`workers` runs the workers with fibers and `timing` times the resolution. Both read their settings
from the environment and the release from the running kernel.
-/

namespace ExecContext.Main

/-- The environment variables that the programs read. -/
def variableNames : List String :=
  [Log.levelVariable, Log.flushVariable, Demo.Timing.iterationsVariable]

/-- The file in which the kernel gives its release. -/
def releaseFile : String := "/proc/sys/kernel/osrelease"

/-- The code of the failure to read that file. -/
def releaseFailure : Int32 := 2

/-- The platform that the program runs on. -/
def platform : IO Platform := do
  let uname ←
    try
      let text ← IO.FS.readFile releaseFile
      pure (Kernel.UnameReply.field text.toUTF8.toList)
    catch _ =>
      pure (Kernel.UnameReply.failure releaseFailure)
  let mut os := Platform.fresh uname (.plain 0)
  for name in variableNames do
    if let some value ← IO.getEnv name then
      os := os.setVariable name (some value.toUTF8.toList)
  return os

/-- Contexts and keys by their numbers. -/
def naming : Log.Naming where
  address
    | .context c => "ctx" ++ toString c
    | .foreign w => Text.hexadecimal w.toNat
  key k := toString k

/-- Shows events where they belong: the log on the standard error, lines on the standard output. -/
def showEvents (time : String) (events : List Event) : IO Unit := do
  let out ← IO.getStdout
  let err ← IO.getStderr
  for event in events do
    match event with
    | .logged _ chunk => err.putStr (chunk.render naming)
    | .flushed _ => err.flush
    | .printed _ line => out.putStrLn (line.render time)
    | .observed .. => pure ()

/-- Runs the workers with fibers. -/
def runWorkers : IO UInt32 := do
  let exit := Demo.Workers.run ⟨false⟩ (← platform)
  showEvents "" exit.events
  return exit.code.toUInt32

/-- Runs the measurements, each between two readings of the clock. -/
def runTiming : IO UInt32 := do
  let mut process := Process.fresh (← platform)
  let opening := process.run Process.mainThread Demo.Timing.opening
  showEvents "" opening.events
  process := opening.process
  match opening.outcome with
  | .returned n =>
    for m in Demo.Timing.measurements do
      let before ← IO.monoNanosNow
      let start := process
      let finish ← IO.lazyPure fun _ => start.run Process.mainThread (m.action n)
      let after ← IO.monoNanosNow
      showEvents (Demo.Timing.perIteration (after - before) n) finish.events
      process := finish.process
      if !finish.hasReturned then return Demo.Workers.failureCode.toUInt32
    return 0
  | _ => return Demo.Workers.failureCode.toUInt32

end ExecContext.Main

/-- Runs the program that the first argument names. -/
def main (args : List String) : IO UInt32 :=
  match args with
  | ["workers"] => ExecContext.Main.runWorkers
  | ["timing"] => ExecContext.Main.runTiming
  | _ => do
    IO.eprintln "usage: workers | timing"
    return 2
