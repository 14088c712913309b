import ExecContext.Process.Run
import ExecContext.Resolver.Serve

set_option autoImplicit false

/-!
# Timing the resolution

The current context is resolved over and over: through the native backend, through the key backend,
and for a fiber that always runs. Each measurement prints one row. The number of repetitions comes
from the environment.
-/

namespace ExecContext.Demo.Timing

/-! ## The number of repetitions -/

/-- The variable of the number of repetitions. -/
def iterationsVariable : String := "RTLOCAL_BENCH_ITERS"

/-- The number of repetitions where the variable gives none. -/
def defaultIterations : Nat := 50000000

/-- The number of repetitions that a text gives: a numeral of 64 bits. -/
def readIterations (text : String) : Option Nat :=
  Text.numeral? UInt64.size text.toList

/-- Reads the number of repetitions from the environment. -/
def iterations : Action Nat := do
  let text ← .call (Access.readVariable iterationsVariable) .done
  return (text.bind readIterations).getD defaultIterations

/-! ## Measurements -/

/-- The context that the thread is bound to. -/
def threadContext : ContextId := 0

/-- The context of the fiber. -/
def fiberContext : ContextId := 1

/-- One measurement: a resolver, and what it resolves. -/
structure Measurement where
  label : String
  resolver : Resolver
  deriving DecidableEq, Repr, Inhabited

/-- The measurements in order. -/
def measurements : List Measurement :=
  [⟨"thread", ⟨.absent, 0⟩, .native⟩,
   ⟨"thread", ⟨.absent, 1⟩, .key⟩,
   ⟨"fiber", ⟨.constant ⟨fiberContext⟩, 2⟩, .native⟩]

/-- A text filled up with spaces to a width. -/
def padTo (width : Nat) (text : String) : String :=
  text ++ String.ofList (List.replicate (width - text.length) ' ')

/-- The row of a measurement, up to the time. -/
def Measurement.row (m : Measurement) : String :=
  padTo 14 m.resolver.backend.name ++ " " ++ padTo 10 m.label ++ " "

/-- Resolves the current context `n` times. -/
def resolveTimes (r : Resolver) : Nat → Action Unit
  | 0 => return ()
  | n + 1 => do
    let _ ← r.perform Resolver.current
    resolveTimes r n

/-- Binds the thread, resolves `n` times and prints the row. -/
def Measurement.action (m : Measurement) (n : Nat) : Action Unit := do
  m.resolver.perform (Resolver.bind threadContext)
  resolveTimes m.resolver n
  .call (Access.print (.timing m.row)) .done

/-! ## The program -/

/-- Prints the heading; the result is the number of repetitions. -/
def opening : Action Nat := do
  let n ← iterations
  .call (Access.print
    (.text ("=== rtlocal Resolution Benchmark (" ++ toString n ++ " iterations) ==="))) .done
  .call (Access.print (.text "")) .done
  return n

/-- Takes measurements one after another. -/
def takeAll (n : Nat) : List Measurement → Action Unit
  | [] => return ()
  | m :: rest => do
    m.action n
    takeAll n rest

/-- The whole program. -/
def program : Action Unit := do
  let n ← opening
  takeAll n measurements

/-- Runs the program on the main thread of a fresh process. -/
def run (platform : Platform) : Finish Unit :=
  (Process.fresh platform).run Process.mainThread program

/-- A time per repetition in nanoseconds with two decimals, right-aligned to eight places. -/
def perIteration (nanoseconds n : Nat) : String :=
  let text :=
    if n = 0 then if nanoseconds = 0 then "NaN" else "inf"
    else
      let hundredths := (200 * nanoseconds + n) / (2 * n)
      let fraction := toString (hundredths % 100)
      toString (hundredths / 100) ++ "." ++ (if fraction.length < 2 then "0" else "") ++ fraction
  String.ofList (List.replicate (8 - text.length) ' ') ++ text

end ExecContext.Demo.Timing
