import ExecContext.Log.Record
import ExecContext.Resolver.Query

set_option autoImplicit false

/-!
# What can be seen of a process

A process is seen by what its threads write to the log, by the lines that they print, and by those
requests to schedulers and backends that are observed. Events are kept in the order in which they
happen; each view picks one kind of them.
-/

namespace ExecContext

/-! ## Lines -/

/-- A line of the standard output. -/
inductive Line where
  /-- a line of text -/
  | text (words : String)
  /-- a line that ends in a measured time -/
  | timing (head : String)
  deriving DecidableEq, Repr, Inhabited

/-- The text of a line, given the time measured. -/
def Line.render (time : String) : Line → String
  | .text words => words
  | .timing head => head ++ time ++ " ns/op"

/-! ## Events -/

/-- Something that a thread does for others to see. -/
inductive Event where
  /-- it writes a chunk to the log -/
  | logged (t : ThreadId) (chunk : Log.Chunk)
  /-- it flushes the log -/
  | flushed (t : ThreadId)
  /-- it prints a line -/
  | printed (t : ThreadId) (line : Line)
  /-- it makes a request that is observed -/
  | observed (t : ThreadId) (q : Resolver.Query)
  deriving DecidableEq, Repr, Inhabited

namespace Event

/-- The chunks written to the log, in order. -/
def logChunks (events : List Event) : List Log.Chunk :=
  events.filterMap fun
    | .logged _ chunk => some chunk
    | _ => none

/-- The lines printed, in order. -/
def printedLines (events : List Event) : List Line :=
  events.filterMap fun
    | .printed _ line => some line
    | _ => none

/-- The requests observed, in order. -/
def observedQueries (events : List Event) : List Resolver.Query :=
  events.filterMap fun
    | .observed _ q => some q
    | _ => none

end Event

end ExecContext
