import ExecContext.Kernel.Uname
import ExecContext.Log.Record
import ExecContext.Process.Cell
import ExecContext.Process.Host
import ExecContext.Resolver.Scheduler

set_option autoImplicit false

/-!
# The state of a process

All that outlives one operation: the one-time cells, the log's settings and lock, what each backend
holds for each thread, the activities of the schedulers, the call counters of the contexts, and the
platform below.
-/

namespace ExecContext

/-! ## The platform -/

/-- The platform under a process: its environment, what it gives to the process, what its calls
answer, and how often two of them were made. -/
structure Platform where
  /-- the bytes of each environment variable that is set -/
  environment : String → Option (List UInt8)
  /-- what the kernel reports -/
  uname : Kernel.UnameReply
  /-- the code with which creating a key fails; 0 if it does not fail -/
  createFault : Int32
  /-- the code with which storing behind a key fails; 0 if it does not fail -/
  storeFault : Int32
  /-- the keys and the segments that the process is given -/
  host : Host
  /-- the number of keys created -/
  keysMade : Nat
  /-- how often the kernel was asked -/
  unameCalls : Nat
  /-- how often a key was asked for -/
  createCalls : Nat

namespace Platform

/-- A platform whose calls succeed, on which nothing has happened. -/
def fresh (uname : Kernel.UnameReply) (host : Host) : Platform where
  environment _ := none
  uname := uname
  createFault := 0
  storeFault := 0
  host := host
  keysMade := 0
  unameCalls := 0
  createCalls := 0

/-- The key that is created next. -/
def nextKey (os : Platform) : Key := os.host.keys.key os.keysMade

/-- The key has been created. -/
def Created (os : Platform) (k : Key) : Prop :=
  ∃ i < os.keysMade, os.host.keys.key i = k

/-- Every key is new. -/
theorem not_created_nextKey (os : Platform) : ¬os.Created os.nextKey := by
  rintro ⟨i, hi, hkey⟩
  exact Nat.ne_of_lt hi (os.host.keys.distinct _ _ hkey)

/-- A key stays created while more keys are. -/
theorem Created.mono {os os' : Platform} {k : Key} (h : os.Created k) (hhost : os'.host = os.host)
    (hmade : os.keysMade ≤ os'.keysMade) : os'.Created k := by
  obtain ⟨i, hi, hkey⟩ := h
  refine ⟨i, Nat.lt_of_lt_of_le hi hmade, ?_⟩
  rw [hhost]
  exact hkey

/-- The platform after an environment variable is set, or unset by `none`. -/
def setVariable (os : Platform) (name : String) (value : Option (List UInt8)) : Platform :=
  { os with environment := fun n => if n = name then value else os.environment n }

/-- A change of the platform from outside the process. -/
inductive Change where
  /-- an environment variable is set, or unset by `none` -/
  | setVariable (name : String) (value : Option (List UInt8))
  /-- the kernel reports something else -/
  | setUname (reply : Kernel.UnameReply)
  /-- creating a key or storing behind one fails with another code; `none` leaves a code as it is -/
  | setFaults (create store : Option Int32)
  deriving DecidableEq, Repr, Inhabited

/-- The platform after a change. -/
def change (os : Platform) : Change → Platform
  | .setVariable name value => os.setVariable name value
  | .setUname reply => { os with uname := reply }
  | .setFaults create store =>
    { os with
      createFault := create.getD os.createFault
      storeFault := store.getD os.storeFault }

/-- No key is created by a change from outside. -/
theorem Created.change {os : Platform} {k : Key} (h : os.Created k) (c : Change) :
    (os.change c).Created k := by
  cases c <;> exact h

/-- The platform without the account of what was asked of it. -/
def surroundings (os : Platform) : Platform :=
  { os with keysMade := 0, unameCalls := 0, createCalls := 0 }

/-- The text of an environment variable; bytes that are not well-formed text count as unset. -/
def textOf (os : Platform) (name : String) : Option String :=
  (os.environment name).bind Text.decode?

end Platform

/-! ## The process -/

/-- The state of a process. -/
structure Process where
  /-- the names of the threads started so far, in order; the first is the main thread's -/
  roster : List (Option String)
  /-- the one-time cells -/
  cells : Cells
  /-- the level up to which records are written -/
  level : Log.Level
  /-- each record is flushed -/
  flush : Bool
  /-- the thread that writes to the log -/
  logHolder : Option ThreadId
  /-- what the native backend holds -/
  native : Slots
  /-- what is stored behind each key -/
  specific : Key → Slots
  /-- what the spy backend holds -/
  spy : Slots
  /-- what the schedulers do -/
  activities : Activities
  /-- the call counter of each context -/
  calls : ContextId → Int64
  /-- the platform -/
  platform : Platform

namespace Process

/-- A process of which only the main thread has started and nothing has been used. -/
def fresh (platform : Platform) : Process where
  roster := [some "main"]
  cells := .empty
  level := .warn
  flush := false
  logHolder := none
  native := .empty
  specific _ := .empty
  spy := .empty
  activities := .idle
  calls _ := 0
  platform := platform

/-- The main thread. -/
def mainThread : ThreadId := 1

/-! ## Threads -/

/-- The name of a thread, if it has one. -/
def nameOf (s : Process) (t : ThreadId) : Option String :=
  match t with
  | 0 => none
  | n + 1 => (s.roster[n]?).join

/-- How a thread is named in its records. -/
def tagOf (s : Process) (t : ThreadId) : Log.Tag :=
  match s.nameOf t with
  | some name => .named name
  | none => .numbered t

/-- The process after a change of its platform. -/
def changePlatform (s : Process) (c : Platform.Change) : Process :=
  { s with platform := s.platform.change c }

/-- Starts a thread: its number, and the process with it. -/
def start (s : Process) (name : Option String) : ThreadId × Process :=
  (s.roster.length + 1, { s with roster := s.roster ++ [name] })

end Process

end ExecContext
