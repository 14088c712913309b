import ExecContext.Kernel.SlotBase
import ExecContext.Log.Level
import ExecContext.Storage.Backend

set_option autoImplicit false

/-!
# Log records

A record is one line: the level's label, the tag of the thread that wrote it, and the message. It is
written in three chunks, the header, the message and the line's end. Messages are kept as what they
say; the spelling of addresses and keys is left to a naming.
-/

namespace ExecContext.Log

/-! ## Messages -/

/-- What a record says. -/
inductive Message where
  /-- an address is about to be bound through a backend -/
  | binding (address : Address) (backend : Backend)
  /-- a key was created -/
  | keyCreated (key : Key)
  /-- a pointer could not be held -/
  | notHeld (failure : StorageFailure)
  /-- the direct backend is set up -/
  | directReady (slot : DirectSlot)
  /-- the kernel was probed -/
  | probed (probe : Kernel.Probe)
  /-- a text of the caller -/
  | text (words : String)
  deriving DecidableEq, Repr, Inhabited

/-- How addresses and keys are spelled. -/
structure Naming where
  address : Address → String
  key : Key → String

/-- The words of a message. -/
def Message.render (naming : Naming) : Message → String
  | .binding address backend =>
    "register " ++ naming.address address ++ " via " ++ backend.name
  | .keyCreated key => "created pthread key " ++ naming.key key
  | .notHeld failure => failure.message
  | .directReady slot =>
    "fast path: key " ++ naming.key slot.key ++ " tsd base " ++ Text.hexadecimal slot.base
  | .probed probe => probe.message
  | .text words => words

/-! ## Records -/

/-- How a thread is named in its records. -/
inductive Tag where
  /-- the name of the thread -/
  | named (name : String)
  /-- the number of a thread without a name -/
  | numbered (t : ThreadId)
  deriving DecidableEq, Repr, Inhabited

/-- The spelling of a tag. -/
def Tag.render : Tag → String
  | .named name => name
  | .numbered t => "ThreadId(" ++ toString t ++ ")"

/-- A record. -/
structure Record where
  level : Level
  tag : Tag
  message : Message
  deriving DecidableEq, Repr, Inhabited

/-- What is written to the log at once. -/
inductive Chunk where
  /-- the level and the thread's tag -/
  | header (level : Level) (tag : Tag)
  /-- the message -/
  | message (m : Message)
  /-- the end of the line -/
  | newline
  deriving DecidableEq, Repr, Inhabited

/-- The text of a chunk. -/
def Chunk.render (naming : Naming) : Chunk → String
  | .header level tag => "[" ++ level.label ++ "] rtlocal[" ++ tag.render ++ "] "
  | .message m => m.render naming
  | .newline => "\n"

/-- The chunks of a record in the order in which they are written. -/
def Record.chunks (r : Record) : List Chunk :=
  [.header r.level r.tag, .message r.message, .newline]

/-- The text of chunks written one after another. -/
def renderChunks (naming : Naming) (chunks : List Chunk) : String :=
  String.join (chunks.map (Chunk.render naming))

end ExecContext.Log
