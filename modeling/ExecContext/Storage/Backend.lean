import ExecContext.Storage.Pointer

set_option autoImplicit false

/-!
# Backends

A backend is a way of holding one pointer for each thread of a process. This module names the
backends, what the one that reads the segment needs, and the ways in which holding a pointer can
fail.
-/

namespace ExecContext

/-- A way of holding one pointer for each thread. -/
inductive Backend where
  /-- a thread-local variable -/
  | native
  /-- behind a key that the process creates once -/
  | key
  /-- behind a key of its own, read straight from the thread's segment -/
  | direct
  /-- a thread-local variable whose uses are observed -/
  | spy
  deriving DecidableEq, Repr, Inhabited

/-- The name of a backend. -/
def Backend.name : Backend → String
  | .native => "native"
  | .key => "pthread-key"
  | .direct => "gs-fast-path"
  | .spy => "spy"

/-- The choice made when the program is built. -/
structure Build where
  /-- the platform's backend is the key backend -/
  keyed : Bool
  deriving DecidableEq, Repr, Inhabited

/-- The backend of the platform under a build. -/
def Build.platform (b : Build) : Backend :=
  if b.keyed then .key else .native

/-- What it takes to read a slot straight from the segment: its key, and where the slots start. -/
structure DirectSlot where
  key : Key
  base : Nat
  deriving DecidableEq, Repr, Inhabited

/-! ## Failures -/

/-- Why a pointer could not be held. Each failure carries the code that the platform answered. -/
inductive StorageFailure where
  /-- no key could be created -/
  | noKey (code : Int32)
  /-- the pointer could not be stored behind the key -/
  | notStored (code : Int32)
  deriving DecidableEq, Repr, Inhabited

namespace StorageFailure

/-- The failure as a sentence. -/
def message : StorageFailure → String
  | .noKey code => "pthread_key_create failed: error " ++ toString code.toInt
  | .notStored code => "pthread_setspecific failed: error " ++ toString code.toInt

/-- The failure as a term. -/
def term : StorageFailure → String
  | .noKey code => "KeyCreate(" ++ toString code.toInt ++ ")"
  | .notStored code => "KeySet(" ++ toString code.toInt ++ ")"

end StorageFailure

end ExecContext
