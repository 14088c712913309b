import ExecContext.Kernel.ProcessBase

set_option autoImplicit false

/-!
# Holding a thread's pointer

What each backend does to hold the calling thread's pointer and to give it back. The backends with a
key create it when they are first to hold a pointer, a null pointer included, and give back null
until then. A key that cannot be created, or a pointer that cannot be stored, is reported to the log
and is a failure.
-/

namespace ExecContext.Storage

/-! ## Keys -/

/-- Reports a failure of the platform to the log, then fails with it. -/
def failWith {α : Type} (failure : StorageFailure) : Action α := do
  Log.write .error (.notHeld failure)
  .fail (.storage failure)

/-- Creates a key. -/
def createKey : Action Key := do
  match ← .call Access.createKey .done with
  | .ok key =>
    Log.write .debug (.keyCreated key)
    return key
  | .error code => failWith (.noKey code)

/-- Stores a pointer of the calling thread behind a key. -/
def storeBehind (key : Key) (p : Pointer) : Action Unit := do
  let code ← .call (Access.setSpecific key p) .done
  if code = 0 then
    return ()
  else
    failWith (.notStored code)

/-- The key of the key backend, created by the first use. -/
def processKey : Action Key :=
  Action.getOrFill .key createKey

/-- The slot of the direct backend, set up by the first use: where the slots start, then the key. -/
def directSlot : Action DirectSlot :=
  Action.getOrFill .direct do
    let base ← Kernel.processBase
    let key ← createKey
    let slot : DirectSlot := ⟨key, base⟩
    Log.write .debug (.directReady slot)
    return slot

end ExecContext.Storage

namespace ExecContext.Backend

/-! ## Backends at work -/

/-- Holds a pointer for the calling thread. -/
def hold (p : Pointer) : Backend → Action Unit
  | .native => .call (Access.storeNative p) .done
  | .key => do
    let k ← Storage.processKey
    Storage.storeBehind k p
  | .direct => do
    let slot ← Storage.directSlot
    Storage.storeBehind slot.key p
  | .spy => do
    .call (Access.observe (.hold p)) .done
    .call (Access.storeSpy p) .done

/-- Gives back the pointer held for the calling thread. -/
def held : Backend → Action Pointer
  | .native => .call Access.loadNative .done
  | .key => do
    match ← .call (Access.peek .key) .done with
    | some k => .call (Access.getSpecific k) .done
    | none => return none
  | .direct => do
    match ← .call (Access.peek .direct) .done with
    | some slot => .call (Access.readSlot slot.base slot.key) .done
    | none => return none
  | .spy => do
    .call (Access.observe .held) .done
    .call Access.loadSpy .done

end ExecContext.Backend
