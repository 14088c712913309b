import ExecContext.Process.Action

set_option autoImplicit false

/-!
# Writing to the log

The settings are loaded from the environment by whatever uses the log first, unless it is a record
of level `off`, which is never written. A record is written in chunks while the thread holds the
log, so that records of several threads do not mix.
-/

namespace ExecContext.Log

/-! ## Settings in force -/

/-- Reads the settings from the environment. -/
def environmentSettings : Action Settings :=
  Program.serve (fun name => .call (Access.readVariable name) .done) Settings.lookedUp

/-- Puts settings in force. -/
def install (settings : Settings) : Action Unit := do
  .call (Access.storeLevel settings.level) .done
  .call (Access.storeFlush settings.flush) .done

/-- Loads the settings from the environment, unless that has been done. -/
def load : Action Unit :=
  Action.getOrFill .settings do
    let settings ← environmentSettings
    install settings

/-- The level in force. -/
def currentLevel : Action Level := do
  load
  .call Access.loadLevel .done

/-- Overrides the level. -/
def setLevel (level : Level) : Action Unit := do
  load
  .call (Access.storeLevel level) .done

/-- Overrides the flush flag. -/
def setFlush (flush : Bool) : Action Unit := do
  load
  .call (Access.storeFlush flush) .done

/-- Whether records of a level are written. -/
def isEnabled (level : Level) : Action Bool :=
  if level = .off then
    return false
  else do
    let limit ← currentLevel
    return decide (level ≤ limit)

/-! ## Records -/

/-- Writes one chunk. -/
def put (chunk : Chunk) : Action Unit := .call (Access.writeLog chunk) .done

/-- Writes a record while holding the log. -/
def writeRecord (r : Record) : Action Unit := do
  .call Access.lockLog .done
  put (.header r.level r.tag)
  put (.message r.message)
  put .newline
  if ← .call Access.loadFlush .done then
    .call Access.flushLog .done
  .call Access.unlockLog .done

/-- Writes a message of the calling thread, if its level is enabled. -/
def write (level : Level) (message : Message) : Action Unit := do
  if ← isEnabled level then
    let tag ← .call Access.tag .done
    writeRecord ⟨level, tag, message⟩

end ExecContext.Log
