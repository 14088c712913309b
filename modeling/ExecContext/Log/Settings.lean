import ExecContext.Log.Level
import ExecContext.Program

set_option autoImplicit false

/-!
# Log settings

The level up to which records are written, and whether each record is flushed. Both are looked up in
two variables; a variable that is not set, or a level that cannot be read, leaves the default.
-/

namespace ExecContext.Log

/-- Looking up a variable by its name gives its text, if it is set. -/
abbrev Lookup : Signature where
  Request := String
  Answer _ := Option String

/-- The variable of the level. -/
def levelVariable : String := "RTLOCAL_LOG_LEVEL"

/-- The variable of the flush flag. -/
def flushVariable : String := "RTLOCAL_FLUSH_EPRINT"

/-- The words that turn a flag on. -/
def onWords : List (List Char) :=
  ["1".toList, "true".toList, "yes".toList, "on".toList]

/-- Whether a text turns a flag on. -/
def readFlag (text : String) : Bool :=
  onWords.contains (Text.keyword text)

/-- The settings of the log. -/
structure Settings where
  level : Level
  flush : Bool
  deriving DecidableEq, Repr

namespace Settings

/-- The settings where no variable says otherwise. -/
def default : Settings := ⟨.warn, false⟩

instance : Inhabited Settings := ⟨default⟩

/-- The settings that the texts of the two variables give. -/
def ofTexts (level flush : Option String) : Settings where
  level := (level.bind Level.read?).getD default.level
  flush := (flush.map readFlag).getD default.flush

/-- Looks up the two variables, the level first. -/
def lookedUp {ε : Type} : Program Lookup ε Settings :=
  .call levelVariable fun level =>
    .call flushVariable fun flush =>
      .done (ofTexts level flush)

/-- The settings as a term. -/
def term (s : Settings) : String :=
  "LogConfig \x7b level: " ++ s.level.name ++ ", flush: " ++ toString s.flush ++ " \x7d"

end Settings

end ExecContext.Log
