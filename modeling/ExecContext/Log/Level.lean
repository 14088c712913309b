import ExecContext.Text.Blank
import ExecContext.Text.Numeral

set_option autoImplicit false

/-!
# Log levels

Six levels, the lower the more severe. A level is read from its number or from its name, whatever
the case and the blanks around it.
-/

namespace ExecContext.Log

/-- The severity of a record, and the limit up to which records are written. -/
inductive Level where
  | off
  | error
  | warn
  | info
  | debug
  | trace
  deriving DecidableEq, Repr, Inhabited

namespace Level

/-- The levels in ascending order. -/
def all : List Level := [.off, .error, .warn, .info, .debug, .trace]

/-- The place of a level in the order. -/
def number : Level → Nat
  | .off => 0
  | .error => 1
  | .warn => 2
  | .info => 3
  | .debug => 4
  | .trace => 5

/-- The level of a number; all numbers above the highest level give that level. -/
def ofNumber : Nat → Level
  | 0 => .off
  | 1 => .error
  | 2 => .warn
  | 3 => .info
  | 4 => .debug
  | _ => .trace

@[simp] theorem ofNumber_number (level : Level) : ofNumber level.number = level := by
  cases level <;> rfl

instance : LE Level := ⟨fun a b => a.number ≤ b.number⟩

instance (a b : Level) : Decidable (a ≤ b) :=
  inferInstanceAs (Decidable (a.number ≤ b.number))

theorem le_iff {a b : Level} : a ≤ b ↔ a.number ≤ b.number := Iff.rfl

instance : Ord Level := ⟨fun a b => compare a.number b.number⟩

/-- The label of a level in a record, padded to one width. -/
def label : Level → String
  | .off => "OFF  "
  | .error => "ERROR"
  | .warn => "WARN "
  | .info => "INFO "
  | .debug => "DEBUG"
  | .trace => "TRACE"

/-- The name of a level. -/
def name : Level → String
  | .off => "Off"
  | .error => "Error"
  | .warn => "Warn"
  | .info => "Info"
  | .debug => "Debug"
  | .trace => "Trace"

/-! ## Reading a level -/

/-- The level whose name a keyword is. -/
def ofName? (word : List Char) : Option Level :=
  all.find? fun level => level.name.toList.map Char.toLower == word

/-- The level that a text names. A numeral below 256 decides at once; all else, larger numerals
included, is compared with the names. -/
def read? (text : String) : Option Level :=
  let word := Text.keyword text
  match Text.numeral? 256 word with
  | some n => if n ≤ 5 then some (ofNumber n) else none
  | none => ofName? word

end Level

end ExecContext.Log
