import ExecContext.Text.Invisible
import ExecContext.Text.Extender

set_option autoImplicit false

/-!
# Quoted text

A text between double quotes that stays on one line: the quote, the backslash and four controls have
short escapes, every other character without a visible form of its own is written by its code point
in hexadecimal, and all else stands for itself. A single quote is not escaped.
-/

namespace ExecContext.Text

/-- A character that stands for itself: it has a visible form and does not join the one before. -/
def isPlain (c : Char) : Bool :=
  !(isControl c || isInvisible c || isExtender c)

/-- A character written by its code point. -/
def codePointEscape (c : Char) : List Char :=
  '\\' :: 'u' :: '\x7b' :: Nat.toDigits 16 c.toNat ++ ['\x7d']

/-- How a character is written inside quotes. -/
def escape (c : Char) : List Char :=
  match c with
  | '\x00' => ['\\', '0']
  | '\t' => ['\\', 't']
  | '\r' => ['\\', 'r']
  | '\n' => ['\\', 'n']
  | '"' => ['\\', '"']
  | '\\' => ['\\', '\\']
  | c => if isPlain c then [c] else codePointEscape c

/-- The written form of the characters of a text. -/
def escaped (text : List Char) : List Char :=
  text.flatMap escape

/-- A text between quotes. -/
def quoted (text : String) : String :=
  String.ofList ('"' :: escaped text.toList ++ ['"'])

end ExecContext.Text
