set_option autoImplicit false

/-!
# Numerals

Unsigned decimal numerals as they are read: one optional plus sign, then at least one ASCII digit,
with any number of leading zeros, and a value below a given limit. Offsets are written in lower-case
hexadecimal behind `0x`.
-/

namespace ExecContext.Text

/-- The value of an ASCII digit, none for any other character. -/
def digitValue? (c : Char) : Option Nat :=
  if c.isDigit then some (c.toNat - '0'.toNat) else none

/-- The value of a run of digits read after the digits of `value`; none at the first other
character. -/
def digitsFrom (value : Nat) : List Char → Option Nat
  | [] => some value
  | c :: rest => (digitValue? c).bind fun digit => digitsFrom (10 * value + digit) rest

/-- The value of a non-empty run of ASCII digits. -/
def digits? : List Char → Option Nat
  | [] => none
  | c :: rest => digitsFrom 0 (c :: rest)

/-- A text without its leading plus sign, if it has one. -/
def unsigned : List Char → List Char
  | '+' :: rest => rest
  | text => text

/-- The value of a numeral below `limit`. -/
def numeral? (limit : Nat) (text : List Char) : Option Nat :=
  (digits? (unsigned text)).filter (· < limit)

/-- A number in lower-case hexadecimal, behind `0x`. -/
def hexadecimal (n : Nat) : String :=
  "0x" ++ String.ofList (Nat.toDigits 16 n)

end ExecContext.Text
