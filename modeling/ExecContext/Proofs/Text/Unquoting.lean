import ExecContext.Text.Numeral
import ExecContext.Text.Quoted

set_option autoImplicit false

/-!
# Reading quoted text back

A quoted text is read from left to right: a backslash opens an escape, the first quote without one
ends the text, and every other character is itself. Reading takes no look at how texts are quoted,
and gives back each text that was (`unquoted?_quoted`), also one that looks like an escape. So no
two texts are quoted alike (`quoted_inj`).
-/

namespace ExecContext.Text

/-! ## Reading -/

/-- Where the reading of a quoted text stands. -/
inductive Unquoting where
  /-- between two characters -/
  | between
  /-- behind the backslash of an escape -/
  | escape
  /-- behind the backslash and the `u` of an escape -/
  | codePoint
  /-- in the digits of a code point; those read so far have this value -/
  | digits (value : Nat)
  deriving DecidableEq, Repr

/-- The character that a short escape stands for. -/
def shortEscape? : Char → Option Char
  | '0' => some '\x00'
  | 't' => some '\t'
  | 'r' => some '\r'
  | 'n' => some '\n'
  | '"' => some '"'
  | '\\' => some '\\'
  | _ => none

/-- The value of a hexadecimal digit in lower case. -/
def hexadecimalValue? (c : Char) : Option Nat :=
  if 'a' ≤ c ∧ c ≤ 'f' then some (c.toNat - 'a'.toNat + 10) else digitValue? c

/-- The character of a code point; none for a surrogate and beyond the last code point. -/
def codePoint? (value : Nat) : Option Char :=
  if value.isValidChar then some (Char.ofNat value) else none

/-- Reads the rest of a quoted text. -/
def unquoteFrom : Unquoting → List Char → Option (List Char)
  | _, [] => none
  | .between, '"' :: rest => if rest = [] then some [] else none
  | .between, '\\' :: rest => unquoteFrom .escape rest
  | .between, c :: rest => (unquoteFrom .between rest).map (c :: ·)
  | .escape, 'u' :: rest => unquoteFrom .codePoint rest
  | .escape, c :: rest => do
    let meant ← shortEscape? c
    let others ← unquoteFrom .between rest
    return meant :: others
  | .codePoint, '\x7b' :: rest => unquoteFrom (.digits 0) rest
  | .codePoint, _ :: _ => none
  | .digits value, '\x7d' :: rest => do
    let meant ← codePoint? value
    let others ← unquoteFrom .between rest
    return meant :: others
  | .digits value, c :: rest => do
    let digit ← hexadecimalValue? c
    unquoteFrom (.digits (16 * value + digit)) rest

/-- The text that a quoted text stands for. -/
def unquoted? (text : String) : Option String :=
  match text.toList with
  | '"' :: rest => (unquoteFrom .between rest).map String.ofList
  | _ => none

/-! ## Code points -/

theorem hexadecimalValue?_digitChar :
    ∀ digit < 16, hexadecimalValue? (Nat.digitChar digit) = some digit := by
  decide

theorem digitChar_ne_brace : ∀ digit < 16, Nat.digitChar digit ≠ '\x7d' := by
  decide

theorem codePoint?_toNat (c : Char) : codePoint? c.toNat = some c := by
  have hvalid : c.toNat.isValidChar := c.valid
  rw [codePoint?, if_pos hvalid, Char.ofNat_toNat]

variable {rest : List Char}

theorem unquoteFrom_digit {value digit : Nat} (hdigit : digit < 16) :
    unquoteFrom (.digits value) (Nat.digitChar digit :: rest) =
      unquoteFrom (.digits (16 * value + digit)) rest := by
  rw [unquoteFrom, hexadecimalValue?_digitChar digit hdigit]
  · rfl
  · exact digitChar_ne_brace digit hdigit

/-- The digits of a number are read to that number. -/
theorem unquoteFrom_toDigits (n : Nat) :
    unquoteFrom (.digits 0) (Nat.toDigits 16 n ++ rest) = unquoteFrom (.digits n) rest := by
  induction n using Nat.strongRecOn generalizing rest with
  | ind n ih =>
    rw [Nat.toDigits_eq_if (by decide)]
    split
    case isTrue hn =>
      rw [List.singleton_append, unquoteFrom_digit hn, Nat.mul_zero, Nat.zero_add]
    case isFalse hn =>
      have hless : n / 16 < n := Nat.div_lt_self (by omega) (by decide)
      rw [List.append_assoc, List.singleton_append, ih _ hless,
        unquoteFrom_digit (Nat.mod_lt n (by decide)), Nat.div_add_mod]

theorem unquoteFrom_codePointEscape (c : Char) :
    unquoteFrom .between (codePointEscape c ++ rest) =
      (unquoteFrom .between rest).map (c :: ·) := by
  have hopen : unquoteFrom .between (codePointEscape c ++ rest) =
      unquoteFrom (.digits 0) (Nat.toDigits 16 c.toNat ++ '\x7d' :: rest) := by
    simp [codePointEscape, unquoteFrom]
  rw [hopen, unquoteFrom_toDigits, unquoteFrom, codePoint?_toNat]
  cases unquoteFrom .between rest <;> rfl

/-! ## Quoted texts -/

theorem unquoteFrom_plain {c : Char} (hquote : c ≠ '"') (hslash : c ≠ '\\') :
    unquoteFrom .between (c :: rest) = (unquoteFrom .between rest).map (c :: ·) := by
  rw [unquoteFrom]
  · exact hquote
  · exact hslash

theorem unquoteFrom_short {c meant : Char} (hcode : c ≠ 'u')
    (hshort : shortEscape? c = some meant) :
    unquoteFrom .between ('\\' :: c :: rest) = (unquoteFrom .between rest).map (meant :: ·) := by
  rw [unquoteFrom, unquoteFrom, hshort]
  · cases unquoteFrom .between rest <;> rfl
  · exact hcode

/-- The written form of a character is read as that character, whatever follows. -/
theorem unquoteFrom_escape (c : Char) :
    unquoteFrom .between (escape c ++ rest) = (unquoteFrom .between rest).map (c :: ·) := by
  unfold escape
  split
  case h_7 hquote hslash =>
    split
    · exact unquoteFrom_plain hquote hslash
    · exact unquoteFrom_codePointEscape c
  all_goals exact unquoteFrom_short (by decide) rfl

theorem unquoteFrom_escaped (text : List Char) :
    unquoteFrom .between (escaped text ++ ['"']) = some text := by
  induction text with
  | nil => rfl
  | cons c text ih =>
    have hcons : escaped (c :: text) = escape c ++ escaped text := List.flatMap_cons
    rw [hcons, List.append_assoc, unquoteFrom_escape, ih, Option.map_some]

/-- Reading a quoted text gives back what was quoted. -/
theorem unquoted?_quoted (text : String) : unquoted? (quoted text) = some text := by
  rw [unquoted?, quoted, String.toList_ofList]
  simp [unquoteFrom_escaped]

theorem quoted_inj {a b : String} : quoted a = quoted b ↔ a = b := by
  refine ⟨fun h => ?_, congrArg quoted⟩
  have hread : unquoted? (quoted a) = unquoted? (quoted b) := congrArg unquoted? h
  rw [unquoted?_quoted, unquoted?_quoted] at hread
  exact Option.some.inj hread

end ExecContext.Text
