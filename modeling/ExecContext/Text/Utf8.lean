set_option autoImplicit false

/-!
# Bytes as UTF-8 text

A byte sequence is cut into parts: well-formed characters, and maximal ill-formed parts, each the
longest beginning of a character that the next byte does not continue, or a single byte that starts
none. Strict reading wants no ill-formed part; lenient reading puts U+FFFD for each of them.
-/

namespace ExecContext.Text

/-! ## Characters in progress -/

/-- A character whose first bytes have been read: how many bytes are still owed, the range of the
next one, and the value of the bits so far. -/
structure Unfinished where
  owed : Nat
  low : Nat
  high : Nat
  value : Nat
  deriving DecidableEq, Repr, Inhabited

/-- What a byte makes of the character it belongs to. -/
inductive Progress where
  /-- the character is complete -/
  | finished (c : Char)
  /-- more bytes are owed -/
  | unfinished (u : Unfinished)
  /-- no character has this byte here -/
  | illFormed
  deriving DecidableEq, Repr, Inhabited

/-- The first byte of a character. Some first bytes narrow the range of the second one: that keeps
out overlong forms, surrogates and values above U+10FFFF. -/
def firstByte (byte : UInt8) : Progress :=
  let b := byte.toNat
  if b < 0x80 then .finished (Char.ofNat b)
  else if b < 0xc2 then .illFormed
  else if b < 0xe0 then .unfinished ⟨1, 0x80, 0xbf, b - 0xc0⟩
  else if b = 0xe0 then .unfinished ⟨2, 0xa0, 0xbf, 0⟩
  else if b = 0xed then .unfinished ⟨2, 0x80, 0x9f, 0xd⟩
  else if b < 0xf0 then .unfinished ⟨2, 0x80, 0xbf, b - 0xe0⟩
  else if b = 0xf0 then .unfinished ⟨3, 0x90, 0xbf, 0⟩
  else if b < 0xf4 then .unfinished ⟨3, 0x80, 0xbf, b - 0xf0⟩
  else if b = 0xf4 then .unfinished ⟨3, 0x80, 0x8f, 4⟩
  else .illFormed

/-- The next byte of an unfinished character. -/
def Unfinished.next (u : Unfinished) (byte : UInt8) : Progress :=
  let b := byte.toNat
  if u.low ≤ b ∧ b ≤ u.high then
    let value := 64 * u.value + (b - 0x80)
    if u.owed ≤ 1 then .finished (Char.ofNat value)
    else .unfinished ⟨u.owed - 1, 0x80, 0xbf, value⟩
  else .illFormed

/-! ## Parts -/

/-- The parts of a byte sequence, ill-formed ones as `none`, after the bytes of an unfinished
character. A byte that does not continue that character ends an ill-formed part and starts anew. -/
def partsFrom : Option Unfinished → List UInt8 → List (Option Char)
  | none, [] => []
  | some _, [] => [none]
  | none, byte :: rest =>
    match firstByte byte with
    | .finished c => some c :: partsFrom none rest
    | .unfinished u => partsFrom (some u) rest
    | .illFormed => none :: partsFrom none rest
  | some u, byte :: rest =>
    match u.next byte with
    | .finished c => some c :: partsFrom none rest
    | .unfinished u => partsFrom (some u) rest
    | .illFormed =>
      none ::
        match firstByte byte with
        | .finished c => some c :: partsFrom none rest
        | .unfinished u => partsFrom (some u) rest
        | .illFormed => none :: partsFrom none rest

/-- The parts of a byte sequence, ill-formed ones as `none`. -/
def parts (bytes : List UInt8) : List (Option Char) :=
  partsFrom none bytes

/-- The text of bytes that are well-formed throughout. -/
def decode? (bytes : List UInt8) : Option String :=
  ((parts bytes).mapM id).map String.ofList

/-- The text of any bytes, with U+FFFD for each ill-formed part. -/
def decodeLenient (bytes : List UInt8) : String :=
  String.ofList ((parts bytes).map (·.getD '\ufffd'))

end ExecContext.Text
