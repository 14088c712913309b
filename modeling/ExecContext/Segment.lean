set_option autoImplicit false

/-!
# Reading a word from a segment

A segment is a sequence of 64-bit little-endian words followed by zeros. A word is read at a byte
address: at a multiple of eight it is one of the words, elsewhere it is spliced from two neighbours,
the low bytes of the result being the high bytes of the first.
-/

namespace ExecContext

/-- The words of a segment; all behind them are zero. -/
structure Segment where
  words : List UInt64
  deriving DecidableEq, Repr, Inhabited

namespace Segment

/-- The word of a given index. -/
def wordAt (s : Segment) (index : Nat) : UInt64 :=
  s.words.getD index 0

/-- The eight bytes from a byte address on, as a word. -/
def read (s : Segment) (address : Nat) : UInt64 :=
  let index := address / 8
  let shift := address % 8
  if shift = 0 then s.wordAt index
  else
    (s.wordAt index >>> UInt64.ofNat (8 * shift)) |||
      (s.wordAt (index + 1) <<< UInt64.ofNat (64 - 8 * shift))

/-- The slot of a given index in an array of words that starts at the byte address `base`. -/
def slot (s : Segment) (base index : Nat) : UInt64 :=
  s.read (base + 8 * index)

end Segment

end ExecContext
