import ExecContext.Text.Range

set_option autoImplicit false

/-!
# Blanks, trimming and keywords

The blanks are the characters with the Unicode property `White_Space`. Trimming removes a class of
characters from both ends of a text. A keyword is a text read without its surrounding blanks and
without regard to the case of its ASCII letters.
-/

namespace ExecContext.Text

/-! ## Blanks -/

/-- The ranges of the property `White_Space`. -/
def blankRanges : List (Nat × Nat) :=
  [(0x09, 0x0d), (0x20, 0x20), (0x85, 0x85), (0xa0, 0xa0), (0x1680, 0x1680), (0x2000, 0x200a),
   (0x2028, 0x2029), (0x202f, 0x202f), (0x205f, 0x205f), (0x3000, 0x3000)]

/-- A character of the property `White_Space`. -/
def isBlank (c : Char) : Bool :=
  inRanges blankRanges c

/-- Between the space and the end of ASCII there is no blank. -/
theorem isBlank_eq_false {c : Char} (hlow : 0x20 < c.toNat) (hhigh : c.toNat < 0x80) :
    isBlank c = false := by
  rw [Bool.eq_false_iff]
  intro hblank
  obtain ⟨range, hrange, hfirst, hlast⟩ := inRanges_iff.mp hblank
  have hfar : ∀ range ∈ blankRanges, range.2 ≤ 0x20 ∨ 0x80 ≤ range.1 := by decide
  rcases hfar range hrange with hbelow | habove <;> omega

/-! ## Trimming -/

/-- The text without the characters of a class at its two ends. -/
def trim (removable : Char → Bool) (text : List Char) : List Char :=
  ((text.dropWhile removable).reverse.dropWhile removable).reverse

/-! ## Keywords -/

/-- A text as a keyword: no blanks around it, ASCII letters in lower case. -/
def keyword (text : String) : List Char :=
  (trim isBlank text.toList).map Char.toLower

end ExecContext.Text
