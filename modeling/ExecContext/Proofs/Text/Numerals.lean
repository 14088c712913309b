import ExecContext.Text.Numeral

set_option autoImplicit false

/-!
# Which texts are numerals

A numeral is a run of ASCII digits, behind at most one plus sign; its value is that of the digits in
base ten. Reading a numeral accepts these texts and no others (`numeral?_eq_some_iff`), and gives
back a number that was written out, whatever zeros stand before it (`digits_zeros`).
-/

namespace ExecContext.Text

/-! ## Digits -/

/-- A run of at least one ASCII digit, with its value in base ten. -/
structure Digits (text : List Char) (value : Nat) : Prop where
  nonempty : text ≠ []
  digits : ∀ c ∈ text, c.isDigit = true
  value_eq : Nat.ofDigitChars 10 text 0 = value

/-- A run of digits, behind at most one plus sign. -/
def Numeral (text : List Char) (value : Nat) : Prop :=
  ∃ digits, (text = digits ∨ text = '+' :: digits) ∧ Digits digits value

variable {text : List Char} {value : Nat}

theorem digitsFrom_eq_some_iff {start : Nat} :
    digitsFrom start text = some value ↔
      (∀ c ∈ text, c.isDigit = true) ∧ Nat.ofDigitChars 10 text start = value := by
  induction text generalizing start with
  | nil => simp [digitsFrom]
  | cons c rest ih =>
    rw [digitsFrom, digitValue?, Nat.ofDigitChars_cons]
    by_cases hc : c.isDigit = true
    · simp [hc, ih]
    · simp [hc]

theorem digits?_eq_some_iff : digits? text = some value ↔ Digits text value := by
  cases text with
  | nil => exact ⟨fun h => (by cases h), fun h => absurd rfl h.nonempty⟩
  | cons c rest =>
    rw [digits?, digitsFrom_eq_some_iff]
    exact ⟨fun h => ⟨List.cons_ne_nil c rest, h.1, h.2⟩, fun h => ⟨h.digits, h.value_eq⟩⟩

/-- No run of digits begins with a sign. -/
theorem Digits.unsigned_eq (h : Digits text value) : unsigned text = text := by
  unfold unsigned
  split
  · rename_i rest
    exact absurd (h.digits '+' List.mem_cons_self) (by decide)
  · rfl

theorem unsigned_eq_or (text : List Char) : text = unsigned text ∨ text = '+' :: unsigned text := by
  unfold unsigned
  split
  · exact Or.inr rfl
  · exact Or.inl rfl

theorem numeral_iff : Numeral text value ↔ digits? (unsigned text) = some value := by
  rw [digits?_eq_some_iff]
  refine ⟨?_, fun h => ⟨_, unsigned_eq_or text, h⟩⟩
  rintro ⟨digits, rfl | rfl, hdigits⟩
  · rw [hdigits.unsigned_eq]
    exact hdigits
  · exact hdigits

/-- Reading a numeral accepts those below the limit and nothing else. -/
theorem numeral?_eq_some_iff {limit : Nat} :
    numeral? limit text = some value ↔ Numeral text value ∧ value < limit := by
  rw [numeral?, Option.filter_eq_some_iff, numeral_iff, decide_eq_true_eq]

theorem Numeral.unique {value' : Nat} (h : Numeral text value) (h' : Numeral text value') :
    value = value' :=
  Option.some.inj ((numeral_iff.mp h).symm.trans (numeral_iff.mp h'))

/-! ## Numbers written out -/

/-- A number written out, behind any number of zeros, is a run of digits of that value. -/
theorem digits_zeros (zeros n : Nat) :
    Digits (List.replicate zeros '0' ++ Nat.toDigits 10 n) n where
  nonempty h := Nat.toDigits_ne_nil (List.append_eq_nil_iff.mp h).2
  digits c hc := by
    rcases List.mem_append.mp hc with hzero | hdigit
    · rw [List.eq_of_mem_replicate hzero]
      rfl
    · exact Nat.isDigit_of_mem_toDigits (by decide) (by decide) hdigit
  value_eq := by
    have hzero : Nat.ofDigitChars 10 (List.replicate zeros '0') 0 = 0 := by
      induction zeros with
      | zero => rfl
      | succ zeros ih => simp [List.replicate_succ, Nat.ofDigitChars_cons, ih]
    rw [Nat.ofDigitChars_append, hzero, Nat.ofDigitChars_toDigits (by decide) (by decide)]

end ExecContext.Text
