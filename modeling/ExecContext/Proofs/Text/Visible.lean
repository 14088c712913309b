import ExecContext.Text.Numeral
import ExecContext.Text.Quoted

set_option autoImplicit false

/-!
# Texts without control characters

A text without control characters does nothing to the place where it is shown. Numbers are such
texts, and so is whatever stands between quotes, where a control has an escape of visible characters
(`visible_quoted`).
-/

namespace ExecContext.Text

/-- These characters have no control character among them. -/
def Shown (text : List Char) : Prop := ∀ c ∈ text, isControl c = false

instance (text : List Char) : Decidable (Shown text) :=
  List.decidableBAll (fun c => isControl c = false) text

/-- The text has no control character. -/
def Visible (text : String) : Prop := Shown text.toList

instance (text : String) : Decidable (Visible text) :=
  inferInstanceAs (Decidable (Shown text.toList))

theorem Shown.append {front back : List Char} (hfront : Shown front) (hback : Shown back) :
    Shown (front ++ back) :=
  List.forall_mem_append.mpr ⟨hfront, hback⟩

theorem visible_ofList {text : List Char} : Visible (String.ofList text) ↔ Shown text := by
  rw [Visible, String.toList_ofList]

theorem Visible.append {front back : String} (hfront : Visible front) (hback : Visible back) :
    Visible (front ++ back) := by
  rw [Visible, String.toList_append]
  exact Shown.append hfront hback

theorem Visible.notMem {text : String} (h : Visible text) {c : Char} (hc : isControl c = true) :
    c ∉ text.toList :=
  fun hmem => Bool.false_ne_true ((h c hmem).symm.trans hc)

/-! ## Numbers -/

/-- Numbers are written with the digits of their base. -/
theorem exists_digit_of_mem_toDigits {base : Nat} (hbase : 1 < base) {n : Nat} {c : Char}
    (h : c ∈ Nat.toDigits base n) : ∃ digit < base, c = Nat.digitChar digit := by
  induction n using Nat.strongRecOn with
  | ind n ih =>
    rw [Nat.toDigits_eq_if hbase] at h
    split at h
    case isTrue hn => exact ⟨n, hn, List.mem_singleton.mp h⟩
    case isFalse hn =>
      have hless : n / base < n := Nat.div_lt_self (by omega) hbase
      rcases List.mem_append.mp h with hfront | hlast
      · exact ih _ hless hfront
      · exact ⟨n % base, Nat.mod_lt n (by omega), List.mem_singleton.mp hlast⟩

theorem isControl_digitChar : ∀ digit < 16, isControl (Nat.digitChar digit) = false := by
  decide

theorem shown_toDigits {base : Nat} (hbase : 1 < base) (hlimit : base ≤ 16) (n : Nat) :
    Shown (Nat.toDigits base n) := by
  intro c hc
  obtain ⟨digit, hdigit, rfl⟩ := exists_digit_of_mem_toDigits hbase hc
  exact isControl_digitChar digit (by omega)

theorem visible_nat (n : Nat) : Visible (toString n) := by
  rw [Nat.toString_eq_ofList_toDigits, visible_ofList]
  exact shown_toDigits (by decide) (by decide) n

theorem visible_int (n : Int) : Visible (toString n) := by
  have hminus : Visible "-" := by decide
  cases n with
  | ofNat m => exact visible_nat m
  | negSucc m => exact hminus.append (visible_nat (m + 1))

theorem visible_hexadecimal (n : Nat) : Visible (hexadecimal n) := by
  have hmark : Visible "0x" := by decide
  exact hmark.append (visible_ofList.mpr (shown_toDigits (by decide) (by decide) n))

/-! ## Quoted text -/

theorem shown_codePointEscape (c : Char) : Shown (codePointEscape c) := by
  have hopen : Shown ['\\', 'u', '\x7b'] := by decide
  have hclose : Shown ['\x7d'] := by decide
  exact (hopen.append (shown_toDigits (by decide) (by decide) c.toNat)).append hclose

/-- A control is written with its letter or with its code point. -/
theorem shown_escape (c : Char) : Shown (escape c) := by
  unfold escape
  split
  case h_7 =>
    split
    case isTrue hplain =>
      simp only [isPlain, Bool.not_eq_true', Bool.or_eq_false_iff] at hplain
      exact List.forall_mem_singleton.mpr hplain.1.1
    case isFalse => exact shown_codePointEscape c
  all_goals decide

theorem shown_escaped (text : List Char) : Shown (escaped text) := by
  intro d hd
  obtain ⟨c, -, hc⟩ := List.mem_flatMap.mp hd
  exact shown_escape c d hc

/-- Between quotes any text is visible. -/
theorem visible_quoted (text : String) : Visible (quoted text) := by
  have hquote : Shown ['"'] := by decide
  rw [quoted, visible_ofList]
  exact (hquote.append (shown_escaped text.toList)).append hquote

end ExecContext.Text
