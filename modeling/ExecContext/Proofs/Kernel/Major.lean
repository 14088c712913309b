import ExecContext.Kernel.Release
import ExecContext.Proofs.Text.Numerals
import ExecContext.Proofs.Text.Trimming

set_option autoImplicit false

/-!
# Reading the major version

Which releases give a major version, and how the others fail. The padding of a release makes no
difference, nor does what comes after its first dot; the part before that dot is to be the digits of
the version, though one plus sign before them is let pass (`major_eq_ok_iff`).
-/

namespace ExecContext.Kernel

open Text (Core Digits Numeral)

/-! ## The part before the first dot -/

/-- The part of a text before its first dot, the whole text if it has none. -/
def BeforeDot (text first : List Char) : Prop :=
  '.' ∉ first ∧ (text = first ∨ ∃ tail, text = first ++ '.' :: tail)

theorem beforeDot_iff {text first : List Char} :
    BeforeDot text first ↔ majorText text = first :=
  Text.cut_iff

/-! ## The three cases -/

/-- A release is padding only, or a numeral stands before its first dot, or neither. -/
theorem major_cases (release : String) :
    (unpadded release = [] ∧ major release = .error .blank) ∨
    (∃ n : UInt32, Numeral (majorText (unpadded release)) n.toNat ∧ unpadded release ≠ [] ∧
      major release = .ok n) ∨
    (unpadded release ≠ [] ∧ (∀ n : UInt32, ¬Numeral (majorText (unpadded release)) n.toNat) ∧
      major release = .error (.malformed (String.ofList (unpadded release)))) := by
  cases hcore : unpadded release with
  | nil => exact Or.inl ⟨rfl, by simp [major, hcore]⟩
  | cons c rest =>
    cases hread : Text.numeral? UInt32.size (majorText (c :: rest)) with
    | some value =>
      have hmajor : major release = .ok (UInt32.ofNat value) := by simp [major, hcore, hread]
      obtain ⟨hvalue, hlt⟩ := Text.numeral?_eq_some_iff.mp hread
      have hn : (UInt32.ofNat value).toNat = value := UInt32.toNat_ofNat_of_lt hlt
      exact Or.inr (Or.inl ⟨UInt32.ofNat value, hn.symm ▸ hvalue, List.cons_ne_nil c rest, hmajor⟩)
    | none =>
      have hmajor : major release = .error (.malformed (String.ofList (c :: rest))) := by
        simp [major, hcore, hread]
      refine Or.inr (Or.inr ⟨List.cons_ne_nil c rest, fun n hn => ?_, hmajor⟩)
      rw [Text.numeral?_eq_some_iff.mpr ⟨hn, n.toNat_lt_size⟩] at hread
      cases hread

theorem major_eq_ok {release : String} {n : UInt32} :
    major release = .ok n ↔ Numeral (majorText (unpadded release)) n.toNat := by
  rcases major_cases release with
    ⟨hcore, hmajor⟩ | ⟨value, hvalue, -, hmajor⟩ | ⟨-, hnone, hmajor⟩
  · rw [hmajor, hcore]
    refine ⟨fun h => (by cases h), fun h => ?_⟩
    -- padding alone begins with no numeral
    obtain ⟨digits, heq | heq, hdigits⟩ := h
    · exact absurd heq.symm hdigits.nonempty
    · cases heq
  · rw [hmajor, Except.ok.injEq]
    refine ⟨fun h => h ▸ hvalue, fun h => ?_⟩
    exact UInt32.toNat_inj.mp (hvalue.unique h)
  · rw [hmajor]
    exact ⟨fun h => (by cases h), fun h => absurd h (hnone n)⟩

theorem major_eq_blank {release : String} :
    major release = .error .blank ↔ unpadded release = [] := by
  rcases major_cases release with ⟨hcore, hmajor⟩ | ⟨n, -, hcore, hmajor⟩ | ⟨hcore, -, hmajor⟩
  · simp [hmajor, hcore]
  · simp [hmajor, hcore]
  · simp [hmajor, hcore]

theorem major_congr {release release' : String} (h : unpadded release = unpadded release') :
    major release = major release' := by
  simp only [major, h]

/-! ## Releases that give a version -/

/-- Between its padding, the release begins with the digits of this version, up to a dot or up to
the end. -/
def States (release : String) (n : Nat) : Prop :=
  ∃ core first, Core isPadding release.toList core ∧ BeforeDot core first ∧ Digits first n

/-- The same, behind a plus sign. -/
def StatesSigned (release : String) (n : Nat) : Prop :=
  ∃ core first, Core isPadding release.toList core ∧ BeforeDot core ('+' :: first) ∧ Digits first n

theorem states_or_signed_iff {release : String} {n : Nat} :
    States release n ∨ StatesSigned release n ↔ Numeral (majorText (unpadded release)) n := by
  constructor
  · rintro (⟨core, first, hcore, hdot, hdigits⟩ | ⟨core, first, hcore, hdot, hdigits⟩)
    · rw [unpadded, Text.core_iff.mp hcore, beforeDot_iff.mp hdot]
      exact ⟨first, Or.inl rfl, hdigits⟩
    · rw [unpadded, Text.core_iff.mp hcore, beforeDot_iff.mp hdot]
      exact ⟨first, Or.inr rfl, hdigits⟩
  · rintro ⟨digits, heq | heq, hdigits⟩
    · exact Or.inl ⟨_, digits, Text.core_trim _ _, beforeDot_iff.mpr heq, hdigits⟩
    · exact Or.inr ⟨_, digits, Text.core_trim _ _, beforeDot_iff.mpr heq, hdigits⟩

/-- A release gives a major version just if it states it, or states it behind a plus sign. -/
theorem major_eq_ok_iff (release : String) (n : UInt32) :
    major release = .ok n ↔ States release n.toNat ∨ StatesSigned release n.toNat := by
  rw [major_eq_ok, states_or_signed_iff]

/-- The digits are not all that is let pass. -/
theorem signed_major_read : major "+11" = .ok 11 ∧ ¬∃ n, States "+11" n := by
  refine ⟨rfl, fun ⟨n, core, first, hcore, hdot, hdigits⟩ => ?_⟩
  have hfirst : first = "+11".toList := by
    rw [← beforeDot_iff.mp hdot, ← Text.core_iff.mp hcore]
    rfl
  rw [hfirst] at hdigits
  exact absurd (hdigits.digits '+' (by decide)) (by decide)

/-! ## Padding -/

/-- All of the text is padding. -/
def Padding (text : String) : Prop := ∀ c ∈ text.toList, isPadding c = true

instance (text : String) : Decidable (Padding text) :=
  decidable_of_iff (text.toList.all isPadding = true) List.all_eq_true

theorem isPadding_of_isDigit {c : Char} (h : c.isDigit = true) : isPadding c = false := by
  have hrange : 48 ≤ c.toNat ∧ c.toNat ≤ 57 := Char.isDigit_iff_toNat.mp h
  have hnul : c ≠ '\x00' := by
    rintro rfl
    exact absurd hrange.1 (by decide)
  have hblank : Text.isBlank c = false := Text.isBlank_eq_false (by omega) (by omega)
  simp [isPadding, hnul, hblank]

theorem unpadded_eq_nil {s : String} : unpadded s = [] ↔ Padding s := Text.trim_eq_nil_iff

theorem unpadded_padded {p q : String} (hp : Padding p) (hq : Padding q) (s : String) :
    unpadded (p ++ s ++ q) = unpadded s := by
  rw [unpadded, String.toList_append, String.toList_append, Text.trim_padded hp hq]
  rfl

/-- Without padding around it, the core of a release is read as the release is. -/
theorem unpadded_core (s : String) : unpadded (String.ofList (unpadded s)) = unpadded s := by
  rw [unpadded, String.toList_ofList]
  exact (Text.bare_trim isPadding s.toList).trim_eq

/-! ## Versions written out -/

/-- A major version written out, behind some zeros. -/
def writtenMajor (zeros : Nat) (n : UInt32) : String :=
  String.ofList (List.replicate zeros '0') ++ toString n.toNat

theorem digits_writtenMajor (zeros : Nat) (n : UInt32) :
    Digits (writtenMajor zeros n).toList n.toNat := by
  have hlist : (writtenMajor zeros n).toList =
      List.replicate zeros '0' ++ Nat.toDigits 10 n.toNat := by
    simp [writtenMajor]
  rw [hlist]
  exact Text.digits_zeros zeros n.toNat

/-- What is read before the first dot is read right, with a dot or without. -/
theorem major_of_beforeDot {release : String} {first : List Char} {n : UInt32}
    (hdot : majorText (unpadded release) = first) (hfirst : Digits first n.toNat) :
    major release = .ok n :=
  major_eq_ok.mpr ⟨first, Or.inl hdot, hfirst⟩

/-- There is no dot among digits. -/
theorem majorText_digits {first : List Char} {n : Nat} (h : Digits first n) :
    majorText first = first ∧ ∀ tail, majorText (first ++ '.' :: tail) = first := by
  have hdot : '.' ∉ first := fun hmem => absurd (h.digits '.' hmem) (by decide)
  exact ⟨beforeDot_iff.mp ⟨hdot, Or.inl rfl⟩,
    fun tail => beforeDot_iff.mp ⟨hdot, Or.inr ⟨tail, rfl⟩⟩⟩

theorem major_writtenMajor {p q : String} (hp : Padding p) (hq : Padding q) (zeros : Nat)
    (n : UInt32) : major (p ++ writtenMajor zeros n ++ q) = .ok n := by
  have hdigits := digits_writtenMajor zeros n
  have hbare : Text.Bare isPadding (writtenMajor zeros n).toList :=
    ⟨fun c hc => isPadding_of_isDigit (hdigits.digits c (List.mem_of_mem_head? hc)),
      fun c hc => isPadding_of_isDigit (hdigits.digits c (List.mem_of_getLast? hc))⟩
  refine major_of_beforeDot ?_ hdigits
  rw [unpadded_padded hp hq, unpadded, hbare.trim_eq]
  exact (majorText_digits hdigits).1

theorem major_writtenMajor_dot {p : String} (hp : Padding p) (zeros : Nat) (n : UInt32)
    (tail : String) : major (p ++ writtenMajor zeros n ++ "." ++ tail) = .ok n := by
  have hdigits := digits_writtenMajor zeros n
  have hfirst : ∀ c, ((writtenMajor zeros n).toList ++ ['.']).head? = some c →
      isPadding c = false := by
    intro c hc
    rcases List.mem_append.mp (List.mem_of_mem_head? hc) with hdigit | hdot
    · exact isPadding_of_isDigit (hdigits.digits c hdigit)
    · rw [List.mem_singleton.mp hdot]
      rfl
  have hcore : unpadded (p ++ writtenMajor zeros n ++ "." ++ tail) =
      (writtenMajor zeros n).toList ++ '.' :: tail.toList.rdropWhile isPadding := by
    calc unpadded (p ++ writtenMajor zeros n ++ "." ++ tail)
        = Text.trim isPadding
            (p.toList ++ ((writtenMajor zeros n).toList ++ '.' :: tail.toList) ++ []) := by
          simp [unpadded]
      _ = Text.trim isPadding ((writtenMajor zeros n).toList ++ '.' :: tail.toList) :=
          Text.trim_padded hp (by simp)
      _ = _ := Text.trim_through hfirst rfl
  refine major_of_beforeDot ?_ hdigits
  rw [hcore]
  exact (majorText_digits hdigits).2 _

/-- Reading the major version undoes writing it, whatever zeros and padding stand before it,
whatever padding or, behind a dot, whatever text stands after it. Padding around a release makes no
difference to what is read from it or to its failure. A release is blank if it is padding only, and
the only other failure shows the release without its padding, which fails alike. -/
theorem major_inverts_writing :
    (∀ (n : UInt32) (zeros : Nat) (p q tail : String), Padding p → Padding q →
      major (p ++ writtenMajor zeros n ++ q) = .ok n ∧
        major (p ++ writtenMajor zeros n ++ "." ++ tail) = .ok n) ∧
    (∀ p s q : String, Padding p → Padding q → major (p ++ s ++ q) = major s) ∧
    (∀ s : String, major s = .error .blank ↔ Padding s) ∧
    ∀ (s : String) (e : ProbeFailure), major s = .error e → e = .blank ∨
      ∃ r : String, e = .malformed r ∧ r ≠ "" ∧ Core isPadding s.toList r.toList ∧
        major r = .error (.malformed r) := by
  refine ⟨fun n zeros p q tail hp hq =>
    ⟨major_writtenMajor hp hq zeros n, major_writtenMajor_dot hp zeros n tail⟩,
    fun p s q hp hq => major_congr (unpadded_padded hp hq s),
    fun s => major_eq_blank.trans unpadded_eq_nil, fun s e he => ?_⟩
  rcases major_cases s with ⟨-, hmajor⟩ | ⟨n, -, -, hmajor⟩ | ⟨hcore, -, hmajor⟩
  · exact Or.inl (Except.error.inj (he.symm.trans hmajor))
  · cases he.symm.trans hmajor
  · refine Or.inr ⟨String.ofList (unpadded s), Except.error.inj (he.symm.trans hmajor), ?_, ?_, ?_⟩
    · exact fun hempty => hcore (by simpa using congrArg String.toList hempty)
    · rw [String.toList_ofList]
      exact Text.core_trim isPadding s.toList
    · rw [major_congr (unpadded_core s), hmajor]

/-- A padded release of version 11 with a blank tail, and a malformed one. -/
theorem major_inverts_writing_padded :
    Padding "\x00 " ∧ Padding "\u3000\x00" ∧
      major ("\x00 " ++ writtenMajor 2 11 ++ "\u3000\x00") = .ok 11 ∧
      major ("\x00 " ++ writtenMajor 2 11 ++ "." ++ " \x00") = .ok 11 ∧
      ∃ r : String, r ≠ "" ∧ Core isPadding " x.1 ".toList r.toList ∧
        major " x.1 " = .error (.malformed r) := by
  obtain ⟨hwritten, -, -, hfailures⟩ := major_inverts_writing
  have hp : Padding "\x00 " := by decide
  have hq : Padding "\u3000\x00" := by decide
  obtain ⟨hpadded, hdot⟩ := hwritten 11 2 "\x00 " "\u3000\x00" " \x00" hp hq
  have hfail : major " x.1 " = .error (.malformed "x.1") := rfl
  rcases hfailures _ _ hfail with hblank | ⟨r, heq, hne, hcore, -⟩
  · cases hblank
  · exact ⟨hp, hq, hpadded, hdot, r, hne, hcore, heq ▸ hfail⟩

end ExecContext.Kernel
