import ExecContext.Proofs.Text.Lenient

set_option autoImplicit false

/-!
# Which bytes are the writing of a text

Strict reading gives a text for the bytes that are written for that text and for no others
(`decode?_eq_some_iff`), so bytes without a text are those that no text has.
-/

namespace ExecContext.Text

open String (utf8EncodeChar)

variable {bytes : List UInt8} {text : List Char}

/-- Bytes whose parts are all characters are written for these, also in the middle of a
character. -/
theorem bytes_of_partsFrom (bytes : List UInt8) :
    (∀ text : List Char, partsFrom none bytes = text.map some →
      text.flatMap utf8EncodeChar = bytes) ∧
    ∀ part u, Reads part u → ∀ text : List Char, partsFrom (some u) bytes = text.map some →
      text.flatMap utf8EncodeChar = part ++ bytes := by
  induction bytes with
  | nil =>
    constructor
    · intro text h
      obtain rfl : text = [] := by simpa [partsFrom] using h
      rfl
    · intro part u _ text h
      obtain ⟨_, _, -, hpart, -⟩ := List.map_eq_cons_iff.mp h.symm
      cases hpart
  | cons byte bytes ih =>
    constructor
    · intro text h
      rw [partsFrom] at h
      cases hfirst : firstByte byte with
      | finished c =>
        rw [hfirst] at h
        obtain ⟨d, rest, rfl, hd, hrest⟩ := List.map_eq_cons_iff.mp h.symm
        cases hd
        rw [List.flatMap_cons, ih.1 rest hrest.symm, bytes_of_finished hfirst]
        rfl
      | unfinished u =>
        rw [hfirst] at h
        exact ih.2 [byte] u (.first hfirst) text h
      | illFormed =>
        rw [hfirst] at h
        obtain ⟨_, _, -, hpart, -⟩ := List.map_eq_cons_iff.mp h.symm
        cases hpart
    · intro part u hu text h
      rw [partsFrom] at h
      cases hnext : u.next byte with
      | finished c =>
        rw [hnext] at h
        obtain ⟨d, rest, rfl, hd, hrest⟩ := List.map_eq_cons_iff.mp h.symm
        cases hd
        rw [List.flatMap_cons, ih.1 rest hrest.symm, hu.bytes_of_finished hnext, List.append_assoc]
        rfl
      | unfinished v =>
        rw [hnext] at h
        rw [ih.2 _ v (hu.next hnext) text h, List.append_assoc]
        rfl
      | illFormed =>
        rw [hnext] at h
        obtain ⟨_, _, -, hpart, -⟩ := List.map_eq_cons_iff.mp h.symm
        cases hpart

theorem parts_eq_map_some_iff :
    parts bytes = text.map some ↔ text.flatMap utf8EncodeChar = bytes := by
  constructor
  · exact (bytes_of_partsFrom bytes).1 text
  · rintro rfl
    induction text with
    | nil => rfl
    | cons c rest ih =>
      rw [parts] at ih ⊢
      rw [List.flatMap_cons, partsFrom_character, ih, List.map_cons]

theorem mapM_id_eq_some_iff {parts : List (Option Char)} :
    parts.mapM id = some text ↔ parts = text.map some := by
  induction parts generalizing text with
  | nil => cases text <;> simp
  | cons c rest ih =>
    rw [List.mapM_cons]
    cases c with
    | none => cases text <;> simp
    | some d => cases text <;> simp [Option.bind_eq_some_iff, ih, and_comm]

/-- Bytes are read strictly as the text that they are written for. -/
theorem decode?_eq_some_iff {text : String} : decode? bytes = some text ↔ utf8 text = bytes := by
  rw [decode?, Option.map_eq_some_iff, utf8_eq_flatMap, ← parts_eq_map_some_iff]
  constructor
  · rintro ⟨chars, hchars, rfl⟩
    rw [String.toList_ofList]
    exact mapM_id_eq_some_iff.mp hchars
  · intro h
    exact ⟨text.toList, mapM_id_eq_some_iff.mpr h, String.ofList_toList⟩

end ExecContext.Text
