import ExecContext.Log.Level
import ExecContext.Proofs.Text.Numerals
import ExecContext.Proofs.Text.Trimming
import Mathlib

set_option autoImplicit false

/-!
# Which texts are read as a level

Between its blanks a text is a numeral, the name of a level in letters of any case, or neither. The
numerals up to 5 and the names are read as levels, and nothing else is; no text is both
(`reads_numerals_and_names`).
-/

namespace ExecContext

/-! ## Letters and their case -/

namespace Text

variable {text : List Char} {value : Nat} {c d : Char}

theorem toNat_of_isAlpha (h : c.isAlpha = true) :
    65 ≤ c.toNat ∧ c.toNat ≤ 90 ∨ 97 ≤ c.toNat ∧ c.toNat ≤ 122 := by
  simp only [Char.isAlpha, Char.isUpper, Char.isLower, Bool.or_eq_true, Bool.and_eq_true,
    decide_eq_true_eq, ge_iff_le, UInt32.le_iff_toNat_le] at h
  exact h

theorem not_isBlank_of_isAlpha (h : c.isAlpha = true) : isBlank c = false := by
  have hletter := toNat_of_isAlpha h
  exact isBlank_eq_false (by omega) (by omega)

theorem not_isAlpha_of_isDigit (h : c.isDigit = true) : c.isAlpha = false := by
  rw [Bool.eq_false_iff]
  intro halpha
  have hdigit : 48 ≤ c.toNat ∧ c.toNat ≤ 57 := Char.isDigit_iff_toNat.mp h
  have hletter := toNat_of_isAlpha halpha
  omega

/-- Only letters have a case. -/
theorem toLower_of_not_isAlpha (h : c.isAlpha = false) : c.toLower = c := by
  refine Char.toLower_eq_of_not_isUpper fun hupper => ?_
  simp [Char.isAlpha, hupper] at h

theorem eq_of_toLower_eq (hd : d.isAlpha = false) (h : c.toLower = d) : c = d := by
  rw [← h, Char.isAlpha_toLower_eq_isAlpha] at hd
  rw [← h, toLower_of_not_isAlpha hd]

theorem map_toLower_of_not_isAlpha (h : ∀ c ∈ text, c.isAlpha = false) :
    text.map Char.toLower = text := by
  calc text.map Char.toLower
      = text.map id := List.map_congr_left fun c hc => toLower_of_not_isAlpha (h c hc)
    _ = text := List.map_id text

theorem Numeral.not_isAlpha (h : Numeral text value) : ∀ c ∈ text, c.isAlpha = false := by
  obtain ⟨digits, rfl | rfl, hdigits⟩ := h
  · exact fun c hc => not_isAlpha_of_isDigit (hdigits.digits c hc)
  · exact List.forall_mem_cons.mpr
      ⟨by decide, fun c hc => not_isAlpha_of_isDigit (hdigits.digits c hc)⟩

/-- A numeral has no letters, so the case of the text makes no difference. -/
theorem numeral_map_toLower : Numeral (text.map Char.toLower) value ↔ Numeral text value := by
  refine ⟨fun h => ?_, fun h => ?_⟩
  · have hnone : ∀ c ∈ text, c.isAlpha = false := by
      intro c hc
      rw [← Char.isAlpha_toLower_eq_isAlpha]
      exact h.not_isAlpha c.toLower (List.mem_map_of_mem hc)
    rwa [map_toLower_of_not_isAlpha hnone] at h
  · rwa [map_toLower_of_not_isAlpha h.not_isAlpha]

end Text

namespace Log.Level

variable {text : String} {word : List Char} {level : Level} {n : Nat}

/-! ## Names -/

/-- The word is the name of the level, in letters of any case. -/
def Named (word : List Char) (level : Level) : Prop :=
  word.map Char.toLower = level.name.toList.map Char.toLower

instance (word : List Char) (level : Level) : Decidable (Named word level) :=
  inferInstanceAs (Decidable (_ = _))

theorem isAlpha_name (level : Level) : ∀ c ∈ level.name.toList, c.isAlpha = true := by
  cases level <;> simp [name]

theorem Named.isAlpha (h : Named word level) : ∀ c ∈ word, c.isAlpha = true := by
  intro c hc
  have hlower : c.toLower ∈ level.name.toList.map Char.toLower := h ▸ List.mem_map_of_mem hc
  obtain ⟨d, hd, heq⟩ := List.mem_map.mp hlower
  rw [← Char.isAlpha_toLower_eq_isAlpha, ← heq, Char.isAlpha_toLower_eq_isAlpha]
  exact isAlpha_name level d hd

theorem Named.ne_nil (h : Named word level) : word ≠ [] := by
  have hname : level.name.toList ≠ [] := by cases level <;> decide
  rintro rfl
  exact hname (List.map_eq_nil_iff.mp h.symm)

/-- A numeral is no name: it has no letters. -/
theorem Named.not_numeral (h : Named word level) (n : Nat) : ¬Text.Numeral word n := by
  intro hn
  obtain ⟨c, hc⟩ := List.exists_mem_of_ne_nil word h.ne_nil
  exact Bool.false_ne_true ((hn.not_isAlpha c hc).symm.trans (h.isAlpha c hc))

/-- No two levels have the same name. -/
theorem ofName?_eq_some_iff : ofName? (word.map Char.toLower) = some level ↔ Named word level := by
  constructor
  · intro h
    rw [ofName?] at h
    have hlower := List.find?_some h
    exact (beq_iff_eq.mp hlower).symm
  · intro h
    rw [h]
    cases level <;> rfl

/-! ## Reading -/

theorem number_le (level : Level) : level.number ≤ 5 := by
  cases level <;> decide

theorem number_ofNumber : ∀ n ≤ 5, (ofNumber n).number = n := by
  decide

theorem ofNumber_eq_iff (hn : n ≤ 5) : ofNumber n = level ↔ level.number = n :=
  ⟨fun h => h ▸ number_ofNumber n hn, fun h => h ▸ ofNumber_number level⟩

/-- A level is read from its number and from its name. -/
theorem read?_eq_some_iff (hword : Text.Core Text.isBlank text.toList word) :
    read? text = some level ↔ Text.Numeral word level.number ∨ Named word level := by
  have hkeyword : Text.keyword text = word.map Char.toLower := by
    rw [Text.keyword, Text.core_iff.mp hword]
  rw [read?, hkeyword]
  cases hnumeral : Text.numeral? 256 (word.map Char.toLower) with
  | some n =>
    obtain ⟨hn, -⟩ := Text.numeral?_eq_some_iff.mp hnumeral
    have hn : Text.Numeral word n := Text.numeral_map_toLower.mp hn
    have hnumber : Text.Numeral word level.number ↔ level.number = n :=
      ⟨fun h => h.unique hn, fun h => h ▸ hn⟩
    have hname : ¬Named word level := fun h => h.not_numeral n hn
    rw [hnumber, or_iff_left hname]
    dsimp only
    split
    case isTrue hle => rw [Option.some_inj, ofNumber_eq_iff hle]
    case isFalse hle =>
      have hlimit := number_le level
      exact iff_of_false nofun (by omega)
  | none =>
    -- either no numeral at all, or one that is too large for any level
    have hnumber : ¬Text.Numeral word level.number := by
      intro h
      have hlimit := number_le level
      have hsome : Text.numeral? 256 (word.map Char.toLower) = some level.number :=
        Text.numeral?_eq_some_iff.mpr ⟨Text.numeral_map_toLower.mpr h, by omega⟩
      exact Option.some_ne_none _ (hsome.symm.trans hnumeral)
    rw [or_iff_right hnumber]
    exact ofName?_eq_some_iff

theorem read?_eq_none_iff (hword : Text.Core Text.isBlank text.toList word) :
    read? text = none ↔
      (∀ n ≤ 5, ¬Text.Numeral word n) ∧ ∀ level, ¬Named word level := by
  rw [Option.eq_none_iff_forall_ne_some]
  constructor
  · refine fun h => ⟨fun n hn hnumeral => ?_, fun level hname => ?_⟩
    · rw [← number_ofNumber n hn] at hnumeral
      exact h _ ((read?_eq_some_iff hword).mpr (Or.inl hnumeral))
    · exact h _ ((read?_eq_some_iff hword).mpr (Or.inr hname))
  · rintro ⟨hnumeral, hname⟩ level hread
    rcases (read?_eq_some_iff hword).mp hread with h | h
    · exact hnumeral _ (number_le level) h
    · exact hname level h

/-! ## Labels -/

/-- A label is the name, in some case, with spaces behind it. -/
theorem label_padded (level : Level) :
    ∃ spaces, level.label.toList.map Char.toLower =
        level.name.toList.map Char.toLower ++ spaces ∧ ∀ c ∈ spaces, c = ' ' := by
  refine ⟨level.label.toList.drop level.name.toList.length, ?_⟩
  cases level <;> simp [label, name]

theorem Named.bare (h : Named word level) : Text.Bare Text.isBlank word where
  first c hc := Text.not_isBlank_of_isAlpha (h.isAlpha c (List.mem_of_head? hc))
  last c hc := Text.not_isBlank_of_isAlpha (h.isAlpha c (List.mem_of_getLast? hc))

/-- The label of a level is read as that level, in letters of any case and with any blanks around
it. -/
theorem read?_label {front spelling back : List Char}
    (hfront : ∀ c ∈ front, Text.isBlank c = true) (hback : ∀ c ∈ back, Text.isBlank c = true)
    (hspelling : spelling.map Char.toLower = level.label.toList.map Char.toLower) :
    read? (String.ofList (front ++ spelling ++ back)) = some level := by
  obtain ⟨spaces, hlabel, hspaces⟩ := label_padded level
  rw [hlabel] at hspelling
  obtain ⟨word, padding, rfl, hname, hpadding⟩ := List.map_eq_append_iff.mp hspelling
  have hblank : ∀ c ∈ padding, Text.isBlank c = true := by
    intro c hc
    have hspace : c.toLower = ' ' := hspaces _ (hpadding ▸ List.mem_map_of_mem hc)
    rw [Text.eq_of_toLower_eq (by decide) hspace]
    rfl
  have hword : Text.Core Text.isBlank (front ++ (word ++ padding) ++ back) word :=
    { Named.bare hname with
      surrounded := ⟨front, padding ++ back, by simp, hfront,
        List.forall_mem_append.mpr ⟨hblank, hback⟩⟩ }
  rw [← String.toList_ofList (l := front ++ (word ++ padding) ++ back)] at hword
  exact (read?_eq_some_iff hword).mpr (Or.inr hname)

/-! ## The language of levels -/

/-- **Reading a level.** Between its blanks, a text that is read as a level is a numeral of the
level's number, with a plus sign or without and with any zeros in front, or the level's name in
letters of any case. No text is both a numeral and a name, and all other texts are refused. So every
label is read as its level, in any case and with any blanks around it. -/
theorem reads_numerals_and_names :
    (∀ text word, Text.Core Text.isBlank text.toList word →
      (∀ level, read? text = some level ↔ Text.Numeral word level.number ∨ Named word level) ∧
      (∀ level n, Named word level → ¬Text.Numeral word n) ∧
      (read? text = none ↔ (∀ n ≤ 5, ¬Text.Numeral word n) ∧ ∀ level, ¬Named word level)) ∧
    ∀ level front spelling back, (∀ c ∈ front, Text.isBlank c = true) →
      (∀ c ∈ back, Text.isBlank c = true) →
      spelling.map Char.toLower = level.label.toList.map Char.toLower →
      read? (String.ofList (front ++ spelling ++ back)) = some level :=
  ⟨fun _ _ hword => ⟨fun _ => read?_eq_some_iff hword, fun _ n h => h.not_numeral n,
    read?_eq_none_iff hword⟩,
    fun _ _ _ _ hfront hback hspelling => read?_label hfront hback hspelling⟩

/-- A numeral between blanks, one that no byte holds, and a label in mixed case. -/
theorem reads_numerals_and_names_mixed :
    Text.Core Text.isBlank " +005\t".toList ['+', '0', '0', '5'] ∧ read? " +005\t" = some .trace ∧
      Text.Core Text.isBlank "256".toList ['2', '5', '6'] ∧ read? "256" = none ∧
      (∀ c ∈ ['\t'], Text.isBlank c = true) ∧ (∀ c ∈ ['\u3000'], Text.isBlank c = true) ∧
      ['o', 'F', 'f', ' ', ' '].map Char.toLower = Level.off.label.toList.map Char.toLower ∧
      read? (String.ofList (['\t'] ++ ['o', 'F', 'f', ' ', ' '] ++ ['\u3000'])) = some .off := by
  obtain ⟨hread, hlabel⟩ := reads_numerals_and_names
  have hsmall : Text.Core Text.isBlank " +005\t".toList ['+', '0', '0', '5'] :=
    Text.core_iff.mpr rfl
  have hlarge : Text.Core Text.isBlank "256".toList ['2', '5', '6'] := Text.core_iff.mpr rfl
  have hfive : Text.Numeral ['+', '0', '0', '5'] 5 := Text.numeral_iff.mpr rfl
  have hvalue : Text.Numeral ['2', '5', '6'] 256 := Text.numeral_iff.mpr rfl
  obtain ⟨hlevel, -, -⟩ := hread _ _ hsmall
  obtain ⟨-, hneither, hnone⟩ := hread _ _ hlarge
  have hfront : ∀ c ∈ ['\t'], Text.isBlank c = true := List.forall_mem_singleton.mpr rfl
  have hback : ∀ c ∈ ['\u3000'], Text.isBlank c = true := List.forall_mem_singleton.mpr rfl
  have hspelling : ['o', 'F', 'f', ' ', ' '].map Char.toLower =
      Level.off.label.toList.map Char.toLower := by simp [label]
  refine ⟨hsmall, (hlevel .trace).mpr (Or.inl hfive), hlarge, hnone.mpr ⟨fun n hn h => ?_, ?_⟩,
    hfront, hback, hspelling, hlabel .off _ _ _ hfront hback hspelling⟩
  · have heq : n = 256 := h.unique hvalue
    omega
  · exact fun level h => hneither level 256 h hvalue

end Log.Level

end ExecContext
