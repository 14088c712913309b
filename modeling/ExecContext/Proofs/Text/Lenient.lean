import ExecContext.Proofs.Text.Characters
import Mathlib.Data.List.Induction

set_option autoImplicit false

/-!
# What lenient reading makes of any bytes

Bytes that are not the writing of a text are read all the same: characters where there are some, and
U+FFFD for each maximal ill-formed part between them. `Lenient` says so without regard to how the
bytes are read; `lenient_iff` shows that reading them one by one gives that text and no other.
-/

namespace ExecContext.Text

open String (utf8EncodeChar)

/-! ## Parts -/

/-- Some character is written with these bytes at its beginning. -/
def Begins (bytes : List UInt8) : Prop :=
  ∃ c, bytes <+: utf8EncodeChar c

/-- A part that is read as one ill-formed part where `rest` follows it. -/
inductive IllFormed : List UInt8 → List UInt8 → Prop where
  /-- a byte with which no character begins -/
  | stray {byte : UInt8} {rest : List UInt8} (h : ¬Begins [byte]) : IllFormed [byte] rest
  /-- the beginning of a character that the next byte does not continue -/
  | broken {part rest : List UInt8} {c : Char} (hpart : part ≠ [])
    (hbegins : part <+: utf8EncodeChar c) (hends : part ≠ utf8EncodeChar c)
    (hnext : ∀ byte, rest.head? = some byte → ¬Begins (part ++ [byte])) : IllFormed part rest

/-- The text of bytes that need not be well-formed. -/
inductive Lenient : List UInt8 → List Char → Prop where
  | nil : Lenient [] []
  /-- a character -/
  | character (c : Char) {bytes : List UInt8} {text : List Char} (rest : Lenient bytes text) :
    Lenient (utf8EncodeChar c ++ bytes) (c :: text)
  /-- the mark of an ill-formed part -/
  | illFormed {part bytes : List UInt8} {text : List Char} (h : IllFormed part bytes)
    (rest : Lenient bytes text) : Lenient (part ++ bytes) ('\ufffd' :: text)

/-! ## Characters in progress -/

variable {c : Char} {u v : Unfinished} {byte : UInt8} {part rest bytes : List UInt8}
  {text : List Char}

/-- The bytes read so far of a character in progress. -/
inductive Reads : List UInt8 → Unfinished → Prop where
  | first {byte : UInt8} {u : Unfinished} (h : firstByte byte = .unfinished u) : Reads [byte] u
  | next {part : List UInt8} {byte : UInt8} {u v : Unfinished} (before : Reads part u)
    (h : u.next byte = .unfinished v) : Reads (part ++ [byte]) v

theorem Reads.ne_nil (h : Reads part u) : part ≠ [] := by
  cases h <;> simp

/-- What completes a character in progress are the bytes that it still lacks. -/
theorem Reads.completes_iff (h : Reads part u) :
    (Progress.unfinished u).Completes c rest ↔ utf8EncodeChar c = part ++ rest := by
  induction h generalizing rest with
  | first h => rw [← h, Text.completes_iff, List.singleton_append]
  | @next part byte u v before h ih =>
    have hstep : (Progress.unfinished v).Completes c rest ↔
        (Progress.unfinished u).Completes c (byte :: rest) := by
      rw [Progress.completes_cons, h]
    rw [hstep, ih, List.append_assoc, List.singleton_append]

/-- The next byte can be chosen, but not among the ASCII characters. -/
structure Unfinished.Wide (u : Unfinished) : Prop where
  low : 0x80 ≤ u.low
  range : u.low ≤ u.high
  high : u.high < 0x100

theorem Reads.wide (h : Reads part u) : u.Wide := by
  induction h with
  | @first byte u h =>
    unfold firstByte at h
    simp only [] at h
    split_ifs at h <;> cases h <;> exact ⟨by simp, by simp, by simp⟩
  | @next part byte u v before h ih =>
    unfold Unfinished.next at h
    simp only [] at h
    split_ifs at h
    cases h
    exact ⟨by simp, by simp, by simp⟩

/-- A character in progress can be completed: by the least byte that may come next, as often as
bytes are owed. -/
theorem Unfinished.Wide.completable (h : u.Wide) :
    ∃ c rest, (Progress.unfinished u).Completes c rest := by
  induction howed : u.owed using Nat.strongRecOn generalizing u with
  | ind owed ih =>
    have hnext : u.low ≤ (UInt8.ofNat u.low).toNat ∧ (UInt8.ofNat u.low).toNat ≤ u.high := by
      have hrange := h.range
      have hhigh := h.high
      rw [UInt8.toNat_ofNat']
      omega
    by_cases hlast : u.owed ≤ 1
    · exact ⟨_, [_], (Progress.completes_last hlast).mpr ⟨_, rfl, hnext, rfl⟩⟩
    · obtain ⟨c, rest, hrest⟩ := ih (u.owed - 1) (by omega)
        (u := ⟨u.owed - 1, 0x80, 0xbf, 64 * u.value + ((UInt8.ofNat u.low).toNat - 0x80)⟩)
        ⟨by simp, by simp, by simp⟩ rfl
      exact ⟨c, _, (Progress.completes_more (by omega)).mpr ⟨_, _, rfl, hnext, hrest⟩⟩

/-- What is in progress is the beginning of a character, and not all of it. -/
theorem Reads.begins (h : Reads part u) :
    ∃ c, part <+: utf8EncodeChar c ∧ part ≠ utf8EncodeChar c := by
  obtain ⟨c, rest, hrest⟩ := h.wide.completable
  have hbytes := h.completes_iff.mp hrest
  refine ⟨c, ⟨rest, hbytes.symm⟩, fun heq => ?_⟩
  obtain rfl : rest = [] := by simpa [← heq] using hbytes
  exact Progress.not_completes_nil hrest

/-- With its last byte a character in progress is written to its end. -/
theorem Reads.bytes_of_finished (h : Reads part u) (hbyte : u.next byte = .finished c) :
    utf8EncodeChar c = part ++ [byte] := by
  rw [← h.completes_iff, Progress.completes_cons, hbyte, Progress.completes_finished]
  exact ⟨rfl, rfl⟩

/-- A byte is refused if no character begins with it behind what was read. -/
theorem Reads.not_begins (h : Reads part u) (hbyte : u.next byte = .illFormed) :
    ¬Begins (part ++ [byte]) := by
  rintro ⟨c, rest, hbytes⟩
  have hcompletes : (Progress.unfinished u).Completes c (byte :: rest) :=
    h.completes_iff.mpr (by rw [← hbytes, List.append_assoc, List.singleton_append])
  rw [Progress.completes_cons, hbyte] at hcompletes
  exact Progress.not_completes_illFormed hcompletes

/-- The beginning of a character is read as one in progress. -/
theorem exists_reads (hpart : part ≠ []) (hrest : rest ≠ [])
    (h : utf8EncodeChar c = part ++ rest) : ∃ u, Reads part u := by
  induction part using List.reverseRecOn generalizing rest with
  | nil => exact absurd rfl hpart
  | append_singleton before byte ih =>
    rw [List.append_assoc, List.singleton_append] at h
    cases before with
    | nil =>
      obtain ⟨u, hfirst⟩ := (completes_iff.mpr h).exists_unfinished hrest
      exact ⟨u, .first hfirst⟩
    | cons b others =>
      obtain ⟨u, hu⟩ := ih (List.cons_ne_nil _ _) (List.cons_ne_nil _ _) h
      have hcompletes := hu.completes_iff.mpr h
      rw [Progress.completes_cons] at hcompletes
      obtain ⟨v, hnext⟩ := hcompletes.exists_unfinished hrest
      exact ⟨v, hu.next hnext⟩

/-- An ASCII character continues nothing. -/
theorem not_begins_ascii (hpart : part ≠ []) (hascii : byte.toNat < 0x80) :
    ¬Begins (part ++ [byte]) := by
  rintro ⟨c, rest, hbytes⟩
  rw [List.append_assoc, List.singleton_append] at hbytes
  obtain ⟨u, hu⟩ := exists_reads hpart (List.cons_ne_nil byte rest) hbytes.symm
  have hlow := hu.wide.low
  have hrefused : u.next byte = .illFormed := u.next_illFormed (by omega)
  exact hu.not_begins hrefused ⟨c, rest, by simpa using hbytes⟩

/-! ## Reading part by part -/

/-- The text that is read after the bytes of a character in progress. -/
def readFrom (state : Option Unfinished) (bytes : List UInt8) : List Char :=
  (partsFrom state bytes).map (·.getD '\ufffd')

theorem toList_decodeLenient (bytes : List UInt8) :
    (decodeLenient bytes).toList = readFrom none bytes := String.toList_ofList

/-- A character in progress is read to its end. -/
theorem partsFrom_of_completes (h : (Progress.unfinished u).Completes c rest) :
    partsFrom (some u) (rest ++ bytes) = some c :: partsFrom none bytes := by
  induction rest generalizing u with
  | nil => exact absurd h Progress.not_completes_nil
  | cons byte others ih =>
    rw [Progress.completes_cons] at h
    rw [List.cons_append, partsFrom]
    cases hnext : u.next byte with
    | finished d =>
      rw [hnext, Progress.completes_finished] at h
      obtain ⟨rfl, rfl⟩ := h
      rfl
    | unfinished v =>
      rw [hnext] at h
      exact ih h
    | illFormed =>
      rw [hnext] at h
      exact absurd h Progress.not_completes_illFormed

theorem partsFrom_character (c : Char) (bytes : List UInt8) :
    partsFrom none (utf8EncodeChar c ++ bytes) = some c :: partsFrom none bytes := by
  cases hbytes : utf8EncodeChar c with
  | nil => exact absurd hbytes String.utf8EncodeChar_ne_nil
  | cons byte rest =>
    have hcompletes := completes_iff.mpr hbytes
    rw [List.cons_append]
    cases hfirst : firstByte byte with
    | finished d =>
      rw [hfirst, Progress.completes_finished] at hcompletes
      obtain ⟨rfl, rfl⟩ := hcompletes
      simp [partsFrom, hfirst]
    | unfinished u =>
      rw [hfirst] at hcompletes
      rw [← partsFrom_of_completes hcompletes]
      simp [partsFrom, hfirst]
    | illFormed =>
      rw [hfirst] at hcompletes
      exact absurd hcompletes Progress.not_completes_illFormed

theorem readFrom_character (c : Char) (bytes : List UInt8) :
    readFrom none (utf8EncodeChar c ++ bytes) = c :: readFrom none bytes := by
  rw [readFrom, partsFrom_character]
  rfl

theorem Reads.readFrom (h : Reads part u) (rest : List UInt8) :
    readFrom none (part ++ rest) = Text.readFrom (some u) rest := by
  induction h generalizing rest with
  | first h => simp [Text.readFrom, partsFrom, h]
  | next before h ih =>
    rw [List.append_assoc, List.singleton_append, ih]
    simp [Text.readFrom, partsFrom, h]

/-- Where a character in progress breaks off, the reading starts anew. -/
theorem readFrom_broken (h : ∀ byte, rest.head? = some byte → u.next byte = .illFormed) :
    readFrom (some u) rest = '\ufffd' :: readFrom none rest := by
  cases rest with
  | nil => rfl
  | cons byte others => simp [readFrom, partsFrom, h byte rfl]

theorem readFrom_illFormed (h : IllFormed part rest) :
    readFrom none (part ++ rest) = '\ufffd' :: readFrom none rest := by
  cases h with
  | @stray byte _ h =>
    cases hfirst : firstByte byte with
    | illFormed => simp [readFrom, partsFrom, hfirst]
    | finished d =>
      exact absurd ⟨d, bytes_of_finished hfirst ▸ List.prefix_rfl⟩ h
    | unfinished u =>
      obtain ⟨c, hbegins, -⟩ := (Reads.first hfirst).begins
      exact absurd ⟨c, hbegins⟩ h
  | @broken _ _ c hpart hbegins hends hnext =>
    obtain ⟨lacking, hbytes⟩ := hbegins
    have hlacking : lacking ≠ [] := by
      rintro rfl
      exact hends (by rw [← hbytes, List.append_nil])
    obtain ⟨u, hu⟩ := exists_reads hpart hlacking hbytes.symm
    rw [hu.readFrom]
    refine readFrom_broken fun byte hbyte => ?_
    -- anything else would continue the character
    have hno := hnext byte hbyte
    cases hstep : u.next byte with
    | illFormed => rfl
    | finished d =>
      exact absurd ⟨d, hu.bytes_of_finished hstep ▸ List.prefix_rfl⟩ hno
    | unfinished v =>
      obtain ⟨d, hbegins, -⟩ := (hu.next hstep).begins
      exact absurd ⟨d, hbegins⟩ hno

/-! ## The text that is read -/

/-- The text read is one that the bytes have, also in the middle of a character. -/
theorem lenient_readFrom (bytes : List UInt8) :
    Lenient bytes (readFrom none bytes) ∧
      ∀ part u, Reads part u → Lenient (part ++ bytes) (readFrom (some u) bytes) := by
  induction bytes with
  | nil =>
    refine ⟨.nil, fun part u hu => ?_⟩
    obtain ⟨c, hbegins, hends⟩ := hu.begins
    exact .illFormed (.broken hu.ne_nil hbegins hends nofun) .nil
  | cons byte bytes ih =>
    have hanew : Lenient (byte :: bytes) (readFrom none (byte :: bytes)) := by
      cases hfirst : firstByte byte with
      | finished c =>
        have hrest := ih.1.character c
        rw [bytes_of_finished hfirst] at hrest
        simpa [readFrom, partsFrom, hfirst] using hrest
      | unfinished u =>
        simpa [readFrom, partsFrom, hfirst] using ih.2 [byte] u (.first hfirst)
      | illFormed =>
        have hstray : ¬Begins [byte] := by
          rintro ⟨c, rest, hbytes⟩
          have hcompletes := completes_iff.mpr hbytes.symm
          rw [hfirst] at hcompletes
          exact Progress.not_completes_illFormed hcompletes
        simpa [readFrom, partsFrom, hfirst] using Lenient.illFormed (.stray hstray) ih.1
    refine ⟨hanew, fun part u hu => ?_⟩
    cases hstep : u.next byte with
    | finished c =>
      have hrest := ih.1.character c
      rw [hu.bytes_of_finished hstep] at hrest
      simpa [readFrom, partsFrom, hstep] using hrest
    | unfinished v =>
      simpa [readFrom, partsFrom, hstep] using ih.2 _ v (hu.next hstep)
    | illFormed =>
      obtain ⟨c, hbegins, hends⟩ := hu.begins
      rw [readFrom_broken (by rintro _ ⟨⟩; exact hstep)]
      refine .illFormed (.broken hu.ne_nil hbegins hends ?_) hanew
      rintro _ ⟨⟩
      exact hu.not_begins hstep

/-- Reading the bytes one by one gives their text, and there is no other. -/
theorem lenient_iff : Lenient bytes text ↔ (decodeLenient bytes).toList = text := by
  rw [toList_decodeLenient]
  refine ⟨fun h => ?_, fun h => h ▸ (lenient_readFrom bytes).1⟩
  induction h with
  | nil => rfl
  | character c rest ih => rw [readFrom_character, ih]
  | illFormed h rest ih => rw [readFrom_illFormed h, ih]

/-! ## What can be told from the text -/

/-- The bytes of a text. -/
def utf8 (text : String) : List UInt8 :=
  text.toUTF8.data.toList

theorem utf8_eq_flatMap (text : String) : utf8 text = text.toList.flatMap utf8EncodeChar := by
  rw [utf8, String.toUTF8_eq_toByteArray, ← String.utf8Encode_toList]
  exact List.toList_data_toByteArray

/-- The bytes of a text are read as that text. -/
theorem lenient_utf8 (text : String) : Lenient (utf8 text) text.toList := by
  rw [utf8_eq_flatMap]
  induction text.toList with
  | nil => exact .nil
  | cons c rest ih => exact ih.character c

namespace Lenient

/-- Where nothing is marked as ill-formed, the bytes are those of the text. -/
theorem utf8_eq (h : Lenient bytes text) (hmark : '\ufffd' ∉ text) :
    utf8 (String.ofList text) = bytes := by
  rw [utf8_eq_flatMap, String.toList_ofList]
  induction h with
  | nil => rfl
  | character c rest ih =>
    rw [List.flatMap_cons, ih fun hmem => hmark (List.mem_cons_of_mem _ hmem)]
  | illFormed => exact absurd List.mem_cons_self hmark

/-- An ASCII character of the text is one of the bytes. -/
theorem byte_mem (h : Lenient bytes text) (hascii : byte.toNat < 0x80)
    (hmem : Char.ofNat byte.toNat ∈ text) : byte ∈ bytes := by
  induction h with
  | nil => cases hmem
  | @character c bytes text rest ih =>
    rcases List.mem_cons.mp hmem with rfl | hrest
    · rw [utf8EncodeChar_ascii hascii]
      exact List.mem_cons_self
    · exact List.mem_append_right _ (ih hrest)
  | illFormed h rest ih =>
    rcases List.mem_cons.mp hmem with heq | hrest
    · rw [ofNat_eq_iff (by omega)] at heq
      exact absurd heq (by simp; omega)
    · exact List.mem_append_right _ (ih hrest)

/-- An ASCII character parts the bytes, whatever stands before it. -/
theorem append (h : Lenient bytes text) (hascii : byte.toNat < 0x80) {more : List Char}
    (hrest : Lenient rest more) :
    Lenient (bytes ++ byte :: rest) (text ++ Char.ofNat byte.toNat :: more) := by
  have hbyte := hrest.character (Char.ofNat byte.toNat)
  rw [utf8EncodeChar_ascii hascii, List.singleton_append] at hbyte
  induction h with
  | nil => exact hbyte
  | character c _ ih =>
    rw [List.append_assoc]
    exact ih.character c
  | @illFormed part bytes text h _ ih =>
    rw [List.append_assoc]
    refine .illFormed ?_ ih
    cases h with
    | stray h => exact .stray h
    | broken hpart hbegins hends hnext =>
      refine .broken hpart hbegins hends fun b hb => ?_
      cases bytes with
      | nil =>
        cases hb
        exact not_begins_ascii hpart hascii
      | cons d others => exact hnext b hb

end Lenient

end ExecContext.Text
