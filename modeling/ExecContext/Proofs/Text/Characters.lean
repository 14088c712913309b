import ExecContext.Text.Utf8
import Mathlib.Data.List.Basic
import Mathlib.Tactic.SplitIfs

set_option autoImplicit false

/-!
# The bytes of a character

Reading byte by byte finds the characters that UTF-8 writes, and no others (`completes_iff`). A byte
is refused just if no character begins with the bytes read up to it.
-/

namespace ExecContext.Text

open String (utf8EncodeChar)

variable {c : Char} {u : Unfinished} {byte : UInt8} {rest bytes : List UInt8}

/-! ## Characters as numbers -/

theorem toNat_cases (c : Char) :
    c.toNat < 0xd800 ∨ 0xdfff < c.toNat ∧ c.toNat < 0x110000 := c.valid

theorem ofNat_eq_iff {n : Nat} (h : n < 0xd800 ∨ 0xdfff < n ∧ n < 0x110000) :
    Char.ofNat n = c ↔ c.toNat = n := by
  have hn : n.isValidChar := h
  have htoNat : (Char.ofNat n).toNat = n := by
    rw [Char.ofNat, dif_pos hn]
    rfl
  rw [← Char.toNat_inj, htoNat, eq_comm]

/-- A character is written as these bytes if their numbers are those of its bytes. -/
theorem utf8EncodeChar_eq_iff :
    utf8EncodeChar c = bytes ↔ (utf8EncodeChar c).map UInt8.toNat = bytes.map UInt8.toNat :=
  ((List.map_injective_iff.mpr fun _ _ => UInt8.toNat_inj.mp).eq_iff).symm

/-! ## How UTF-8 writes a character -/

theorem toNat_bytes_one (h : c.toNat < 0x80) :
    (utf8EncodeChar c).map UInt8.toNat = [c.toNat] := by
  have hv : c.val.toNat = c.toNat := rfl
  simp only [utf8EncodeChar, hv]
  rw [if_pos (by omega)]
  simp
  omega

theorem toNat_bytes_two (hge : 0x80 ≤ c.toNat) (hlt : c.toNat < 0x800) :
    (utf8EncodeChar c).map UInt8.toNat = [0xc0 + c.toNat / 64, 0x80 + c.toNat % 64] := by
  have hv : c.val.toNat = c.toNat := rfl
  simp only [utf8EncodeChar, hv]
  rw [if_neg (by omega), if_pos (by omega)]
  simp
  omega

theorem toNat_bytes_three (hge : 0x800 ≤ c.toNat) (hlt : c.toNat < 0x10000) :
    (utf8EncodeChar c).map UInt8.toNat =
      [0xe0 + c.toNat / 4096, 0x80 + c.toNat / 64 % 64, 0x80 + c.toNat % 64] := by
  have hv : c.val.toNat = c.toNat := rfl
  simp only [utf8EncodeChar, hv]
  rw [if_neg (by omega), if_neg (by omega), if_pos (by omega)]
  simp
  omega

theorem toNat_bytes_four (hge : 0x10000 ≤ c.toNat) :
    (utf8EncodeChar c).map UInt8.toNat =
      [0xf0 + c.toNat / 262144, 0x80 + c.toNat / 4096 % 64, 0x80 + c.toNat / 64 % 64,
        0x80 + c.toNat % 64] := by
  have hvalid := toNat_cases c
  have hv : c.val.toNat = c.toNat := rfl
  simp only [utf8EncodeChar, hv]
  rw [if_neg (by omega), if_neg (by omega), if_neg (by omega)]
  simp
  omega

/-! ## First bytes -/

theorem firstByte_one (h : byte.toNat < 0x80) :
    firstByte byte = .finished (Char.ofNat byte.toNat) := if_pos h

theorem firstByte_two (hge : 0xc2 ≤ byte.toNat) (hlt : byte.toNat < 0xe0) :
    firstByte byte = .unfinished ⟨1, 0x80, 0xbf, byte.toNat - 0xc0⟩ := by
  unfold firstByte
  simp only []
  rw [if_neg (by omega), if_neg (by omega), if_pos hlt]

/-- The range of the second byte keeps out what two bytes write, and the surrogates. -/
theorem firstByte_three (hge : 0xe0 ≤ byte.toNat) (hlt : byte.toNat < 0xf0) :
    ∃ low high, firstByte byte = .unfinished ⟨2, low, high, byte.toNat - 0xe0⟩ ∧
      ∀ x, low ≤ x ∧ x ≤ high ↔ 0x80 ≤ x ∧ x ≤ 0xbf ∧
        0x20 ≤ 64 * (byte.toNat - 0xe0) + (x - 0x80) ∧
        (64 * (byte.toNat - 0xe0) + (x - 0x80) < 0x360 ∨
          0x37f < 64 * (byte.toNat - 0xe0) + (x - 0x80)) := by
  unfold firstByte
  simp only []
  rw [if_neg (by omega), if_neg (by omega), if_neg (by omega)]
  split_ifs with h1 h2
  · exact ⟨_, _, by rw [h1], fun x => by omega⟩
  · exact ⟨_, _, by rw [h2], fun x => by omega⟩
  · exact ⟨_, _, rfl, fun x => by omega⟩

/-- The range of the second byte keeps out what three bytes write, and values that are too high. -/
theorem firstByte_four (hge : 0xf0 ≤ byte.toNat) (hlt : byte.toNat < 0xf5) :
    ∃ low high, firstByte byte = .unfinished ⟨3, low, high, byte.toNat - 0xf0⟩ ∧
      ∀ x, low ≤ x ∧ x ≤ high ↔ 0x80 ≤ x ∧ x ≤ 0xbf ∧
        0x10 ≤ 64 * (byte.toNat - 0xf0) + (x - 0x80) ∧
        64 * (byte.toNat - 0xf0) + (x - 0x80) < 0x110 := by
  unfold firstByte
  simp only []
  rw [if_neg (by omega), if_neg (by omega), if_neg (by omega), if_neg (by omega),
    if_neg (by omega), if_neg (by omega)]
  split_ifs with h1 h2 h3
  · exact ⟨_, _, by rw [h1], fun x => by omega⟩
  · exact ⟨_, _, rfl, fun x => by omega⟩
  · exact ⟨_, _, by rw [h3], fun x => by omega⟩
  · omega

theorem firstByte_illFormed
    (h : 0x80 ≤ byte.toNat ∧ byte.toNat < 0xc2 ∨ 0xf5 ≤ byte.toNat) :
    firstByte byte = .illFormed := by
  unfold firstByte
  simp only []
  split_ifs <;> first | rfl | omega

/-! ## Bytes that follow -/

theorem Unfinished.next_last (howed : u.owed ≤ 1) (hlow : u.low ≤ byte.toNat)
    (hhigh : byte.toNat ≤ u.high) :
    u.next byte = .finished (Char.ofNat (64 * u.value + (byte.toNat - 0x80))) := by
  simp [next, howed, hlow, hhigh]

theorem Unfinished.next_more (howed : 1 < u.owed) (hlow : u.low ≤ byte.toNat)
    (hhigh : byte.toNat ≤ u.high) :
    u.next byte =
      .unfinished ⟨u.owed - 1, 0x80, 0xbf, 64 * u.value + (byte.toNat - 0x80)⟩ := by
  simp [next, Nat.not_le.mpr howed, hlow, hhigh]

theorem Unfinished.next_illFormed (h : ¬(u.low ≤ byte.toNat ∧ byte.toNat ≤ u.high)) :
    u.next byte = .illFormed := by
  simp [next, h]

namespace Progress

/-- The bytes that follow complete the character `c`, and no more. -/
def Completes (c : Char) : Progress → List UInt8 → Prop
  | .finished d, rest => d = c ∧ rest = []
  | .illFormed, _ => False
  | .unfinished _, [] => False
  | .unfinished u, byte :: rest => (u.next byte).Completes c rest

theorem completes_finished {d : Char} : (finished d).Completes c rest ↔ d = c ∧ rest = [] := by
  rw [Completes]

theorem not_completes_illFormed : ¬illFormed.Completes c rest := by
  rw [Completes]
  exact id

theorem not_completes_nil : ¬(unfinished u).Completes c [] := id

/-- While more bytes are lacking, the character is in progress. -/
theorem Completes.exists_unfinished {p : Progress} (h : p.Completes c rest) (hrest : rest ≠ []) :
    ∃ u, p = .unfinished u := by
  cases p with
  | unfinished u => exact ⟨u, rfl⟩
  | finished d => exact absurd (completes_finished.mp h).2 hrest
  | illFormed => exact absurd h not_completes_illFormed

theorem completes_cons :
    (unfinished u).Completes c (byte :: rest) ↔ (u.next byte).Completes c rest := Iff.rfl

theorem completes_last (howed : u.owed ≤ 1) :
    (unfinished u).Completes c bytes ↔
      ∃ byte, bytes = [byte] ∧ (u.low ≤ byte.toNat ∧ byte.toNat ≤ u.high) ∧
        Char.ofNat (64 * u.value + (byte.toNat - 0x80)) = c := by
  cases bytes with
  | nil => simp [Completes]
  | cons byte rest =>
    by_cases h : u.low ≤ byte.toNat ∧ byte.toNat ≤ u.high
    · simp [Completes, u.next_last howed h.1 h.2, h.1, h.2, and_comm]
    · simp only [Completes, u.next_illFormed h, false_iff]
      rintro ⟨_, heq, hrange, -⟩
      cases heq
      exact h hrange

theorem completes_more (howed : 1 < u.owed) :
    (unfinished u).Completes c bytes ↔
      ∃ byte rest, bytes = byte :: rest ∧ (u.low ≤ byte.toNat ∧ byte.toNat ≤ u.high) ∧
        (unfinished ⟨u.owed - 1, 0x80, 0xbf,
          64 * u.value + (byte.toNat - 0x80)⟩).Completes c rest := by
  cases bytes with
  | nil => simp [Completes]
  | cons byte rest =>
    by_cases h : u.low ≤ byte.toNat ∧ byte.toNat ≤ u.high
    · simp [Completes, u.next_more howed h.1 h.2, h.1, h.2]
    · simp only [Completes, u.next_illFormed h, false_iff]
      rintro ⟨_, _, heq, hrange, -⟩
      cases heq
      exact h hrange

/-- Bytes that complete a first one write the character together with it. -/
theorem Completes.bytes_eq (h : (firstByte byte).Completes c rest) :
    utf8EncodeChar c = byte :: rest := by
  have hbyte : byte.toNat < 0x100 := byte.toNat_lt
  rw [utf8EncodeChar_eq_iff]
  obtain hb | hb | hb | hb | hb : byte.toNat < 0x80 ∨
      (0x80 ≤ byte.toNat ∧ byte.toNat < 0xc2 ∨ 0xf5 ≤ byte.toNat) ∨
      (0xc2 ≤ byte.toNat ∧ byte.toNat < 0xe0) ∨ (0xe0 ≤ byte.toNat ∧ byte.toNat < 0xf0) ∨
      (0xf0 ≤ byte.toNat ∧ byte.toNat < 0xf5) := by omega
  · rw [firstByte_one hb, completes_finished, ofNat_eq_iff (by omega)] at h
    obtain ⟨hc, rfl⟩ := h
    rw [toNat_bytes_one (by omega), hc]
    rfl
  · rw [firstByte_illFormed hb] at h
    exact absurd h not_completes_illFormed
  · rw [firstByte_two hb.1 hb.2, completes_last Nat.le.refl] at h
    obtain ⟨second, rfl, hrange, hc⟩ := h
    simp only [] at hrange hc
    rw [ofNat_eq_iff (by omega)] at hc
    rw [toNat_bytes_two (by omega) (by omega), hc]
    simp
    omega
  · obtain ⟨low, high, hfirst, hnext⟩ := firstByte_three hb.1 hb.2
    rw [hfirst, completes_more (by simp)] at h
    obtain ⟨second, _, rfl, hsecond, h⟩ := h
    obtain ⟨third, rfl, hthird, hc⟩ := (completes_last Nat.le.refl).mp h
    have hvalue := (hnext _).mp hsecond
    simp only [] at hthird hc
    rw [ofNat_eq_iff (by omega)] at hc
    rw [toNat_bytes_three (by omega) (by omega), hc]
    simp
    omega
  · obtain ⟨low, high, hfirst, hnext⟩ := firstByte_four hb.1 hb.2
    rw [hfirst, completes_more (by simp)] at h
    obtain ⟨second, _, rfl, hsecond, h⟩ := h
    obtain ⟨third, _, rfl, hthird, h⟩ := (completes_more (by simp)).mp h
    obtain ⟨fourth, rfl, hfourth, hc⟩ := (completes_last Nat.le.refl).mp h
    have hvalue := (hnext _).mp hsecond
    simp only [] at hthird hfourth hc
    rw [ofNat_eq_iff (by omega)] at hc
    rw [toNat_bytes_four (by omega), hc]
    simp
    omega

/-- The bytes of a character are read to its end. -/
theorem completes_of_bytes_eq (h : utf8EncodeChar c = byte :: rest) :
    (firstByte byte).Completes c rest := by
  have hvalid := toNat_cases c
  rw [utf8EncodeChar_eq_iff] at h
  obtain hc | hc | hc | hc : c.toNat < 0x80 ∨ (0x80 ≤ c.toNat ∧ c.toNat < 0x800) ∨
      (0x800 ≤ c.toNat ∧ c.toNat < 0x10000) ∨ 0x10000 ≤ c.toNat := by omega
  · rw [toNat_bytes_one hc] at h
    simp at h
    obtain ⟨hbyte, rfl⟩ := h
    rw [firstByte_one (by omega), completes_finished, ofNat_eq_iff (by omega)]
    exact ⟨hbyte, rfl⟩
  · rw [toNat_bytes_two hc.1 hc.2, eq_comm, List.map_cons, List.cons.injEq,
      List.map_eq_singleton_iff] at h
    obtain ⟨hbyte, second, rfl, hsecond⟩ := h
    rw [firstByte_two (by omega) (by omega), completes_last Nat.le.refl]
    refine ⟨second, rfl, by simp only []; omega, ?_⟩
    rw [ofNat_eq_iff (by simp only []; omega)]
    simp only []
    omega
  · rw [toNat_bytes_three hc.1 hc.2, eq_comm, List.map_cons, List.cons.injEq,
      List.map_eq_cons_iff] at h
    obtain ⟨hbyte, second, _, rfl, hsecond, hrest⟩ := h
    obtain ⟨third, rfl, hthird⟩ := List.map_eq_singleton_iff.mp hrest
    have hge : 0xe0 ≤ byte.toNat := by omega
    obtain ⟨low, high, hfirst, hnext⟩ := firstByte_three hge (by omega)
    rw [hfirst, completes_more (by simp)]
    refine ⟨second, [third], rfl, (hnext _).mpr (by omega), ?_⟩
    rw [completes_last Nat.le.refl]
    refine ⟨third, rfl, by simp only []; omega, ?_⟩
    rw [ofNat_eq_iff (by simp only []; omega)]
    simp only []
    omega
  · rw [toNat_bytes_four hc, eq_comm, List.map_cons, List.cons.injEq,
      List.map_eq_cons_iff] at h
    obtain ⟨hbyte, second, _, rfl, hsecond, hrest⟩ := h
    obtain ⟨third, _, rfl, hthird, hrest⟩ := List.map_eq_cons_iff.mp hrest
    obtain ⟨fourth, rfl, hfourth⟩ := List.map_eq_singleton_iff.mp hrest
    have hge : 0xf0 ≤ byte.toNat := by omega
    obtain ⟨low, high, hfirst, hnext⟩ := firstByte_four hge (by omega)
    rw [hfirst, completes_more (by simp)]
    refine ⟨second, _, rfl, (hnext _).mpr (by omega), ?_⟩
    rw [completes_more (by simp)]
    refine ⟨third, _, rfl, by simp only []; omega, ?_⟩
    rw [completes_last Nat.le.refl]
    refine ⟨fourth, rfl, by simp only []; omega, ?_⟩
    rw [ofNat_eq_iff (by simp only []; omega)]
    simp only []
    omega

end Progress

/-- Bytes complete a first one just if they are, behind it, the bytes of the character. -/
theorem completes_iff :
    (firstByte byte).Completes c rest ↔ utf8EncodeChar c = byte :: rest :=
  ⟨Progress.Completes.bytes_eq, Progress.completes_of_bytes_eq⟩

/-- A first byte may be the whole character. -/
theorem bytes_of_finished (h : firstByte byte = .finished c) : utf8EncodeChar c = [byte] := by
  rw [← completes_iff, h, Progress.completes_finished]
  exact ⟨rfl, rfl⟩

theorem utf8EncodeChar_ascii (h : byte.toNat < 0x80) :
    utf8EncodeChar (Char.ofNat byte.toNat) = [byte] :=
  bytes_of_finished (firstByte_one h)

end ExecContext.Text
