import ExecContext.Segment
import Mathlib.Data.List.GetD
import Mathlib.Data.Nat.Basic
import Mathlib.Order.Interval.Set.Defs

set_option autoImplicit false

/-!
# Which bytes a slot is read from

The bytes of a segment are those of its words, the lowest byte of a word first. A slot is read from
the eight bytes behind its address and from no others (`slot_reads_eight_bytes`), wherever the slots
start: at a multiple of eight these are the bytes of one word, elsewhere they are the high bytes of
one word and the low bytes of the next.
-/

namespace ExecContext

/-! ## The bytes of a word -/

/-- Byte `i` of a word, counted from the lowest. -/
def byteOf (word : UInt64) (i : Nat) : UInt8 :=
  UInt8.ofNat (word.toNat >>> (8 * i))

theorem testBit_byteOf (word : UInt64) (i j : Nat) :
    (byteOf word i).toNat.testBit j = (decide (j < 8) && word.toNat.testBit (8 * i + j)) := by
  rw [byteOf, UInt8.toNat_ofNat', Nat.testBit_mod_two_pow, Nat.testBit_shiftRight]

/-- A word is known by its eight bytes. -/
theorem word_eq_iff {word word' : UInt64} :
    word = word' ↔ ∀ i < 8, byteOf word i = byteOf word' i := by
  constructor
  · rintro rfl i -
    rfl
  · intro h
    apply UInt64.toNat_inj.mp
    apply Nat.eq_of_testBit_eq
    intro j
    by_cases hj : j < 64
    · have hbyte : byteOf word (j / 8) = byteOf word' (j / 8) := h _ (by omega)
      have hbit := congrArg (fun byte => byte.toNat.testBit (j % 8)) hbyte
      simpa [testBit_byteOf, Nat.mod_lt, Nat.div_add_mod] using hbit
    · have hlimit : 2 ^ 64 ≤ 2 ^ j := Nat.pow_le_pow_right (by decide) (by omega)
      rw [Nat.testBit_lt_two_pow (lt_of_lt_of_le word.toNat_lt hlimit),
        Nat.testBit_lt_two_pow (lt_of_lt_of_le word'.toNat_lt hlimit)]

namespace Segment

variable {s s' : Segment} {base index address : Nat}

/-! ## The bytes of a segment -/

/-- The byte at an address. -/
def byteAt (s : Segment) (address : Nat) : UInt8 :=
  byteOf (s.wordAt (address / 8)) (address % 8)

/-- The bits of a word that is read are those of the segment from its address on. -/
theorem testBit_read (s : Segment) (address : Nat) {j : Nat} (hj : j < 64) :
    (s.read address).toNat.testBit j =
      (s.wordAt ((8 * address + j) / 64)).toNat.testBit ((8 * address + j) % 64) := by
  have hshift : address % 8 < 8 := Nat.mod_lt _ (by decide)
  unfold read
  dsimp only
  split
  · have hindex : (8 * address + j) / 64 = address / 8 := by omega
    have hbit : (8 * address + j) % 64 = j := by omega
    rw [hindex, hbit]
  · -- below bit 64 - 8 * (address % 8) stands the first word, from there on the second
    have hdown : (UInt64.ofNat (8 * (address % 8))).toNat % 64 = 8 * (address % 8) := by
      rw [UInt64.toNat_ofNat']
      omega
    have hup : (UInt64.ofNat (64 - 8 * (address % 8))).toNat % 64 = 64 - 8 * (address % 8) := by
      rw [UInt64.toNat_ofNat']
      omega
    rw [UInt64.toNat_or, UInt64.toNat_shiftRight, UInt64.toNat_shiftLeft, hdown, hup,
      Nat.testBit_or, Nat.testBit_shiftRight, Nat.testBit_mod_two_pow, Nat.testBit_shiftLeft]
    by_cases hfirst : j < 64 - 8 * (address % 8)
    · have hindex : (8 * address + j) / 64 = address / 8 := by omega
      have hbit : (8 * address + j) % 64 = 8 * (address % 8) + j := by omega
      have hbelow : ¬64 - 8 * (address % 8) ≤ j := Nat.not_le.mpr hfirst
      rw [hindex, hbit]
      simp [hbelow]
    · have hindex : (8 * address + j) / 64 = address / 8 + 1 := by omega
      have hbit : (8 * address + j) % 64 = j - (64 - 8 * (address % 8)) := by omega
      have hpast : 2 ^ 64 ≤ 2 ^ (8 * (address % 8) + j) :=
        Nat.pow_le_pow_right (by decide) (by omega)
      have hnone : (s.wordAt (address / 8)).toNat.testBit (8 * (address % 8) + j) = false :=
        Nat.testBit_lt_two_pow (lt_of_lt_of_le (UInt64.toNat_lt _) hpast)
      rw [hindex, hbit, hnone]
      simp [hj, Nat.not_lt.mp hfirst]

/-- The bytes of a word that is read are those of the segment from its address on. -/
theorem byteOf_read (s : Segment) (address : Nat) {i : Nat} (hi : i < 8) :
    byteOf (s.read address) i = s.byteAt (address + i) := by
  apply UInt8.toNat_inj.mp
  apply Nat.eq_of_testBit_eq
  intro j
  rw [byteAt, testBit_byteOf, testBit_byteOf]
  by_cases hj : j < 8
  · have hindex : (8 * address + (8 * i + j)) / 64 = (address + i) / 8 := by omega
    have hbit : (8 * address + (8 * i + j)) % 64 = 8 * ((address + i) % 8) + j := by omega
    rw [testBit_read s address (by omega), hindex, hbit]
  · simp [hj]

/-! ## The bytes of a slot -/

/-- The addresses of the eight bytes of a slot. -/
def span (base index : Nat) : Set Nat :=
  Set.Ico (base + 8 * index) (base + 8 * index + 8)

/-- No byte is in two slots of one array. -/
theorem span_disjoint (base : Nat) {index other : Nat} (h : index ≠ other) :
    ∀ address ∈ span base index, address ∉ span base other := by
  intro address hin hother
  obtain ⟨hfirst, hlast⟩ := hin
  obtain ⟨hfirst', hlast'⟩ := hother
  omega

/-- Two segments show the same slot if and only if they have the same eight bytes there. -/
theorem slot_eq_iff :
    s.slot base index = s'.slot base index ↔
      ∀ address ∈ span base index, s.byteAt address = s'.byteAt address := by
  rw [slot, slot, word_eq_iff]
  constructor
  · intro h address haddress
    obtain ⟨hfirst, hlast⟩ := haddress
    have hbyte := h (address - (base + 8 * index)) (by omega)
    rw [byteOf_read _ _ (by omega), byteOf_read _ _ (by omega)] at hbyte
    rwa [Nat.add_sub_cancel' hfirst] at hbyte
  · intro h i hi
    rw [byteOf_read _ _ hi, byteOf_read _ _ hi]
    apply h
    exact ⟨by omega, by omega⟩

/-- A slot that starts at a multiple of eight is one of the words. -/
theorem slot_aligned (s : Segment) (q index : Nat) :
    s.slot (8 * q) index = s.wordAt (q + index) := by
  have hindex : (8 * q + 8 * index) / 8 = q + index := by omega
  have hshift : (8 * q + 8 * index) % 8 = 0 := by omega
  rw [slot, read, hshift, hindex]
  rfl

/-- Any other slot has the high bytes of one word, then the low bytes of the next. -/
theorem byteOf_slot (s : Segment) (q index : Nat) {r i : Nat} (hr : r < 8) :
    (i < 8 - r → byteOf (s.slot (8 * q + r) index) i = byteOf (s.wordAt (q + index)) (r + i)) ∧
    (i < r → byteOf (s.slot (8 * q + r) index) (8 - r + i) =
      byteOf (s.wordAt (q + index + 1)) i) := by
  constructor
  · intro hi
    have hword : (8 * q + r + 8 * index + i) / 8 = q + index := by omega
    have hbyte : (8 * q + r + 8 * index + i) % 8 = r + i := by omega
    rw [slot, byteOf_read _ _ (by omega), byteAt, hword, hbyte]
  · intro hi
    have hword : (8 * q + r + 8 * index + (8 - r + i)) / 8 = q + index + 1 := by omega
    have hbyte : (8 * q + r + 8 * index + (8 - r + i)) % 8 = i := by omega
    rw [slot, byteOf_read _ _ (by omega), byteAt, hword, hbyte]

/-- **A slot is read from its eight bytes.** A slot of an array that starts at a multiple of eight
is one of the words; any other is spliced from the high bytes of one word and the low bytes of the
next. Starting the array eight bytes later is counting its slots from one further on. Different
slots of an array have no byte in common, and a slot changes exactly when one of its own eight bytes
does; so storing in another slot makes no difference to it. -/
theorem slot_reads_eight_bytes :
    (∀ (s : Segment) (q r index : Nat), r < 8 →
      (r = 0 → s.slot (8 * q + r) index = s.wordAt (q + index)) ∧
      ∀ i,
        (i < 8 - r →
          byteOf (s.slot (8 * q + r) index) i = byteOf (s.wordAt (q + index)) (r + i)) ∧
        (i < r → byteOf (s.slot (8 * q + r) index) (8 - r + i) =
          byteOf (s.wordAt (q + index + 1)) i)) ∧
    (∀ (s : Segment) (base index j : Nat),
      s.slot (base + 8 * j) index = s.slot base (index + j)) ∧
    (∀ base index other : Nat, index ≠ other →
      ∀ address ∈ span base index, address ∉ span base other) ∧
    (∀ (s s' : Segment) (base index : Nat),
      s.slot base index = s'.slot base index ↔
        ∀ address ∈ span base index, s.byteAt address = s'.byteAt address) ∧
    ∀ (s s' : Segment) (base index other : Nat), index ≠ other →
      (∀ address, address ∉ span base other → s.byteAt address = s'.byteAt address) →
      s.slot base index = s'.slot base index := by
  refine ⟨?splice, ?shift, ?disjoint, ?exactly, ?other⟩
  case splice =>
    intro s q r index hr
    refine ⟨?_, fun i => byteOf_slot s q index hr⟩
    rintro rfl
    exact slot_aligned s q index
  case shift =>
    intro s base index j
    have haddress : base + 8 * j + 8 * index = base + 8 * (index + j) := by omega
    rw [slot, slot, haddress]
  case disjoint =>
    intro base index other h
    exact span_disjoint base h
  case exactly =>
    intro s s' base index
    exact slot_eq_iff
  case other =>
    intro s s' base index other hne h
    apply slot_eq_iff.mpr
    intro address haddress
    apply h
    exact span_disjoint base hne address haddress

/-- A slot spliced from two words, and the slot behind it, which is the same whatever is stored in
the first. -/
theorem slot_reads_eight_bytes_spliced :
    byteOf (slot ⟨[0x0807060504030201, 0x100f0e0d0c0b0a09]⟩ (8 * 0 + 2) 0) 5 = 8 ∧
      byteOf (slot ⟨[0x0807060504030201, 0x100f0e0d0c0b0a09]⟩ (8 * 0 + 2) 0) (8 - 2 + 0) = 9 ∧
      slot ⟨[0x0807060504030201, 0x100f0e0d0c0b0a09]⟩ 2 1 =
        slot ⟨[0x0000000000000201, 0x100f0e0d0c0b0000]⟩ 2 1 := by
  obtain ⟨hsplice, -, -, -, hother⟩ := slot_reads_eight_bytes
  obtain ⟨-, hbytes⟩ := hsplice ⟨[0x0807060504030201, 0x100f0e0d0c0b0a09]⟩ 0 2 0 (by decide)
  have hhigh := (hbytes 5).1 (by decide)
  have hlow := (hbytes 0).2 (by decide)
  refine ⟨hhigh.trans (by decide), hlow.trans (by decide), hother _ _ 2 1 0 (by decide) ?_⟩
  intro address haddress
  by_cases hwords : address < 16
  · have hkept : ∀ n < 16, 2 ≤ n ∧ n < 10 ∨
        byteAt ⟨[0x0807060504030201, 0x100f0e0d0c0b0a09]⟩ n =
          byteAt ⟨[0x0000000000000201, 0x100f0e0d0c0b0000]⟩ n := by decide
    exact (hkept address hwords).resolve_left haddress
  · have hindex : 2 ≤ address / 8 := by omega
    rw [byteAt, byteAt, wordAt, wordAt, List.getD_eq_default _ _ hindex,
      List.getD_eq_default _ _ hindex]

end Segment

end ExecContext
