import ExecContext.Text.Blank
import Mathlib.Data.List.DropRight

set_option autoImplicit false

/-!
# What trimming and cutting leave

Trimming leaves the core of a text: the part that has only removable characters before and after it,
and none at its own ends. A text has one core (`core_iff`), whatever is put around it
(`trim_padded`). Cutting leaves what stands before the first mark of some kind (`cut_iff`).
-/

namespace ExecContext.Text

/-! ## Cuts -/

/-- The part of a list before the first `mark`, the whole list if it has none. -/
def Cut {α : Type} (mark : α) (list first : List α) : Prop :=
  mark ∉ first ∧ (list = first ∨ ∃ tail, list = first ++ mark :: tail)

theorem cut_iff {α : Type} [BEq α] [LawfulBEq α] {mark : α} {list first : List α} :
    Cut mark list first ↔ list.takeWhile (· != mark) = first := by
  constructor
  · rintro ⟨hmark, hlist⟩
    have hfirst : ∀ a ∈ first, (a != mark) = true := by
      intro a ha
      rw [bne_iff_ne]
      rintro rfl
      exact hmark ha
    rcases hlist with rfl | ⟨tail, rfl⟩
    · exact List.takeWhile_eq_self_iff.mpr hfirst
    · rw [List.takeWhile_append_of_pos hfirst]
      simp
  · rintro rfl
    refine ⟨fun hmark => by simpa using List.mem_takeWhile_imp hmark, ?_⟩
    have hall : list.takeWhile (· != mark) ++ list.dropWhile (· != mark) = list :=
      List.takeWhile_append_dropWhile
    cases hrest : list.dropWhile (· != mark) with
    | nil =>
      rw [hrest, List.append_nil] at hall
      exact Or.inl hall.symm
    | cons a tail =>
      have hhead := List.head?_dropWhile_not (· != mark) list
      rw [hrest] at hhead hall
      obtain rfl : a = mark := by simpa using hhead
      exact Or.inr ⟨tail, hall.symm⟩

/-! ## Cores -/

/-- Neither end of the text can be removed. -/
structure Bare (removable : Char → Bool) (text : List Char) : Prop where
  first : ∀ c, text.head? = some c → removable c = false
  last : ∀ c, text.getLast? = some c → removable c = false

/-- All that surrounds the core in the text can be removed, and no end of the core itself. -/
structure Core (removable : Char → Bool) (text core : List Char) : Prop
    extends Bare removable core where
  surrounded : ∃ front back, text = front ++ core ++ back ∧
    (∀ c ∈ front, removable c = true) ∧ ∀ c ∈ back, removable c = true

section Trim

variable {removable : Char → Bool} {text core front back : List Char}

theorem trim_eq_rdropWhile (removable : Char → Bool) (text : List Char) :
    trim removable text = (text.dropWhile removable).rdropWhile removable := rfl

theorem trim_eq_nil_iff : trim removable text = [] ↔ ∀ c ∈ text, removable c = true := by
  rw [trim_eq_rdropWhile, List.rdropWhile_eq_nil_iff]
  refine ⟨fun h => ?_, fun h c hc => h c ((List.dropWhile_sublist removable).subset hc)⟩
  have hnil : text.dropWhile removable = [] := by
    cases hrest : text.dropWhile removable with
    | nil => rfl
    | cons c rest =>
      have hfirst := List.head?_dropWhile_not removable text
      rw [hrest] at hfirst h
      exact absurd (h c List.mem_cons_self) (by simpa using hfirst)
  exact List.dropWhile_eq_nil_iff.mp hnil

/-- What can be removed at the ends makes no difference. -/
theorem trim_padded (hfront : ∀ c ∈ front, removable c = true)
    (hback : ∀ c ∈ back, removable c = true) :
    trim removable (front ++ text ++ back) = trim removable text := by
  have hreverse : ∀ c ∈ back.reverse, removable c = true :=
    fun c hc => hback c (List.mem_reverse.mp hc)
  rw [trim_eq_rdropWhile, trim_eq_rdropWhile, List.append_assoc,
    List.dropWhile_append_of_pos hfront, List.dropWhile_append]
  split
  · rename_i hnone
    rw [List.isEmpty_iff.mp hnone, List.dropWhile_eq_nil_iff.mpr hback]
  · rw [List.rdropWhile, List.reverse_append, List.dropWhile_append_of_pos hreverse]
    rfl

theorem dropWhile_of_first (h : ∀ c, text.head? = some c → removable c = false) :
    text.dropWhile removable = text := by
  cases text with
  | nil => rfl
  | cons c rest => rw [List.dropWhile_cons_of_neg (by simp [h c rfl])]

theorem Bare.trim_eq (h : Bare removable text) : trim removable text = text := by
  rw [trim_eq_rdropWhile, dropWhile_of_first h.first, List.rdropWhile, dropWhile_of_first]
  · exact List.reverse_reverse text
  · intro c hc
    exact h.last c (by rwa [List.head?_reverse] at hc)

/-- What comes before a character that is kept is kept too, but for the front. -/
theorem trim_through {d : Char} (hfirst : ∀ c, (front ++ [d]).head? = some c → removable c = false)
    (hd : removable d = false) :
    trim removable (front ++ d :: back) = front ++ d :: back.rdropWhile removable := by
  have hhead : (front ++ d :: back).head? = (front ++ [d]).head? := by
    cases front <;> rfl
  have hkept : (d :: front.reverse).dropWhile removable = d :: front.reverse :=
    List.dropWhile_cons_of_neg (by simp [hd])
  rw [trim_eq_rdropWhile, dropWhile_of_first (by rwa [hhead]), List.rdropWhile,
    List.reverse_append, List.reverse_cons, List.append_assoc, List.singleton_append,
    List.dropWhile_append, List.rdropWhile]
  split
  · rename_i hnone
    rw [hkept, List.isEmpty_iff.mp hnone]
    simp
  · simp

theorem bare_trim (removable : Char → Bool) (text : List Char) :
    Bare removable (trim removable text) where
  first c hc := by
    obtain ⟨rest, hrest⟩ := List.rdropWhile_prefix removable (text.dropWhile removable)
    have hhead : (text.dropWhile removable).head? = some c := by
      rw [← hrest, List.head?_append]
      rw [trim_eq_rdropWhile] at hc
      rw [hc]
      rfl
    have hfirst := List.head?_dropWhile_not removable text
    rw [hhead] at hfirst
    exact hfirst
  last c hc := by
    have hfirst := List.head?_dropWhile_not removable (text.dropWhile removable).reverse
    rw [trim, List.getLast?_reverse] at hc
    rw [hc] at hfirst
    exact hfirst

theorem core_trim (removable : Char → Bool) (text : List Char) :
    Core removable text (trim removable text) where
  toBare := bare_trim removable text
  surrounded := by
    refine ⟨text.takeWhile removable, (text.dropWhile removable).rtakeWhile removable, ?_,
      fun c hc => List.mem_takeWhile_imp hc, fun c hc => List.mem_rtakeWhile_imp hc⟩
    rw [trim_eq_rdropWhile, List.append_assoc, List.rdropWhile, List.rtakeWhile,
      ← List.reverse_append, List.takeWhile_append_dropWhile, List.reverse_reverse,
      List.takeWhile_append_dropWhile]

/-- A character that cannot be removed is kept, wherever it stands. -/
theorem mem_trim {c : Char} (hmem : c ∈ text) (hc : removable c = false) :
    c ∈ trim removable text := by
  obtain ⟨front, back, htext, hfront, hback⟩ := (core_trim removable text).surrounded
  rw [htext, List.mem_append, List.mem_append] at hmem
  rcases hmem with (hmem | hmem) | hmem
  · exact absurd (hfront c hmem) (by simp [hc])
  · exact hmem
  · exact absurd (hback c hmem) (by simp [hc])

theorem trim_subset (removable : Char → Bool) (text : List Char) :
    trim removable text ⊆ text := by
  obtain ⟨front, back, htext, -, -⟩ := (core_trim removable text).surrounded
  intro c hc
  rw [htext]
  exact List.mem_append_left _ (List.mem_append_right _ hc)

/-- Trimming leaves the core, and there is no other. -/
theorem core_iff : Core removable text core ↔ trim removable text = core := by
  refine ⟨fun h => ?_, fun h => h ▸ core_trim removable text⟩
  obtain ⟨front, back, rfl, hfront, hback⟩ := h.surrounded
  rw [trim_padded hfront hback, h.toBare.trim_eq]

end Trim

end ExecContext.Text
