import ExecContext.Proofs.Log.OneLine
import ExecContext.Proofs.Text.Unquoting
import Mathlib

set_option autoImplicit false

/-!
# What the message of a failure tells

The message of a failure names the failure and no other: its kind can be told from one letter, and
what it carries can be read back from the end. No message holds a control character, whatever
release the kernel reported (`failures_told_apart`).
-/

namespace ExecContext

namespace Text

variable {front : String} {place : Nat} {c : Char}

/-- What follows a text does not change its letters. -/
theorem getElem?_front (h : front.toList[place]? = some c) (rest : String) :
    (front ++ rest).toList[place]? = some c := by
  obtain ⟨hplace, -⟩ := List.getElem?_eq_some_iff.mp h
  rw [String.toList_append, List.getElem?_append_left hplace, h]

/-- Two codes that are written alike behind the same text are equal. -/
theorem code_inj {a b : Int32} (h : front ++ toString a.toInt = front ++ toString b.toInt) :
    a = b := by
  have hcode : a.toInt = b.toInt := Int.repr_inj.mp ((String.append_right_inj front).mp h)
  exact Int32.toInt_inj.mp hcode

end Text

/-! ## Failures of probing -/

namespace Kernel.ProbeFailure

variable {e f : ProbeFailure}

/-- The letter of the message that tells the kind. -/
def mark : ProbeFailure → Char
  | .refused _ => 'r'
  | .blank => 'i'
  | .malformed _ => 'l'
  | .unsupported => 'q'

theorem getElem?_message (e : ProbeFailure) : e.message.toList[15]? = some e.mark := by
  cases e with
  | refused errno =>
    have hfront : "uname failed: errno ".toList[15]? = some 'r' := by decide
    exact Text.getElem?_front hfront (toString errno.toInt)
  | malformed release =>
    have hfront : "malformed kernel release ".toList[15]? = some 'l' := by decide
    exact Text.getElem?_front hfront (Text.quoted release)
  | blank => decide
  | unsupported => decide

theorem mark_eq (h : e.message = f.message) : e.mark = f.mark := by
  rw [← Option.some_inj, ← getElem?_message, ← getElem?_message, h]

theorem message_inj : e.message = f.message ↔ e = f := by
  refine ⟨fun h => ?_, congrArg message⟩
  have hmark := mark_eq h
  cases e with
  | refused a =>
    cases f with
    | refused b => rw [Text.code_inj h]
    | blank | malformed | unsupported => simp [mark] at hmark
  | malformed a =>
    cases f with
    | malformed b => rw [Text.quoted_inj.mp ((String.append_right_inj _).mp h)]
    | refused | blank | unsupported => simp [mark] at hmark
  | blank =>
    cases f with
    | blank => rfl
    | refused | malformed | unsupported => simp [mark] at hmark
  | unsupported =>
    cases f with
    | unsupported => rfl
    | refused | malformed | blank => simp [mark] at hmark

end Kernel.ProbeFailure

/-! ## Failures of storage -/

namespace StorageFailure

variable {e f : StorageFailure}

/-- The letter of the message that tells the kind. -/
def mark : StorageFailure → Char
  | .noKey _ => 'k'
  | .notStored _ => 's'

theorem getElem?_message (e : StorageFailure) : e.message.toList[8]? = some e.mark := by
  cases e with
  | noKey code =>
    have hfront : "pthread_key_create failed: error ".toList[8]? = some 'k' := by decide
    exact Text.getElem?_front hfront (toString code.toInt)
  | notStored code =>
    have hfront : "pthread_setspecific failed: error ".toList[8]? = some 's' := by decide
    exact Text.getElem?_front hfront (toString code.toInt)

theorem mark_eq (h : e.message = f.message) : e.mark = f.mark := by
  rw [← Option.some_inj, ← getElem?_message, ← getElem?_message, h]

theorem message_inj : e.message = f.message ↔ e = f := by
  refine ⟨fun h => ?_, congrArg message⟩
  have hmark := mark_eq h
  cases e with
  | noKey a =>
    cases f with
    | noKey b => rw [Text.code_inj h]
    | notStored => simp [mark] at hmark
  | notStored a =>
    cases f with
    | notStored b => rw [Text.code_inj h]
    | noKey => simp [mark] at hmark

end StorageFailure

/-! ## All failures -/

/-- **Failures are told apart.** The messages of two failures of probing are equal just if the
failures are, and so with failures of storage. A failure of probing has no control character in its
message, whatever the kernel reported, and so it ends no line; and what stands between the quotes of
a malformed release reads back as that release. -/
theorem failures_told_apart :
    (∀ e f : Kernel.ProbeFailure, e.message = f.message ↔ e = f) ∧
    (∀ e f : StorageFailure, e.message = f.message ↔ e = f) ∧
    (∀ e : Kernel.ProbeFailure, Text.Visible e.message ∧
      '\n' ∉ e.message.toList ∧ '\r' ∉ e.message.toList) ∧
    ∀ release, (Kernel.ProbeFailure.malformed release).message =
        "malformed kernel release " ++ Text.quoted release ∧
      Text.unquoted? (Text.quoted release) = some release := by
  refine ⟨fun _ _ => Kernel.ProbeFailure.message_inj, fun _ _ => StorageFailure.message_inj,
    fun e => ⟨e.visible_message, ?_, ?_⟩, fun release => ⟨rfl, Text.unquoted?_quoted release⟩⟩
  · exact e.visible_message.notMem (by decide)
  · exact e.visible_message.notMem (by decide)

/-- A release with a line break is reported otherwise than the release that has a backslash and a
letter there. -/
theorem failures_told_apart_escaped :
    let broken := Kernel.ProbeFailure.malformed "a\nb"
    let spelled := Kernel.ProbeFailure.malformed "a\\nb"
    Text.quoted "a\nb" = "\"a\\nb\"" ∧ Text.quoted "a\\nb" = "\"a\\\\nb\"" ∧
      broken.message ≠ spelled.message ∧ '\n' ∉ broken.message.toList ∧
      Text.unquoted? (Text.quoted "a\nb") = some "a\nb" := by
  intro broken spelled
  obtain ⟨hprobe, -, hvisible, hmalformed⟩ := failures_told_apart
  have hother : broken ≠ spelled := by decide
  exact ⟨by decide +kernel, by decide +kernel, fun heq => hother ((hprobe broken spelled).mp heq),
    (hvisible broken).2.1, (hmalformed "a\nb").2⟩

end ExecContext
