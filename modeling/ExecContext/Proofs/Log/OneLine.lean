import ExecContext.Log.Record
import ExecContext.Proofs.Text.Visible

set_option autoImplicit false

/-!
# Records of one line

A record is meant to be one line. The messages that the library writes itself never break it:
numbers have no line breaks, and what the kernel reported is written between quotes, where every
control has an escape. Only a tag or a text of the caller may hold one.
-/

namespace ExecContext

/-! ## Texts of one line -/

namespace Text

/-- The text has no line break. -/
def OneLine (text : String) : Prop := '\n' ∉ text.toList

instance (text : String) : Decidable (OneLine text) :=
  inferInstanceAs (Decidable ('\n' ∉ text.toList))

theorem OneLine.append {first more : String} (hfirst : OneLine first) (hmore : OneLine more) :
    OneLine (first ++ more) := by
  simp only [OneLine, String.toList_append, List.mem_append, not_or]
  exact ⟨hfirst, hmore⟩

theorem Visible.oneLine {text : String} (h : Visible text) : OneLine text :=
  h.notMem (by decide)

theorem oneLine_nat (n : Nat) : OneLine (toString n) :=
  (visible_nat n).oneLine

end Text

/-! ## Messages of the library -/

open Text

theorem Backend.oneLine_name (b : Backend) : OneLine b.name := by
  cases b <;> decide

theorem StorageFailure.visible_message (e : StorageFailure) : Visible e.message := by
  cases e <;> exact .append (by decide) (visible_int _)

namespace Kernel

theorem ProbeFailure.visible_message (e : ProbeFailure) : Visible e.message := by
  cases e with
  | refused errno => exact .append (by decide) (visible_int _)
  | malformed release => exact .append (by decide) (visible_quoted release)
  | blank => decide
  | unsupported => decide

theorem Probe.visible_message (p : Probe) : Visible p.message := by
  cases p with
  | known n =>
    have hversion : Visible ("kernel major " ++ toString n.toNat) :=
      .append (by decide) (visible_nat _)
    exact (hversion.append (by decide)).append (visible_hexadecimal _)
  | failed e =>
    have hreason : Visible ("kernel probe failed (" ++ e.message) :=
      .append (by decide) e.visible_message
    exact (hreason.append (by decide)).append (visible_hexadecimal _)

end Kernel

namespace Log

/-- Addresses and keys are spelled without line breaks. -/
structure Naming.OneLine (naming : Naming) : Prop where
  address : ∀ a, Text.OneLine (naming.address a)
  key : ∀ k, Text.OneLine (naming.key k)

/-- The library says this of itself; it is no text of the caller. -/
def Message.OfLibrary : Message → Prop
  | .text _ => False
  | _ => True

theorem Message.OfLibrary.oneLine {naming : Naming} (hnaming : naming.OneLine) {m : Message}
    (h : m.OfLibrary) : Text.OneLine (m.render naming) := by
  cases m with
  | binding address backend =>
    have haddress : Text.OneLine ("register " ++ naming.address address) :=
      .append (by decide) (hnaming.address address)
    exact (haddress.append (by decide)).append backend.oneLine_name
  | keyCreated key => exact .append (by decide) (hnaming.key key)
  | notHeld failure => exact failure.visible_message.oneLine
  | directReady slot =>
    have hkey : Text.OneLine ("fast path: key " ++ naming.key slot.key) :=
      .append (by decide) (hnaming.key slot.key)
    exact (hkey.append (by decide)).append (visible_hexadecimal _).oneLine
  | probed probe => exact probe.visible_message.oneLine
  | text words => exact h.elim

/-! ## Records -/

theorem Level.oneLine_label (level : Level) : Text.OneLine level.label := by
  cases level <;> decide

/-- The line of a record, without its end. -/
def Record.line (naming : Naming) (r : Record) : String :=
  "[" ++ r.level.label ++ "] rtlocal[" ++ r.tag.render ++ "] " ++ r.message.render naming

/-- A record is written as its line with the line's end. -/
theorem renderChunks_record (naming : Naming) (r : Record) :
    renderChunks naming r.chunks = r.line naming ++ "\n" := by
  simp [renderChunks, Record.chunks, Chunk.render, Record.line, String.join, String.append_assoc]

theorem renderChunks_append (naming : Naming) (first more : List Chunk) :
    renderChunks naming (first ++ more) =
      renderChunks naming first ++ renderChunks naming more := by
  simp [renderChunks]

/-- Records one after another are written as their lines, each with its end. -/
theorem renderChunks_records {α : Type} (naming : Naming) (record : α → Record) (list : List α) :
    renderChunks naming (list.flatMap fun e => (record e).chunks) =
      String.join (list.map fun e => (record e).line naming ++ "\n") := by
  induction list with
  | nil => rfl
  | cons e rest ih =>
    rw [List.flatMap_cons, renderChunks_append, renderChunks_record, ih]
    rw [List.map_cons, String.join_cons]

theorem Record.oneLine_line {naming : Naming} (hnaming : naming.OneLine) {r : Record}
    (htag : Text.OneLine r.tag.render) (hmessage : r.message.OfLibrary) :
    Text.OneLine (r.line naming) := by
  have hlabel : Text.OneLine ("[" ++ r.level.label) := .append (by decide) r.level.oneLine_label
  have htagged : Text.OneLine ("[" ++ r.level.label ++ "] rtlocal[" ++ r.tag.render) :=
    (hlabel.append (by decide)).append htag
  exact (htagged.append (by decide)).append (hmessage.oneLine hnaming)

theorem Tag.oneLine_numbered (t : ThreadId) : Text.OneLine (Tag.numbered t).render := by
  have hnumber : Text.OneLine ("ThreadId(" ++ toString t) := .append (by decide) (oneLine_nat t)
  exact hnumber.append (by decide)

end Log

end ExecContext
