import ExecContext.Log.Writer
import ExecContext.Proofs.Interleaving.Discipline

set_option autoImplicit false

/-!
# What logging touches

Logging never fails, and of all cells it touches that of the settings alone.
-/

namespace ExecContext

/-! ## Accesses and cells -/

namespace Access

/-- The access reads or changes this cell. -/
def Touches (c : Cell) : Access → Prop
  | .enter d => d = c
  | .peek d => d = c
  | .publish d _ => d = c
  | .abandon d => d = c
  | _ => False

/-- The accesses that logging makes. -/
def OfLog : Access → Prop
  | .enter c => c = .settings
  | .publish c _ => c = .settings
  | .abandon c => c = .settings
  | .loadLevel => True
  | .storeLevel _ => True
  | .loadFlush => True
  | .storeFlush _ => True
  | .lockLog => True
  | .writeLog _ => True
  | .flushLog => True
  | .unlockLog => True
  | .tag => True
  | .readVariable _ => True
  | _ => False

theorem OfLog.not_touches {a : Access} (h : a.OfLog) {c : Cell} (hc : c ≠ .settings) :
    ¬a.Touches c := by
  cases a with
  | enter d => exact fun htouches => hc (htouches.symm.trans h)
  | publish d value => exact fun htouches => hc (htouches.symm.trans h)
  | abandon d => exact fun htouches => hc (htouches.symm.trans h)
  | peek d => exact h.elim
  | _ => exact id

end Access

/-! ## Programs -/

/-- The use of a cell makes the accesses of its initialiser, and those to the cell. -/
theorem within_getOrFill {P : Access → Prop} {c : Cell} {compute : Action c.Content}
    (henter : P (.enter c)) (hpublish : ∀ value, P (.publish c value))
    (hcompute : compute.Within P) : (Action.getOrFill c compute).Within P := by
  refine ⟨henter, fun answer => ?_⟩
  cases answer with
  | some value => trivial
  | none => exact (hcompute.onFailure _).bind fun value => ⟨hpublish value, fun _ => trivial⟩

namespace Log

theorem within_compute : (environmentSettings >>= install).Within Access.OfLog :=
  ⟨trivial, fun _ => ⟨trivial, fun _ => ⟨trivial, fun _ => ⟨trivial, fun _ => trivial⟩⟩⟩⟩

theorem within_load : load.Within Access.OfLog :=
  within_getOrFill (c := .settings) rfl (fun _ => rfl) within_compute

theorem within_currentLevel : currentLevel.Within Access.OfLog :=
  within_load.bind fun _ => ⟨trivial, fun _ => trivial⟩

theorem within_isEnabled (level : Level) : (isEnabled level).Within Access.OfLog := by
  unfold isEnabled
  split
  · trivial
  · exact within_currentLevel.bind fun _ => trivial

theorem within_writeRecord (r : Record) : (writeRecord r).Within Access.OfLog := by
  refine ⟨trivial, fun _ => ⟨trivial, fun _ => ⟨trivial, fun _ => ⟨trivial, fun _ =>
    ⟨trivial, fun flush => ?_⟩⟩⟩⟩⟩
  cases flush with
  | false => exact ⟨trivial, fun _ => trivial⟩
  | true => exact ⟨trivial, fun _ => ⟨trivial, fun _ => trivial⟩⟩

theorem within_write (level : Level) (message : Message) :
    (write level message).Within Access.OfLog := by
  refine (within_isEnabled level).bind fun enabled => ?_
  cases enabled with
  | false => trivial
  | true => exact ⟨trivial, fun tag => within_writeRecord _⟩

end Log

end ExecContext
