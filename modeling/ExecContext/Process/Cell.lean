import ExecContext.Storage.Backend

set_option autoImplicit false

/-!
# Cells that are filled once

A process has four values that the first use computes: the log settings, the key of the key backend,
the slot of the direct backend, and where the key slots start. Each lives in a cell that is empty,
or being filled by one thread, or full for good.
-/

namespace ExecContext

/-! ## One cell -/

/-- A value that is computed at most once. -/
inductive Once (α : Type) where
  /-- not computed -/
  | empty
  /-- being computed by a thread -/
  | busy (owner : ThreadId)
  /-- computed -/
  | full (value : α)
  deriving DecidableEq, Repr, Inhabited

/-- The value of a full cell. -/
def Once.value? {α : Type} : Once α → Option α
  | .full value => some value
  | _ => none

/-! ## The cells of a process -/

/-- The name of a cell. -/
inductive Cell where
  /-- the log settings are loaded -/
  | settings
  /-- the key of the key backend -/
  | key
  /-- the slot of the direct backend -/
  | direct
  /-- where the key slots of this process start -/
  | slotBase
  deriving DecidableEq, Repr, Inhabited

/-- What a cell holds. -/
abbrev Cell.Content : Cell → Type
  | .settings => Unit
  | .key => Key
  | .direct => DirectSlot
  | .slotBase => Nat

/-- The cells of a process. -/
abbrev Cells := (c : Cell) → Once c.Content

namespace Cells

/-- All cells are empty. -/
def empty : Cells := fun _ => .empty

/-- The cells after one is replaced. -/
def set (cells : Cells) (c : Cell) (state : Once c.Content) : Cells :=
  fun d => if h : d = c then h ▸ state else cells d

@[simp] theorem set_same (cells : Cells) (c : Cell) (state : Once c.Content) :
    cells.set c state c = state := by
  simp [set]

theorem set_other (cells : Cells) {c d : Cell} (state : Once c.Content) (h : d ≠ c) :
    cells.set c state d = cells d := by
  simp [set, h]

end Cells

end ExecContext
