import ExecContext.Process.Access

set_option autoImplicit false

/-!
# Filling a cell once

The first thread to enter an empty cell computes its value; threads that enter meanwhile wait. If
the computation fails, the cell is empty again and the next thread may try.
-/

namespace ExecContext.Action

/-- The value of a one-time cell, computed by `compute` if the cell is empty. -/
def getOrFill (c : Cell) (compute : Action c.Content) : Action c.Content :=
  .call (Access.enter c) fun
    | some value => .done value
    | none => do
      let value ← Program.onFailure compute (.call (Access.abandon c) .done)
      .call (Access.publish c value) .done
      return value

end ExecContext.Action
