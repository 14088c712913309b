set_option autoImplicit false

/-!
# Pointers

A thread is bound to a context by a pointer. Contexts are numbered, and the address of a context is
known by that number alone; any other address is a machine word.
-/

namespace ExecContext

/-- The number of a thread: threads are numbered from 1 in the order in which they are started. -/
abbrev ThreadId := Nat

/-- The number of a context. -/
abbrev ContextId := Nat

/-- A key of the platform's thread-specific data. -/
abbrev Key := Nat

/-- Where a pointer points to. -/
inductive Address where
  /-- the address of a context -/
  | context (c : ContextId)
  /-- an address that is not a context's -/
  | foreign (word : UInt64)
  deriving DecidableEq, Repr, Inhabited

/-- A pointer, `none` for the null pointer. -/
abbrev Pointer := Option Address

namespace Pointer

/-- The pointer of a machine word that is no context's address. -/
def ofWord (word : UInt64) : Pointer :=
  if word = 0 then none else some (.foreign word)

/-- The pointer points to something that is not a context. -/
def isForeign : Pointer → Bool
  | some (.foreign _) => true
  | _ => false

end Pointer

/-- One pointer for each thread. -/
abbrev Slots := ThreadId → Pointer

namespace Slots

/-- No thread has a pointer. -/
def empty : Slots := fun _ => none

/-- The slots after one thread's pointer is replaced. -/
def set (slots : Slots) (t : ThreadId) (p : Pointer) : Slots :=
  fun u => if u = t then p else slots u

@[simp] theorem set_same (slots : Slots) (t : ThreadId) (p : Pointer) : slots.set t p t = p := by
  simp [set]

theorem set_other (slots : Slots) {t u : ThreadId} (p : Pointer) (h : u ≠ t) :
    slots.set t p u = slots u := by
  simp [set, h]

end Slots

end ExecContext
