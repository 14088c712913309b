import ExecContext.Kernel.Release

set_option autoImplicit false

/-!
# Where the key slots start

The pointers that a thread keeps behind keys form an array in the thread's segment. Where the array
starts depends on the kernel's major version: from version 11 on at the start of the segment, before
that behind a header whose size depends on the width of a word.

| major version | narrow | wide |
|---|---|---|
| below 11 | 0x48 | 0x60 |
| 11 and above | 0 | 0 |

A kernel whose version is not known is taken to have the header.
-/

namespace ExecContext.Kernel

/-! ## Word width -/

/-- The width of a machine word, which is the width of a slot. -/
inductive WordWidth where
  /-- four bytes -/
  | narrow
  /-- eight bytes -/
  | wide
  deriving DecidableEq, Repr, Inhabited

namespace WordWidth

/-- The width of the machines that a process runs on. -/
def host : WordWidth := .wide

/-- The number of bytes of a word. -/
def bytes : WordWidth → Nat
  | .narrow => 4
  | .wide => 8

/-- The name of a width. -/
def name : WordWidth → String
  | .narrow => "Narrow"
  | .wide => "Wide"

end WordWidth

/-! ## The table -/

/-- The first major version without a header. -/
def headerlessMajor : UInt32 := 11

/-- The size of the header in bytes. -/
def headerSize : WordWidth → Nat
  | .narrow => 0x48
  | .wide => 0x60

/-- The byte offset at which the slots start under a kernel of the given major version. -/
def slotBase (major : UInt32) (width : WordWidth) : Nat :=
  if major < headerlessMajor then headerSize width else 0

/-- The byte offset that is assumed where the major version is not known. -/
def assumedBase (width : WordWidth) : Nat :=
  headerSize width

theorem slotBase_of_lt {major : UInt32} (width : WordWidth) (h : major < headerlessMajor) :
    slotBase major width = headerSize width :=
  if_pos h

theorem slotBase_of_not_lt {major : UInt32} (width : WordWidth) (h : ¬major < headerlessMajor) :
    slotBase major width = 0 :=
  if_neg h

/-! ## Probing the kernel -/

/-- What was found out about the kernel's major version. -/
inductive Probe where
  /-- the major version is known -/
  | known (major : UInt32)
  /-- it is not, for this reason -/
  | failed (reason : ProbeFailure)
  deriving DecidableEq, Repr, Inhabited

namespace Probe

/-- The probe of a release, or of the failure to get one. -/
def ofRelease (release : Except ProbeFailure String) : Probe :=
  match release.bind major with
  | .ok n => .known n
  | .error e => .failed e

/-- The byte offset chosen for this host. A failed probe chooses the assumed one, so there always is
an offset. -/
def base : Probe → Nat
  | .known n => slotBase n .host
  | .failed _ => assumedBase .host

/-- Every offset is that of a word. -/
theorem base_aligned (p : Probe) : p.base % 8 = 0 := by
  have hassumed : assumedBase .host % 8 = 0 := by decide
  cases p with
  | failed e => exact hassumed
  | known n =>
    rw [base, slotBase]
    split
    · exact hassumed
    · rfl

/-- The probe as a sentence that names the offset chosen. -/
def message (p : Probe) : String :=
  match p with
  | .known n =>
    "kernel major " ++ toString n.toNat ++ " -> tsd offset " ++ Text.hexadecimal p.base
  | .failed e =>
    "kernel probe failed (" ++ e.message ++ "), using offset " ++ Text.hexadecimal p.base

end Probe

end ExecContext.Kernel
