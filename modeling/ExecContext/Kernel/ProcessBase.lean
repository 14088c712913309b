import ExecContext.Log.Writer

set_option autoImplicit false

/-!
# Where the key slots of this process start

The kernel is asked once in the life of a process. Asking never fails as a whole: where the kernel
gives no major version, a warning is written and the assumed offset is used.
-/

namespace ExecContext.Kernel

/-- Asks the kernel for its release. -/
def askRelease : Action (Except ProbeFailure String) :=
  .call Access.uname fun reply => .done reply.release

/-- The level at which a probe is reported. -/
def Probe.level : Probe → Log.Level
  | .known _ => .debug
  | .failed _ => .warn

/-- The offset for a release, or for the failure to get one, with a report to the log. -/
def reportedBase (release : Except ProbeFailure String) : Action Nat := do
  let probe := Probe.ofRelease release
  Log.write probe.level (.probed probe)
  return probe.base

/-- The byte offset at which the key slots of this process start, as far as the kernel tells. -/
def processBase : Action Nat :=
  Action.getOrFill .slotBase do
    let release ← askRelease
    reportedBase release

end ExecContext.Kernel
