import ExecContext.Text.Blank
import ExecContext.Text.Numeral
import ExecContext.Text.Quoted

set_option autoImplicit false

/-!
# Kernel releases

A kernel release such as `23.4.0` is padded with NULs and blanks; its major version is the numeral
before the first dot. This module reads the major version and names the ways in which a release can
fail to give one.
-/

namespace ExecContext.Kernel

/-! ## Failures -/

/-- Why the kernel's major version is not known. -/
inductive ProbeFailure where
  /-- the system call failed -/
  | refused (errno : Int32)
  /-- the release holds padding only -/
  | blank
  /-- the release does not start with a major version -/
  | malformed (release : String)
  /-- the platform cannot be asked -/
  | unsupported
  deriving DecidableEq, Repr, Inhabited

namespace ProbeFailure

/-- An error of the operating system; one that carries no code counts as code 0. -/
def ofSystem (code : Option Int32) : ProbeFailure :=
  .refused (code.getD 0)

/-- The name of the kind of failure. -/
def kind : ProbeFailure → String
  | .refused _ => "Uname"
  | .blank => "EmptyRelease"
  | .malformed _ => "MalformedRelease"
  | .unsupported => "Unsupported"

/-- The failure as a sentence. -/
def message : ProbeFailure → String
  | .refused errno => "uname failed: errno " ++ toString errno.toInt
  | .blank => "kernel release is empty"
  | .malformed release => "malformed kernel release " ++ Text.quoted release
  | .unsupported => "kernel release query unsupported on this platform"

/-- The failure as a term: its kind, then what it carries in parentheses. -/
def term : ProbeFailure → String
  | .refused errno => "Uname(" ++ toString errno.toInt ++ ")"
  | .malformed release => "MalformedRelease(" ++ Text.quoted release ++ ")"
  | e => e.kind

end ProbeFailure

/-! ## The major version -/

/-- A character that may surround a release. -/
def isPadding (c : Char) : Bool :=
  c == '\x00' || Text.isBlank c

/-- A release without its padding. -/
def unpadded (release : String) : List Char :=
  Text.trim isPadding release.toList

/-- The text of the major version: all before the first dot. -/
def majorText (release : List Char) : List Char :=
  release.takeWhile (· != '.')

/-- The major version of a release. -/
def major (release : String) : Except ProbeFailure UInt32 :=
  let text := unpadded release
  if text.isEmpty then .error .blank
  else
    match Text.numeral? UInt32.size (majorText text) with
    | some n => .ok (UInt32.ofNat n)
    | none => .error (.malformed (String.ofList text))

end ExecContext.Kernel
