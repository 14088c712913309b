import ExecContext.Kernel.Release
import ExecContext.Text.Utf8

set_option autoImplicit false

/-!
# What the kernel reports about itself

The kernel answers with a release field of fixed size, of which the bytes before the first NUL are
the release, or with an error code.
-/

namespace ExecContext.Kernel

/-- The size of the release field in bytes. -/
def releaseFieldSize : Nat := 65

/-- An answer of the kernel. -/
inductive UnameReply where
  /-- the bytes of the release field; missing bytes are NUL and excess ones are not reported -/
  | field (bytes : List UInt8)
  /-- the call failed, and this code is reported -/
  | failure (errno : Int32)
  deriving DecidableEq, Repr, Inhabited

namespace UnameReply

/-- The bytes of the release: those of the field before its first NUL. -/
def releaseBytes (bytes : List UInt8) : List UInt8 :=
  (bytes.take releaseFieldSize).takeWhile (· != 0)

/-- The release that an answer gives. -/
def release : UnameReply → Except ProbeFailure String
  | .failure errno => .error (.refused errno)
  | .field bytes =>
    let text := Text.decodeLenient (releaseBytes bytes)
    if text.isEmpty then .error .blank else .ok text

end UnameReply

end ExecContext.Kernel
