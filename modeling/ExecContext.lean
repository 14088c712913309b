import ExecContext.Main
import ExecContext.Proofs.Demo.Printouts
import ExecContext.Proofs.Demo.Repetitions
import ExecContext.Proofs.Interleaving.Accounting
import ExecContext.Proofs.Interleaving.OneKey
import ExecContext.Proofs.Interleaving.Progress
import ExecContext.Proofs.Kernel.Major
import ExecContext.Proofs.Kernel.OneBase
import ExecContext.Proofs.Kernel.ReleaseField
import ExecContext.Proofs.Log.Failures
import ExecContext.Proofs.Log.Filtering
import ExecContext.Proofs.Log.Framing
import ExecContext.Proofs.Log.Precedence
import ExecContext.Proofs.Log.Reading
import ExecContext.Proofs.Log.Variables
import ExecContext.Proofs.Resolver.Inquiry
import ExecContext.Proofs.Segment.Bytes
import ExecContext.Proofs.Session.Builds
import ExecContext.Proofs.Session.Counting
import ExecContext.Proofs.Session.Inert
import ExecContext.Proofs.Session.Unbinding
import ExecContext.Segment
import ExecContext.Session.Run
