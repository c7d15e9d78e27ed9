import Criterion.CommandLine.Directory
import Criterion.Cursor.Action
import Criterion.Highlight
import Criterion.Main
import Criterion.Proofs.Assembly
import Criterion.Proofs.Bindings
import Criterion.Proofs.CommandLine
import Criterion.Proofs.Diagnostics
import Criterion.Proofs.Evaluation.Division
import Criterion.Proofs.Evaluation.Order
import Criterion.Proofs.Evaluation.Range
import Criterion.Proofs.Evaluation.Wrapping
import Criterion.Proofs.Exchange
import Criterion.Proofs.FirstMessage
import Criterion.Proofs.Formation
import Criterion.Proofs.FrontEnds
import Criterion.Proofs.Growth
import Criterion.Proofs.Highlighting
import Criterion.Proofs.Interactive.Lines
import Criterion.Proofs.Interactive.Replay
import Criterion.Proofs.Numerals
import Criterion.Proofs.Parse.FirstComplaint
import Criterion.Proofs.Parse.Places
import Criterion.Proofs.Parse.Progress
import Criterion.Proofs.Reformatting
import Criterion.Proofs.Registrations
import Criterion.Proofs.Rendering.RoundTrip
import Criterion.Proofs.Scan.Actions
import Criterion.Proofs.Substitution
import Criterion.Proofs.Typing.Inversion
import Criterion.Proofs.Typing.Precision
import Criterion.Proofs.Typing.Progress
import Criterion.Proofs.Typing.Rejection
import Criterion.Proofs.Typing.Reordering
import Criterion.Proofs.Typing.Soundness
import Criterion.Proofs.Typing.Standard
import Criterion.Workspace
