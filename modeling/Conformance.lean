import Conformance.Diagnostic
import Conformance.Expression.Rule
import Conformance.Model.Workshop
import Conformance.Package.Written
import Conformance.Proofs.Condition.Tree
import Conformance.Proofs.Condition.Report
import Conformance.Proofs.Condition.Grouping
import Conformance.Proofs.Draft.Ledger
import Conformance.Proofs.Draft.Transition
import Conformance.Proofs.Draft.Growth
import Conformance.Proofs.Draft.Sound
import Conformance.Proofs.Draft.Follows
import Conformance.Proofs.Draft.Lookup
import Conformance.Proofs.Model.Accounts
import Conformance.Proofs.Model.Positions
import Conformance.Proofs.Draft.Replay
import Conformance.Proofs.Workshop.Orderly
import Conformance.Proofs.Workshop.Sealed
import Conformance.Proofs.Draft.Misuse
import Conformance.Proofs.Workshop.Refused
import Conformance.Proofs.Rule.Dependencies
import Conformance.Proofs.Rule.Callers
import Conformance.Proofs.Rule.Verdict
import Conformance.Proofs.Predicate.Tree
import Conformance.Proofs.Rule.Narrowing
import Conformance.Proofs.Rule.Evaluated
import Conformance.Proofs.Rule.Consulting
import Conformance.Proofs.Rule.Splitting
import Conformance.Proofs.Rule.Tracing
import Conformance.Proofs.Rule.Refining
import Conformance.Proofs.Rule.Placement
import Conformance.Proofs.Draft.Extended
import Conformance.Proofs.Condition.Restricted
import Conformance.Proofs.Rule.Monotone
import Conformance.Proofs.Code.Nesting
import Conformance.Proofs.Condition.Attempt
import Conformance.Proofs.Condition.CallerSorts
import Conformance.Proofs.Expression.Stored
import Conformance.Proofs.Expression.Guarded
import Conformance.Proofs.Package.Segments
import Conformance.Proofs.Pattern.Exact
import Conformance.Proofs.Package.Written
import Conformance.Proofs.Rule.Endings
import Conformance.Proofs.Package.Stars
import Conformance.Proofs.Condition.Judging
import Conformance.Proofs.Condition.Quality
import Conformance.Proofs.Rule.Agreement
import Conformance.Proofs.Rule.Mirrored
import Conformance.Proofs.Code.Enclosing
import Conformance.Proofs.Code.Descriptions
import Conformance.Proofs.Rule.Throwables
