import Conformance.Diagnostic
import Conformance.Rule.Condition

/-!
# Evaluations

An evaluation is what a rule found in a model: the events in the order of the checked
items, and the number of items checked.  It fails when some event is violated.  It can
also fail when nothing was checked at all; whether it does depends on the rule and on the
options.
-/

namespace Conformance

/-- Settings for evaluating rules. -/
structure Options where
  /-- Record notes about evaluations. -/
  trace : Bool := false
  /-- Let a rule fail that has nothing to check, unless the rule says otherwise. -/
  failOnEmpty : Bool := false
  deriving DecidableEq

/-- What a rule found in a model. -/
structure Evaluation where
  rule : Text
  events : List Event
  checked : Nat
  deriving DecidableEq

namespace Evaluation

def hasViolation (e : Evaluation) : Bool :=
  Event.anyViolated e.events

/-- The messages of the violated events, in order. -/
def report (e : Evaluation) : List Text :=
  Event.violations e.events

/-- The report under a headline, one message a line. -/
def failureMessage (e : Evaluation) : Text :=
  "Rule " ++ e.rule.quoted ++ " was violated ("
    ++ Text.decimal e.report.length ++ " times):"
    ++ e.report.flatMap (fun line => ("\n" : Text) ++ line)

/-- The message about a rule that had nothing to check.  `kind` names what it would have
checked. -/
def emptyMessage (rule kind : Text) : Text :=
  "Rule " ++ rule.quoted ++ " failed to check any " ++ kind
    ++ ". This means either that no " ++ kind
    ++ " have been passed to the rule at all, or that no " ++ kind
    ++ " passed to the rule matched the `that()` clause."

/-- The text about a failed evaluation, if it has failed. -/
def failure? (e : Evaluation) (kind : Text) (allowEmpty : Bool) : Option Text :=
  if e.hasViolation then
    some e.failureMessage
  else if e.checked = 0 ∧ !allowEmpty then
    some (emptyMessage e.rule kind)
  else
    none

end Evaluation

/-- A failed check: the text about it, and the messages of the violated events. -/
structure Violation where
  message : Text
  report : List Text
  deriving DecidableEq

namespace Violation

/-- The text as it is shown: up to its first zero byte. -/
def shown (v : Violation) : Text :=
  v.message.beforeZero

end Violation

end Conformance
