import Conformance.Rule.Evaluation
import Conformance.Rule.Kind

/-!
# Rules

A rule selects items of one kind and checks a condition on each of them.  It can be given
another description, a reason, and a setting of its own for an empty selection; none of
these changes what it finds.
-/

namespace Conformance

/-- The operands that make up a rule were missing. -/
inductive RuleError where
  | noContent
  deriving DecidableEq

namespace RuleError

def message : RuleError → Text
  | noContent => "Rule: null implementation"

end RuleError

/-- What a rule does: the collection, the filter, if there is one, the condition, and the
description. -/
structure RuleContent where
  collection : Collection
  filter : Option (Predicate collection.Item)
  condition : Condition collection.Item
  description : Text

namespace RuleContent

/-- What the rule finds about one item: nothing if it is not selected, otherwise some
events. -/
def examine (r : RuleContent) (m : Model) (a : r.collection.Item) :
    Consulted (Option (List Event)) := do
  if ← Predicate.passes r.filter a then
    return some (← r.condition.check a m)
  else
    return none

/-- What the rule finds about all items, selected items only. -/
def examineAll (r : RuleContent) (m : Model) :
    List r.collection.Item → Consulted (List (List Event))
  | [] => pure []
  | a :: rest => do
      let found ← r.examine m a
      let others ← examineAll r m rest
      return found.toList ++ others

end RuleContent

/-- A rule. -/
structure Rule where
  content : RuleContent
  otherDescription : Option Text := none
  reason : Option Text := none
  emptyAllowed : Option Bool := none

namespace Rule

/-- The rule with the given content, which must be there. -/
def make? : Option RuleContent → Except RuleError Rule
  | some content => .ok { content }
  | none => .error .noContent

/-- The description, with the reason at its end. -/
def description (r : Rule) : Text :=
  r.otherDescription.getD r.content.description
    ++ (match r.reason with
        | some reason => ", because " ++ reason
        | none => [])

def withReason (r : Rule) (reason : Text) : Rule :=
  { r with reason := some reason }

def renamed (r : Rule) (description : Text) : Rule :=
  { r with otherDescription := some description }

/-- The rule with its own setting for an empty selection. -/
def allowingEmpty (r : Rule) (allow : Bool) : Rule :=
  { r with emptyAllowed := some allow }

/-- The name of the items that the rule checks. -/
def itemLabel (r : Rule) : Text :=
  r.content.collection.label

/-- What the rule finds in a model. -/
def evaluate (r : Rule) (m : Model) : Consulted Evaluation := do
  let findings ← r.content.examineAll m (r.content.collection.collect m)
  return { rule := r.description, events := findings.flatten, checked := findings.length }

/-- The notes about an evaluation: the number of items, the number of violations, and the
edges of the model that end outside the analyzed classes. -/
def notes (r : Rule) (m : Model) (e : Evaluation) : List Diagnostic :=
  let note := fun (location : Location) (text : Text) =>
    ({ severity := .note
       message := "rule " ++ e.rule.quoted ++ ": " ++ text
       location } : Diagnostic)
  note .unknown ("checked " ++ Text.decimal e.checked ++ " " ++ r.itemLabel)
    :: note .unknown (Text.decimal e.report.length ++ " violation(s)")
    :: (m.edgeList.filter (fun d => !d.target.owner.analyzed)).map
        (fun d => note d.location ("edge into external class: " ++ d.description))

/-- What the rule finds in a model, with the notes about it added to a journal when
tracing is on. -/
def evaluateWith (r : Rule) (m : Model) (options : Options) (journal : Option Journal) :
    Consulted (Evaluation × Option Journal) := do
  let e ← r.evaluate m
  return (e,
    if options.trace then journal.map (fun j => j.reportAll (r.notes m e)) else journal)

/-- May the rule have nothing to check?  The setting of the rule wins over the options. -/
def allowsEmpty (r : Rule) (options : Options) : Bool :=
  r.emptyAllowed.getD (!options.failOnEmpty)

/-- The text about the failure of an evaluation, if it has failed. -/
def failure? (r : Rule) (options : Options) (e : Evaluation) : Option Text :=
  e.failure? r.itemLabel (r.allowsEmpty options)

/-- Evaluate the rule and refuse a failed evaluation. -/
def check (r : Rule) (m : Model) (options : Options) :
    Consulted (Except Violation Unit) := do
  let (e, _) ← r.evaluateWith m options none
  match r.failure? options e with
  | some message => return .error { message, report := e.report }
  | none => return .ok ()

/-- Evaluate the rule and describe a failed evaluation by a diagnostic without a place. -/
def verify (r : Rule) (m : Model) (options : Options) :
    Consulted (Except Diagnostic Unit) := do
  let (e, _) ← r.evaluateWith m options none
  match r.failure? options e with
  | some message => return .error (.error .unknown message)
  | none => return .ok ()

end Rule

end Conformance
