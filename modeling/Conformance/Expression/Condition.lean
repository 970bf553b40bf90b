import Conformance.Expression.Predicate
import Conformance.Rule.Assertion
import Conformance.Rule.CodingRules
import Conformance.Rule.Restriction

/-!
# Condition expressions

A condition expression describes how a condition is put together from predicates and
conditions.  As in predicate expressions, operands may be missing, and they are looked at
from left to right before the part that they belong to.
-/

namespace Conformance

/-- The conditions that assert or deny a predicate about something the item has. -/
inductive Assertion : Subject → Kind → Type where
  | annotated : Assertion .type .elements
  | notAnnotated : Assertion .type .elements
  | ownedBy : Assertion (.item .classes) .members
  | ofType : Assertion .type .fields
  | taking : Assertion .typeList .codeUnits
  | notTaking : Assertion .typeList .codeUnits
  | returning : Assertion .type .codeUnits
  | notReturning : Assertion .type .codeUnits
  | throwing : Assertion .type .codeUnits
  | notThrowing : Assertion .type .codeUnits

namespace Assertion

/-- The name of the assertion in messages about a missing operand. -/
def entry {s : Subject} {k : Kind} : Assertion s k → EntryPoint
  | annotated => .annotated
  | notAnnotated => .notAnnotated
  | ownedBy => .ownedBy
  | ofType => .typeTest
  | taking => .parametersTest
  | notTaking => .notTaking
  | returning => .returnTest
  | notReturning => .notReturning
  | throwing => .throwsTest
  | notThrowing => .notThrowing

def aspect {s : Subject} {k : Kind} : Assertion s k → Aspect s k
  | annotated => .annotated
  | notAnnotated => .annotated
  | ownedBy => .ownedBy
  | ofType => .ofType
  | taking => .taking
  | notTaking => .taking
  | returning => .returning
  | notReturning => .returning
  | throwing => .throwing
  | notThrowing => .throwing

def condition {s : Subject} {k : Kind} :
    Assertion s k → Predicate s.Carrier → Condition k.Item
  | annotated => Condition.annotated
  | notAnnotated => Condition.notAnnotated
  | ownedBy => Condition.ownedBy
  | ofType => Condition.ofType
  | taking => Condition.taking
  | notTaking => Condition.notTaking
  | returning => Condition.returning
  | notReturning => Condition.notReturning
  | throwing => Condition.throwing
  | notThrowing => Condition.notThrowing

end Assertion

namespace CallerKind

/-- The kind of item that the predicate about the callers is about. -/
@[reducible]
def kind : CallerKind → Kind
  | classes => .classes
  | methods => .methods
  | constructors => .constructors
  | codeUnits => .codeUnits

/-- The name of the restriction in messages about a missing operand. -/
def entry : CallerKind → EntryPoint
  | classes => .calledByClasses
  | methods => .calledByMethods
  | constructors => .calledByConstructors
  | codeUnits => .calledByCodeUnits

/-- The restriction to callers that a predicate accepts. -/
def restriction : (caller : CallerKind) → Predicate caller.kind.Item → Condition CodeUnit
  | classes => Condition.calledOnlyByClasses
  | methods => Condition.calledOnlyByMethods
  | constructors => Condition.calledOnlyByConstructors
  | codeUnits => Condition.calledOnlyByCodeUnits

end CallerKind

/-- A predicate for items of a kind, put together for the same or a wider kind. -/
structure PredicateArg (k : Kind) where
  target : Kind
  widening : Widening k target
  expr : PredicateExpr (.item target)

namespace PredicateArg

/-- The predicate about items of the kind.  When the operand is missing, the part that
needs it is named if the operand is for that very kind, and the widening otherwise. -/
def build {k : Kind} (a : PredicateArg k) (entry : EntryPoint) :
    Except ExpressionError (Predicate k.Item) := do
  let p ← requireOperand (if a.target = k then entry else .widened) (← a.expr.build)
  return p.along a.widening.apply

/-- The predicate about items of the kind, for a part that accepts operands of wider kinds
as they are. -/
def buildDirect {k : Kind} (a : PredicateArg k) (entry : EntryPoint) :
    Except ExpressionError (Predicate k.Item) := do
  let p ← requireOperand entry (← a.expr.build)
  return p.along a.widening.apply

end PredicateArg

/-- An expression for a condition on items of a kind. -/
inductive ConditionExpr : Kind → Type where
  | absent {k : Kind} : ConditionExpr k
  | atom {k : Kind} (c : Condition k.Item) : ConditionExpr k
  | and {k : Kind} (left right : ConditionExpr k) : ConditionExpr k
  | or {k : Kind} (left right : ConditionExpr k) : ConditionExpr k
  | renamed {k : Kind} (inner : ConditionExpr k) (description : Text) : ConditionExpr k
  | widened {j k : Kind} (w : Widening j k) (inner : ConditionExpr k) : ConditionExpr j
  | satisfying {k : Kind} (p : PredicateExpr (.item k)) : ConditionExpr k
  | judging {k : Kind} (description : Text) (p : PredicateExpr (.item k))
      (fail pass : Text) : ConditionExpr k
  | nameMatches (pattern : Text) : ConditionExpr .elements
  | assertion {s : Subject} {k : Kind} (a : Assertion s k) (p : PredicateExpr s) :
      ConditionExpr k
  | calledOnlyBy (caller : CallerKind) (p : PredicateArg caller.kind) :
      ConditionExpr .codeUnits
  | dependsOnlyOn (p : PredicateArg .classes) : ConditionExpr .classes

namespace ConditionExpr

def buildRestriction (caller : CallerKind) (p : PredicateArg caller.kind) :
    Except ExpressionError (Condition CodeUnit) :=
  caller.restriction <$> p.build caller.entry

/-- The condition that an expression describes; none for a missing operand. -/
def build {k : Kind} :
    ConditionExpr k → Except ExpressionError (Option (Condition k.Item))
  | absent => .ok none
  | atom c => .ok (some c)
  | and left right => do
      let l ← left.build
      let r ← right.build
      let l ← requireOperand .and l
      let r ← requireOperand .and r
      return some (l.and r)
  | or left right => do
      let l ← left.build
      let r ← right.build
      let l ← requireOperand .or l
      let r ← requireOperand .or r
      return some (l.or r)
  | renamed inner description => do
      let c ← requireOperand .renamed (← inner.build)
      return some (c.renamed description)
  | widened w inner => do
      let c ← requireOperand .widened (← inner.build)
      return some (c.along w.apply)
  | satisfying p => do
      let p ← requireOperand .satisfying (← p.build)
      return some (Condition.satisfying p)
  | judging description p fail pass => do
      let p ← requireOperand .judging (← p.build)
      return some (Condition.judging description p fail pass)
  | nameMatches source =>
      match Pattern.read source with
      | .ok pattern => .ok (some (Condition.nameMatches source pattern))
      | .error cause => .error (.badPattern cause)
  | assertion a p => do
      let p ← requireOperand a.entry (← p.build)
      return some (a.condition p)
  | calledOnlyBy caller p => some <$> buildRestriction caller p
  | dependsOnlyOn p => do
      let p ← p.build .dependsOn
      return some (Condition.dependsOnlyOn p)

end ConditionExpr

end Conformance
