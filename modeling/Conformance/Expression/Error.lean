import Conformance.Pattern.Token

/-!
# Errors in rule expressions

A rule expression fails when an operand is missing or when a name pattern is malformed.
The message about a missing operand names the part of the expression that needs it.
-/

namespace Conformance

/-- The parts of rule expressions that need an operand. -/
inductive EntryPoint where
  | and
  | or
  | not
  | renamed
  | widened
  | annotatedFilter
  | ownerFilter
  | typeTest
  | parametersTest
  | returnTest
  | throwsTest
  | satisfying
  | judging
  | annotated
  | notAnnotated
  | ownedBy
  | notTaking
  | notReturning
  | notThrowing
  | calledByClasses
  | calledByMethods
  | calledByConstructors
  | calledByCodeUnits
  | dependsOn
  | that
  | andThat
  | orThat
  | should
  | andShould
  | orShould
  deriving DecidableEq

namespace EntryPoint

/-- The name in messages.  Filters and conditions about the same thing may share a
name. -/
def label : EntryPoint → Text
  | and => "and_"
  | or => "or_"
  | not => "not_"
  | renamed => "as"
  | widened => "forSubtype"
  | annotatedFilter => "areAnnotatedWith"
  | ownerFilter => "declaredIn"
  | typeTest => "haveRawType"
  | parametersTest => "haveRawParameterTypes"
  | returnTest => "haveRawReturnType"
  | throwsTest => "declareThrowableOfType"
  | satisfying => "have"
  | judging => "condition"
  | annotated => "beAnnotatedWith"
  | notAnnotated => "notBeAnnotatedWith"
  | ownedBy => "beDeclaredIn"
  | notTaking => "notHaveRawParameterTypes"
  | notReturning => "notHaveRawReturnType"
  | notThrowing => "notDeclareThrowableOfType"
  | calledByClasses => "onlyBeCalledByClassesThat"
  | calledByMethods => "onlyBeCalledByMethodsThat"
  | calledByConstructors => "onlyBeCalledByConstructorsThat"
  | calledByCodeUnits => "onlyBeCalledByCodeUnitsThat"
  | dependsOn => "onlyDependOnClassesThat"
  | that => "that"
  | andThat => "andThat"
  | orThat => "orThat"
  | should => "should"
  | andShould => "andShould"
  | orShould => "orShould"

def missingMessage (entry : EntryPoint) : Text :=
  entry.label ++ ": null argument"

end EntryPoint

/-- Why a rule expression has no meaning. -/
inductive ExpressionError where
  | missingOperand (entry : EntryPoint)
  | badPattern (cause : Pattern.PatternError)
  deriving DecidableEq

/-- The operand of a part of an expression, which must be there. -/
def requireOperand {α : Type} (entry : EntryPoint) : Option α → Except ExpressionError α
  | some a => .ok a
  | none => .error (.missingOperand entry)

end Conformance
