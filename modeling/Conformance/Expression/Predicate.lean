import Conformance.Expression.Error
import Conformance.Rule.Kind
import Conformance.Rule.Vocabulary

/-!
# Predicate expressions

A predicate expression describes how a predicate is put together.  Operands may be
missing; an expression with a missing operand anywhere inside has no meaning, and the
error names the part that needs the operand.  Operands are looked at from left to right
before the part that they belong to.
-/

namespace Conformance

/-- What predicates are about: a type, a list of types, or an item of some kind. -/
inductive Subject where
  | type
  | typeList
  | item (k : Kind)
  deriving DecidableEq

namespace Subject

@[reducible]
def Carrier : Subject → Type
  | type => TypeName
  | typeList => List TypeName
  | item k => k.Item

/-- What a thing can be given by: a type and a class by name, a list of types by names. -/
@[reducible]
def Given : Subject → Type
  | type => TypeName
  | typeList => List TypeName
  | item _ => TypeName

/-- The text that names a thing in consultations. -/
def fullName : (s : Subject) → s.Carrier → Text
  | type => TypeName.text
  | typeList => TypeName.listText
  | item k => fun a => (k.itemElement a).fullName

instance (s : Subject) : Named s.Carrier := ⟨s.fullName⟩

end Subject

/-- The predicates about an item that come from a predicate about something the item
has. -/
inductive Aspect : Subject → Kind → Type where
  | annotated : Aspect .type .elements
  | ownedBy : Aspect (.item .classes) .members
  | ofType : Aspect .type .fields
  | taking : Aspect .typeList .codeUnits
  | returning : Aspect .type .codeUnits
  | throwing : Aspect .type .codeUnits

namespace Aspect

/-- The name of the aspect in messages about a missing operand. -/
def entry {s : Subject} {k : Kind} : Aspect s k → EntryPoint
  | annotated => .annotatedFilter
  | ownedBy => .ownerFilter
  | ofType => .typeTest
  | taking => .parametersTest
  | returning => .returnTest
  | throwing => .throwsTest

def predicate {s : Subject} {k : Kind} :
    Aspect s k → Predicate s.Carrier → Predicate k.Item
  | annotated => Predicate.annotated
  | ownedBy => Predicate.ownedBy
  | ofType => Predicate.ofType
  | taking => Predicate.taking
  | returning => Predicate.returning
  | throwing => Predicate.throwing

/-- The predicate that something given outright stands for. -/
def comparison {k : Kind} : {s : Subject} → Aspect s k → s.Given → Predicate s.Carrier
  | _, annotated => Predicate.annotationCalled
  | _, ownedBy => Predicate.classCalled
  | _, ofType => Predicate.typeCalled
  | _, taking => Predicate.areTypes
  | _, returning => Predicate.typeCalled
  | _, throwing => Predicate.typeCalled

end Aspect

/-- An expression for a predicate about a subject. -/
inductive PredicateExpr : Subject → Type where
  | absent {s : Subject} : PredicateExpr s
  | atom {s : Subject} (p : Predicate s.Carrier) : PredicateExpr s
  | and {s : Subject} (left right : PredicateExpr s) : PredicateExpr s
  | or {s : Subject} (left right : PredicateExpr s) : PredicateExpr s
  | not {s : Subject} (inner : PredicateExpr s) : PredicateExpr s
  | renamed {s : Subject} (inner : PredicateExpr s) (description : Text) : PredicateExpr s
  | widened {j k : Kind} (w : Widening j k) (inner : PredicateExpr (.item k)) :
      PredicateExpr (.item j)
  | aspect {s : Subject} {k : Kind} (a : Aspect s k) (inner : PredicateExpr s) :
      PredicateExpr (.item k)

namespace PredicateExpr

/-- The predicate that an expression describes; none for a missing operand. -/
def build {s : Subject} :
    PredicateExpr s → Except ExpressionError (Option (Predicate s.Carrier))
  | absent => .ok none
  | atom p => .ok (some p)
  | and left right => do
      let l ← left.build
      let r ← right.build
      let l ← requireOperand .and l
      let r ← requireOperand .and r
      return some (l.and r)
  | or left right => do
      let l ← left.build
      let r ← right.build
      let l ← requireOperand .or l
      let r ← requireOperand .or r
      return some (l.or r)
  | not inner => do
      let p ← requireOperand .not (← inner.build)
      return some p.not
  | renamed inner description => do
      let p ← requireOperand .renamed (← inner.build)
      return some (p.renamed description)
  | widened w inner => do
      let p ← requireOperand .widened (← inner.build)
      return some (p.along w.apply)
  | aspect a inner => do
      let p ← requireOperand a.entry (← inner.build)
      return some (a.predicate p)

end PredicateExpr

/-- What an aspect is compared with: something given outright, or a predicate. -/
inductive Form (s : Subject) where
  | given (a : s.Given)
  | matching (p : PredicateExpr s)

namespace Form

/-- The predicate expression of a form, for an aspect. -/
def expression {s : Subject} {k : Kind} (a : Aspect s k) : Form s → PredicateExpr s
  | given x => .atom (a.comparison x)
  | matching p => p

end Form

end Conformance
