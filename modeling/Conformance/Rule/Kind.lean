import Conformance.Model.Basic
import Conformance.Rule.Predicate

/-!
# Kinds of items

Rules are about items of one kind.  Some kinds are wider than others: a method is a code
unit, a code unit is a member, and classes and members are elements.  A predicate or
condition about a wider kind can be used for a narrower one.
-/

namespace Conformance

/-- The kinds of items that predicates and conditions are about. -/
inductive Kind where
  | elements
  | classes
  | members
  | fields
  | codeUnits
  | methods
  | constructors
  deriving DecidableEq

namespace Kind

@[reducible]
def Item : Kind → Type
  | elements => Element
  | classes => Class
  | members => Member
  | fields => Field
  | codeUnits => CodeUnit
  | methods => Method
  | constructors => Constructor

def itemElement : (k : Kind) → k.Item → Element
  | elements => fun e => e
  | classes => .ofClass
  | members => .ofMember
  | fields => fun f => .ofMember f.toMember
  | codeUnits => fun u => .ofMember u.toMember
  | methods => fun m => .ofMember m.toCodeUnit.toMember
  | constructors => fun c => .ofMember c.toCodeUnit.toMember

instance (k : Kind) : ToElement k.Item := ⟨k.itemElement⟩

end Kind

/-- The steps from a kind to the next wider one. -/
inductive Kind.Step : Kind → Kind → Type where
  | classElement : Step .classes .elements
  | memberElement : Step .members .elements
  | fieldMember : Step .fields .members
  | unitMember : Step .codeUnits .members
  | methodUnit : Step .methods .codeUnits
  | constructorUnit : Step .constructors .codeUnits

/-- The item of the next wider kind. -/
def Kind.Step.apply {j k : Kind} : Step j k → j.Item → k.Item
  | classElement => Element.ofClass
  | memberElement => Element.ofMember
  | fieldMember => Field.toMember
  | unitMember => CodeUnit.toMember
  | methodUnit => Method.toCodeUnit
  | constructorUnit => Constructor.toCodeUnit

/-- A way from a kind to the same or a wider one. -/
inductive Widening : Kind → Kind → Type where
  | refl (k : Kind) : Widening k k
  | step {i j k : Kind} (s : Kind.Step i j) (w : Widening j k) : Widening i k

namespace Widening

/-- The item seen as one of the wider kind. -/
def apply {j k : Kind} : Widening j k → j.Item → k.Item
  | refl _ => fun a => a
  | step s w => fun a => w.apply (s.apply a)

/-- Widening changes the view of an item and not the element it is. -/
theorem itemElement_apply {j k : Kind} (w : Widening j k) (a : j.Item) :
    k.itemElement (w.apply a) = j.itemElement a := by
  induction w with
  | refl k => rfl
  | step s w ih =>
      rw [apply, ih]
      cases s <;> rfl

/-- The way from one kind to another, if the second one is wider. -/
def find? : (j k : Kind) → Option (Widening j k)
  | .elements, .elements => some (refl _)
  | .classes, .classes => some (refl _)
  | .classes, .elements => some (step .classElement (refl _))
  | .members, .members => some (refl _)
  | .members, .elements => some (step .memberElement (refl _))
  | .fields, .fields => some (refl _)
  | .fields, .members => some (step .fieldMember (refl _))
  | .fields, .elements => some (step .fieldMember (step .memberElement (refl _)))
  | .codeUnits, .codeUnits => some (refl _)
  | .codeUnits, .members => some (step .unitMember (refl _))
  | .codeUnits, .elements => some (step .unitMember (step .memberElement (refl _)))
  | .methods, .methods => some (refl _)
  | .methods, .codeUnits => some (step .methodUnit (refl _))
  | .methods, .members => some (step .methodUnit (step .unitMember (refl _)))
  | .methods, .elements =>
      some (step .methodUnit (step .unitMember (step .memberElement (refl _))))
  | .constructors, .constructors => some (refl _)
  | .constructors, .codeUnits => some (step .constructorUnit (refl _))
  | .constructors, .members => some (step .constructorUnit (step .unitMember (refl _)))
  | .constructors, .elements =>
      some (step .constructorUnit (step .unitMember (step .memberElement (refl _))))
  | _, _ => none

end Widening

/-- The kinds that a rule can select. -/
inductive Collection where
  | classes
  | fields
  | methods
  | constructors
  | codeUnits
  | members
  deriving DecidableEq

namespace Collection

@[reducible]
def kind : Collection → Kind
  | classes => .classes
  | fields => .fields
  | methods => .methods
  | constructors => .constructors
  | codeUnits => .codeUnits
  | members => .members

@[reducible]
def Item (c : Collection) : Type :=
  c.kind.Item

/-- The name of the collection in descriptions. -/
def label : Collection → Text
  | classes => "classes"
  | fields => "fields"
  | methods => "methods"
  | constructors => "constructors"
  | codeUnits => "code units"
  | members => "members"

/-- The items of a model, in the order of the analyzed classes and then of the
declarations. -/
def collect : (c : Collection) → Model → List c.Item
  | classes, m => m.analyzed
  | fields, m => m.analyzed.flatMap Class.fields
  | methods, m => m.analyzed.flatMap Class.methods
  | constructors, m => m.analyzed.flatMap Class.constructors
  | codeUnits, m => m.analyzed.flatMap Class.codeUnits
  | members, m => m.analyzed.flatMap Class.members

end Collection

end Conformance
