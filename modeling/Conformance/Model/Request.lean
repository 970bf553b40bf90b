import Conformance.Model.Draft

/-!
# Requests

A request is an operation on a draft together with its arguments.  A request is answered
with the element it made or changed, or refused; a refused request leaves the draft as it
was.
-/

namespace Conformance

/-- An operation on a draft with its arguments. -/
inductive Request where
  | addClass (name : TypeName) (modifiers : ModifierSet)
  | addExternalClass (name : TypeName)
  | addField (owner : Class) (name : Text) (rawType : TypeName) (modifiers : ModifierSet)
  | addMethod (owner : Class) (name : Text) (parameters : List TypeName)
      (returnType : TypeName) (modifiers : ModifierSet)
  | addConstructor (owner : Class) (parameters : List TypeName) (modifiers : ModifierSet)
  | annotate (element : Element) (type : TypeName)
  | declareThrowable (unit : CodeUnit) (type : TypeName)
  | setLine (member : Member) (line : UInt32)
  | setSourceFile (c : Class) (file : Text)
  | addCall (origin target : CodeUnit) (line : UInt32)
  | addFieldRead (origin : CodeUnit) (target : Field) (line : UInt32)
  | addFieldWrite (origin : CodeUnit) (target : Field) (line : UInt32)
  deriving DecidableEq

namespace Draft

/-- The element that a request made, before the changed draft. -/
def made {α : Type} [ToElement α] (answer : α × Draft) : Option Element × Draft :=
  (some (toElement answer.1), answer.2)

/-- The changed element as the changed draft has it. -/
def changed (id : Ident) (d : Draft) : Option Element × Draft :=
  (d.element? id, d)

/-- Carry out a request.  A request for an edge is answered without an element. -/
def perform (d : Draft) : Request → Except Misuse (Option Element × Draft)
  | .addClass name modifiers => made <$> d.addClass name modifiers
  | .addExternalClass name => made <$> d.addExternalClass name
  | .addField owner name rawType modifiers =>
      made <$> d.addField owner name rawType modifiers
  | .addMethod owner name parameters returnType modifiers =>
      made <$> d.addMethod owner name parameters returnType modifiers
  | .addConstructor owner parameters modifiers =>
      made <$> d.addConstructor owner parameters modifiers
  | .annotate element type => changed element.id <$> d.annotate element type
  | .declareThrowable unit type => changed unit.id <$> d.declareThrowable unit type
  | .setLine member line => changed member.id <$> d.setLine member line
  | .setSourceFile c file => changed c.id <$> d.setSourceFile c file
  | .addCall origin target line => (none, ·) <$> d.addCall origin target line
  | .addFieldRead origin target line => (none, ·) <$> d.addFieldRead origin target line
  | .addFieldWrite origin target line => (none, ·) <$> d.addFieldWrite origin target line

/-- Carry out a request and keep the draft when the request is refused. -/
def step (d : Draft) (r : Request) : Except Misuse (Option Element) × Draft :=
  match d.perform r with
  | .ok (element, d') => (.ok element, d')
  | .error e => (.error e, d)

/-- Carry out a list of requests, the first one first.  Refused requests change
nothing. -/
def run (d : Draft) (requests : List Request) : Draft :=
  requests.foldl (fun d r => (d.step r).2) d

end Draft

end Conformance
