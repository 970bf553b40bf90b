import Conformance.Code.Element
import Conformance.Rule.Consulted

/-!
# Predicates

A predicate is a test with a description.  Compound predicates derive their description
from those of their operands, and they ask the operands from left to right, no more of
them than are needed.
-/

namespace Conformance

/-- The things predicates are about, each with the text that names it in consultations. -/
class Named (α : Type) where
  fullName : α → Text

instance {α : Type} [ToElement α] : Named α := ⟨fun a => (toElement a).fullName⟩

instance : Named TypeName := ⟨TypeName.text⟩

instance : Named (List TypeName) := ⟨TypeName.listText⟩

/-- A test with a description. -/
structure Predicate (α : Type) where
  description : Text
  test : α → Consulted Bool

namespace Predicate

variable {α β : Type}

def accepts (p : Predicate α) (a : α) : Bool :=
  (p.test a).value

/-- Does an item pass a filter?  Without a filter every item does. -/
def passes (filter : Option (Predicate α)) (a : α) : Consulted Bool :=
  match filter with
  | some p => p.test a
  | none => pure true

/-- A test that consults nobody. -/
def describe (description : Text) (test : α → Bool) : Predicate α :=
  { description, test := fun a => pure (test a) }

/-- A test supplied by a user.  A label makes its consultations recorded. -/
def user [Named α] (description : Text) (label : Option Text) (test : α → Bool) :
    Predicate α :=
  { description
    test := fun a => do
      Consulted.consult label (Named.fullName a)
      return test a }

/-- Both operands accept.  The right one is asked only after the left one has accepted. -/
def and (p q : Predicate α) : Predicate α :=
  { description := p.description ++ " and " ++ q.description
    test := fun a => do
      if ← p.test a then q.test a else return false }

/-- Some operand accepts.  The right one is asked only after the left one has refused. -/
def or (p q : Predicate α) : Predicate α :=
  { description := p.description ++ " or " ++ q.description
    test := fun a => do
      if ← p.test a then return true else q.test a }

def not (p : Predicate α) : Predicate α :=
  { description := "not " ++ p.description
    test := fun a => do return !(← p.test a) }

/-- The same test under another description. -/
def renamed (p : Predicate α) (description : Text) : Predicate α :=
  { p with description }

/-- The same test for the items that can be seen as items of the operand. -/
def along (view : β → α) (p : Predicate α) : Predicate β :=
  { description := p.description, test := fun b => p.test (view b) }

/-- The operand accepts what an item has, under a description that starts with a
phrase. -/
def ofPart (phrase : Text) (part : β → α) (p : Predicate α) : Predicate β :=
  { description := phrase ++ " " ++ p.description, test := fun b => p.test (part b) }

/-- The operand accepts one of the things an item has.  They are tested in order, up to
the first one that is accepted. -/
def ofSome (phrase : Text) (parts : β → List α) (p : Predicate α) : Predicate β :=
  { description := phrase ++ " " ++ p.description
    test := fun b => Consulted.anyInOrder p.test (parts b) }

end Predicate

end Conformance
