import Conformance.Model.Basic
import Conformance.Rule.Predicate

/-!
# Conditions

A condition checks one item against a model and reports events.  An event says whether
something is violated, in which words, and which elements it is about.

Two conditions can be joined.  Both are checked for every item, whatever the first one
reports.  A joined condition is violated when one of its sides is (*and*) or both are
(*or*), where a side is violated when it reports a violated event.  It then reports one
event with the messages of all violated events of both sides, and otherwise nothing.
-/

namespace Conformance

/-- One finding of a check.  The first element is the one the finding is mainly about. -/
structure Event where
  elements : List Element
  violated : Bool
  message : Text
  deriving DecidableEq

namespace Event

def anyViolated (events : List Event) : Bool :=
  events.any Event.violated

/-- The messages of the violated events, in order. -/
def violations (events : List Event) : List Text :=
  (events.filter Event.violated).map Event.message

/-- A finding about one item: the description of the item, the text, and the place of the
item. -/
def about {α : Type} [ToElement α] (a : α) (violated : Bool) (text : Text) : Event :=
  let e := toElement a
  { elements := [e]
    violated
    message := e.description ++ " " ++ text ++ " in " ++ e.location.render }

end Event

/-- A check of items against a model, with a description. -/
structure Condition (α : Type) where
  description : Text
  check : α → Model → Consulted (List Event)

/-- The two ways to join conditions. -/
inductive Join where
  | and
  | or
  deriving DecidableEq

namespace Join

/-- The word between the descriptions of the two sides. -/
def word : Join → Text
  | and => "and"
  | or => "or"

/-- Is the joined condition violated, given whether its sides are? -/
def verdict : Join → Bool → Bool → Bool
  | and, left, right => left || right
  | or, left, right => left && right

/-- Add one message to a merged message.  While nothing has been written, no separator
is. -/
def append (merged message : Text) : Text :=
  if merged.isEmpty then message else merged ++ " and " ++ message

/-- The merged message of the violated events of both sides, left side first. -/
def mergedMessage (left right : List Event) : Text :=
  (Event.violations left ++ Event.violations right).foldl append []

/-- What a joined condition reports about an element, given what its sides report. -/
def events (j : Join) (e : Element) (left right : List Event) : List Event :=
  if j.verdict (Event.anyViolated left) (Event.anyViolated right) then
    [{ elements := [e], violated := true, message := mergedMessage left right }]
  else
    []

end Join

namespace Condition

variable {α β : Type}

/-- Two conditions joined under a given description.  Both sides are always checked. -/
def join [ToElement α] (left : Condition α) (j : Join) (right : Condition α)
    (description : Text) : Condition α :=
  { description
    check := fun a m => do
      let l ← left.check a m
      let r ← right.check a m
      return j.events (toElement a) l r }

def and [ToElement α] (left right : Condition α) : Condition α :=
  left.join .and right (left.description ++ " and " ++ right.description)

def or [ToElement α] (left right : Condition α) : Condition α :=
  left.join .or right (left.description ++ " or " ++ right.description)

/-- The same check under another description. -/
def renamed (c : Condition α) (description : Text) : Condition α :=
  { c with description }

/-- The same check for the items that can be seen as items of the operand. -/
def along (view : β → α) (c : Condition α) : Condition β :=
  { description := c.description, check := fun b m => c.check (view b) m }

/-- A condition that always reports the listed findings about its item, in the listed
words.  A label makes its consultations recorded. -/
def fixed [ToElement α] (description : Text) (label : Option Text)
    (findings : List (Bool × Text)) : Condition α :=
  { description
    check := fun a _ => do
      let e := toElement a
      Consulted.consult label e.fullName
      return findings.map
        (fun f => { elements := [e], violated := f.1, message := f.2 }) }

/-- A condition that holds when a predicate accepts the item.  It always reports one
event. -/
def judging [ToElement α] (description : Text) (p : Predicate α) (fail pass : Text) :
    Condition α :=
  { description
    check := fun a _ => do
      if ← p.test a then
        return [Event.about a false pass]
      else
        return [Event.about a true fail] }

/-- The condition to be as a predicate says. -/
def satisfying [ToElement α] (p : Predicate α) : Condition α :=
  judging ("have " ++ p.description) p
    ("does not have " ++ p.description) ("has " ++ p.description)

end Condition

end Conformance
