import Conformance.Rule.Basic
import Conformance.Rule.Restriction

/-!
# Selections and chains

A selection names a collection and narrows it by filters.  A chain attaches conditions to
a selection, one after the other; every further condition is joined to all that came
before it.  A finished chain is a rule.
-/

namespace Conformance

/-- The items of a collection, narrowed by a filter if there is one. -/
structure Selection (c : Collection) where
  filter : Option (Predicate c.Item) := none

namespace Selection

variable {c : Collection}

/-- Combine the filter with one more predicate.  The first predicate is the filter,
however it is added. -/
def combine (s : Selection c)
    (join : Predicate c.Item → Predicate c.Item → Predicate c.Item)
    (p : Predicate c.Item) : Selection c :=
  match s.filter with
  | none => { filter := some p }
  | some q => { filter := some (join q p) }

/-- Keep the items that the predicate accepts. -/
def that (s : Selection c) (p : Predicate c.Item) : Selection c :=
  s.combine .and p

/-- Add the items that the predicate accepts. -/
def orThat (s : Selection c) (p : Predicate c.Item) : Selection c :=
  s.combine .or p

/-- The name of the collection with the description of the filter. -/
def description (s : Selection c) : Text :=
  c.label ++ (match s.filter with
    | some p => " that " ++ p.description
    | none => [])

def items (s : Selection c) (m : Model) : Consulted (List c.Item) :=
  Consulted.passing (Predicate.passes s.filter) (c.collect m)

end Selection

/-- A selection with a condition on its items. -/
structure Chain (c : Collection) where
  selection : Selection c
  condition : Condition c.Item

/-- Begin a chain: the selected items should satisfy a condition. -/
def Selection.should {c : Collection} (s : Selection c) (condition : Condition c.Item) :
    Chain c :=
  { selection := s, condition }

namespace Chain

variable {c : Collection}

/-- The description of the chain's condition once another one is joined to it. -/
def joinedDescription (ch : Chain c) (j : Join) (next : Condition c.Item) : Text :=
  ch.condition.description ++ " " ++ j.word ++ " should " ++ next.description

/-- Join one more condition to the chain. -/
def join (ch : Chain c) (j : Join) (next : Condition c.Item) : Chain c :=
  { ch with condition := ch.condition.join j next (ch.joinedDescription j next) }

/-- The items should also satisfy another condition. -/
def andShould (ch : Chain c) (next : Condition c.Item) : Chain c :=
  ch.join .and next

/-- The items may satisfy another condition instead. -/
def orShould (ch : Chain c) (next : Condition c.Item) : Chain c :=
  ch.join .or next

/-- The selection and the condition as a sentence. -/
def description (ch : Chain c) : Text :=
  ch.selection.description ++ " should " ++ ch.condition.description

def rule (ch : Chain c) : Rule :=
  { content :=
      { collection := c
        filter := ch.selection.filter
        condition := ch.condition
        description := ch.description } }

end Chain

end Conformance
