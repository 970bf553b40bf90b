import Conformance.Pattern.ByteSet

/-!
# Pattern syntax trees

The tree of a name pattern.  A bounded repetition stands for as many copies of its body as
its bounds say, so a short pattern may describe a very large automaton; patterns that need
more states than `maxStates` are refused.
-/

namespace Conformance.Pattern

/-- How often a quantified body may occur. -/
inductive Times where
  | star
  | plus
  | optional
  | between (least : Nat) (most : Option Nat)
  deriving DecidableEq

/-- A quantifier; a greedy one tries more occurrences first, any other one fewer. -/
structure Quantifier where
  times : Times
  greedy : Bool
  deriving DecidableEq

/-- The tree of a pattern. -/
inductive Tree where
  | empty
  | byte (set : ByteSet)
  | seq (first second : Tree)
  | alt (first second : Tree)
  | group (index : Nat) (body : Tree)
  | backref (index : Nat)
  | lineStart
  | lineEnd
  | wordBoundary (negated : Bool)
  | lookahead (negated : Bool) (body : Tree)
  | repeated (quantifier : Quantifier) (body : Tree)
  deriving DecidableEq

namespace Tree

/-- The number of states of the automaton of a tree, and the number of states made on the
way to it.  The copies of a bounded repetition are made from a body that is then left
unused. -/
def states : Tree → Nat × Nat
  | empty | byte _ | backref _ | lineStart | lineEnd | wordBoundary _ => (1, 1)
  | seq a b => (a.states.1 + b.states.1, a.states.2 + b.states.2)
  | alt a b => (a.states.1 + b.states.1 + 2, a.states.2 + b.states.2 + 2)
  | group _ a => (a.states.1 + 2, a.states.2 + 2)
  | lookahead _ a => (a.states.1 + 2, a.states.2 + 2)
  | repeated ⟨.star, _⟩ a => (a.states.1 + 1, a.states.2 + 1)
  | repeated ⟨.plus, _⟩ a => (a.states.1 + 1, a.states.2 + 1)
  | repeated ⟨.optional, _⟩ a => (a.states.1 + 2, a.states.2 + 2)
  | repeated ⟨.between least none, _⟩ a =>
      let size := (least + 1) * a.states.1 + 2
      (size, a.states.2 + size)
  | repeated ⟨.between least (some most), _⟩ a =>
      let size := least * a.states.1 + (most - least) * (a.states.1 + 1) + 2
      (size, a.states.2 + size)

end Tree

/-- The largest number of states a pattern may need. -/
def maxStates : Nat := 100000

/-- Does the pattern of this tree fit?  Three states are added around the tree. -/
def Tree.fits (t : Tree) : Bool :=
  t.states.2 + 3 ≤ maxStates

end Conformance.Pattern
