import Conformance.Expression.Condition
import Conformance.Rule.Chain

/-!
# Rule expressions

A rule expression lists the links of a chain: first those that narrow the selection, then
those that attach conditions.  Links are looked at in their order, and the first one
without a meaning decides the error.
-/

namespace Conformance

/-- The words that narrow a selection. -/
inductive FilterWord where
  | that
  | andThat
  | orThat
  deriving DecidableEq

namespace FilterWord

/-- The name of the word in messages about a missing operand. -/
def entry : FilterWord → EntryPoint
  | that => .that
  | andThat => .andThat
  | orThat => .orThat

/-- The selection narrowed, or widened, by a predicate. -/
def apply {c : Collection} (w : FilterWord) (s : Selection c) (p : Predicate c.Item) :
    Selection c :=
  match w with
  | that => s.that p
  | andThat => s.that p
  | orThat => s.orThat p

end FilterWord

/-- One step in the description of a selection. -/
structure FilterLink (k : Kind) where
  word : FilterWord
  argument : PredicateArg k

/-- The selection that a list of links describes, starting from another selection. -/
def buildSelection {c : Collection} : Selection c → List (FilterLink c.kind) →
    Except ExpressionError (Selection c)
  | s, [] => .ok s
  | s, link :: rest => do
      let p ← link.argument.buildDirect link.word.entry
      buildSelection (link.word.apply s p) rest

/-- One step in the description of the condition of a chain.  The first two begin a chain
anew from the selection, the others go on with the chain. -/
inductive ShouldLink (k : Kind) where
  | should (e : ConditionExpr k)
  | calledOnlyBy (w : Widening k .codeUnits) (caller : CallerKind)
      (p : PredicateArg caller.kind)
  | andShould (e : ConditionExpr k)
  | orShould (e : ConditionExpr k)

namespace ShouldLink

def begins {k : Kind} : ShouldLink k → Bool
  | should _ => true
  | calledOnlyBy _ _ _ => true
  | andShould _ => false
  | orShould _ => false

def build {k : Kind} : ShouldLink k → Except ExpressionError (Condition k.Item)
  | should e => do requireOperand .should (← e.build)
  | calledOnlyBy w caller p => do
      let c ← ConditionExpr.buildRestriction caller p
      return c.along w.apply
  | andShould e => do requireOperand .andShould (← e.build)
  | orShould e => do requireOperand .orShould (← e.build)

/-- The chain that the link makes of a chain. -/
def apply {c : Collection} (link : ShouldLink c.kind) (ch : Chain c)
    (condition : Condition c.Item) : Chain c :=
  match link with
  | should _ => ch.selection.should condition
  | calledOnlyBy _ _ _ => ch.selection.should condition
  | andShould _ => ch.andShould condition
  | orShould _ => ch.orShould condition

end ShouldLink

/-- The chain that a list of links makes of a chain. -/
def extendChain {c : Collection} : Chain c → List (ShouldLink c.kind) →
    Except ExpressionError (Chain c)
  | ch, [] => .ok ch
  | ch, link :: rest => do
      let condition ← link.build
      extendChain (link.apply ch condition) rest

/-- The description of a chain: its filters, the link that begins it, and the links after
that one. -/
structure ChainExpr (c : Collection) where
  filters : List (FilterLink c.kind)
  first : ShouldLink c.kind
  others : List (ShouldLink c.kind)

namespace ChainExpr

def build {c : Collection} (e : ChainExpr c) : Except ExpressionError (Chain c) := do
  let s ← buildSelection {} e.filters
  let condition ← e.first.build
  extendChain (s.should condition) e.others

end ChainExpr

end Conformance
