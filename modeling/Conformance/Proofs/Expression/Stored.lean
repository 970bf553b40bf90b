import Conformance.Expression.Rule
import Conformance.Proofs.Condition.Attempt

/-!
# Expressions as they are stored

An expression is also the plan of the objects that stand for it when a rule is evaluated:
every part keeps its operands, and asks them when its turn comes.  Nothing is looked at
before it is used, so the evaluation of a stored expression is an attempt, which goes
astray at an operand that is not there.  The only part that is looked at first is the
filter of a selection, because there may be none.
-/

namespace Conformance

namespace Attempt

variable {α : Type}

/-- Both tests pass.  The second one is made only after the first one has passed. -/
def both (x y : Attempt Bool) : Attempt Bool := do
  if ← x then y else return false

/-- One of the tests passes.  The second one is made only after the first one has
failed. -/
def either (x y : Attempt Bool) : Attempt Bool := do
  if ← x then return true else y

/-- The test fails. -/
def negated (x : Attempt Bool) : Attempt Bool := do
  return !(← x)

/-- The event about an item that a test has passed or failed. -/
def judged [ToElement α] (a : α) (test : Attempt Bool) (fail pass : Text) :
    Attempt (List Event) := do
  if ← test then
    return [Event.about a false pass]
  else
    return [Event.about a true fail]

/-- The events of two joined conditions about an item. -/
def joined [ToElement α] (j : Join) (a : α) (left right : Attempt (List Event)) :
    Attempt (List Event) := do
  let l ← left
  let r ← right
  return j.events (toElement a) l r

end Attempt

/-! ## Predicates -/

/-- The words that the description of a predicate about an aspect begins with. -/
def Aspect.phrase {s : Subject} {k : Kind} : Aspect s k → Text
  | annotated => "are annotated with"
  | ownedBy => "are declared in"
  | ofType => "have raw type"
  | taking => "have raw parameter types"
  | returning => "have raw return type"
  | throwing => "declare throwable of type"

theorem Aspect.description_predicate {s : Subject} {k : Kind} (a : Aspect s k)
    (p : Predicate s.Carrier) :
    (a.predicate p).description = a.phrase ++ " " ++ p.description := by
  cases a <;> rfl

namespace PredicateExpr

/-- The description, which is put together along with the predicate. -/
def description : {s : Subject} → PredicateExpr s → Text
  | _, absent => []
  | _, atom p => p.description
  | _, and left right => left.description ++ " and " ++ right.description
  | _, or left right => left.description ++ " or " ++ right.description
  | _, not inner => "not " ++ inner.description
  | _, renamed _ description => description
  | _, widened _ inner => inner.description
  | _, aspect a inner => a.phrase ++ " " ++ inner.description

/-- Ask the stored predicate about a thing. -/
def attempt : {s : Subject} → PredicateExpr s → s.Carrier → Attempt Bool
  | _, absent, _ => .astray
  | _, atom p, a => p.attempt a
  | _, and left right, a => .both (left.attempt a) (right.attempt a)
  | _, or left right, a => .either (left.attempt a) (right.attempt a)
  | _, not inner, a => .negated (inner.attempt a)
  | _, renamed inner _, a => inner.attempt a
  | _, widened w inner, a => inner.attempt (w.apply a)
  | _, aspect asp inner, a => .anyInOrder inner.attempt (asp.parts a)

end PredicateExpr

/-- Ask a stored predicate for a wider kind about an item. -/
def PredicateArg.attempt {k : Kind} (p : PredicateArg k) (a : k.Item) : Attempt Bool :=
  p.expr.attempt (p.widening.apply a)

/-! ## Conditions -/

namespace Assertion

variable {s : Subject} {k : Kind}

/-- The words of the assertion. -/
def words : Assertion s k → Wording
  | annotated | notAnnotated => .annotated
  | ownedBy => .ownedBy
  | ofType => .having "raw type"
  | taking | notTaking => .having "raw parameter types"
  | returning | notReturning => .having "raw return type"
  | throwing | notThrowing => .throwing

/-- Is the predicate denied? -/
def denies : Assertion s k → Bool
  | annotated | ownedBy | ofType | taking | returning | throwing => false
  | notAnnotated | notTaking | notReturning | notThrowing => true

/-- Ten conditions are two, about one aspect or another and in one wording or another. -/
theorem condition_eq (a : Assertion s k) (p : Predicate s.Carrier) :
    a.condition p =
      if a.denies then .denying a.words p.description (a.aspect.predicate p)
      else .asserting a.words p.description (a.aspect.predicate p) := by
  cases a <;> rfl

/-- Check the stored assertion for an item, by a test of what the item has. -/
def attempt (a : Assertion s k) (object : Text) (test : s.Carrier → Attempt Bool)
    (x : k.Item) :
    Attempt (List Event) :=
  let present := a.words.present ++ " " ++ object
  let missing := a.words.missing ++ " " ++ object
  if a.denies then
    .judged x (.negated (.anyInOrder test (a.aspect.parts x))) present missing
  else
    .judged x (.anyInOrder test (a.aspect.parts x)) missing present

end Assertion

/-- Check the stored restriction on what a class depends on. -/
def Attempt.dependsOnlyOn (test : Class → Attempt Bool) (c : Class) (m : Model) :
    Attempt (List Event) := do
  let refused ← failing (fun e : Edge => test e.target.owner) (Condition.edgesOf c m)
  return refused.map (fun e => e.violation (.ofClass c))

/-- Check the stored condition for an item.  A pattern that cannot be read stands for
nothing. -/
def ConditionExpr.attempt :
    {k : Kind} → ConditionExpr k → k.Item → Model → Attempt (List Event)
  | _, absent, _, _ => .astray
  | _, atom c, a, m => c.attempt a m
  | _, and left right, a, m => .joined .and a (left.attempt a m) (right.attempt a m)
  | _, or left right, a, m => .joined .or a (left.attempt a m) (right.attempt a m)
  | _, renamed inner _, a, m => inner.attempt a m
  | _, widened w inner, a, m => inner.attempt (w.apply a) m
  | _, satisfying p, a, _ =>
      .judged a (p.attempt a) ("does not have " ++ p.description)
        ("has " ++ p.description)
  | _, judging _ p fail pass, a, _ => .judged a (p.attempt a) fail pass
  | _, nameMatches source, a, m =>
      match Pattern.read source with
      | .ok pattern => (Condition.nameMatches source pattern).attempt a m
      | .error _ => .astray
  | _, assertion a p, x, _ => a.attempt p.description p.attempt x
  | _, calledOnlyBy caller p, u, m => (caller.slots p.attempt).check u m
  | _, dependsOnlyOn p, c, m => .dependsOnlyOn p.attempt c m

/-! ## Chains -/

/-- A chain as it is stored: a filter, which may be missing, and the condition at the
root. -/
structure StoredChain (c : Collection) where
  filter : Option (c.Item → Attempt Bool)
  root : c.Item → Model → Attempt (List Event)

namespace StoredChain

variable {c : Collection}

/-- Is the item selected?  A filter is asked only if there is one. -/
def selects (s : StoredChain c) (a : c.Item) : Attempt Bool :=
  match s.filter with
  | some test => test a
  | none => pure true

/-- What is found about the items, selected ones only. -/
def findings (s : StoredChain c) (m : Model) : List c.Item → Attempt (List (List Event))
  | [] => pure []
  | a :: rest => do
      if ← s.selects a then
        let events ← s.root a m
        let others ← findings s m rest
        return events :: others
      else
        findings s m rest

end StoredChain

/-- The filter with one more test.  The first test is the filter, however it is added. -/
def FilterWord.narrow {α : Type} (w : FilterWord) (filter : Option (α → Attempt Bool))
    (test : α → Attempt Bool) : Option (α → Attempt Bool) :=
  match filter with
  | none => some test
  | some f =>
      match w with
      | .orThat => some fun a => .either (f a) (test a)
      | _ => some fun a => .both (f a) (test a)

namespace ShouldLink

variable {c : Collection}

/-- Check the stored condition of the link for an item. -/
def attempt {k : Kind} : ShouldLink k → k.Item → Model → Attempt (List Event)
  | should e => e.attempt
  | calledOnlyBy w caller p => fun a => (caller.slots p.attempt).check (w.apply a)
  | andShould e => e.attempt
  | orShould e => e.attempt

/-- The root of a chain with the condition of the link. -/
def extend (link : ShouldLink c.kind) (root : c.Item → Model → Attempt (List Event)) :
    c.Item → Model → Attempt (List Event) :=
  match link with
  | should _ => link.attempt
  | calledOnlyBy _ _ _ => link.attempt
  | andShould _ => fun a m => .joined .and a (root a m) (link.attempt a m)
  | orShould _ => fun a m => .joined .or a (root a m) (link.attempt a m)

end ShouldLink

/-- The stored filter of a list of links, starting from another one. -/
def storedFilter {k : Kind} (filter : Option (k.Item → Attempt Bool))
    (links : List (FilterLink k)) : Option (k.Item → Attempt Bool) :=
  links.foldl (fun f link => link.word.narrow f link.argument.attempt) filter

/-- The chain as it is stored. -/
def ChainExpr.stored {c : Collection} (e : ChainExpr c) : StoredChain c :=
  { filter := storedFilter none e.filters
    root := e.others.foldl (fun root link => link.extend root) e.first.attempt }

end Conformance
