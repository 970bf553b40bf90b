import Conformance.Proofs.Expression.Stored

/-!
# Expressions that lack an operand

An operand can be missing anywhere in an expression.  Building the expression then ends in
an error about a missing operand, whichever part finds out first; and a stored predicate
that could be built answers as the predicate does.
-/

namespace Conformance

/-! ## What expressions lack -/

namespace PredicateExpr

/-- There is no expression. -/
def isAbsent {s : Subject} : PredicateExpr s → Bool
  | absent => true
  | _ => false

/-- Some operand of the expression is missing, at whatever depth. -/
def lacks : {s : Subject} → PredicateExpr s → Bool
  | _, absent => false
  | _, atom _ => false
  | _, and left right => left.lacks || (right.lacks || (left.isAbsent || right.isAbsent))
  | _, or left right => left.lacks || (right.lacks || (left.isAbsent || right.isAbsent))
  | _, not inner => inner.lacks || inner.isAbsent
  | _, renamed inner _ => inner.lacks || inner.isAbsent
  | _, widened _ inner => inner.lacks || inner.isAbsent
  | _, aspect _ inner => inner.lacks || inner.isAbsent

end PredicateExpr

/-- The argument is missing, or it lacks an operand. -/
def PredicateArg.lacks {k : Kind} (p : PredicateArg k) : Bool :=
  p.expr.lacks || p.expr.isAbsent

namespace ConditionExpr

/-- There is no expression. -/
def isAbsent {k : Kind} : ConditionExpr k → Bool
  | absent => true
  | _ => false

/-- Some operand of the expression is missing, at whatever depth. -/
def lacks : {k : Kind} → ConditionExpr k → Bool
  | _, absent => false
  | _, atom _ => false
  | _, and left right => left.lacks || (right.lacks || (left.isAbsent || right.isAbsent))
  | _, or left right => left.lacks || (right.lacks || (left.isAbsent || right.isAbsent))
  | _, renamed inner _ => inner.lacks || inner.isAbsent
  | _, widened _ inner => inner.lacks || inner.isAbsent
  | _, satisfying p => p.lacks || p.isAbsent
  | _, judging _ p _ _ => p.lacks || p.isAbsent
  | _, nameMatches _ => false
  | _, assertion _ p => p.lacks || p.isAbsent
  | _, calledOnlyBy _ p => p.lacks
  | _, dependsOnlyOn p => p.lacks

/-- Some pattern in the expression cannot be read. -/
def unreadable : {k : Kind} → ConditionExpr k → Bool
  | _, and left right => left.unreadable || right.unreadable
  | _, or left right => left.unreadable || right.unreadable
  | _, renamed inner _ => inner.unreadable
  | _, widened _ inner => inner.unreadable
  | _, nameMatches source => !(Pattern.read source).isOk
  | _, _ => false

end ConditionExpr

namespace ShouldLink

variable {k : Kind}

/-- The condition of the link is missing, or it lacks an operand. -/
def lacks : ShouldLink k → Bool
  | should e => e.lacks || e.isAbsent
  | calledOnlyBy _ _ p => p.lacks
  | andShould e => e.lacks || e.isAbsent
  | orShould e => e.lacks || e.isAbsent

/-- Some pattern in the condition cannot be read. -/
def unreadable : ShouldLink k → Bool
  | should e => e.unreadable
  | calledOnlyBy _ _ _ => false
  | andShould e => e.unreadable
  | orShould e => e.unreadable

end ShouldLink

/-- Some filter is missing, or it lacks an operand. -/
def lackingFilter {k : Kind} (links : List (FilterLink k)) : Bool :=
  links.any (fun link => link.argument.lacks)

namespace ChainExpr

variable {c : Collection}

/-- Some link of the chain is given nothing, or something that lacks an operand. -/
def lacks (e : ChainExpr c) : Bool :=
  lackingFilter e.filters || (e.first.lacks || e.others.any ShouldLink.lacks)

/-- Some pattern in the chain cannot be read. -/
def unreadable (e : ChainExpr c) : Bool :=
  e.first.unreadable || e.others.any ShouldLink.unreadable

end ChainExpr

/-! ## What comes of building -/

/-- What can come of building something that may lack an operand or hold a pattern that
cannot be read: something good when nothing is wrong, and otherwise an error about
something that is. -/
def Outcome {α : Type} (lacks unreadable : Bool) (good : α → Prop) :
    Except ExpressionError α → Prop
  | .ok a => lacks = false ∧ unreadable = false ∧ good a
  | .error (.missingOperand _) => lacks = true
  | .error (.badPattern _) => unreadable = true

namespace Outcome

variable {α β : Type} {lacks lacks' unreadable unreadable' : Bool} {good : α → Prop}
  {good' : β → Prop} {x : Except ExpressionError α} {f : α → Except ExpressionError β}

theorem bind (hx : Outcome lacks unreadable good x)
    (hf : ∀ a, good a → Outcome lacks' unreadable' good' (f a)) :
    Outcome (lacks || lacks') (unreadable || unreadable') good' (x >>= f) := by
  match x with
  | .ok a =>
      obtain ⟨rfl, rfl, ha⟩ := hx
      exact hf a ha
  | .error (.missingOperand _) => exact Bool.or_eq_true_iff.mpr (Or.inl hx)
  | .error (.badPattern _) => exact Bool.or_eq_true_iff.mpr (Or.inl hx)

/-- What follows holds no pattern. -/
theorem guard (hx : Outcome lacks unreadable good x)
    (hf : ∀ a, good a → Outcome lacks' false good' (f a)) :
    Outcome (lacks || lacks') unreadable good' (x >>= f) :=
  Bool.or_false unreadable ▸ hx.bind hf

theorem map {g : α → β} (hx : Outcome lacks unreadable good x)
    (hg : ∀ a, good a → good' (g a)) :
    Outcome lacks unreadable good' (x >>= fun a => pure (g a)) := by
  match x with
  | .ok a => exact ⟨hx.1, hx.2.1, hg a hx.2.2⟩
  | .error (.missingOperand _) => exact hx
  | .error (.badPattern _) => exact hx

theorem imp {better : α → Prop} (hx : Outcome lacks unreadable good x)
    (h : ∀ a, good a → better a) : Outcome lacks unreadable better x := by
  match x with
  | .ok a => exact ⟨hx.1, hx.2.1, h a hx.2.2⟩
  | .error (.missingOperand _) => exact hx
  | .error (.badPattern _) => exact hx

/-- Without unreadable patterns, building is refused over a missing operand when one is
missing, and it succeeds when none is. -/
theorem refused_or_built (h : Outcome lacks false good x) :
    if lacks then ∃ entry, x = .error (.missingOperand entry) else ∃ a, x = .ok a ∧
      good a := by
  match x with
  | .ok a =>
      rw [h.1]
      exact ⟨a, rfl, h.2.2⟩
  | .error (.missingOperand entry) =>
      rw [show lacks = true from h]
      exact ⟨entry, rfl⟩
  | .error (.badPattern _) => exact absurd h Bool.false_ne_true

end Outcome

/-- What was built is there unless the expression is absent, and then it is good. -/
structure Built {α : Type} (absent : Bool) (good : α → Prop) (built : Option α) :
    Prop where
  isNone : built.isNone = absent
  good : ∀ a, built = some a → good a

namespace Built

variable {α : Type} {absent : Bool} {good : α → Prop}

theorem some {a : α} (h : good a) : Built false good (some a) where
  isNone := rfl
  good := by
    rintro _ ⟨⟩
    exact h

/-- What is looked at before it is used. -/
theorem require {built : Option α} (h : Built absent good built) (entry : EntryPoint) :
    Outcome absent false good (requireOperand entry built) := by
  rw [← h.isNone]
  match built with
  | none => rfl
  | .some a => exact ⟨rfl, rfl, h.good a rfl⟩

end Built

/-! ## Evaluations that go well -/

namespace Attempt

variable {α : Type}

theorem both_done (p q : Predicate α) (a : α) :
    both (p.attempt a) (q.attempt a) = (p.and q).attempt a := by
  simp only [both, Predicate.attempt, Predicate.and, done_bind]
  congr 1
  funext passed
  cases passed <;> rfl

theorem either_done (p q : Predicate α) (a : α) :
    either (p.attempt a) (q.attempt a) = (p.or q).attempt a := by
  simp only [either, Predicate.attempt, Predicate.or, done_bind]
  congr 1
  funext passed
  cases passed <;> rfl

theorem negated_done (p : Predicate α) (a : α) :
    negated (p.attempt a) = p.not.attempt a := by
  simp only [negated, Predicate.attempt, Predicate.not, done_bind, done_pure]

theorem judged_done [ToElement α] (p : Predicate α) (description fail pass : Text) (a : α)
    (m : Model) :
    judged a (p.attempt a) fail pass =
      (Condition.judging description p fail pass).attempt a m := by
  simp only [judged, Predicate.attempt, Condition.attempt, Condition.judging, done_bind]
  congr 1
  funext passed
  cases passed <;> rfl

theorem joined_done [ToElement α] (left right : Condition α) (j : Join)
    (description : Text) (a : α) (m : Model) :
    joined j a (left.attempt a m) (right.attempt a m) =
      (left.join j right description).attempt a m := by
  simp only [joined, Condition.attempt, Condition.join, done_bind, done_pure]

theorem dependsOnlyOn_done (p : Predicate Class) (c : Class) (m : Model) :
    dependsOnlyOn p.attempt c m = (Condition.dependsOnlyOn p).attempt c m := by
  have hfailing := failing_done (fun e : Edge => p.test e.target.owner)
      (Condition.edgesOf c m)
  simp only [dependsOnlyOn, Predicate.attempt, Condition.attempt, Condition.dependsOnlyOn,
    hfailing, done_bind, done_pure]

end Attempt

theorem Aspect.anyInOrder_attempt {s : Subject} {k : Kind} (a : Aspect s k)
    (p : Predicate s.Carrier) (x : k.Item) :
    Attempt.anyInOrder p.attempt (a.parts x) = (a.predicate p).attempt x := by
  rw [Predicate.attempt, a.test_predicate, ← Attempt.anyInOrder_done]
  rfl

theorem Assertion.attempt_done {s : Subject} {k : Kind} (a : Assertion s k)
    (p : Predicate s.Carrier) (x : k.Item) (m : Model) :
    a.attempt p.description p.attempt x = (a.condition p).attempt x m := by
  rw [a.condition_eq, Assertion.attempt, a.aspect.anyInOrder_attempt,
    Attempt.negated_done]
  by_cases hdenies : a.denies = true
  · simp only [if_pos hdenies]
    exact Attempt.judged_done _ _ _ _ x m
  · simp only [if_neg hdenies]
    exact Attempt.judged_done _ _ _ _ x m

/-! ## Predicates -/

namespace PredicateExpr

variable {s : Subject}

/-- The stored expression is asked as the predicate is, and it has the same
description. -/
structure StandsFor (e : PredicateExpr s) (p : Predicate s.Carrier) : Prop where
  attempt : e.attempt = p.attempt
  description : e.description = p.description

theorem outcome_build (e : PredicateExpr s) :
    Outcome e.lacks false (Built e.isAbsent e.StandsFor) e.build := by
  -- The errors come in the order of `lacks`: those of the operands, then the operands
  -- themselves.
  induction e with
  | absent => exact ⟨rfl, rfl, rfl, nofun⟩
  | atom p => exact ⟨rfl, rfl, Built.some ⟨rfl, rfl⟩⟩
  | and left right ihleft ihright =>
      refine ihleft.bind fun l hl => ihright.bind fun r hr =>
        (hl.require .and).bind fun p hp => (hr.require .and).map fun q hq => ?_
      refine Built.some ⟨?_, ?_⟩
      · funext a
        rw [attempt, hp.attempt, hq.attempt, Attempt.both_done]
      · rw [description, hp.description, hq.description]
        rfl
  | or left right ihleft ihright =>
      refine ihleft.bind fun l hl => ihright.bind fun r hr =>
        (hl.require .or).bind fun p hp => (hr.require .or).map fun q hq => ?_
      refine Built.some ⟨?_, ?_⟩
      · funext a
        rw [attempt, hp.attempt, hq.attempt, Attempt.either_done]
      · rw [description, hp.description, hq.description]
        rfl
  | not inner ih =>
      refine ih.bind fun built h => (h.require .not).map fun p hp => ?_
      refine Built.some ⟨?_, ?_⟩
      · funext a
        rw [attempt, hp.attempt, Attempt.negated_done]
      · rw [description, hp.description]
        rfl
  | renamed inner description ih =>
      refine ih.bind fun built h => (h.require .renamed).map fun p hp => ?_
      exact Built.some ⟨hp.attempt, rfl⟩
  | widened w inner ih =>
      refine ih.bind fun built h => (h.require .widened).map fun p hp => ?_
      refine Built.some ⟨?_, hp.description⟩
      funext a
      rw [attempt, hp.attempt]
      rfl
  | aspect asp inner ih =>
      refine ih.bind fun built h => (h.require asp.entry).map fun p hp => ?_
      refine Built.some ⟨?_, ?_⟩
      · funext a
        rw [attempt, hp.attempt, asp.anyInOrder_attempt]
      · rw [description, hp.description, asp.description_predicate]

end PredicateExpr

namespace PredicateArg

variable {k : Kind}

/-- An argument is looked at before it is used, whichever part of the rule looks at it. -/
theorem outcome_require (a : PredicateArg k) (entry : EntryPoint) :
    Outcome a.lacks false (fun p => a.attempt = p.attempt)
      (a.expr.build >>= fun built => requireOperand entry built >>= fun p =>
        pure (p.along a.widening.apply)) := by
  refine a.expr.outcome_build.bind fun built h => (h.require entry).map fun p hp => ?_
  funext x
  rw [attempt, hp.attempt]
  rfl

end PredicateArg

end Conformance
