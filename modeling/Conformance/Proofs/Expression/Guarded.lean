import Conformance.Proofs.Expression.Lacking

/-!
# Guarded operands

An expression that lacks an operand somewhere is refused when it is built, and only such
an expression is.  What has been built lacks nothing that an evaluation could come to, so
a stored expression that could be built is evaluated as it should be and never goes
astray.
-/

namespace Conformance

/-! ## Conditions -/

namespace ConditionExpr

variable {k : Kind}

/-- The stored expression is checked as the condition is. -/
def StandsFor (e : ConditionExpr k) (c : Condition k.Item) : Prop :=
  e.attempt = c.attempt

theorem outcome_nameMatches (source : Text) :
    Outcome false (nameMatches source).unreadable
      (Built false (nameMatches source).StandsFor)
      (nameMatches source).build := by
  cases hread : Pattern.read source with
  | error cause => simp [build, unreadable, hread, Outcome, Except.isOk, Except.toBool]
  | ok pattern =>
      have hstands : (nameMatches source).StandsFor
          (Condition.nameMatches source pattern) := by
        funext a m
        rw [attempt, hread]
      simpa [build, unreadable, hread, Outcome, Except.isOk,
        Except.toBool] using Built.some hstands

theorem outcome_buildRestriction (caller : CallerKind) (p : PredicateArg caller.kind) :
    Outcome p.lacks false (fun c => (caller.slots p.attempt).check = c.attempt)
      (buildRestriction caller p) := by
  have hbuilt := p.outcome_require
      (if p.target = caller.kind then caller.entry else .widened)
  rw [buildRestriction, map_eq_pure_bind]
  refine hbuilt.map fun q hq => ?_
  rw [hq]
  funext u m
  exact caller.check_slots q u m

theorem outcome_build (e : ConditionExpr k) :
    Outcome e.lacks e.unreadable (Built e.isAbsent e.StandsFor) e.build := by
  induction e with
  | absent => exact ⟨rfl, rfl, rfl, nofun⟩
  | atom c => exact ⟨rfl, rfl, Built.some rfl⟩
  | and left right ihleft ihright =>
      refine ihleft.bind fun l hl => ihright.guard fun r hr =>
        (hl.require .and).bind fun c hc => (hr.require .and).map fun d hd => ?_
      refine Built.some ?_
      funext a m
      rw [attempt, hc, hd]
      exact Attempt.joined_done c d .and _ a m
  | or left right ihleft ihright =>
      refine ihleft.bind fun l hl => ihright.guard fun r hr =>
        (hl.require .or).bind fun c hc => (hr.require .or).map fun d hd => ?_
      refine Built.some ?_
      funext a m
      rw [attempt, hc, hd]
      exact Attempt.joined_done c d .or _ a m
  | renamed inner description ih =>
      refine ih.guard fun built h => (h.require .renamed).map fun c hc => ?_
      exact Built.some hc
  | widened w inner ih =>
      refine ih.guard fun built h => (h.require .widened).map fun c hc => ?_
      refine Built.some ?_
      funext a m
      rw [attempt, hc]
      rfl
  | satisfying p =>
      refine p.outcome_build.bind fun built h =>
        (h.require .satisfying).map fun q hq => ?_
      refine Built.some ?_
      funext a m
      rw [attempt, hq.attempt, hq.description]
      exact Attempt.judged_done q _ _ _ a m
  | judging description p fail pass =>
      refine p.outcome_build.bind fun built h => (h.require .judging).map fun q hq => ?_
      refine Built.some ?_
      funext a m
      rw [attempt, hq.attempt]
      exact Attempt.judged_done q description fail pass a m
  | nameMatches source => exact outcome_nameMatches source
  | assertion a p =>
      refine p.outcome_build.bind fun built h => (h.require a.entry).map fun q hq => ?_
      refine Built.some ?_
      funext x m
      rw [attempt, hq.attempt, hq.description, a.attempt_done]
  | calledOnlyBy caller p =>
      rw [build, map_eq_pure_bind]
      exact (outcome_buildRestriction caller p).map fun c hc => Built.some hc
  | dependsOnlyOn p =>
      refine (p.outcome_require _).map fun q hq => Built.some ?_
      funext c m
      rw [attempt, hq, Attempt.dependsOnlyOn_done]

end ConditionExpr

/-! ## Chains -/

theorem FilterWord.narrow_attempt {c : Collection} (w : FilterWord) (s : Selection c)
    (p : Predicate c.Item) :
    w.narrow (s.filter.map Predicate.attempt) p.attempt =
      (w.apply s p).filter.map Predicate.attempt := by
  obtain ⟨filter⟩ := s
  match filter with
  | none => cases w <;> rfl
  | some q =>
      have hboth : (fun a => Attempt.both (q.attempt a) (p.attempt a)) =
          (q.and p).attempt :=
        funext fun a => Attempt.both_done q p a
      have heither : (fun a => Attempt.either (q.attempt a) (p.attempt a)) =
          (q.or p).attempt :=
        funext fun a => Attempt.either_done q p a
      cases w with
      | that => exact congrArg some hboth
      | andThat => exact congrArg some hboth
      | orThat => exact congrArg some heither

theorem outcome_buildSelection {c : Collection} (s : Selection c)
    (links : List (FilterLink c.kind)) :
    Outcome (lackingFilter links) false
      (fun t => storedFilter (s.filter.map Predicate.attempt) links =
        t.filter.map Predicate.attempt)
      (buildSelection s links) := by
  induction links generalizing s with
  | nil => exact ⟨rfl, rfl, rfl⟩
  | cons link rest ih =>
      refine (link.argument.outcome_require link.word.entry).bind fun p hp => ?_
      rw [storedFilter, List.foldl_cons, hp, link.word.narrow_attempt]
      exact ih (link.word.apply s p)

namespace ShouldLink

theorem outcome_build {k : Kind} (link : ShouldLink k) :
    Outcome link.lacks link.unreadable
      (fun c => link.attempt = c.attempt) link.build := by
  cases link with
  | should e => exact e.outcome_build.guard fun built h => h.require .should
  | calledOnlyBy w caller p =>
      refine (ConditionExpr.outcome_buildRestriction caller p).map fun c hc => ?_
      rw [attempt, hc]
      rfl
  | andShould e => exact e.outcome_build.guard fun built h => h.require .andShould
  | orShould e => exact e.outcome_build.guard fun built h => h.require .orShould

/-- The root that a link leaves behind, and the chain that it makes. -/
theorem extend_attempt {c : Collection} (link : ShouldLink c.kind) (ch : Chain c)
    {condition : Condition c.Item} (h : link.attempt = condition.attempt) :
    link.extend ch.condition.attempt = (link.apply ch condition).condition.attempt := by
  cases link with
  | should e => exact h
  | calledOnlyBy w caller p => exact h
  | andShould e =>
      funext a m
      rw [extend, h]
      exact Attempt.joined_done ch.condition condition .and _ a m
  | orShould e =>
      funext a m
      rw [extend, h]
      exact Attempt.joined_done ch.condition condition .or _ a m

theorem selection_apply {c : Collection} (link : ShouldLink c.kind) (ch : Chain c)
    (condition : Condition c.Item) :
    (link.apply ch condition).selection = ch.selection := by
  cases link <;> rfl

end ShouldLink

theorem outcome_extendChain {c : Collection} (ch : Chain c)
    (links : List (ShouldLink c.kind)) :
    Outcome (links.any ShouldLink.lacks) (links.any ShouldLink.unreadable)
      (fun built => built.selection = ch.selection ∧
        links.foldl (fun root link => link.extend root) ch.condition.attempt =
          built.condition.attempt)
      (extendChain ch links) := by
  induction links generalizing ch with
  | nil => exact ⟨rfl, rfl, rfl, rfl⟩
  | cons link rest ih =>
      refine link.outcome_build.bind fun condition hcondition => ?_
      rw [List.foldl_cons, link.extend_attempt ch hcondition,
        ← link.selection_apply ch condition]
      exact ih (link.apply ch condition)

namespace StoredChain

variable {c : Collection}

/-- The stored chain selects and checks as the chain does. -/
structure StandsFor (s : StoredChain c) (ch : Chain c) : Prop where
  filter : s.filter = ch.selection.filter.map Predicate.attempt
  root : s.root = ch.condition.attempt

theorem StandsFor.selects {s : StoredChain c} {ch : Chain c} (h : s.StandsFor ch)
    (a : c.Item) :
    s.selects a = .done (Predicate.passes ch.selection.filter a) := by
  rw [StoredChain.selects, h.filter]
  cases ch.selection.filter <;> rfl

/-- The findings are those of the finished rule. -/
theorem StandsFor.findings {s : StoredChain c} {ch : Chain c} (h : s.StandsFor ch)
    (m : Model) (items : List c.Item) :
    s.findings m items = .done (ch.rule.content.examineAll m items) := by
  induction items with
  | nil => rfl
  | cons a rest ih =>
      rw [StoredChain.findings, h.selects, h.root, ih]
      change _ = Attempt.done
        ((Predicate.passes ch.selection.filter a >>= fun passed => _) >>=
        fun found => _)
      rw [bind_assoc, Attempt.done_bind]
      congr 1
      funext passed
      cases passed with
      | true =>
          change _ = Attempt.done
            ((ch.condition.check a m >>= fun events => pure (some events)) >>=
            fun found => _)
          rw [bind_assoc, Attempt.done_bind]
          rfl
      | false =>
          change _ = Attempt.done (pure none >>= fun found => _)
          simp

end StoredChain

namespace ChainExpr

variable {c : Collection}

theorem outcome_build (e : ChainExpr c) :
    Outcome e.lacks e.unreadable e.stored.StandsFor e.build := by
  refine (outcome_buildSelection {} e.filters).bind fun s hs =>
    e.first.outcome_build.bind fun condition hcondition => ?_
  refine (outcome_extendChain (s.should condition) e.others).imp fun ch hch => ⟨?_, ?_⟩
  · rw [hch.1]
    exact hs
  · rw [← hch.2]
    change _ = e.others.foldl _ condition.attempt
    rw [← hcondition]
    rfl

end ChainExpr

/-! ## Operands are guarded -/

/-- Building refuses what lacks an operand, at whatever depth, and nothing else,
unreadable patterns aside.  What was built is evaluated as it should be: no predicate,
condition or rule comes to an operand that is not there.  A restriction on callers has the
one predicate that it asks and no other, and the filter of a chain is the only part that
may be missing. -/
theorem operands_guarded :
    (∀ (s : Subject) (e : PredicateExpr s),
      if e.lacks then
        ∃ entry, e.build = .error (.missingOperand entry)
      else
        ∃ built, e.build = .ok built ∧ built.isNone = e.isAbsent ∧
          ∀ p, built = some p → ∀ a, e.attempt a = .done (p.test a)) ∧
    (∀ (k : Kind) (e : ConditionExpr k), e.unreadable = false →
      if e.lacks then
        ∃ entry, e.build = .error (.missingOperand entry)
      else
        ∃ built, e.build = .ok built ∧ built.isNone = e.isAbsent ∧
          ∀ cond, built = some cond → ∀ a m, e.attempt a m = .done (cond.check a m)) ∧
    (∀ (c : Collection) (s : Selection c) (links : List (FilterLink c.kind)),
      if lackingFilter links then
        ∃ entry, buildSelection s links = .error (.missingOperand entry)
      else
        ∃ t, buildSelection s links = .ok t) ∧
    (∀ (c : Collection) (e : ChainExpr c), e.unreadable = false →
      if e.lacks then
        ∃ entry, e.build = .error (.missingOperand entry)
      else
        ∃ ch, e.build = .ok ch ∧ ∀ m items,
          e.stored.findings m items = .done (ch.rule.content.examineAll m items)) ∧
    (∀ (caller : CallerKind) (test : caller.kind.Item → Attempt Bool),
      (caller.slots test).kind = caller ∧
        (caller.slots test).onClass.isSome = decide (caller = .classes) ∧
        (caller.slots test).onUnit.isSome = decide (caller ≠ .classes)) := by
  refine ⟨?_, ?_, ?_, ?_, CallerKind.isSome_slots⟩
  · intro s e
    exact (e.outcome_build.imp fun built h =>
      ⟨h.isNone, fun p hp a => congrFun (h.good p hp).attempt a⟩).refused_or_built
  · intro k e hreadable
    have hbuilt := e.outcome_build
    rw [hreadable] at hbuilt
    exact (hbuilt.imp fun built h =>
      ⟨h.isNone, fun cond hcond a m =>
        congrFun₂ (h.good cond hcond) a m⟩).refused_or_built
  · intro c s links
    have hbuilt : Outcome (lackingFilter links) false (fun _ => True)
        (buildSelection s links) :=
      (outcome_buildSelection s links).imp fun _ _ => trivial
    simpa using hbuilt.refused_or_built
  · intro c e hreadable
    have hbuilt := e.outcome_build
    rw [hreadable] at hbuilt
    exact (hbuilt.imp fun ch h => h.findings).refused_or_built

/-- A restriction on callers with nothing to deny is refused, however deep the gap is. -/
theorem operands_guarded_nothingDenied :
    let e : ChainExpr .methods :=
      { filters := []
        first := .calledOnlyBy (.step .methodUnit (.refl _)) .methods
          ⟨_, .refl _, .not .absent⟩
        others := [] }
    e.unreadable = false ∧ e.lacks = true ∧
      ∃ entry, e.build = .error (.missingOperand entry) := by
  intro e
  exact ⟨rfl, rfl, operands_guarded.2.2.2.1 .methods e rfl⟩

end Conformance
