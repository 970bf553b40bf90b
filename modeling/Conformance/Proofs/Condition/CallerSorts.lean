import Conformance.Proofs.Condition.Attempt

/-!
# Sorts of callers

There are four restrictions on callers, and one would do.  To restrict callers to methods
is to restrict code units to those that are methods, and then ask; to restrict the classes
of callers is to restrict code units by their owners.  The events are the same, and the
same callers are asked in the same order.
-/

namespace Conformance

namespace CallerTest

variable (P : Predicate CodeUnit) (o : CodeUnit)

/-- A predicate about methods is asked behind the test for methods. -/
theorem test_methods_along : (methods (P.along Method.toCodeUnit)).test o =
    (codeUnits (Predicate.isMethod.and P)).test o := by
  rcases o with ⟨owner, f | f⟩ <;> rfl

theorem test_constructors_along : (constructors (P.along Constructor.toCodeUnit)).test o =
    (codeUnits (Predicate.isConstructor.and P)).test o := by
  rcases o with ⟨owner, f | f⟩ <;> rfl

theorem test_classes (Q : Predicate Class) : (classes Q).test o =
    (codeUnits ((Predicate.ownedBy Q).along CodeUnit.toMember)).test o := rfl

/-- Behind a test for a sort, only code units of the sort are asked. -/
theorem calls_test_describe_and (description : Text) (sort : CodeUnit → Bool) :
    ((codeUnits ((Predicate.describe description sort).and P)).test o).calls =
      if sort o then (P.test o).calls else [] := by
  change (if sort o then P.test o else pure false).calls = _
  by_cases hsort : sort o = true
  · rw [if_pos hsort, if_pos hsort]
  · rw [if_neg hsort, if_neg hsort]
    rfl

end CallerTest

/-- The callers of a code unit, call by call. -/
def Model.callersOf (m : Model) (u : CodeUnit) : List CodeUnit :=
  (m.callsTo u).map Edge.origin

namespace Condition

variable (u : CodeUnit) (m : Model)

/-- A restriction is known by what it asks of each origin. -/
theorem check_calledOnlyBy_congr {t t' : CallerTest} (h : ∀ o, t.test o = t'.test o) :
    (calledOnlyBy t).check u m = (calledOnlyBy t').check u m := by
  have htest : (fun e : Edge => t.test e.origin) = fun e => t'.test e.origin := by
    funext e
    exact h e.origin
  rw [calledOnlyBy, calledOnlyBy, htest]

theorem calls_calledOnlyBy (t : CallerTest) :
    ((calledOnlyBy t).check u m).calls =
      (m.callersOf u).flatMap (fun o => (t.test o).calls) := by
  rw [Model.callersOf, calledOnlyBy, Consulted.calls_bind, Consulted.calls_failing,
    Consulted.calls_pure, List.append_nil, List.flatMap_map]

/-- The callers asked behind a test for a sort are those of the sort. -/
theorem calls_calledOnlyByCodeUnits_and (description : Text) (sort : CodeUnit → Bool)
    (P : Predicate CodeUnit) :
    ((calledOnlyByCodeUnits ((Predicate.describe description sort).and P)).check u
      m).calls =
      ((m.callersOf u).filter sort).flatMap (fun o => (P.test o).calls) := by
  rw [calledOnlyByCodeUnits, calls_calledOnlyBy]
  induction m.callersOf u with
  | nil => rfl
  | cons o rest ih =>
      rw [List.flatMap_cons, CallerTest.calls_test_describe_and, ih]
      by_cases hsort : sort o = true <;> simp [hsort]

/-- The four restrictions on callers reduce to the one on code units: behind a test for
the sort, or behind a look at the owner.  Events and consultations are the same, and the
callers asked are those of the sort, in the order of the calls.  A restriction as it is
stored takes code units for methods or constructors without a test of its own, which goes
astray for the others; it never comes to that, since it looks at the sort first. -/
theorem calledOnlyBy_sorts :
    (∀ P : Predicate CodeUnit,
      (calledOnlyByMethods (P.along Method.toCodeUnit)).check u m =
        (calledOnlyByCodeUnits (Predicate.isMethod.and P)).check u m ∧
      ((calledOnlyByMethods (P.along Method.toCodeUnit)).check u m).calls =
        ((m.callersOf u).filter CodeUnit.isMethod).flatMap (fun o => (P.test o).calls) ∧
      (calledOnlyByConstructors (P.along Constructor.toCodeUnit)).check u m =
        (calledOnlyByCodeUnits (Predicate.isConstructor.and P)).check u m ∧
      ((calledOnlyByConstructors (P.along Constructor.toCodeUnit)).check u m).calls =
        ((m.callersOf u).filter CodeUnit.isConstructor).flatMap
          (fun o => (P.test o).calls)) ∧
    (∀ Q : Predicate Class,
      (calledOnlyByClasses Q).check u m =
        (calledOnlyByCodeUnits ((Predicate.ownedBy Q).along CodeUnit.toMember)).check u
          m ∧
      ((calledOnlyByClasses Q).check u m).calls =
        (m.callersOf u).flatMap (fun o => (Q.test o.owner).calls)) ∧
    (∀ (caller : CallerKind) (p : Predicate caller.kind.Item),
      (caller.slots p.attempt).check u m = .done ((caller.restriction p).check u m) ∧
      ∀ test, (caller.slots p.attempt).onUnit = some test →
        ∀ o, test o = .astray ↔ caller.admits o = false) := by
  refine ⟨?_, ?_, ?_⟩
  · intro P
    have hmethods := check_calledOnlyBy_congr u m (CallerTest.test_methods_along P)
    have hconstructors :=
      check_calledOnlyBy_congr u m (CallerTest.test_constructors_along P)
    refine ⟨hmethods, ?_, hconstructors, ?_⟩
    · exact (congrArg Consulted.calls hmethods).trans
        (calls_calledOnlyByCodeUnits_and u m _ CodeUnit.isMethod P)
    · exact (congrArg Consulted.calls hconstructors).trans
        (calls_calledOnlyByCodeUnits_and u m _ CodeUnit.isConstructor P)
  · intro Q
    exact ⟨check_calledOnlyBy_congr u m fun o => CallerTest.test_classes o Q,
      calls_calledOnlyBy u m (.classes Q)⟩
  · intro caller p
    exact ⟨caller.check_slots p u m,
      fun test htest o => caller.onUnit_astray_iff p htest o⟩

end Condition

end Conformance
