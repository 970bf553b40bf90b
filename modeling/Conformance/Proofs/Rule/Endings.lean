import Conformance.Proofs.Condition.Report
import Conformance.Proofs.Rule.Placement

/-!
# Tests known by the length of their suffix

The condition on the placement of tests takes as many bytes off the end of a name as the
suffix has, and it never looks at them.  Whether they are the suffix is left to the
selection.  Where the selection does not see to that, the condition also reports classes
that are no tests: those that would be misplaced if their own ending were the suffix.
-/

namespace Conformance

namespace Condition

variable {m : Model} {suffix : Text} {test : Class}

/-- The bytes at the end of a name that are taken for the suffix. -/
def takenForSuffix (suffix : Text) (test : Class) : Text :=
  test.simpleName.drop (test.simpleName.length - suffix.length)

theorem takenForSuffix_isSuffix (suffix : Text) (test : Class) :
    takenForSuffix suffix test <:+ test.simpleName :=
  List.drop_suffix _ _

/-- A name that ends with the suffix is cut in the right place. -/
theorem takenForSuffix_eq_iff :
    takenForSuffix suffix test = suffix ↔ suffix <:+ test.simpleName := by
  constructor
  · intro h
    exact h ▸ takenForSuffix_isSuffix suffix test
  · intro h
    exact (List.suffix_iff_eq_drop.mp h).symm

/-- Another suffix of the same length makes no difference. -/
theorem besideImplementationEvents_congr {ending : Text}
    (h : suffix.length = ending.length) :
    besideImplementationEvents suffix test m =
      besideImplementationEvents ending test m := by
  rw [besideImplementationEvents, besideImplementationEvents, h]

/-- Nothing but an implementation without a name would be left of a name that is too
short. -/
theorem not_misplaced_of_length_le {names : List TypeName}
    (h : test.simpleName.length ≤ suffix.length) :
    ¬ Misplaced names (takenForSuffix suffix test) test.name := by
  have hwhole : takenForSuffix suffix test = test.simpleName := by
    rw [takenForSuffix, Nat.sub_eq_zero_of_le h, List.drop_zero]
  rintro ⟨n, _, hnonempty, hname, _⟩
  rw [hwhole] at hname
  exact hnonempty (List.self_eq_append_left.mp hname)

/-- A class is reported by one line if it is misplaced as a test whose suffix is its own
ending, and not at all otherwise. -/
theorem violations_takenForSuffix (suffix : Text) (htest : test ∈ m.analyzed) :
    (Misplaced (m.analyzed.map Class.name) (takenForSuffix suffix test) test.name →
      ∃ first ∈ m.analyzed, Event.violations (besideImplementationEvents suffix test m) =
        [misplacedLine test first]) ∧
    (¬ Misplaced (m.analyzed.map Class.name) (takenForSuffix suffix test) test.name →
      Event.violations (besideImplementationEvents suffix test m) = []) := by
  by_cases hshort : test.simpleName.length ≤ suffix.length
  · have hnothing : besideImplementationEvents suffix test m = [] := by
      rw [besideImplementationEvents, if_pos hshort]
    refine ⟨fun h => absurd h (not_misplaced_of_length_le hshort), fun _ => ?_⟩
    rw [hnothing]
    rfl
  · have hlength : suffix.length = (takenForSuffix suffix test).length := by
      rw [takenForSuffix, List.length_drop]
      omega
    rw [besideImplementationEvents_congr hlength]
    obtain ⟨hreported, hplaced⟩ :=
      violations_besideImplementationEvents htest (takenForSuffix_isSuffix suffix test)
    refine ⟨fun h => ?_, hplaced⟩
    obtain ⟨first, hfirst, hline⟩ := hreported h
    exact ⟨first, List.mem_of_find?_eq_some hfirst, hline⟩

theorem anyViolated_besideImplementationEvents (htest : test ∈ m.analyzed) :
    Event.anyViolated (besideImplementationEvents suffix test m) = true ↔
      Misplaced (m.analyzed.map Class.name) (takenForSuffix suffix test) test.name := by
  obtain ⟨hreported, hplaced⟩ := violations_takenForSuffix suffix htest
  rw [Event.anyViolated_iff]
  constructor
  · intro h
    by_contra hnot
    exact h (hplaced hnot)
  · intro h
    obtain ⟨first, _, hline⟩ := hreported h
    rw [hline]
    exact List.cons_ne_nil _ _

/-! ## The condition on a selection -/

/-- What the condition on the placement of tests finds in any selection of classes.  There
is one line for every class that is misplaced as a test whose suffix is its own ending, in
the order of the selection.  These are the misplaced tests as far as a class ends with the
suffix; a class that does not is no misplaced test, and it is reported when its own ending
makes it one. -/
theorem besideImplementation_reports (m : Model) (suffix : Text)
    (s : Selection .classes) :
    let chain := s.should (besideImplementation suffix)
    let selected := (s.items m).value
    let names := m.analyzed.map Class.name
    (chain.rule.evaluate m).value.events = (chain.reports m).map Prod.snd ∧
    List.Forall₂ (fun c line => ∃ first ∈ m.analyzed, line = misplacedLine c first)
      (selected.filter (fun c => Misplaced names (takenForSuffix suffix c) c.name))
      (chain.rule.evaluate m).value.report ∧
    ∀ c ∈ selected,
      (chain.FindsFault m c ↔ Misplaced names (takenForSuffix suffix c) c.name) ∧
      (takenForSuffix suffix c = suffix ↔ suffix <:+ c.simpleName) ∧
      ((chain.FindsFault m c ↔ Misplaced names suffix c.name) ↔
        (suffix <:+ c.simpleName ∨
          ¬ Misplaced names (takenForSuffix suffix c) c.name)) := by
  intro chain selected names
  have hanalyzed : ∀ c ∈ selected, c ∈ m.analyzed := by
    intro c hc
    rw [show selected = _ from s.value_items m] at hc
    exact List.mem_of_mem_filter hc
  refine ⟨(chain.map_reports m).symm, ?_, ?_⟩
  · rw [Evaluation.report, chain.evaluate_events, Event.violations_flatMap]
    apply forall₂_filter_flatMap
    · intro c hc hkept
      obtain ⟨first, hfirst, hline⟩ :=
        (violations_takenForSuffix suffix (hanalyzed c hc)).1 (of_decide_eq_true hkept)
      exact ⟨_, hline, first, hfirst, rfl⟩
    · intro c hc hleft
      exact (violations_takenForSuffix suffix (hanalyzed c hc)).2 fun h =>
        hleft (decide_eq_true h)
  · intro c hc
    have hfault : chain.FindsFault m c ↔
        Misplaced names (takenForSuffix suffix c) c.name :=
      (chain.findsFault_iff hc).trans
        (anyViolated_besideImplementationEvents (hanalyzed c hc))
    refine ⟨hfault, takenForSuffix_eq_iff, ?_⟩
    rw [hfault]
    by_cases hsuffix : suffix <:+ c.simpleName
    · rw [takenForSuffix_eq_iff.mpr hsuffix]
      exact iff_of_true Iff.rfl (Or.inl hsuffix)
    · have hnone : ¬ Misplaced names suffix c.name := fun h => hsuffix h.suffix_isSuffix
      simp only [hnone, hsuffix, iff_false, false_or]

/-- A class that is no test is reported, since its ending is as long as the suffix: it is
in another package than the class whose name is left when the ending is cut off. -/
theorem besideImplementation_reports_otherEnding :
    let add := fun (name : Text) => Request.addClass ⟨name⟩ .empty
    let m := ((Draft.start 0).run [add "p.FooSpec", add "q.Foo"]).finish
    let all : Selection .classes := {}
    ¬ (("Test" : Text) <:+ TypeName.simpleName ⟨"p.FooSpec"⟩) ∧
      ((all.should (besideImplementation "Test")).rule.evaluate m).value.report = [
      "Class <p.FooSpec> does not reside in same package as implementation class <q.Foo> "
        ++ "in (FooSpec.java:0)"] := by
  decide

end Condition

end Conformance
