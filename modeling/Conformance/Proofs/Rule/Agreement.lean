import Conformance.Proofs.Condition.Quality
import Conformance.Proofs.Rule.Evaluated
import Conformance.Proofs.Rule.Verdict

/-!
# Filters and conditions that agree

What a filter selects, the condition of the same quality accepts.  So a rule that asserts
a quality of the items that were selected by it has nothing to report, and asserted of all
items the quality is missing from those that the filter leaves out, one line each.
-/

namespace Conformance

/-- One more filter keeps the selected items that it accepts. -/
theorem Selection.value_items_that {c : Collection} (s : Selection c)
    (p : Predicate c.Item) (m : Model) :
    ((s.that p).items m).value = (s.items m).value.filter p.accepts := by
  obtain ⟨filter?⟩ := s
  rw [value_items, value_items]
  cases filter? with
  | none =>
      rw [show (fun a => (Predicate.passes none a).value) =
        fun _ : c.Item => true from rfl, List.filter_true]
      rfl
  | some q =>
      rw [List.filter_filter]
      apply List.filter_congr
      intro a _
      change (q.test a >>= fun passed => if passed then p.test a else pure false).value =
        (p.accepts a && (q.test a).value)
      rw [Consulted.value_bind]
      cases (q.test a).value with
      | true => exact (Bool.and_true _).symm
      | false => exact (Bool.and_false _).symm

/-- A chain without violations fails when it has nothing to check and should have. -/
theorem Chain.fails_iff_of_hasViolation_eq_false {c : Collection} {ch : Chain c}
    {m : Model} (h : (ch.rule.evaluate m).value.hasViolation = false)
    (options : Options) :
    ((∃ v, (ch.rule.check m options).value = .error v) ↔
      (ch.selection.items m).value = [] ∧ options.failOnEmpty = true) ∧
    ((∃ d, (ch.rule.verify m options).value = .error d) ↔
      (ch.selection.items m).value = [] ∧ options.failOnEmpty = true) := by
  have hfails : (∃ message,
        ch.rule.failure? options (ch.rule.evaluate m).value = some message) ↔
      (ch.selection.items m).value = [] ∧ options.failOnEmpty = true := by
    have hallowed : ch.rule.allowsEmpty options = !options.failOnEmpty := rfl
    rw [Rule.failure?, Evaluation.exists_failure?_iff, h, ch.evaluate_checked,
      List.length_eq_zero_iff, hallowed, Bool.not_eq_false']
    simp
  exact ⟨(ch.rule.exists_check_eq_error_iff m options).trans hfails,
    (ch.rule.exists_verify_eq_error_iff m options).trans hfails⟩

namespace Condition.Judges

variable {c : Collection} {condition : Condition c.Item} {p : Predicate c.Item}
  {fail pass : Text}

theorem anyViolated_check (h : condition.Judges p fail pass) (a : c.Item) (m : Model) :
    Event.anyViolated (condition.check a m).value = !p.accepts a := by
  rw [h.value_check a m]
  exact Bool.or_false _

theorem evaluate_events (h : condition.Judges p fail pass) (s : Selection c) (m : Model) :
    ((s.should condition).rule.evaluate m).value.events =
      (s.items m).value.map (fun a => Event.judged fail pass a (p.accepts a)) := by
  rw [Chain.evaluate_events, List.map_eq_flatMap]
  exact List.flatMap_congr fun a _ => h.value_check a m

theorem report_evaluate (h : condition.Judges p fail pass) (s : Selection c) (m : Model) :
    ((s.should condition).rule.evaluate m).value.report =
      ((s.items m).value.filter (fun a => !p.accepts a)).map
        (fun a => (Event.judged fail pass a (p.accepts a)).message) := by
  rw [Evaluation.report, h.evaluate_events, Event.violations, List.filter_map,
    List.map_map]
  rfl

end Condition.Judges

namespace Quality

/-- The filter and the condition of one quality agree, whatever it is compared with.  The
condition reports one event about every item, which is violated when the filter refuses
the item.  A selection that is narrowed by the filter satisfies the condition; and of any
selection, the condition reports the items that the filter would leave out, one line each
and in their order. -/
theorem condition_agrees_filter {k : Kind} (q : Quality k) {c : Collection}
    (w : Widening c.kind k) (s : Selection c) (m : Model) :
    let p := q.filter.along w.apply
    let condition := q.condition.along w.apply
    let selected := (s.items m).value
    let kept := ((s.that p).items m).value
    let narrowed := (s.that p).should condition
    let whole := s.should condition
    (∀ (a : k.Item) (m' : Model), ∃ event, (q.condition.check a m').value = [event] ∧
      event.elements = [k.itemElement a] ∧
      (event.violated = true ↔ q.filter.accepts a = false)) ∧
    kept = selected.filter p.accepts ∧
    (narrowed.rule.evaluate m).value.report = [] ∧
    (∀ options,
      ((∃ v, (narrowed.rule.check m options).value = .error v) ↔
        kept = [] ∧ options.failOnEmpty = true) ∧
      ((∃ d, (narrowed.rule.verify m options).value = .error d) ↔
        kept = [] ∧ options.failOnEmpty = true)) ∧
    (∀ a ∈ selected, whole.FindsFault m a ↔ a ∉ kept) ∧
    List.Forall₂ (fun a line => ∃ event, (condition.check a m).value = [event] ∧
        event.violated = true ∧ line = event.message)
      (selected.filter (fun a => !p.accepts a)) (whole.rule.evaluate m).value.report := by
  intro p condition selected kept narrowed whole
  obtain ⟨fail, pass, hquality⟩ := q.exists_judges
  have hjudges : condition.Judges p fail pass := hquality.along w
  have hkept : kept = selected.filter p.accepts := s.value_items_that p m
  have hreport : (narrowed.rule.evaluate m).value.report = [] := by
    rw [hjudges.report_evaluate (s.that p) m, List.map_eq_nil_iff, List.filter_eq_nil_iff]
    intro a ha
    rw [show ((s.that p).items m).value = _ from hkept] at ha
    simp [(List.mem_filter.mp ha).2]
  refine ⟨?_, hkept, hreport, ?_, ?_, ?_⟩
  · intro a m'
    exact ⟨_, hquality.value_check a m', rfl,
      iff_of_eq (Bool.not_eq_true' _)⟩
  · exact Chain.fails_iff_of_hasViolation_eq_false
      ((narrowed.rule.evaluate m).value.report_eq_nil_iff.mp hreport)
  · intro a ha
    rw [whole.findsFault_iff ha, show whole.condition = condition from rfl,
      hjudges.anyViolated_check a m, hkept, List.mem_filter, and_iff_right ha]
    simp
  · rw [hjudges.report_evaluate s m, List.forall₂_map_right_iff, List.forall₂_same]
    intro a ha
    have hrefused := (List.mem_filter.mp ha).2
    exact ⟨_, hjudges.value_check a m, hrefused, rfl⟩

end Quality

end Conformance
