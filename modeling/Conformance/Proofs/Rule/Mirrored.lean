import Conformance.Proofs.Rule.Agreement

/-!
# Mirrored conditions

A quality can be asserted of some items, or denied.  Either way there is one finding about
every item, in the same words, and it is a fault in exactly one of the two cases.  Joined
by *and*, the two conditions therefore find fault with every item once, and joined by *or*
with none.
-/

namespace Conformance

/-! ## Joins of opposite findings -/

namespace Join

variable (e : Element) (event : Event)

/-- One of two opposite findings is a fault, and its words are those of both. -/
theorem events_and_opposite :
    events .and e [event] [event.opposite] =
      [{ elements := [e], violated := true, message := event.message }] := by
  obtain ⟨elements, violated, message⟩ := event
  cases violated <;> rfl

theorem events_or_opposite : events .or e [event] [event.opposite] = [] := by
  obtain ⟨elements, violated, message⟩ := event
  cases violated <;> rfl

end Join

theorem Event.violations_map_opposite (events : List Event) :
    Event.violations (events.map Event.opposite) =
      (events.filter (fun event => !event.violated)).map Event.message := by
  rw [Event.violations, List.filter_map, List.map_map]
  rfl

/-! ## Chains with mirrored conditions -/

namespace Condition.Mirrors

variable {c : Collection} {condition denial : Condition c.Item}

theorem evaluate_events (h : condition.Mirrors denial) (s : Selection c) (m : Model) :
    ((s.should denial).rule.evaluate m).value.events =
      ((s.should condition).rule.evaluate m).value.events.map Event.opposite := by
  rw [Chain.evaluate_events, Chain.evaluate_events, List.map_flatMap]
  exact List.flatMap_congr fun a _ => h.value_check a m

variable {p : Predicate c.Item} {fail pass : Text}

/-- Exactly one of the two conditions finds fault with an item. -/
theorem anyViolated_check (h : condition.Mirrors denial)
    (hjudges : condition.Judges p fail pass) (a : c.Item) (m : Model) :
    Event.anyViolated (denial.check a m).value =
      !Event.anyViolated (condition.check a m).value := by
  rw [h.value_check a m, hjudges.value_check a m]
  simp [Event.anyViolated, Event.opposite]

theorem findsFault_iff_not (h : condition.Mirrors denial)
    (hjudges : condition.Judges p fail pass) (s : Selection c) {m : Model} {a : c.Item}
    (ha : a ∈ (s.items m).value) :
    (s.should condition).FindsFault m a ↔ ¬ (s.should denial).FindsFault m a := by
  rw [(s.should condition).findsFault_iff ha, (s.should denial).findsFault_iff ha]
  change Event.anyViolated (condition.check a m).value = true ↔
    ¬ Event.anyViolated (denial.check a m).value = true
  rw [h.anyViolated_check hjudges, Bool.not_eq_true, Bool.not_eq_false']

/-- What two joined mirror images report about an item. -/
theorem value_check_join (h : condition.Mirrors denial)
    (hjudges : condition.Judges p fail pass) (j : Join) (description : Text) (a : c.Item)
    (m : Model) :
    ((condition.join j denial description).check a m).value =
      let event := Event.judged fail pass a (p.accepts a)
      j.events (c.kind.itemElement a) [event] [event.opposite] := by
  have hjoin : ((condition.join j denial description).check a m).value =
      j.events (c.kind.itemElement a) (condition.check a m).value
        (denial.check a m).value := rfl
  rw [hjoin, h.value_check a m, hjudges.value_check a m]
  rfl

theorem evaluate_events_andShould (h : condition.Mirrors denial)
    (hjudges : condition.Judges p fail pass) (s : Selection c) (m : Model) :
    (((s.should condition).andShould denial).rule.evaluate m).value.events =
      ((s.should condition).rule.evaluate m).value.events.map
        (fun event => { event with violated := true }) := by
  rw [hjudges.evaluate_events, List.map_map, Chain.evaluate_events, List.map_eq_flatMap]
  apply List.flatMap_congr
  intro a _
  exact (h.value_check_join hjudges .and _ a m).trans (Join.events_and_opposite _ _)

theorem evaluate_events_orShould (h : condition.Mirrors denial)
    (hjudges : condition.Judges p fail pass) (s : Selection c) (m : Model) :
    (((s.should condition).orShould denial).rule.evaluate m).value.events = [] := by
  rw [Chain.evaluate_events, List.flatMap_eq_nil_iff]
  intro a _
  exact (h.value_check_join hjudges .or _ a m).trans (Join.events_or_opposite _ _)

end Condition.Mirrors

namespace Deniable

/-- To assert a quality and to deny it are mirror images, whatever the quality is compared
with.  Both find one thing about every item, in the same words and about the same element,
and consult the same predicates; it is a fault for exactly one of them.  So the rules that
assert and deny it divide any selection between them, what satisfies one being the words
in which the other reports.  The rule that asserts and denies it reports every item once,
and the rule that allows either reports nothing. -/
theorem denial_mirrors {k : Kind} (d : Deniable k) {c : Collection}
    (w : Widening c.kind k) (s : Selection c) (m : Model) :
    let assertion := d.quality.condition.along w.apply
    let denial := d.denial.along w.apply
    let selected := (s.items m).value
    let asserted := ((s.should assertion).rule.evaluate m).value
    let denied := ((s.should denial).rule.evaluate m).value
    let both := (s.should assertion).andShould denial
    let either := (s.should assertion).orShould denial
    (∀ (a : k.Item) (m' : Model), ∃ event,
      (d.quality.condition.check a m').value = [event] ∧
      (d.denial.check a m').value = [event.opposite] ∧
      event.elements = [k.itemElement a] ∧
      (d.quality.condition.check a m').calls = (d.denial.check a m').calls) ∧
    asserted.events.map Event.elements = selected.map (fun a => [c.kind.itemElement a]) ∧
    denied.events = asserted.events.map Event.opposite ∧
    denied.report =
      (asserted.events.filter (fun event => !event.violated)).map Event.message ∧
    asserted.report =
      (denied.events.filter (fun event => !event.violated)).map Event.message ∧
    (∀ a ∈ selected, (s.should assertion).FindsFault m a ↔
      ¬ (s.should denial).FindsFault m a) ∧
    (both.rule.evaluate m).value.events =
      asserted.events.map (fun event => { event with violated := true }) ∧
    (either.rule.evaluate m).value.events = [] ∧
    (∀ options,
      ((∃ v, (either.rule.check m options).value = .error v) ↔
        selected = [] ∧ options.failOnEmpty = true) ∧
      ((∃ d, (either.rule.verify m options).value = .error d) ↔
        selected = [] ∧ options.failOnEmpty = true)) := by
  intro assertion denial selected asserted denied both either
  obtain ⟨fail, pass, hquality⟩ := d.quality.exists_judges
  have hjudges : assertion.Judges (d.quality.filter.along w.apply) fail pass :=
    hquality.along w
  have hmirrors : assertion.Mirrors denial := d.mirrors_denial.along w
  have hdenied : denied.events = asserted.events.map Event.opposite :=
    hmirrors.evaluate_events s m
  have hasserted : asserted.events = denied.events.map Event.opposite := by
    rw [hdenied, List.map_map]
    simp [Function.comp_def]
  have hnothing : (either.rule.evaluate m).value.events = [] :=
    hmirrors.evaluate_events_orShould hjudges s m
  refine ⟨?_, ?_, hdenied, ?_, ?_, ?_, hmirrors.evaluate_events_andShould hjudges s m,
    hnothing, ?_⟩
  · intro a m'
    have hcheck := hquality.value_check a m'
    refine ⟨_, hcheck, ?_, rfl, ?_⟩
    · rw [d.mirrors_denial.value_check a m', hcheck]
      rfl
    · rw [d.mirrors_denial a m']
      exact (List.append_nil _).symm
  · rw [show asserted.events = _ from hjudges.evaluate_events s m, List.map_map]
    rfl
  · rw [Evaluation.report, hdenied, Event.violations_map_opposite]
  · rw [Evaluation.report, hasserted, Event.violations_map_opposite]
  · exact fun a ha => hmirrors.findsFault_iff_not hjudges s ha
  · apply Chain.fails_iff_of_hasViolation_eq_false
    rw [Evaluation.hasViolation, hnothing]
    rfl

end Deniable

end Conformance
