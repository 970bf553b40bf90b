import Conformance.Proofs.Rule.Selected
import Conformance.Proofs.Text.Parts

/-!
# Verdicts

A rule can be evaluated, checked or verified.  Checking and verifying give the same
verdict about the same evaluation, and say the same about a failure, the one in a
violation and the other in a diagnostic.  A failure has one of two causes, which exclude
each other: something is violated, or nothing was checked where something should have
been.
-/

namespace Conformance

namespace Text

/-! ## Texts that are shown up to a zero byte -/

end Text

namespace Evaluation

variable (e : Evaluation)

theorem report_eq_nil_iff : e.report = [] ↔ e.hasViolation = false := by
  rw [report, Event.violations, List.map_eq_nil_iff, List.filter_eq_nil_iff, hasViolation,
    Event.anyViolated, List.any_eq_false]

/-- An evaluation fails for one of two causes. -/
theorem exists_failure?_iff (kind : Text) (allowEmpty : Bool) :
    (∃ message, e.failure? kind allowEmpty = some message) ↔
      e.hasViolation = true ∨ e.checked = 0 ∧ allowEmpty = false := by
  unfold failure?
  cases e.hasViolation with
  | true => simp
  | false => simp

variable {e} {kind message : Text} {allowEmpty : Bool}

end Evaluation

namespace Rule

variable (r : Rule) (m : Model) (options : Options)

/-- Nothing is found where nothing is checked. -/
theorem evaluate_events_eq_nil (h : (r.evaluate m).value.checked = 0) :
    (r.evaluate m).value.events = [] := by
  rw [evaluate_checked, List.length_eq_zero_iff] at h
  rw [evaluate_events, h, List.flatMap_nil]

/-! ## The two verdicts -/

theorem value_check :
    (r.check m options).value =
      match r.failure? options (r.evaluate m).value with
      | some message => .error { message, report := (r.evaluate m).value.report }
      | none => .ok () := by
  have hvalue : (r.check m options).value =
      (match r.failure? options (r.evaluate m).value with
        | some message => pure (.error { message, report := (r.evaluate m).value.report })
        | none => pure (.ok ()) : Consulted (Except Violation Unit)).value := rfl
  rw [hvalue]
  split <;> rfl

theorem value_verify :
    (r.verify m options).value =
      match r.failure? options (r.evaluate m).value with
      | some message => .error (.error .unknown message)
      | none => .ok () := by
  have hvalue : (r.verify m options).value =
      (match r.failure? options (r.evaluate m).value with
        | some message => pure (.error (.error .unknown message))
        | none => pure (.ok ()) : Consulted (Except Diagnostic Unit)).value := rfl
  rw [hvalue]
  split <;> rfl

/-- A rule that allows an empty selection fails only when it has something to report. -/
theorem failure?_of_allowed {r : Rule} (hallowed : r.emptyAllowed = some true) :
    r.failure? options (r.evaluate m).value =
      if (r.evaluate m).value.report = [] then none
      else some (r.evaluate m).value.failureMessage := by
  have hviolation := (r.evaluate m).value.report_eq_nil_iff
  rw [failure?, Evaluation.failure?, allowsEmpty, hallowed]
  split
  · rename_i hfails
    rw [if_neg]
    intro hnothing
    exact Bool.eq_false_iff.mp (hviolation.mp hnothing) hfails
  · rename_i hholds
    rw [if_pos (hviolation.mpr (Bool.eq_false_iff.mpr hholds))]
    simp

theorem passes_of_report_eq_nil {r : Rule} (hallowed : r.emptyAllowed = some true)
    (hreport : (r.evaluate m).value.report = []) :
    (r.check m options).value = .ok () ∧ (r.verify m options).value = .ok () := by
  rw [value_check, value_verify, failure?_of_allowed m options hallowed, if_pos hreport]
  exact ⟨rfl, rfl⟩

/-- A failed check has a text, and reports what the evaluation reports. -/
theorem check_eq_error_iff {v : Violation} :
    (r.check m options).value = .error v ↔
      r.failure? options (r.evaluate m).value = some v.message ∧
        v.report = (r.evaluate m).value.report := by
  rw [value_check]
  cases r.failure? options (r.evaluate m).value with
  | none => simp
  | some message =>
      rw [Except.error.injEq, Option.some.injEq]
      constructor
      · rintro rfl
        exact ⟨rfl, rfl⟩
      · rintro ⟨rfl, hreport⟩
        rw [← hreport]

/-- A failed verification has a text. -/
theorem verify_eq_error_iff {d : Diagnostic} :
    (r.verify m options).value = .error d ↔
      r.failure? options (r.evaluate m).value = some d.message ∧
        d = .error .unknown d.message := by
  rw [value_verify]
  cases r.failure? options (r.evaluate m).value with
  | none => simp
  | some message =>
      rw [Except.error.injEq, Option.some.injEq]
      constructor
      · rintro rfl
        exact ⟨rfl, rfl⟩
      · rintro ⟨rfl, hd⟩
        exact hd.symm

theorem exists_check_eq_error_iff :
    (∃ v, (r.check m options).value = .error v) ↔
      ∃ message, r.failure? options (r.evaluate m).value = some message := by
  constructor
  · rintro ⟨v, hv⟩
    exact ⟨v.message, ((r.check_eq_error_iff m options).mp hv).1⟩
  · rintro ⟨message, hmessage⟩
    exact ⟨{ message, report := (r.evaluate m).value.report },
      (r.check_eq_error_iff m options).mpr ⟨hmessage, rfl⟩⟩

theorem exists_verify_eq_error_iff :
    (∃ d, (r.verify m options).value = .error d) ↔
      ∃ message, r.failure? options (r.evaluate m).value = some message := by
  constructor
  · rintro ⟨d, hd⟩
    exact ⟨d.message, ((r.verify_eq_error_iff m options).mp hd).1⟩
  · rintro ⟨message, hmessage⟩
    exact ⟨.error .unknown message, (r.verify_eq_error_iff m options).mpr ⟨hmessage, rfl⟩⟩

end Rule

end Conformance
