import Conformance.Proofs.Condition.Judging
import Conformance.Proofs.Condition.Report
import Conformance.Proofs.Rule.Evaluated
import Conformance.Proofs.Rule.Verdict

/-!
# Throwables that are not to be declared

A rule can deny several throwables, one after the other.  It reports every code unit that
declares some of them in a single line, which names those that are declared: in the order
in which the rule denies them, whatever their order in the throws clause is.
-/

namespace Conformance

/-! ## Conditions that are linked by *and* -/

namespace ConditionTree

variable {k : Kind} (first : ConditionTree k) (others : List (ConditionTree k))
  (a : k.Item) (m : Model)

/-- The first condition and then the others, each of them linked by *and*. -/
def allOf : ConditionTree k :=
  others.foldl (linked .and) first

theorem exposedTexts_allOf :
    (allOf first others).exposedTexts a m =
      (first :: others).flatMap (fun t => t.exposedTexts a m) := by
  rw [allOf]
  induction others generalizing first with
  | nil => simp
  | cons next rest ih =>
      rw [List.foldl_cons, ih, linked, List.flatMap_cons, exposedTexts_join_and,
        List.flatMap_cons, List.flatMap_cons, List.append_assoc]

variable {first others}

theorem offered_allOf (hfirst : first.Offered) (hothers : ∀ t ∈ others, t.Offered) :
    (allOf first others).Offered := by
  rw [allOf]
  induction others generalizing first with
  | nil => exact hfirst
  | cons next rest ih =>
      obtain ⟨hnext, hrest⟩ := List.forall_mem_cons.mp hothers
      exact ih ⟨hfirst, hnext⟩ hrest

theorem loneEvents?_allOf (hothers : others ≠ []) :
    (allOf first others).loneEvents? a m = none := by
  obtain ⟨init, last, rfl⟩ : ∃ init last, others = init ++ [last] :=
    ⟨_, _, (List.dropLast_concat_getLast hothers).symm⟩
  rw [allOf, List.foldl_append]
  rfl

end ConditionTree

/-! ## Denied throwables -/

namespace CodeUnit

/-- What is said about a throwable that a code unit should not declare. -/
def throwableLine (u : CodeUnit) (t : TypeName) : Text :=
  u.toMember.description ++ " declares throwable of type " ++ t.text ++ " in "
    ++ u.toMember.location.render

/-- Those of some throwables that a code unit declares. -/
def declaredAmong (u : CodeUnit) (throwables : List TypeName) : List TypeName :=
  throwables.filter (fun t => t ∈ u.decl.throws)

end CodeUnit

namespace Rule

variable (t : TypeName) (u : CodeUnit) (m : Model)

/-- The condition not to declare one throwable, as a leaf. -/
def withoutLeaf : ConditionTree .codeUnits :=
  .leaf (withoutThrowable t)

theorem accepts_throwing_typeCalled :
    (Predicate.throwing (.typeCalled t)).accepts u = decide (t ∈ u.decl.throws) := by
  have hany : (Predicate.throwing (.typeCalled t)).accepts u =
      u.decl.throws.any (fun x => decide (x = t)) := Consulted.value_anyInOrder _ _
  rw [hany, Bool.eq_iff_iff, List.any_eq_true, decide_eq_true_iff]
  simp

theorem exposedTexts_withoutLeaf :
    (withoutLeaf t).exposedTexts u m =
      if t ∈ u.decl.throws then [u.throwableLine t]
      else [] := by
  have hjudges : (withoutThrowable t).Judges (k := .codeUnits)
      (Predicate.throwing (.typeCalled t)).not
      ("declares throwable of type" ++ " " ++ t.text)
      ("does not declare throwable of type" ++ " " ++ t.text) :=
    Condition.judges_judging (k := .codeUnits) _ _ _ _
  have haccepts : (Predicate.throwing (.typeCalled t)).not.accepts u =
      !decide (t ∈ u.decl.throws) :=
    congrArg (fun accepted => !accepted) (accepts_throwing_typeCalled t u)
  rw [withoutLeaf, ConditionTree.exposedTexts_leaf, hjudges.value_check u m, haccepts]
  by_cases h : t ∈ u.decl.throws
  · have hline : u.toMember.description ++ " "
      ++ ("declares throwable of type" ++ " " ++ t.text)
        ++ " in " ++ u.toMember.location.render = u.throwableLine t := by
      have hwords : (" " : Text) ++ "declares throwable of type" ++ " " =
        " declares throwable of type " := by decide
      rw [CodeUnit.throwableLine, ← hwords]
      simp only [List.append_assoc]
    rw [if_pos h, ← hline, decide_eq_true h]
    rfl
  · rw [if_neg h, decide_eq_false h]
    rfl

/-- The conditions not to declare some throwables, in a row. -/
def withoutAll (first : TypeName) (others : List TypeName) : ConditionTree .codeUnits :=
  .allOf (withoutLeaf first) (others.map withoutLeaf)

theorem offered_withoutAll (first : TypeName) (others : List TypeName) :
    (withoutAll first others).Offered := by
  have hleaf : ∀ t, (withoutLeaf t).Offered :=
    fun t => Condition.Offered.judging (k := .codeUnits) _ _ _ _
  apply ConditionTree.offered_allOf (hleaf first)
  intro tree htree
  obtain ⟨t, _, rfl⟩ := List.mem_map.mp htree
  exact hleaf t

theorem exposedTexts_withoutAll (first : TypeName) (others : List TypeName) :
    (withoutAll first others).exposedTexts u m =
      (u.declaredAmong (first :: others)).map u.throwableLine := by
  rw [withoutAll, ConditionTree.exposedTexts_allOf, ← List.map_cons, List.flatMap_map,
    CodeUnit.declaredAmong, List.map_eq_flatMap, flatMap_filter]
  simp only [exposedTexts_withoutLeaf, decide_eq_true_eq]

/-- Of several denied throwables, those that a code unit declares make up one line. -/
theorem violations_withoutAll (first : TypeName) {others : List TypeName}
    (hothers : others ≠ []) :
    Event.violations ((withoutAll first others).condition.check u m).value =
      if u.declaredAmong (first :: others) = [] then []
      else [Text.join " and "
        ((u.declaredAmong (first :: others)).map u.throwableLine)] := by
  have hleaves : others.map withoutLeaf ≠ [] := by simpa using hothers
  have hroot : (withoutAll first others).loneEvents? u m = none :=
    ConditionTree.loneEvents?_allOf (k := .codeUnits) u m hleaves
  have hspeak : (withoutAll first others).Outspoken u m :=
    (withoutAll first others).outspoken_of_offered (offered_withoutAll first others) u m
  rw [(withoutAll first others).violations_check_of_not_lone u m hroot hspeak,
    exposedTexts_withoutAll]
  simp only [List.map_eq_nil_iff]

/-! ## Generic throwables -/

/-- The throwables that say nothing about what went wrong. -/
def genericThrowables : List TypeName :=
  [⟨"java.lang.Throwable"⟩, ⟨"java.lang.Exception"⟩, ⟨"java.lang.RuntimeException"⟩]

/-- The code units of the analyzed classes that declare generic throwables. -/
def unitsWithGenericThrowables : List CodeUnit :=
  (m.analyzed.flatMap Class.codeUnits).filter
    (fun u => ∃ t ∈ genericThrowables, t ∈ u.decl.throws)

theorem violations_noGenericThrowables :
    Event.violations (noGenericThrowables.content.condition.check u m).value =
      if ∃ t ∈ genericThrowables, t ∈ u.decl.throws then
        [Text.join " and " ((u.declaredAmong genericThrowables).map u.throwableLine)]
      else [] := by
  have hcondition : noGenericThrowables.content.condition =
      (withoutAll ⟨"java.lang.Throwable"⟩
        [⟨"java.lang.Exception"⟩, ⟨"java.lang.RuntimeException"⟩]).condition := rfl
  have hline := violations_withoutAll u m ⟨"java.lang.Throwable"⟩
    (List.cons_ne_nil ⟨"java.lang.Exception"⟩ [⟨"java.lang.RuntimeException"⟩])
  rw [← hcondition] at hline
  have hdeclared : u.declaredAmong genericThrowables = [] ↔
      ¬ ∃ t ∈ genericThrowables, t ∈ u.decl.throws := by
    simp [CodeUnit.declaredAmong]
  rw [hline, ← genericThrowables]
  simp only [hdeclared, ite_not]

theorem report_noGenericThrowables :
    (noGenericThrowables.evaluate m).value.report =
      (unitsWithGenericThrowables m).map
        (fun u => Text.join " and "
          ((u.declaredAmong genericThrowables).map u.throwableLine)) := by
  have hselected : noGenericThrowables.content.selected m =
      m.analyzed.flatMap Class.codeUnits :=
    List.filter_eq_self.mpr fun _ _ => rfl
  rw [Evaluation.report, evaluate_events, Event.violations_flatMap, hselected,
    unitsWithGenericThrowables, List.map_eq_flatMap, flatMap_filter]
  apply List.flatMap_congr
  intro u _
  rw [violations_noGenericThrowables u m]
  simp only [decide_eq_true_eq]

theorem check_verify_noGenericThrowables (options : Options) :
    let e := (noGenericThrowables.evaluate m).value
    (noGenericThrowables.check m options).value =
        (if e.report = [] then .ok ()
          else .error { message := e.failureMessage, report := e.report }) ∧
      (noGenericThrowables.verify m options).value =
        (if e.report = [] then .ok ()
         else .error (.error .unknown e.failureMessage)) := by
  intro e
  rw [value_check, value_verify, failure?_of_allowed m options rfl]
  by_cases hnothing : (noGenericThrowables.evaluate m).value.report = []
  · rw [if_pos hnothing, if_pos hnothing, if_pos hnothing]
    exact ⟨rfl, rfl⟩
  · rw [if_neg hnothing, if_neg hnothing, if_neg hnothing]
    exact ⟨rfl, rfl⟩

/-- In a finished model, the rule about generic throwables reports every code unit of an
analyzed class that declares one of them, and no other: once, in the order of the classes
and then of their declarations, and in one line that names those it declares in the order
of the rule.  It fails when it has something to report, and only then; so it passes when
there are no code units at all, whatever the options say about that. -/
theorem noGenericThrowables_reports (stamp : Nat) (requests : List Request) :
    let m := ((Draft.start stamp).run requests).finish
    let e := (noGenericThrowables.evaluate m).value
    let reported := (m.analyzed.flatMap Class.codeUnits).filter
      (fun u => ∃ t ∈ genericThrowables, t ∈ u.decl.throws)
    (reported.map CodeUnit.id).Nodup ∧
    e.report = reported.map (fun u => Text.join " and "
      ((genericThrowables.filter (fun t => t ∈ u.decl.throws)).map (fun t =>
        u.toMember.description ++ " declares throwable of type " ++ t.text ++ " in "
          ++ u.toMember.location.render))) ∧
    (∀ options,
      (noGenericThrowables.check m options).value =
        (if e.report = [] then .ok ()
          else .error { message := e.failureMessage, report := e.report }) ∧
      (noGenericThrowables.verify m options).value =
        (if e.report = [] then .ok () else .error (.error .unknown e.failureMessage))) ∧
    ((∀ c ∈ m.analyzed, c.codeUnits = []) → ∀ options,
      (noGenericThrowables.check m options).value = .ok () ∧
      (noGenericThrowables.verify m options).value = .ok ()) := by
  intro m e reported
  have hreport := report_noGenericThrowables m
  refine ⟨?_, hreport, check_verify_noGenericThrowables m, ?_⟩
  · have hunits := Collection.codeUnits.nodup_collect_ids
      (Draft.follows_run stamp requests)
    exact hunits.sublist (List.filter_sublist.map _)
  · intro hempty options
    have hnone : m.analyzed.flatMap Class.codeUnits = [] :=
      List.flatMap_eq_nil_iff.mpr hempty
    apply passes_of_report_eq_nil m options rfl
    rw [hreport, unitsWithGenericThrowables, hnone]
    rfl

/-- A method declares two generic throwables in the other order, and something else.  A
model with a field alone passes. -/
theorem noGenericThrowables_reports_declared :
    let a : Class :=
      { id := ⟨0, 0⟩, name := ⟨"A"⟩, modifiers := .empty, sourceFile := "A.java",
        analyzed := true }
    let run : MethodDecl :=
      { id := ⟨0, 1⟩, modifiers := .empty, name := "f", parameters := [],
        returnType := ⟨"int"⟩ }
    let requests :=
      [.addClass a.name .empty, .addMethod a "f" [] ⟨"int"⟩ .empty,
        .declareThrowable ⟨a, .method run⟩ ⟨"java.lang.Exception"⟩,
        .declareThrowable ⟨a, .method run⟩ ⟨"E"⟩,
        .declareThrowable ⟨a, .method run⟩ ⟨"java.lang.Throwable"⟩]
    let m := ((Draft.start 0).run requests).finish
    let idle := ((Draft.start 0).run
      [.addClass a.name .empty, .addField a "f" ⟨"int"⟩ .empty]).finish
    let line : Text :=
      "Method <A.f()> declares throwable of type java.lang.Throwable in (A.java:0) and "
        ++ "Method <A.f()> declares throwable of type java.lang.Exception in (A.java:0)"
    (noGenericThrowables.evaluate m).value.report = [line] ∧
      (∃ message,
        (noGenericThrowables.check m {}).value = .error { message, report := [line] }) ∧
      (noGenericThrowables.check idle { failOnEmpty := true }).value = .ok () := by
  intro a run requests m idle line
  obtain ⟨_, hreport, hverdict, _⟩ := noGenericThrowables_reports 0 requests
  obtain ⟨_, _, _, hidle⟩ := noGenericThrowables_reports 0
    [.addClass a.name .empty, .addField a "f" ⟨"int"⟩ .empty]
  have hline : (noGenericThrowables.evaluate m).value.report = [line] := by
    rw [hreport]
    decide +kernel
  have hfails : (noGenericThrowables.evaluate m).value.report ≠ [] := by
    rw [hline]
    exact List.cons_ne_nil _ _
  have hcheck := (hverdict {}).1.trans (if_neg hfails)
  rw [hline] at hcheck
  exact ⟨hline, ⟨_, hcheck⟩, (hidle (by decide) _).1⟩

end Rule

end Conformance
