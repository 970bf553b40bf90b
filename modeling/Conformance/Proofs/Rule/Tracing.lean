import Conformance.Proofs.Rule.Verdict
import Mathlib.Logic.Function.Basic

/-!
# Tracing

A traced evaluation writes notes into the journal that it is given, behind everything that
stands there already.  Apart from that it is an evaluation like any other, and checks and
verifications do not write at all.  So a journal can be read back: it holds what was
reported to it and the notes of the traced evaluations, in the order in which all this
happened, and its two counts are right.
-/

namespace Conformance

/-! ## Journals -/

namespace Journal

variable {j : Journal} {d : Diagnostic}

/-- The two running counts are the numbers of errors and of notes among the entries. -/
structure Counted (j : Journal) : Prop where
  errors_eq : j.errors = j.entries.countP (fun d => d.severity = .error)
  notes_eq : j.notes = j.entries.countP (fun d => d.severity = .note)

theorem counted_empty : Counted {} := by
  constructor <;> simp

theorem Counted.report (hj : j.Counted) (d : Diagnostic) : (j.report d).Counted := by
  have hcount : ∀ severity, (j.entries ++ [d]).countP (fun d => d.severity = severity) =
      if d.severity = severity then j.entries.countP (fun d => d.severity = severity) + 1
      else j.entries.countP (fun d => d.severity = severity) := by
    intro severity
    rw [List.countP_append, List.countP_singleton]
    by_cases h : d.severity = severity <;> simp [h]
  constructor
  · rw [Journal.report, hcount, hj.errors_eq]
  · rw [Journal.report, hcount, hj.notes_eq]

theorem Counted.reportAll (hj : j.Counted) (ds : List Diagnostic) :
    (j.reportAll ds).Counted := by
  induction ds generalizing j with
  | nil => exact hj
  | cons d rest ih => exact ih (hj.report d)

@[simp]
theorem reportAll_nil (j : Journal) : j.reportAll [] = j := rfl

@[simp]
theorem reportAll_singleton (j : Journal) (d : Diagnostic) :
    j.reportAll [d] = j.report d := rfl

theorem entries_reportAll (j : Journal) (ds : List Diagnostic) :
    (j.reportAll ds).entries = j.entries ++ ds := by
  induction ds generalizing j with
  | nil => simp
  | cons d rest ih =>
      have hrest := ih (j.report d)
      rw [report, List.append_assoc] at hrest
      exact hrest

theorem reportAll_append (j : Journal) (ds es : List Diagnostic) :
    j.reportAll (ds ++ es) = (j.reportAll ds).reportAll es := by
  simp [reportAll]

end Journal

/-! ## One evaluation -/

namespace Rule

variable (r : Rule) (m : Model) (options : Options)

theorem evaluateWith_value (journal : Option Journal) :
    (r.evaluateWith m options journal).value =
      ((r.evaluate m).value,
        if options.trace then journal.map
          (fun j => j.reportAll (r.notes m (r.evaluate m).value))
        else journal) := rfl

theorem evaluateWith_calls (journal : Option Journal) :
    (r.evaluateWith m options journal).calls = (r.evaluate m).calls := by
  rw [evaluateWith, Consulted.calls_bind, Consulted.calls_pure, List.append_nil]

theorem check_trace (trace : Bool) :
    r.check m { options with trace } = r.check m options := rfl

theorem verify_trace (trace : Bool) :
    r.verify m { options with trace } = r.verify m options := rfl

end Rule

/-! ## Histories -/

/-- What can happen while some journals are kept: a report to one of them, and rules at
work.  Only an evaluation can be given a journal. -/
inductive Occurrence where
  | reported (journal : Text) (d : Diagnostic)
  | evaluated (r : Rule) (m : Model) (options : Options) (journal : Option Text)
  | checked (r : Rule) (m : Model) (options : Options)
  | verified (r : Rule) (m : Model) (options : Options)

namespace Occurrence

/-- The journals afterwards.  What an evaluation hands back takes the place of the journal
that it was given; a check and a verification hand back a verdict and no journal. -/
def apply (js : Text → Journal) : Occurrence → Text → Journal
  | reported journal d => Function.update js journal ((js journal).report d)
  | evaluated r m options journal =>
      match journal, (r.evaluateWith m options (journal.map js)).value.2 with
      | some name, some j => Function.update js name j
      | _, _ => js
  | checked _ _ _ => js
  | verified _ _ _ => js

/-- The journals after several occurrences, the first one first. -/
def run (js : Text → Journal) (history : List Occurrence) : Text → Journal :=
  history.foldl apply js

/-- What an occurrence adds to a journal. -/
def entriesFor (name : Text) : Occurrence → List Diagnostic
  | reported journal d => if journal = name then [d] else []
  | evaluated r m options journal =>
      if options.trace ∧ journal = some name then r.notes m (r.evaluate m).value else []
  | checked _ _ _ => []
  | verified _ _ _ => []

theorem apply_eq (js : Text → Journal) (o : Occurrence) (name : Text) :
    o.apply js name = (js name).reportAll (o.entriesFor name) := by
  cases o with
  | reported journal d =>
      by_cases h : journal = name
      · subst h
        simp [apply, entriesFor]
      · simp [apply, entriesFor, h, Ne.symm h]
  | evaluated r m options journal =>
      cases journal with
      | none => simp [apply, entriesFor]
      | some other =>
          cases htrace : options.trace with
          | false => simp [apply, entriesFor, Rule.evaluateWith_value, htrace]
          | true =>
              by_cases h : other = name
              · subst h
                simp [apply, entriesFor, Rule.evaluateWith_value, htrace]
              · simp [apply, entriesFor, Rule.evaluateWith_value, htrace, h, Ne.symm h]
  | checked r m options => simp [apply, entriesFor]
  | verified r m options => simp [apply, entriesFor]

theorem run_eq (js : Text → Journal) (history : List Occurrence) (name : Text) :
    run js history name = (js name).reportAll (history.flatMap (entriesFor name)) := by
  induction history generalizing js with
  | nil => simp [run]
  | cons o rest ih =>
      have hrest := ih (o.apply js)
      rw [apply_eq, ← Journal.reportAll_append] at hrest
      exact hrest

end Occurrence

/-! ## What tracing changes -/

namespace Rule

/-- An evaluation finds the same whether it is traced or not.  Traced and with a journal,
it adds two notes behind the entries of the journal, with the numbers of checked items and
of violations, and then one for every edge that ends outside the analyzed classes, at the
place of that edge.  Without tracing, or without a journal, it leaves everything as it
was.  Checks and verifications evaluate without a journal, and tracing makes no difference
to them.  Whatever happens, every journal lists what was added to it in the order of
arrival, and its counts are right. -/
theorem evaluateWith_observes (r : Rule) (m : Model) (options : Options) :
    let e := (r.evaluate m).value
    let external := m.edgeList.filter (fun d => !d.target.owner.analyzed)
    let note := fun (location : Location) (text : Text) =>
      ({ severity := .note
         message := "rule " ++ r.description.quoted ++ ": " ++ text
         location } : Diagnostic)
    let added := note { file := [], line := 0 }
        ("checked " ++ Text.decimal e.checked ++ " " ++ r.itemLabel)
      :: note { file := [], line := 0 } (Text.decimal e.report.length ++ " violation(s)")
      :: external.map (fun d =>
        note d.location ("edge into external class: " ++ d.description))
    (∀ journal, (r.evaluateWith m options journal).value.1 = e ∧
      (r.evaluateWith m options journal).calls = (r.evaluate m).calls) ∧
    (r.evaluateWith m options none).value.2 = none ∧
    (∀ j, options.trace = false → (r.evaluateWith m options (some j)).value.2 = some j) ∧
    (∀ j, options.trace = true →
      ∃ j', (r.evaluateWith m options (some j)).value.2 = some j' ∧
      j'.entries = j.entries ++ added ∧ added.length = 2 + external.length) ∧
    (∀ trace, r.check m { options with trace } = r.check m options ∧
      r.verify m { options with trace } = r.verify m options) ∧
    (∀ history name,
      let j := Occurrence.run (fun _ => {}) history name
      j.entries = history.flatMap (Occurrence.entriesFor name) ∧
      j.errors = j.entries.countP (fun d => d.severity = .error) ∧
      j.notes = j.entries.countP (fun d => d.severity = .note)) := by
  intro e external note added
  refine ⟨?_, ?_, ?_, ?_, ?_, ?_⟩
  · intro journal
    exact ⟨by rw [evaluateWith_value], r.evaluateWith_calls m options journal⟩
  · simp [evaluateWith_value]
  · intro j htrace
    simp [evaluateWith_value, htrace]
  · intro j htrace
    have hnotes : r.notes m e = added := rfl
    refine ⟨j.reportAll added, ?_, j.entries_reportAll added, ?_⟩
    · rw [evaluateWith_value, ← hnotes]
      simp [htrace, e]
    · simp only [added, List.length_cons, List.length_map]
      omega
  · intro trace
    exact ⟨r.check_trace m options trace, r.verify_trace m options trace⟩
  · intro history name j
    have hj : j = Journal.reportAll {} (history.flatMap (Occurrence.entriesFor name)) :=
      Occurrence.run_eq _ history name
    have hcounted : j.Counted := by
      rw [hj]
      exact Journal.counted_empty.reportAll _
    refine ⟨?_, hcounted.errors_eq, hcounted.notes_eq⟩
    rw [hj, Journal.entries_reportAll, List.nil_append]

/-- A traced evaluation of a rule that finds no fault still notes the one edge that leaves
the analyzed classes.  A warning had been in the journal before; without tracing, nothing
follows it. -/
theorem evaluateWith_observes_externalCall :
    let call : MethodDecl :=
      { id := ⟨0, 1⟩, modifiers := .empty, name := "f", parameters := [],
        returnType := ⟨"void"⟩ }
    let c : Class :=
      { id := ⟨0, 0⟩, name := ⟨"p.A"⟩, modifiers := .empty, sourceFile := "A.java",
        analyzed := true, declarations := [.unit (.method call)] }
    let k : Class :=
      { id := ⟨0, 2⟩, name := ⟨"q.B"⟩, modifiers := .empty, sourceFile := "B.java",
        analyzed := false, declarations := [.unit (.method { call with id := ⟨0, 3⟩ })] }
    let e : Edge :=
      { origin := ⟨c, .method call⟩,
        target := ⟨k, .unit (.method { call with id := ⟨0, 3⟩ })⟩, access :=
          .call, location := ⟨"A.java", 7⟩ }
    let m : Model := { classes := [c, k], edges := #[e] }
    let r := ((Selection.mk none : Selection .classes).should
      (.fixed "be calm" none [(false, "is calm")])).rule
    let warning : Diagnostic :=
      { severity := .warning, message := "late", location := .unknown }
    let j := ({} : Journal).report warning
    (r.evaluateWith m {} (some j)).value.2 = some j ∧
    ∃ j', (r.evaluateWith m { trace := true } (some j)).value.2 = some j' ∧
      j'.entries.map Diagnostic.message =
        ["late", "rule 'classes should be calm': checked 1 classes",
          "rule 'classes should be calm': 0 violation(s)",
          "rule 'classes should be calm': edge into external class: "
            ++ "Method <p.A.f()> calls method <q.B.f()> in (A.java:7)"] ∧
      j'.entries.map (fun d => d.location.line) = [0, 0, 0, 7] := by
  intro call c k e m r warning j
  obtain ⟨_, _, hsilent, _⟩ := evaluateWith_observes r m {}
  obtain ⟨_, _, _, htraced, _⟩ := evaluateWith_observes r m { trace := true }
  refine ⟨hsilent j rfl, ?_⟩
  obtain ⟨j', hj', hentries, _⟩ := htraced j rfl
  refine ⟨j', hj', ?_, ?_⟩
  · rw [hentries]
    decide
  · rw [hentries]
    decide

end Rule

end Conformance
