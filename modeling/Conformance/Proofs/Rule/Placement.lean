import Conformance.Proofs.Draft.Misuse
import Conformance.Proofs.Rule.Evaluated
import Conformance.Proofs.Rule.Verdict
import Conformance.Rule.CodingRules
import Mathlib.Data.List.Forall2

/-!
# Misplaced tests

A test belongs in the package of what it tests, and it is known by its name: that of the
implementation with a suffix behind it.  The search for an implementation stops at the
first one that has a test beside it.  Whether a test is reported is nevertheless a matter
of names alone: it is not whenever some test of its name stands beside some
implementation.
-/

namespace Conformance

/-! ## Names -/

/-- Among the given names, the one of a test is misplaced when there are implementations
for it and no test of the same simple name is in the package of one of them. -/
def Misplaced (names : List TypeName) (suffix : Text) (t : TypeName) : Prop :=
  ∃ n ∈ names, n.simpleName ≠ [] ∧ t.simpleName = n.simpleName ++ suffix ∧
    ∀ u ∈ names, u.simpleName = t.simpleName →
      ∀ i ∈ names, i.simpleName = n.simpleName → u.packageName ≠ i.packageName

instance (names : List TypeName) (suffix : Text) (t : TypeName) :
    Decidable (Misplaced names suffix t) :=
  inferInstanceAs (Decidable (∃ n ∈ names, n.simpleName ≠ [] ∧
    t.simpleName = n.simpleName ++ suffix ∧
    ∀ u ∈ names, u.simpleName = t.simpleName →
      ∀ i ∈ names, i.simpleName = n.simpleName → u.packageName ≠ i.packageName))

namespace Misplaced

variable {names names' : List TypeName} {suffix : Text} {t u : TypeName}

theorem suffix_isSuffix (h : Misplaced names suffix t) : suffix <:+ t.simpleName := by
  obtain ⟨n, _, _, hname, _⟩ := h
  exact ⟨n.simpleName, hname.symm⟩

theorem congr_simpleName (h : t.simpleName = u.simpleName) :
    Misplaced names suffix t ↔ Misplaced names suffix u := by
  rw [Misplaced, Misplaced, h]

theorem congr_mem (h : ∀ n, n ∈ names ↔ n ∈ names') :
    Misplaced names suffix t ↔ Misplaced names' suffix t := by
  simp only [Misplaced, h]

/-- Without a suffix a class would be its own implementation. -/
theorem not_empty (ht : t ∈ names) : ¬ Misplaced names [] t := by
  rintro ⟨n, _, _, hname, hapart⟩
  rw [List.append_nil] at hname
  exact hapart t ht rfl t ht hname rfl

end Misplaced

/-- A test is misplaced when its name is that of an implementation with the suffix, and no
test of its name, itself included, is in the package of an implementation of that name. -/
theorem misplaced_iff {m : Model} {suffix : Text} {c : Class} :
    Misplaced (m.analyzed.map Class.name) suffix c.name ↔
      ∃ i, i ≠ [] ∧ c.simpleName = i ++ suffix ∧ (∃ d ∈ m.analyzed, d.simpleName = i) ∧
        ∀ u ∈ m.analyzed, u.simpleName = c.simpleName →
          ∀ d ∈ m.analyzed, d.simpleName = i → u.packageName ≠ d.packageName := by
  simp only [Misplaced, List.forall_mem_map]
  constructor
  · rintro ⟨n, hn, hnonempty, hname, hapart⟩
    obtain ⟨d, hd, rfl⟩ := List.mem_map.mp hn
    exact ⟨d.simpleName, hnonempty, hname, ⟨d, hd, rfl⟩, hapart⟩
  · rintro ⟨_, hnonempty, hname, ⟨d, hd, rfl⟩, hapart⟩
    exact ⟨d.name, List.mem_map_of_mem hd, hnonempty, hname, hapart⟩

/-! ## One test -/

namespace Condition

variable {m : Model} {suffix : Text} {test : Class}

theorem mem_classesCalled {name : Text} {c : Class} :
    c ∈ classesCalled name m ↔ c ∈ m.analyzed ∧ c.simpleName = name := by
  rw [classesCalled, List.mem_filter, decide_eq_true_iff]

/-- An analyzed test is one of the tests of its name. -/
theorem hasTestBeside_iff (htest : test ∈ m.analyzed) (i : Class) :
    hasTestBeside test i m = true ↔
      ∃ u ∈ m.analyzed, u.simpleName = test.simpleName ∧
        u.packageName = i.packageName := by
  rw [hasTestBeside, Bool.or_eq_true, decide_eq_true_iff, List.any_eq_true]
  constructor
  · rintro (hhere | ⟨u, hu, hpackage⟩)
    · exact ⟨test, htest, rfl, hhere.symm⟩
    · obtain ⟨hanalyzed, hname⟩ := mem_classesCalled.mp hu
      exact ⟨u, hanalyzed, hname, of_decide_eq_true hpackage⟩
  · rintro ⟨u, hu, hname, hpackage⟩
    exact Or.inr ⟨u, mem_classesCalled.mpr ⟨hu, hname⟩, decide_eq_true hpackage⟩

/-- A test whose name is that of an implementation with the suffix is misplaced when there
is an implementation and none has a test beside it. -/
theorem misplaced_iff_of_name (htest : test ∈ m.analyzed) {i : Text}
    (hname : test.simpleName = i ++ suffix) :
    Misplaced (m.analyzed.map Class.name) suffix test.name ↔
      i ≠ [] ∧ classesCalled i m ≠ [] ∧
        ∀ d ∈ classesCalled i m, ¬ hasTestBeside test d m = true := by
  rw [misplaced_iff]
  constructor
  · rintro ⟨text, hnonempty, htext, ⟨d, hd, hdname⟩, hapart⟩
    obtain rfl : text = i := List.append_cancel_right (htext.symm.trans hname)
    refine ⟨hnonempty, List.ne_nil_of_mem (mem_classesCalled.mpr ⟨hd, hdname⟩), ?_⟩
    intro c hc hbeside
    obtain ⟨hanalyzed, hcname⟩ := mem_classesCalled.mp hc
    obtain ⟨u, hu, huname, hpackage⟩ := (hasTestBeside_iff htest c).mp hbeside
    exact hapart u hu huname c hanalyzed hcname hpackage
  · rintro ⟨hnonempty, hsome, hapart⟩
    obtain ⟨d, hd⟩ := List.exists_mem_of_ne_nil _ hsome
    refine ⟨i, hnonempty, hname, ⟨d, mem_classesCalled.mp hd⟩, ?_⟩
    intro u hu huname c hc hcname hpackage
    exact hapart c (mem_classesCalled.mpr ⟨hc, hcname⟩)
      ((hasTestBeside_iff htest c).mpr ⟨u, hu, huname, hpackage⟩)

/-- The line about a misplaced test. -/
def misplacedLine (test first : Class) : Text :=
  "Class <" ++ test.name.text
    ++ "> does not reside in same package as implementation class <"
    ++ first.name.text ++ "> in (" ++ test.sourceFile ++ ":0)"

theorem message_about_misplaced (test first : Class) :
    (Event.about test true
      ("does not reside in same package as implementation class <" ++ first.name.text
        ++ ">")).message = misplacedLine test first := by
  have hbefore : ("> does not reside in same package as implementation class <" : Text) =
      ">" ++ (" " ++ "does not reside in same package as implementation class <") := by
    decide
  have hbetween : ("> in (" : Text) = ">" ++ (" in " ++ "(") := by decide
  have hafter : (":0)" : Text) = ":" ++ (Text.decimal 0 ++ ")") := by decide
  rw [misplacedLine, hbefore, hbetween, hafter]
  simp only [Event.about, toElement, Element.description, Class.description,
    Element.location, Class.location, Location.render, List.append_assoc]
  rfl

/-- What is violated, once the name of the implementation is known.  The line names the
first implementation, although the search went on to the last one. -/
theorem violations_of_name {i : Text} (hi : i ≠ [])
    (hname : test.simpleName = i ++ suffix) :
    Event.violations (besideImplementationEvents suffix test m) =
      if ∀ d ∈ classesCalled i m, ¬ hasTestBeside test d m = true then
        (classesCalled i m).head?.toList.map (misplacedLine test)
      else
        [] := by
  have hlonger : ¬ (i ++ suffix).length ≤ suffix.length := by
    have hpositive : 0 < i.length := List.length_pos_iff.mpr hi
    rw [List.length_append]
    omega
  have hcut : (i ++ suffix).take ((i ++ suffix).length - suffix.length) = i := by
    rw [List.length_append, Nat.add_sub_cancel, List.take_left]
  simp only [besideImplementationEvents, hname, if_neg hlonger, hcut]
  cases classesCalled i m with
  | nil => rfl
  | cons first rest =>
      cases hbeside : (first :: rest).find? (fun d => hasTestBeside test d m) with
      | none =>
          rw [if_pos (List.find?_eq_none.mp hbeside)]
          exact congrArg (fun line => [line]) (message_about_misplaced test first)
      | some d =>
          have hfound : hasTestBeside test d m = true :=
            List.find?_some (p := fun d => hasTestBeside test d m) hbeside
          rw [if_neg fun hnone => hnone d (List.mem_of_find?_eq_some hbeside) hfound]
          rfl

/-- A selected test is reported by one line if it is misplaced, and not at all
otherwise. -/
theorem violations_besideImplementationEvents (htest : test ∈ m.analyzed)
    (hsuffix : suffix <:+ test.simpleName) :
    (Misplaced (m.analyzed.map Class.name) suffix test.name →
      ∃ first, m.analyzed.find? (fun d => d.simpleName ++ suffix = test.simpleName) =
        some first ∧
        Event.violations (besideImplementationEvents suffix test m) =
          [misplacedLine test first]) ∧
    (¬ Misplaced (m.analyzed.map Class.name) suffix test.name →
      Event.violations (besideImplementationEvents suffix test m) = []) := by
  obtain ⟨i, hname⟩ := hsuffix
  rw [misplaced_iff_of_name htest hname.symm]
  constructor
  · rintro ⟨hi, hsome, hnone⟩
    obtain ⟨first, hfirst⟩ := Option.isSome_iff_exists.mp (List.isSome_head?.mpr hsome)
    refine ⟨first, ?_, ?_⟩
    · rw [classesCalled, List.head?_filter] at hfirst
      rw [← hfirst, ← hname]
      simp only [List.append_cancel_right_eq]
    · rw [violations_of_name hi hname.symm, if_pos hnone, hfirst]
      rfl
  · intro hplaced
    by_cases hi : i = []
    · have hshort : test.simpleName.length ≤ suffix.length := by
        rw [← hname, hi, List.nil_append]
      rw [besideImplementationEvents, if_pos hshort]
      rfl
    · rw [violations_of_name hi hname.symm]
      split
      · rename_i hnone
        have hnobody : classesCalled i m = [] := by
          by_contra hsome
          exact hplaced ⟨hi, hsome, hnone⟩
        rw [hnobody]
        rfl
      · rfl

end Condition

/-! ## The report -/

theorem forall₂_filter_flatMap {α β : Type} {R : α → β → Prop} {keep : α → Bool}
    {f : α → List β} {l : List α}
    (hkept : ∀ a ∈ l, keep a = true → ∃ b, f a = [b] ∧ R a b)
    (hleft : ∀ a ∈ l, ¬ keep a = true → f a = []) :
    List.Forall₂ R (l.filter keep) (l.flatMap f) := by
  induction l with
  | nil => exact .nil
  | cons a rest ih =>
      have hrest := ih (fun b hb => hkept b (List.mem_cons_of_mem _ hb))
        (fun b hb => hleft b (List.mem_cons_of_mem _ hb))
      by_cases h : keep a = true
      · obtain ⟨b, hb, hR⟩ := hkept a List.mem_cons_self h
        rw [List.filter_cons_of_pos h, List.flatMap_cons, hb]
        exact .cons hR hrest
      · rw [List.filter_cons_of_neg h, List.flatMap_cons, hleft a List.mem_cons_self h]
        exact hrest

/-! ## Classes added in another order -/

/-- The name of the analyzed class that a request is for. -/
def Request.addedName? : Request → Option TypeName
  | .addClass name _ => some name
  | _ => none

/-- A class that was noted was asked for. -/
theorem Request.eq_of_note?_head? {r : Request} {answer : Option Element} {n : Note}
    {h : ClassHead} (hn : r.note? answer = some n) (hh : n.head? = some h) :
    (h.analyzed = true ∧ r.addedName? = some h.name) ∨
      (h.analyzed = false ∧ r = .addExternalClass h.name) := by
  cases r with
  | addClass name modifiers =>
      obtain ⟨e, _, rfl⟩ := Option.map_eq_some_iff.mp hn
      cases hh
      exact Or.inl ⟨rfl, rfl⟩
  | addExternalClass name =>
      obtain ⟨e, _, rfl⟩ := Option.map_eq_some_iff.mp hn
      cases hh
      exact Or.inr ⟨rfl, rfl⟩
  | annotate element type => cases element <;> cases hn <;> cases hh
  | _ => cases answer <;> cases hn <;> cases hh

namespace Draft

open Ledger

variable {d : Draft} {log : List Note} {requests : List Request}

theorem mem_requests_of_mem_heads {h : ClassHead} (hh : h ∈ heads (d.ledger requests)) :
    (h.analyzed = true ∧ h.name ∈ requests.filterMap Request.addedName?) ∨
      (h.analyzed = false ∧ .addExternalClass h.name ∈ requests) := by
  induction requests generalizing d with
  | nil => cases hh
  | cons r rest ih =>
      rw [ledger, heads, List.filterMap_append, List.mem_append] at hh
      rcases hh with hfirst | hlater
      · obtain ⟨n, hn, hhead⟩ := List.mem_filterMap.mp hfirst
        obtain ⟨answer, hanswer⟩ : ∃ answer, r.note? answer = some n := by
          rw [Option.mem_toList, note?] at hn
          split at hn
          · exact ⟨_, hn⟩
          · cases hn
        rcases Request.eq_of_note?_head? hanswer hhead with
          ⟨hanalyzed, hname⟩ | ⟨hanalyzed, rfl⟩
        · exact Or.inl ⟨hanalyzed, List.mem_filterMap.mpr ⟨r, List.mem_cons_self, hname⟩⟩
        · exact Or.inr ⟨hanalyzed, List.mem_cons_self⟩
      · rcases ih hlater with ⟨hanalyzed, hname⟩ | ⟨hanalyzed, hmem⟩
        · obtain ⟨r', hr', hname'⟩ := List.mem_filterMap.mp hname
          exact Or.inl ⟨hanalyzed,
            List.mem_filterMap.mpr ⟨r', List.mem_cons_of_mem _ hr', hname'⟩⟩
        · exact Or.inr ⟨hanalyzed, List.mem_cons_of_mem _ hmem⟩

/-- After a request for a class, there is a class of that name, from now on or from
before. -/
theorem Follows.mem_names_of_mem_requests (hf : d.Follows log) {t : TypeName}
    (ht : t ∈ requests.filterMap Request.addedName?) :
    t ∈ names (log ++ d.ledger requests) := by
  induction requests generalizing d log with
  | nil => cases ht
  | cons r rest ih =>
      rw [ledger, ← List.append_assoc]
      obtain ⟨r', hr', hname⟩ := List.mem_filterMap.mp ht
      rcases List.mem_cons.mp hr' with rfl | hrest
      · have hstep : t ∈ names (log ++ (d.note? r').toList) := by
          cases r' with
          | addClass name modifiers =>
              cases hname
              rw [note?, perform_addClass]
              cases hnamed : d.classNamed? t with
              | none => simp [names, heads, Note.head?, Request.note?]
              | some c =>
                  have hknown := hf.mem_names_of_classNamed? hnamed
                  simpa [names, heads] using hknown
          | _ => cases hname
        rw [names, heads, List.filterMap_append, List.map_append]
        exact List.mem_append_left _ hstep
      · exact ih (hf.step r) (List.mem_filterMap.mpr ⟨r', hrest, hname⟩)

theorem map_name_analyzed (stamp : Nat) (requests : List Request) :
    ((Draft.start stamp).run requests).finish.analyzed.map Class.name =
      analyzedNames ((Draft.start stamp).ledger requests) := by
  rw [analyzedNames, ← (follows_run stamp requests).classesFrom.analyzed_eq, List.map_map]
  rfl

/-- When no name is also asked for as that of an external class, the analyzed classes are
those that were asked for. -/
theorem mem_analyzedNames_iff (stamp : Nat) {t : TypeName}
    (hplain : t ∈ requests.filterMap Request.addedName? →
      .addExternalClass t ∉ requests) :
    t ∈ analyzedNames ((Draft.start stamp).ledger requests) ↔
      t ∈ requests.filterMap Request.addedName? := by
  constructor
  · intro ht
    obtain ⟨h, hh, rfl⟩ := List.mem_map.mp ht
    obtain ⟨hmem, hanalyzed⟩ := List.mem_filter.mp hh
    rcases mem_requests_of_mem_heads hmem with ⟨_, hname⟩ | ⟨hexternal, _⟩
    · exact hname
    · rw [hexternal] at hanalyzed
      cases hanalyzed
  · intro ht
    have hnames := (Follows.start stamp).mem_names_of_mem_requests ht
    rw [List.nil_append] at hnames
    obtain ⟨h, hh, rfl⟩ := List.mem_map.mp hnames
    rcases mem_requests_of_mem_heads hh with ⟨hanalyzed, _⟩ | ⟨_, hexternal⟩
    · exact List.mem_map_of_mem (List.mem_filter.mpr ⟨hh, hanalyzed⟩)
    · exact absurd hexternal (hplain ht)

theorem nodup_map_name_analyzed (stamp : Nat) (requests : List Request) :
    (((Draft.start stamp).run requests).finish.analyzed.map Class.name).Nodup :=
  (follows_run stamp requests).classesFrom.names_nodup.sublist (List.filter_sublist.map _)

/-- Two runs that ask for the same analyzed classes, in whatever order, end with these. -/
theorem perm_map_name_analyzed (stamp stamp' : Nat) {requests others : List Request}
    (hadded : (requests.filterMap Request.addedName?).Perm
      (others.filterMap Request.addedName?))
    (hplain : ∀ t ∈ requests.filterMap Request.addedName?,
      .addExternalClass t ∉ requests ∧ .addExternalClass t ∉ others) :
    (((Draft.start stamp).run requests).finish.analyzed.map Class.name).Perm
      (((Draft.start stamp').run others).finish.analyzed.map Class.name) := by
  rw [List.perm_ext_iff_of_nodup (nodup_map_name_analyzed stamp requests)
    (nodup_map_name_analyzed stamp' others)]
  intro t
  rw [map_name_analyzed, map_name_analyzed, mem_analyzedNames_iff, mem_analyzedNames_iff]
  · exact hadded.mem_iff
  · intro ht
    exact (hplain t (hadded.mem_iff.mpr ht)).2
  · intro ht
    exact (hplain t ht).1

end Draft

namespace Rule

variable (m : Model) (suffix : Text)

/-- The classes that the rule about test classes should report. -/
def misplacedTests : List Class :=
  m.analyzed.filter (fun c => Misplaced (m.analyzed.map Class.name) suffix c.name)

theorem report_testsBesideImplementations :
    ((testsBesideImplementations suffix).evaluate m).value.report =
      m.analyzed.flatMap (fun c =>
        if suffix.isSuffixOf c.simpleName then
          Event.violations (Condition.besideImplementationEvents suffix c m)
        else []) := by
  have hevents : ((testsBesideImplementations suffix).evaluate m).value.events =
      (m.analyzed.filter (fun c => suffix.isSuffixOf c.simpleName)).flatMap
        (fun c => Condition.besideImplementationEvents suffix c m) :=
    evaluate_events (testsBesideImplementations suffix) m
  rw [Evaluation.report, hevents, Event.violations_flatMap, flatMap_filter]

/-- The lines of the report are about the misplaced tests, one after the other. -/
theorem forall₂_misplacedTests_report :
    List.Forall₂ (fun c line => ∃ first,
        m.analyzed.find? (fun d => d.simpleName ++ suffix = c.simpleName) = some first ∧
        line = Condition.misplacedLine c first)
      (misplacedTests m suffix)
      ((testsBesideImplementations suffix).evaluate m).value.report := by
  rw [report_testsBesideImplementations, misplacedTests]
  apply forall₂_filter_flatMap
  · intro c hc hkept
    have hmisplaced := of_decide_eq_true hkept
    have hsuffix : suffix <:+ c.simpleName := hmisplaced.suffix_isSuffix
    obtain ⟨first, hfirst, hline⟩ :=
      (Condition.violations_besideImplementationEvents hc hsuffix).1 hmisplaced
    refine ⟨Condition.misplacedLine c first, ?_, first, hfirst, rfl⟩
    rw [if_pos (List.isSuffixOf_iff_suffix.mpr hsuffix), hline]
  · intro c hc hkept
    have hplaced := fun hmisplaced => hkept (decide_eq_true hmisplaced)
    split
    · rename_i hsuffix
      exact (Condition.violations_besideImplementationEvents hc
        (List.isSuffixOf_iff_suffix.mp hsuffix)).2 hplaced
    · rfl

theorem names_misplacedTests :
    (misplacedTests m suffix).map Class.name =
      (m.analyzed.map Class.name).filter
        (Misplaced (m.analyzed.map Class.name) suffix) := by
  rw [misplacedTests, List.filter_map]
  rfl

theorem perm_names_misplacedTests {m m' : Model} {suffix : Text}
    (hperm : (m.analyzed.map Class.name).Perm (m'.analyzed.map Class.name)) :
    ((misplacedTests m suffix).map Class.name).Perm
      ((misplacedTests m' suffix).map Class.name) := by
  have hsame : ∀ t, Misplaced (m.analyzed.map Class.name) suffix t ↔
      Misplaced (m'.analyzed.map Class.name) suffix t :=
    fun t => Misplaced.congr_mem fun n => hperm.mem_iff
  rw [names_misplacedTests, names_misplacedTests]
  simp only [hsame]
  exact hperm.filter _

/-- The rule about test classes reports the misplaced ones, one line each, in the order in
which they were added.  A class is misplaced when its name is that of an implementation
with the suffix, and no class of its name, itself included, is in the package of an
implementation of that name.  The line names the first implementation.  So classes of one
simple name are reported together, and which names are reported does not depend on the
order of the classes, nor on anything else that was asked for.  Without a suffix nothing
is reported.  When nothing is reported, and so also when nothing is selected, the rule
passes. -/
theorem testsBesideImplementations_report (m : Model) (suffix : Text) :
    let e := ((testsBesideImplementations suffix).evaluate m).value
    let reported := misplacedTests m suffix
    reported = m.analyzed.filter (fun c => c ∈ reported) ∧
    (∀ c ∈ m.analyzed, c ∈ reported ↔
      ∃ i, i ≠ [] ∧ c.simpleName = i ++ suffix ∧ (∃ d ∈ m.analyzed, d.simpleName = i) ∧
        ∀ u ∈ m.analyzed, u.simpleName = c.simpleName →
          ∀ d ∈ m.analyzed, d.simpleName = i → u.packageName ≠ d.packageName) ∧
    List.Forall₂ (fun c line => ∃ first,
        m.analyzed.find? (fun d => d.simpleName ++ suffix = c.simpleName) = some first ∧
        line = "Class <" ++ c.name.text
          ++ "> does not reside in same package as implementation class <"
            ++ first.name.text
          ++ "> in (" ++ c.sourceFile ++ ":0)")
      reported e.report ∧
    (∀ c ∈ m.analyzed, ∀ d ∈ m.analyzed, c.simpleName = d.simpleName →
      (c ∈ reported ↔ d ∈ reported)) ∧
    (∀ m' : Model, (m.analyzed.map Class.name).Perm (m'.analyzed.map Class.name) →
      (reported.map Class.name).Perm ((misplacedTests m' suffix).map Class.name)) ∧
    (∀ stamp stamp' requests others,
      (requests.filterMap Request.addedName?).Perm (others.filterMap Request.addedName?) →
      (∀ t ∈ requests.filterMap Request.addedName?,
        .addExternalClass t ∉ requests ∧ .addExternalClass t ∉ others) →
      ((misplacedTests ((Draft.start stamp).run requests).finish suffix).map
        Class.name).Perm
        ((misplacedTests ((Draft.start stamp').run others).finish suffix).map
          Class.name)) ∧
    (suffix = [] → e.report = []) ∧
    (∀ options, e.report = [] ∨ e.checked = 0 →
      ((testsBesideImplementations suffix).check m options).value = .ok () ∧
      ((testsBesideImplementations suffix).verify m options).value = .ok ()) := by
  intro e reported
  have hreport := forall₂_misplacedTests_report m suffix
  have hmem : ∀ c ∈ m.analyzed, c ∈ reported ↔
      Misplaced (m.analyzed.map Class.name) suffix c.name := by
    intro c hc
    change c ∈ misplacedTests m suffix ↔ _
    rw [misplacedTests, List.mem_filter, decide_eq_true_iff, and_iff_right hc]
  refine ⟨?_, ?_, hreport, ?_, ?_, ?_, ?_, ?_⟩
  · apply List.filter_congr
    intro c hc
    rw [decide_eq_decide, hmem c hc]
  · intro c hc
    rw [hmem c hc, misplaced_iff]
  · intro c hc d hd hname
    rw [hmem c hc, hmem d hd]
    exact Misplaced.congr_simpleName hname
  · intro m' hperm
    exact perm_names_misplacedTests hperm
  · intro stamp stamp' requests others hadded hplain
    exact perm_names_misplacedTests
      (Draft.perm_map_name_analyzed stamp stamp' hadded hplain)
  · rintro rfl
    have hnone : reported = [] := by
      rw [List.eq_nil_iff_forall_not_mem]
      intro c hc
      have hanalyzed := List.mem_of_mem_filter hc
      exact Misplaced.not_empty (List.mem_map_of_mem hanalyzed) ((hmem c hanalyzed).mp hc)
    rw [show misplacedTests m [] = [] from hnone] at hreport
    exact List.forall₂_nil_left_iff.mp hreport
  · intro options hidle
    have hnothing : e.report = [] := by
      rcases hidle with hnothing | hchecked
      · exact hnothing
      · have hevents := evaluate_events_eq_nil
          (testsBesideImplementations suffix) m hchecked
        rw [Evaluation.report, hevents]
        rfl
    exact passes_of_report_eq_nil m options rfl hnothing

/-- Two tests of one name, neither beside the only implementation, are both reported, in
whatever order the classes are asked for.  With the name of the implementation for a
suffix, nothing is selected that has anything before it, and the rule passes. -/
theorem testsBesideImplementations_report_twoTests :
    let add := fun (name : Text) => Request.addClass ⟨name⟩ .empty
    let requests := [add "q.ATest", add "p.A", add "r.BTest", add "r.ATest"]
    let others := [add "r.ATest", add "p.A", add "q.ATest", add "r.BTest"]
    let model := fun (requests : List Request) => ((Draft.start 0).run requests).finish
    let m := model requests
    ((misplacedTests m "Test").map Class.name).Perm
      ((misplacedTests (model others) "Test").map Class.name) ∧
    ((testsBesideImplementations "Test").evaluate m).value.report =
      ["Class <q.ATest> does not reside in same package as implementation class <p.A> "
          ++ "in (ATest.java:0)",
        "Class <r.ATest> does not reside in same package as implementation class <p.A> "
          ++ "in (ATest.java:0)"] ∧
    ((testsBesideImplementations "A").evaluate m).value.report = [] ∧
    ((testsBesideImplementations "A").check m { failOnEmpty := true }).value =
      .ok () := by
  intro add requests others model m
  obtain ⟨_, _, _, _, _, hruns, _⟩ := testsBesideImplementations_report m "Test"
  obtain ⟨_, _, _, _, _, _, _, hpasses⟩ := testsBesideImplementations_report m "A"
  have hnothing : ((testsBesideImplementations "A").evaluate m).value.report =
      [] := by decide
  refine ⟨hruns 0 0 requests others ?_ ?_, ?_, hnothing, (hpasses _ (Or.inl hnothing)).1⟩
  · decide
  · decide
  · decide

end Rule

end Conformance
