import Conformance.Proofs.Condition.Restricted
import Conformance.Proofs.Draft.Extended
import Conformance.Proofs.Rule.Verdict

/-!
# Looser restrictions and more edges

A rule made of restrictions can be compared with two others: with the rule whose
restrictions accept more, and with itself on a model that has more edges.  The first one
is never violated where the rule itself is not.  On the second model the rule is violated
wherever it was, although every edge may have moved to another position and the elements
are those of another run.
-/

namespace Conformance

/-! ## Corresponding items -/

def Method.restamp (stamp : Nat) (f : Method) : Method :=
  ⟨f.owner.restamp stamp, { f.decl with id := f.decl.id.restamp stamp }⟩

def Constructor.restamp (stamp : Nat) (f : Constructor) : Constructor :=
  ⟨f.owner.restamp stamp, { f.decl with id := f.decl.id.restamp stamp }⟩

/-- The item with the same number in the draft of another stamp. -/
def Kind.restamp (stamp : Nat) : (k : Kind) → k.Item → k.Item
  | elements => Element.restamp stamp
  | classes => Class.restamp stamp
  | members => Member.restamp stamp
  | fields => Field.restamp stamp
  | codeUnits => CodeUnit.restamp stamp
  | methods => Method.restamp stamp
  | constructors => Constructor.restamp stamp

variable {stamp : Nat}

theorem Widening.apply_restamp {j k : Kind} (w : Widening j k) (a : j.Item) :
    w.apply (j.restamp stamp a) = k.restamp stamp (w.apply a) := by
  induction w with
  | refl k => rfl
  | step s w ih =>
      have hstep : s.apply (Kind.restamp stamp _ a) =
          Kind.restamp stamp _ (s.apply a) := by
        cases s <;> rfl
      exact (congrArg w.apply hstep).trans (ih _)

theorem CodeUnit.restamp_asMethod? (u : CodeUnit) :
    (u.restamp stamp).asMethod? = u.asMethod?.map (Method.restamp stamp) := by
  rcases u with ⟨owner, f | f⟩ <;> rfl

theorem CodeUnit.restamp_asConstructor? (u : CodeUnit) :
    (u.restamp stamp).asConstructor? =
      u.asConstructor?.map (Constructor.restamp stamp) := by
  rcases u with ⟨owner, f | f⟩ <;> rfl

theorem Member.restamp_asField? (x : Member) :
    (x.restamp stamp).asField? = x.asField?.map (Field.restamp stamp) := by
  rcases x with ⟨owner, f | f⟩ <;> rfl

theorem Member.restamp_fullName (x : Member) :
    (x.restamp stamp).fullName = x.fullName := by
  rcases x with ⟨owner, f | (f | f)⟩ <;> rfl

theorem Member.restamp_kind (x : Member) : (x.restamp stamp).kind = x.kind := by
  rcases x with ⟨owner, f | (f | f)⟩ <;> rfl

/-- An edge is described by names alone. -/
theorem Edge.restamp_description (e : Edge) :
    (e.restamp stamp).description = e.description := by
  have horigin : (e.origin.restamp stamp).fullName = e.origin.fullName :=
    e.origin.toMember.restamp_fullName
  have hkind : (e.origin.restamp stamp).toMember.kind = e.origin.toMember.kind :=
    e.origin.toMember.restamp_kind
  simp only [Edge.description, Edge.restamp, horigin, hkind, Member.restamp_fullName,
    Member.restamp_kind]

theorem Class.restamp_codeUnits (c : Class) :
    (c.restamp stamp).codeUnits = c.codeUnits.map (CodeUnit.restamp stamp) := by
  rw [codeUnits, codeUnits, restamp_members, List.filterMap_map, List.map_filterMap]
  exact List.filterMap_congr fun x _ => x.restamp_asUnit?

theorem Class.restamp_fields (c : Class) :
    (c.restamp stamp).fields = c.fields.map (Field.restamp stamp) := by
  rw [fields, fields, restamp_members, List.filterMap_map, List.map_filterMap]
  exact List.filterMap_congr fun x _ => x.restamp_asField?

theorem Class.restamp_methods (c : Class) :
    (c.restamp stamp).methods = c.methods.map (Method.restamp stamp) := by
  rw [methods, methods, restamp_codeUnits, List.filterMap_map, List.map_filterMap]
  exact List.filterMap_congr fun u _ => u.restamp_asMethod?

theorem Class.restamp_constructors (c : Class) :
    (c.restamp stamp).constructors = c.constructors.map (Constructor.restamp stamp) := by
  rw [constructors, constructors, restamp_codeUnits, List.filterMap_map,
    List.map_filterMap]
  exact List.filterMap_congr fun u _ => u.restamp_asConstructor?

/-! ## Corresponding models -/

theorem filter_map_sublist {α β : Type} {f : α → β} {l : List α} {l' : List β}
    {p : α → Bool} {q : β → Bool} (h : (l.map f).Sublist l')
    (hpq : ∀ a ∈ l, p a = true → q (f a) = true) :
    ((l.filter p).map f).Sublist (l'.filter q) := by
  have hkept : ((l.filter p).map f).filter q = (l.filter p).map f := by
    rw [List.filter_eq_self, List.forall_mem_map]
    intro a ha
    obtain ⟨hmem, hp⟩ := List.mem_filter.mp ha
    exact hpq a hmem hp
  rw [← hkept]
  exact ((List.filter_sublist.map f).trans h).filter q

namespace Model.ExtendedBy

variable {m m' : Model}

theorem analyzed_eq (h : m.ExtendedBy stamp m') :
    m'.analyzed = m.analyzed.map (Class.restamp stamp) := by
  rw [Model.analyzed, Model.analyzed, h.classes_eq, List.filter_map]
  rfl

/-- The items of the extended model are those of the model. -/
theorem collect_eq (h : m.ExtendedBy stamp m') (c : Collection) :
    c.collect m' = (c.collect m).map (c.kind.restamp stamp) := by
  cases c with
  | classes => exact h.analyzed_eq
  | fields =>
      simp only [Collection.collect, h.analyzed_eq, List.flatMap_map, List.map_flatMap,
        Class.restamp_fields]
      rfl
  | methods =>
      simp only [Collection.collect, h.analyzed_eq, List.flatMap_map, List.map_flatMap,
        Class.restamp_methods]
      rfl
  | constructors =>
      simp only [Collection.collect, h.analyzed_eq, List.flatMap_map, List.map_flatMap,
        Class.restamp_constructors]
      rfl
  | codeUnits =>
      simp only [Collection.collect, h.analyzed_eq, List.flatMap_map, List.map_flatMap,
        Class.restamp_codeUnits]
      rfl
  | members =>
      simp only [Collection.collect, h.analyzed_eq, List.flatMap_map, List.map_flatMap,
        Class.restamp_members]
      rfl

theorem callsTo_sublist (h : m.ExtendedBy stamp m') (u : CodeUnit) :
    ((m.callsTo u).map (Edge.restamp stamp)).Sublist (m'.callsTo (u.restamp stamp)) := by
  rw [callsTo_eq_filter, callsTo_eq_filter]
  apply filter_map_sublist h.edges_sublist
  intro e _ he
  rw [Bool.and_eq_true, decide_eq_true_iff, decide_eq_true_iff] at he ⊢
  refine ⟨he.1, ?_⟩
  change (e.target.restamp stamp).id = (u.toMember.restamp stamp).id
  rw [Member.restamp_id, Member.restamp_id, he.2]

theorem edgesFrom_sublist (h : m.ExtendedBy stamp m') (u : CodeUnit) :
    ((m.edgesFrom u).map (Edge.restamp stamp)).Sublist
      (m'.edgesFrom (u.restamp stamp)) := by
  rw [edgesFrom_eq_filter, edgesFrom_eq_filter]
  apply filter_map_sublist h.edges_sublist
  intro e _ he
  rw [decide_eq_true_iff] at he ⊢
  change (e.origin.restamp stamp).id = (u.restamp stamp).id
  rw [CodeUnit.restamp_id, CodeUnit.restamp_id, he]

theorem edgesOf_sublist (h : m.ExtendedBy stamp m') (c : Class) :
    ((Condition.edgesOf c m).map (Edge.restamp stamp)).Sublist
      (Condition.edgesOf (c.restamp stamp) m') := by
  rw [Condition.edgesOf, Condition.edgesOf, Class.restamp_codeUnits, List.flatMap_map,
    List.map_flatMap]
  exact List.Sublist.flatMap_right _ fun u _ => h.edgesFrom_sublist u

end Model.ExtendedBy

/-! ## Restrictions on corresponding models -/

/-- Two predicates answer alike about the elements of a model and about those that
correspond to them. -/
def Predicate.AlikeOn (m : Model) (stamp : Nat) (k : Kind)
    (p q : Predicate k.Item) : Prop :=
  ∀ a, k.itemElement a ∈ m.elements → q.accepts (k.restamp stamp a) = p.accepts a

theorem CodeUnit.toCodeUnit_of_asMethod? {u : CodeUnit} {f : Method}
    (h : u.asMethod? = some f) :
    f.toCodeUnit = u := by
  rcases u with ⟨owner, g | g⟩ <;> cases h
  rfl

theorem CodeUnit.toCodeUnit_of_asConstructor? {u : CodeUnit} {f : Constructor}
    (h : u.asConstructor? = some f) : f.toCodeUnit = u := by
  rcases u with ⟨owner, g | g⟩ <;> cases h
  rfl

theorem CallerKind.value_test_restamp {m : Model} (caller : CallerKind)
    {p q : Predicate caller.kind.Item} (h : Predicate.AlikeOn m stamp caller.kind p q)
    {u : CodeUnit} (howner : u.owner ∈ m.classes) (hmember : u.toMember ∈ m.members) :
    ((caller.test q).test (u.restamp stamp)).value = ((caller.test p).test u).value := by
  have helement : Element.ofMember u.toMember ∈ m.elements :=
    List.mem_append_right _ (List.mem_map_of_mem hmember)
  cases caller with
  | classes => exact h u.owner (List.mem_append_left _ (List.mem_map_of_mem howner))
  | methods =>
      simp only [CallerKind.test, CallerTest.test, CodeUnit.restamp_asMethod?]
      cases hmethod : u.asMethod? with
      | none => rfl
      | some f =>
          apply h f
          rwa [← CodeUnit.toCodeUnit_of_asMethod? hmethod] at helement
  | constructors =>
      simp only [CallerKind.test, CallerTest.test, CodeUnit.restamp_asConstructor?]
      cases hconstructor : u.asConstructor? with
      | none => rfl
      | some f =>
          apply h f
          rwa [← CodeUnit.toCodeUnit_of_asConstructor? hconstructor] at helement
  | codeUnits => exact h u helement

theorem Event.map_message_violations (edges : List Edge) (subject : Edge → Element) :
    (edges.map (fun e => e.violation (subject e))).map Event.message =
      edges.map Edge.description := by
  rw [List.map_map]
  rfl

/-- What is reported of some edges is also reported of an extension of them. -/
theorem Event.within_violations {edges edges' : List Edge}
    {subject subject' : Edge → Element} {p q : Edge → Bool}
    (h : (edges.map (Edge.restamp stamp)).Sublist edges')
    (hpq : ∀ e ∈ edges, p e = true → q (e.restamp stamp) = true) :
    Event.Within Event.message ((edges.filter p).map (fun e => e.violation (subject e)))
      ((edges'.filter q).map (fun e => e.violation (subject' e))) := by
  refine ⟨?_, Event.violated_of_mem_violations⟩
  have hdescription : Edge.description ∘ Edge.restamp stamp = Edge.description :=
    funext Edge.restamp_description
  have hedges := (filter_map_sublist h hpq).map Edge.description
  rw [List.map_map, hdescription] at hedges
  rw [Event.map_message_violations, Event.map_message_violations]
  exact hedges

/-- A restriction reports on the extended model what it reports on the model, and more. -/
theorem Model.ExtendedBy.leavesWithin {m m' : Model} (h : m.ExtendedBy stamp m')
    (hholds : ∀ e ∈ m.edgeList, m.Holds e) :
    ConditionTree.LeavesWithin Event.message (Predicate.AlikeOn m stamp)
      (Kind.restamp stamp)
      m m' where
  apply_image := Widening.apply_restamp
  callers := by
    intro caller p q hpq u
    rw [caller.restriction_eq, caller.restriction_eq, Condition.value_calledOnlyBy,
      Condition.value_calledOnlyBy]
    apply Event.within_violations (h.callsTo_sublist u)
    intro e he hrejects
    rw [callsTo_eq_filter] at he
    have hedge := hholds e (List.mem_of_mem_filter he)
    have hsame := caller.value_test_restamp hpq
        (List.mem_of_mem_filter hedge.origin_owner)
      hedge.origin_mem_members
    rw [CallerTest.value_test, CallerTest.value_test, hrejects] at hsame
    exact Bool.not_inj hsame
  dependencies := by
    intro p q hpq c
    rw [Condition.value_dependsOnlyOn, Condition.value_dependsOnlyOn]
    apply Event.within_violations (h.edgesOf_sublist c)
    intro e he hrefuses
    obtain ⟨u, _, he⟩ := List.mem_flatMap.mp he
    rw [edgesFrom_eq_filter] at he
    have hedge := hholds e (List.mem_of_mem_filter he)
    have hsame := hpq e.target.owner
      (List.mem_append_left _ (List.mem_map_of_mem hedge.target_owner))
    have howner : (e.restamp stamp).target.owner = e.target.owner.restamp stamp := rfl
    rw [howner]
    exact (congrArg Bool.not hsame).trans hrefuses

/-! ## Rules -/

theorem Chain.hasViolation_iff {c : Collection} (ch : Chain c) (m : Model) :
    (ch.rule.evaluate m).value.hasViolation = true ↔
      ∃ a ∈ (ch.selection.items m).value,
        Event.anyViolated (ch.condition.check a m).value = true := by
  rw [Evaluation.hasViolation, Event.anyViolated, ch.evaluate_events, List.any_flatMap,
    List.any_eq_true]
  rfl

namespace Rule

/-- A rule passes where one passes that checks as much and finds more fault. -/
theorem check_eq_ok_of_hasViolation (r r' : Rule) {m : Model} {options : Options}
    (hviolation : (r'.evaluate m).value.hasViolation = true →
      (r.evaluate m).value.hasViolation = true)
    (hchecked : (r'.evaluate m).value.checked = (r.evaluate m).value.checked)
    (hempty : r'.emptyAllowed = r.emptyAllowed) (h : (r.check m options).value = .ok ()) :
    (r'.check m options).value = .ok () := by
  cases hcheck : (r'.check m options).value with
  | ok => rfl
  | error v =>
      have hfails := (r'.exists_check_eq_error_iff m options).mp ⟨v, hcheck⟩
      rw [failure?, Evaluation.exists_failure?_iff, allowsEmpty, hempty,
        hchecked] at hfails
      have hfailure : ∃ message, r.failure? options (r.evaluate m).value =
          some message := by
        rw [failure?, Evaluation.exists_failure?_iff, allowsEmpty]
        exact hfails.imp_left hviolation
      obtain ⟨v', hv'⟩ := (r.exists_check_eq_error_iff m options).mpr hfailure
      rw [h] at hv'
      cases hv'

/-- Trees of restrictions are monotone.  When the restrictions accept more, a tree is
violated only where it was, a single restriction reports some of its events, and a rule
that has passed still passes.  When the same things are asked of another draft, and some
more edges, the classes are the same but for the stamp, and a tree is violated about every
element that corresponds to one that it was violated about; a single restriction reports
what it did, and more; and a rule that was violated still is.  The predicates may be
others for the other model, as long as they answer alike about corresponding elements. -/
theorem restrictions_monotone :
    (∀ {k : Kind} {loose strict : ConditionTree k},
      ConditionTree.Restrictions Predicate.Looser loose strict →
        ∀ (m : Model) (a : k.Item),
          (Event.anyViolated (loose.condition.check a m).value = true →
          Event.anyViolated (strict.condition.check a m).value = true) ∧
        ((loose.loneEvents? a m).isSome →
          (loose.condition.check a m).value.Sublist (strict.condition.check a m).value)) ∧
    (∀ {c : Collection} (s : Selection c) {loose strict : ConditionTree c.kind},
      ConditionTree.Restrictions Predicate.Looser loose strict →
      ∀ (m : Model) (options : Options),
        ((s.should strict.condition).rule.check m options).value = .ok () →
        ((s.should loose.condition).rule.check m options).value = .ok ()) ∧
    (∀ {stamp stamp' : Nat} {requests requests' : List Request},
      Draft.Extends stamp stamp' requests requests' →
      let m := ((Draft.start stamp).run requests).finish
      let m' := ((Draft.start stamp').run requests').finish
      m'.classes = m.classes.map (Class.restamp stamp') ∧
      (m.edgeList.map (Edge.restamp stamp')).Sublist m'.edgeList ∧
      (∀ {k : Kind} {t t' : ConditionTree k},
        ConditionTree.Restrictions (Predicate.AlikeOn m stamp') t t' → ∀ a : k.Item,
          (Event.anyViolated (t.condition.check a m).value = true →
            Event.anyViolated (t'.condition.check (k.restamp stamp' a) m').value = true) ∧
          ((t.loneEvents? a m).isSome →
            ((t.condition.check a m).value.map Event.message).Sublist
              ((t'.condition.check (k.restamp stamp' a) m').value.map Event.message))) ∧
      (∀ {c : Collection} (s s' : Selection c) {t t' : ConditionTree c.kind},
        ConditionTree.Restrictions (Predicate.AlikeOn m stamp') t t' →
        (∀ a ∈ c.collect m, (Predicate.passes s'.filter (c.kind.restamp stamp' a)).value =
          (Predicate.passes s.filter a).value) →
        ((s.should t.condition).rule.evaluate m).value.hasViolation = true →
        ((s'.should t'.condition).rule.evaluate m').value.hasViolation = true)) := by
  refine ⟨?_, ?_, ?_⟩
  · intro k loose strict h m a
    have hleaves := ConditionTree.leavesWithin_looser m
    refine ⟨hleaves.anyViolated_check h a, ?_⟩
    intro hlone
    have hwithin := (hleaves.check_of_lone h a hlone).sublist
    rwa [List.map_id, List.map_id] at hwithin
  · intro c s loose strict h m options hpasses
    refine check_eq_ok_of_hasViolation (s.should strict.condition).rule
      (s.should loose.condition).rule ?_ ?_ rfl hpasses
    · rw [Chain.hasViolation_iff, Chain.hasViolation_iff]
      rintro ⟨a, ha, hviolated⟩
      exact ⟨a, ha, (ConditionTree.leavesWithin_looser m).anyViolated_check h a hviolated⟩
    · rw [evaluate_checked, evaluate_checked]
      rfl
  · intro stamp stamp' requests requests' hextends m m'
    have hextended := hextends.finish
    have hholds := (Draft.follows_run stamp requests).edgesFrom.holds
    have hleaves := hextended.leavesWithin hholds
    refine ⟨hextended.classes_eq, hextended.edges_sublist, ?_, ?_⟩
    · intro k t t' h a
      exact ⟨hleaves.anyViolated_check h a,
        fun hlone => (hleaves.check_of_lone h a hlone).sublist⟩
    · intro c s s' t t' h hfilter hviolation
      rw [Chain.hasViolation_iff] at hviolation ⊢
      obtain ⟨a, ha, hviolated⟩ := hviolation
      refine ⟨c.kind.restamp stamp' a, ?_, hleaves.anyViolated_check h a hviolated⟩
      change a ∈ (s.items m).value at ha
      change _ ∈ (s'.items m').value
      rw [Selection.value_items] at ha ⊢
      obtain ⟨hmem, hpasses⟩ := List.mem_filter.mp ha
      rw [hextended.collect_eq]
      exact List.mem_filter.mpr ⟨List.mem_map_of_mem hmem, (hfilter a hmem).trans hpasses⟩

/-- One call, in two drafts; the second draft has another call before it.  The called unit
may be called by nobody, and once more by nobody or by anybody. -/
theorem restrictions_monotone_twoDrafts :
    let c : Class :=
      { id := ⟨0, 0⟩, name := ⟨"p.A"⟩, modifiers := .empty, sourceFile := "A.java",
        analyzed := true }
    let decl : MethodDecl :=
      { id := ⟨0, 1⟩, modifiers := .empty, name := "f", parameters := [],
        returnType := ⟨"void"⟩ }
    let f : CodeUnit := ⟨c, .method decl⟩
    let add := Request.addClass c.name .empty
    let declare := Request.addMethod c "f" [] ⟨"void"⟩ .empty
    let call := fun (line : UInt32) => Request.addCall f f line
    let requests := [add, declare, call 3]
    let requests' :=
      [add.restamp 1, declare.restamp 1, (call 2).restamp 1, (call 3).restamp 1]
    let m := ((Draft.start 0).run requests).finish
    let m' := ((Draft.start 1).run requests').finish
    let callers := fun (accepted : Bool) =>
      (.leaf (CallerKind.restriction .classes (.describe "are" fun _ => accepted)) :
        ConditionTree .codeUnits)
    let strict := (callers false).and (callers false)
    let loose := (callers true).and (callers false)
    let rule := fun t : ConditionTree .codeUnits =>
      (({} : Selection .codeUnits).should t.condition).rule
    let quiet := ((Draft.start 0).run [add, declare]).finish
    Draft.Extends 0 1 requests requests' ∧
    Event.anyViolated (strict.condition.check f m).value = true ∧
    Event.anyViolated (loose.condition.check (f.restamp 1) m').value = true ∧
    ((rule strict).check quiet {}).value = .ok () ∧
    ((rule loose).check quiet {}).value = .ok () ∧
    ((rule loose).evaluate m').value.hasViolation = true := by
  intro c decl f add declare call requests requests' m m' callers strict loose rule quiet
  have hlooser : ConditionTree.Restrictions Predicate.Looser loose strict :=
    .join .and _ _ (.callers .classes fun _ h => absurd h Bool.false_ne_true)
      (.callers .classes fun _ h => h)
  have halike : ConditionTree.Restrictions (Predicate.AlikeOn m 1) loose loose :=
    .join .and _ _ (.callers .classes fun _ _ => rfl) (.callers .classes fun _ _ => rfl)
  have hextends : Draft.Extends 0 1 requests requests' :=
    .same (by decide) (.same (by decide) (.extra rfl (.same (by decide) .nil)))
  obtain ⟨hless, hpasses, hmore⟩ := restrictions_monotone
  obtain ⟨_, _, htrees, hrules⟩ := hmore hextends
  have hviolated : Event.anyViolated (loose.condition.check f m).value = true := by decide
  have hquiet : ((rule strict).check quiet {}).value = .ok () := by decide
  refine ⟨hextends, (hless hlooser m f).1 hviolated,
    (htrees halike f).1 hviolated, hquiet, hpasses {} hlooser quiet {} hquiet,
    hrules {} {} halike (fun _ _ => rfl) ?_⟩
  decide

end Rule

end Conformance
