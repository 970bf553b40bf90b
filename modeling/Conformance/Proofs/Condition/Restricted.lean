import Conformance.Proofs.Condition.Report
import Conformance.Proofs.Rule.Callers
import Conformance.Proofs.Rule.Dependencies

/-!
# Trees of restrictions

Some condition trees have nothing but restrictions at their leaves.  A restriction reports
edges and finds fault with every edge that it reports; and a joined condition is the more
easily violated the more its sides are.  So two trees of the same shape are compared leaf
by leaf: a tree whose leaves report less is violated less often.
-/

namespace Conformance

/-! ## Trees of the same shape -/

namespace ConditionTree

/-- Two trees of the same shape that have restrictions at their leaves.  The relation says
how the predicates of the restrictions compare, leaf by leaf. -/
inductive Restrictions (R : (k : Kind) → Predicate k.Item → Predicate k.Item → Prop) :
    {k : Kind} → ConditionTree k → ConditionTree k → Prop where
  | callers (caller : CallerKind) {p q : Predicate caller.kind.Item}
      (h : R caller.kind p q) :
      Restrictions R (k := .codeUnits) (.leaf (caller.restriction p))
        (.leaf (caller.restriction q))
  | dependencies {p q : Predicate Class} (h : R .classes p q) :
      Restrictions R (k := .classes) (.leaf (.dependsOnlyOn p)) (.leaf (.dependsOnlyOn q))
  | join {k : Kind} (j : Join) {left left' right right' : ConditionTree k}
      (description description' : Text) (hleft : Restrictions R left left')
      (hright : Restrictions R right right') :
      Restrictions R (.join j left right description) (.join j left' right' description')
  | renamed {k : Kind} {inner inner' : ConditionTree k} (description description' : Text)
      (h : Restrictions R inner inner') :
      Restrictions R (.renamed inner description) (.renamed inner' description')
  | widened {j k : Kind} (w : Widening j k) {inner inner' : ConditionTree k}
      (h : Restrictions R inner inner') :
      Restrictions R (.widened w inner) (.widened w inner')

end ConditionTree

/-! ## Reports within each other -/

/-- Everything that the first list reports is also reported by the second one, in the same
order, as far as `view` can tell, and the second list finds fault with everything. -/
structure Event.Within {β : Type} (view : Event → β) (events events' : List Event) :
    Prop where
  sublist : (events.map view).Sublist (events'.map view)
  violated : ∀ event ∈ events', event.violated = true

theorem Event.Within.anyViolated {β : Type} {view : Event → β}
    {events events' : List Event} (h : Within view events events')
    (hviolated : Event.anyViolated events = true) :
    Event.anyViolated events' = true := by
  obtain ⟨event, hevent, _⟩ := List.any_eq_true.mp hviolated
  have hview := h.sublist.subset (List.mem_map_of_mem hevent)
  obtain ⟨event', hevent', _⟩ := List.mem_map.mp hview
  exact List.any_eq_true.mpr ⟨event', hevent', h.violated event' hevent'⟩

theorem Join.verdict_mono (j : Join) {left right left' right' : Bool}
    (hleft : left = true → left' = true) (hright : right = true → right' = true)
    (h : j.verdict left right = true) : j.verdict left' right' = true := by
  cases j with
  | and =>
      rcases Bool.or_eq_true_iff.mp h with hl | hr
      · exact Bool.or_eq_true_iff.mpr (Or.inl (hleft hl))
      · exact Bool.or_eq_true_iff.mpr (Or.inr (hright hr))
  | or =>
      obtain ⟨hl, hr⟩ := Bool.and_eq_true_iff.mp h
      exact Bool.and_eq_true_iff.mpr ⟨hleft hl, hright hr⟩

namespace ConditionTree

/-- Single restrictions whose predicates are related report within each other, the first
one about an item in the first model, and the second one about its image in the second
model. -/
structure LeavesWithin {β : Type} (view : Event → β)
    (R : (k : Kind) → Predicate k.Item → Predicate k.Item → Prop)
    (image : (k : Kind) → k.Item → k.Item) (m m' : Model) : Prop where
  apply_image : ∀ {j k : Kind} (w : Widening j k) (a : j.Item),
    w.apply (image j a) = image k (w.apply a)
  callers : ∀ (caller : CallerKind) (p q : Predicate caller.kind.Item),
    R caller.kind p q →
    ∀ u, Event.Within view ((caller.restriction p).check u m).value
      ((caller.restriction q).check (image .codeUnits u) m').value
  dependencies : ∀ p q, R .classes p q →
    ∀ c, Event.Within view ((Condition.dependsOnlyOn p).check c m).value
      ((Condition.dependsOnlyOn q).check (image .classes c) m').value

variable {β : Type} {view : Event → β}
  {R : (k : Kind) → Predicate k.Item → Predicate k.Item → Prop}
  {image : (k : Kind) → k.Item → k.Item} {m m' : Model}

/-- What holds of single restrictions holds of a tree that consists of one restriction. -/
theorem LeavesWithin.check_of_lone (hleaves : LeavesWithin view R image m m') {k : Kind}
    {t u : ConditionTree k} (h : Restrictions R t u) (a : k.Item)
    (hlone : (t.loneEvents? a m).isSome) :
    Event.Within view (t.condition.check a m).value
      (u.condition.check (image k a) m').value := by
  induction h with
  | callers caller h => exact hleaves.callers caller _ _ h a
  | dependencies h => exact hleaves.dependencies _ _ h a
  | join j description description' hleft hright => cases hlone
  | renamed description description' h ih => exact ih a hlone
  | widened w h ih =>
      have hinner := ih (w.apply a) hlone
      rw [← hleaves.apply_image] at hinner
      exact hinner

/-- A violated tree stays violated, since *and* and *or* are monotone. -/
theorem LeavesWithin.anyViolated_check (hleaves : LeavesWithin view R image m m')
    {k : Kind} {t u : ConditionTree k} (h : Restrictions R t u) (a : k.Item)
    (hviolated : Event.anyViolated (t.condition.check a m).value = true) :
    Event.anyViolated (u.condition.check (image k a) m').value = true := by
  induction h with
  | callers caller h => exact (hleaves.callers caller _ _ h a).anyViolated hviolated
  | dependencies h => exact (hleaves.dependencies _ _ h a).anyViolated hviolated
  | join j description description' hleft hright ihleft ihright =>
      rw [check_join, Join.anyViolated_events] at hviolated ⊢
      exact j.verdict_mono (ihleft a) (ihright a) hviolated
  | renamed description description' h ih => exact ih a hviolated
  | widened w h ih =>
      have hinner := ih (w.apply a) hviolated
      rw [← hleaves.apply_image] at hinner
      exact hinner

end ConditionTree

/-! ## Looser predicates -/

/-- The second predicate accepts everything that the first one accepts. -/
def Predicate.Looser (k : Kind) (q p : Predicate k.Item) : Prop :=
  ∀ a, p.accepts a = true → q.accepts a = true

theorem CallerKind.test_of_looser (caller : CallerKind) {q p : Predicate caller.kind.Item}
    (h : Predicate.Looser caller.kind q p) {u : CodeUnit}
    (hp : ((caller.test p).test u).value = true) :
    ((caller.test q).test u).value = true := by
  cases caller with
  | classes => exact h u.owner hp
  | methods =>
      simp only [CallerKind.test, CallerTest.test] at hp ⊢
      cases hmethod : u.asMethod? with
      | none => simp [hmethod] at hp
      | some f =>
          simp only [hmethod] at hp ⊢
          exact h f hp
  | constructors =>
      simp only [CallerKind.test, CallerTest.test] at hp ⊢
      cases hconstructor : u.asConstructor? with
      | none => simp [hconstructor] at hp
      | some f =>
          simp only [hconstructor] at hp ⊢
          exact h f hp
  | codeUnits => exact h u hp

theorem CallerKind.rejects_of_looser (caller : CallerKind)
    {q p : Predicate caller.kind.Item} (h : Predicate.Looser caller.kind q p)
    {u : CodeUnit} (hq : (caller.test q).rejects u = true) :
    (caller.test p).rejects u = true := by
  by_contra hp
  have haccepted := caller.test_of_looser h (u := u)
  rw [CallerTest.value_test, CallerTest.value_test, Bool.eq_false_iff.mpr hp,
    hq] at haccepted
  exact Bool.false_ne_true (haccepted rfl)

theorem Event.violated_of_mem_violations {edges : List Edge} {subject : Edge → Element} :
    ∀ event ∈ edges.map (fun e => e.violation (subject e)), event.violated = true := by
  intro event hevent
  obtain ⟨e, _, rfl⟩ := List.mem_map.mp hevent
  rfl

/-- A restriction by a looser predicate reports some of the edges. -/
theorem ConditionTree.leavesWithin_looser (m : Model) :
    LeavesWithin id Predicate.Looser (fun _ a => a) m m where
  apply_image := fun _ _ => rfl
  callers := by
    intro caller q p h u
    rw [caller.restriction_eq, caller.restriction_eq, Condition.value_calledOnlyBy,
      Condition.value_calledOnlyBy]
    refine ⟨?_, Event.violated_of_mem_violations⟩
    exact ((List.monotone_filter_right _ fun e => caller.rejects_of_looser h).map _).map
      id
  dependencies := by
    intro q p h c
    have hrefuses : ∀ e : Edge, (!q.accepts e.target.owner) = true →
        (!p.accepts e.target.owner) = true := by
      intro e hq
      rw [Bool.not_eq_true', Bool.eq_false_iff] at hq ⊢
      exact fun hp => hq (h _ hp)
    rw [Condition.value_dependsOnlyOn, Condition.value_dependsOnlyOn]
    refine ⟨?_, Event.violated_of_mem_violations⟩
    exact ((List.monotone_filter_right _ hrefuses).map _).map id

end Conformance
