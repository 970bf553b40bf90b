import Conformance.Proofs.Model.Positions
import Conformance.Proofs.Workshop.Orderly
import Conformance.Rule.Chain

/-!
# What a rule examines

A rule goes through the items of its collection one by one, and it consults predicates and
conditions on the way.  What it finds is nevertheless easy to say: the findings about the
selected items, one after the other.  In a finished model no element is selected twice,
and none that lies outside the analyzed classes.
-/

namespace Conformance

namespace Consulted

variable {α : Type}

@[simp]
theorem value_passing (test : α → Consulted Bool) (items : List α) :
    (passing test items).value = items.filter (fun a => (test a).value) := by
  induction items with
  | nil => rfl
  | cons a rest ih =>
      rw [passing, value_bind, value_bind, ih]
      cases h : (test a).value <;> simp [h]

@[simp]
theorem value_failing (test : α → Consulted Bool) (items : List α) :
    (failing test items).value = items.filter (fun a => !(test a).value) :=
  value_passing _ items

/-- Everybody is asked, whatever the answers are. -/
theorem calls_failing (test : α → Consulted Bool) (items : List α) :
    (failing test items).calls = items.flatMap (fun a => (test a).calls) := by
  induction items with
  | nil => rfl
  | cons a rest ih =>
      rw [failing] at ih ⊢
      rw [passing, calls_bind, calls_bind, calls_bind, ih, List.flatMap_cons]
      simp

end Consulted

/-! ## Evaluations -/

namespace RuleContent

variable (r : RuleContent) (m : Model)

/-- The items that the rule selects, in the order of its collection. -/
def selected : List r.collection.Item :=
  (r.collection.collect m).filter (fun a => (Predicate.passes r.filter a).value)

theorem value_examine (a : r.collection.Item) :
    (r.examine m a).value =
      if (Predicate.passes r.filter a).value then some (r.condition.check a m).value
      else none := by
  rw [examine, Consulted.value_bind]
  split <;> rfl

theorem value_examineAll (items : List r.collection.Item) :
    (r.examineAll m items).value =
      (items.filter (fun a => (Predicate.passes r.filter a).value)).map
        (fun a => (r.condition.check a m).value) := by
  induction items with
  | nil => rfl
  | cons a rest ih =>
      rw [examineAll, Consulted.value_bind, Consulted.value_bind,
        Consulted.value_pure, ih, value_examine]
      cases h : (Predicate.passes r.filter a).value <;> simp [h]

end RuleContent

namespace Rule

variable (r : Rule) (m : Model)

theorem evaluate_events :
    (r.evaluate m).value.events =
      (r.content.selected m).flatMap
        (fun a => (r.content.condition.check a m).value) := by
  rw [evaluate, Consulted.value_bind, Consulted.value_pure, RuleContent.value_examineAll,
    ← List.flatMap_def]
  rfl

theorem evaluate_checked :
    (r.evaluate m).value.checked = (r.content.selected m).length := by
  rw [evaluate, Consulted.value_bind, Consulted.value_pure, RuleContent.value_examineAll,
    List.length_map]
  rfl

end Rule

/-! ## Collections -/

namespace Model

/-- The analyzed classes and their members. -/
def analyzedElements (m : Model) : List Element :=
  m.analyzed.map .ofClass ++ (m.analyzed.flatMap Class.members).map .ofMember

theorem analyzedElements_sublist (m : Model) : m.analyzedElements.Sublist m.elements :=
  (List.filter_sublist.map _).append ((List.filter_sublist.flatMap _).map _)

end Model

namespace Collection

variable {m : Model}

/-- Some members of every analyzed class, class by class, are some of the elements. -/
theorem map_flatMap_sublist {α : Type} {view : Class → List α} {back : α → Element}
    (hview : ∀ c, ((view c).map back).Sublist (c.members.map .ofMember)) :
    ((m.analyzed.flatMap view).map back).Sublist m.analyzedElements := by
  have hmembers : (m.analyzed.flatMap Class.members).map Element.ofMember =
      m.analyzed.flatMap (fun c => c.members.map .ofMember) := List.map_flatMap
  have hsome : ((m.analyzed.flatMap view).map back).Sublist
      ((m.analyzed.flatMap Class.members).map .ofMember) := by
    rw [List.map_flatMap, hmembers]
    exact List.Sublist.flatMap_right _ fun c _ => hview c
  exact hsome.trans (List.sublist_append_right _ _)

/-- Nothing is collected outside the analyzed classes. -/
theorem collect_sublist (c : Collection) (m : Model) :
    ((c.collect m).map c.kind.itemElement).Sublist m.analyzedElements := by
  -- Every view of a class is a filter of its members, seen as elements.
  cases c with
  | classes => exact List.sublist_append_left _ _
  | fields =>
      apply map_flatMap_sublist
      intro c
      have hfields := congrArg (List.map Element.ofMember) c.fields_toMember
      rw [List.map_map] at hfields
      exact hfields ▸ List.filter_sublist.map _
  | methods =>
      apply map_flatMap_sublist
      intro c
      have hmethods := congrArg (List.map Element.ofMember) c.methods_toMember
      rw [List.map_map] at hmethods
      exact hmethods ▸ List.filter_sublist.map _
  | constructors =>
      apply map_flatMap_sublist
      intro c
      have hconstructors := congrArg (List.map Element.ofMember) c.constructors_toMember
      rw [List.map_map] at hconstructors
      exact hconstructors ▸ List.filter_sublist.map _
  | codeUnits =>
      apply map_flatMap_sublist
      intro c
      have hunits := congrArg (List.map Element.ofMember) c.codeUnits_toMember
      rw [List.map_map] at hunits
      exact hunits ▸ List.filter_sublist.map _
  | members => exact map_flatMap_sublist fun c => List.Sublist.refl _

end Collection

/-- No element of a finished model is collected twice. -/
theorem Collection.nodup_collect (c : Collection) {d : Draft} {log : List Note}
    (hf : d.Follows log) : ((c.collect d.finish).map c.kind.itemElement).Nodup :=
  (Workshop.nodup_elements_finish hf).of_map.sublist
    ((c.collect_sublist d.finish).trans d.finish.analyzedElements_sublist)

/-! ## Selections -/

namespace Selection

variable {c : Collection} (s : Selection c)

theorem value_items (m : Model) :
    (s.items m).value =
      (c.collect m).filter (fun a => (Predicate.passes s.filter a).value) :=
  Consulted.value_passing _ _

/-- Without a filter everything is selected. -/
theorem value_items_unfiltered (m : Model) :
    ((Selection.mk none : Selection c).items m).value = c.collect m := by
  rw [value_items]
  exact List.filter_eq_self.mpr fun _ _ => rfl

theorem items_sublist (m : Model) :
    ((s.items m).value.map c.kind.itemElement).Sublist m.analyzedElements := by
  rw [value_items]
  exact (List.filter_sublist.map _).trans (c.collect_sublist m)

theorem nodup_items {d : Draft} {log : List Note} (hf : d.Follows log) :
    ((s.items d.finish).value.map c.kind.itemElement).Nodup := by
  rw [value_items]
  exact (c.nodup_collect hf).sublist (List.filter_sublist.map _)

end Selection

theorem Event.violations_flatMap {α : Type} (l : List α) (events : α → List Event) :
    violations (l.flatMap events) = l.flatMap (fun a => violations (events a)) := by
  rw [violations, List.filter_flatMap, List.map_flatMap]
  rfl

/-- The events of a chain are what its condition reports about the selected items. -/
theorem Chain.evaluate_events {c : Collection} (ch : Chain c) (m : Model) :
    (ch.rule.evaluate m).value.events =
      (ch.selection.items m).value.flatMap (fun a => (ch.condition.check a m).value) := by
  rw [Selection.value_items]
  exact Rule.evaluate_events ch.rule m

end Conformance
