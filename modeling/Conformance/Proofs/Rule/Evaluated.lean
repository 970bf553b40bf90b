import Conformance.Proofs.Rule.Narrowing

/-!
# What an evaluation consists of

The items of a collection come from the analyzed classes, class by class and in the order
of their declaration.  Evaluating a rule selects those that the links of the rule keep,
and puts what the condition reports about each of them one after the other; nothing is
reported about any other item, and every selected item counts once.
-/

namespace Conformance

theorem map_flatMap_congr {ι α β : Type} {f : α → β} {xs : ι → List α} {ys : ι → List β}
    (h : ∀ i, (xs i).map f = ys i) (l : List ι) :
    (l.flatMap xs).map f = l.flatMap ys := by
  rw [List.map_flatMap]
  exact List.flatMap_congr fun i _ => h i

/-- The class with its members, as elements. -/
def Class.elements (c : Class) : List Element :=
  .ofClass c :: c.members.map .ofMember

/-- The class that an element is or belongs to. -/
def Element.home : Element → Class
  | ofClass c => c
  | ofMember x => x.owner

theorem Class.home_of_mem_elements {c : Class} {e : Element} (he : e ∈ c.elements) :
    e.home = c := by
  rcases List.mem_cons.mp he with rfl | he
  · rfl
  · obtain ⟨x, hx, rfl⟩ := List.mem_map.mp he
    obtain ⟨decl, _, rfl⟩ := List.mem_map.mp hx
    rfl

namespace Collection

/-- Is the element of a kind that the collection collects? -/
def covers : Collection → Element → Bool
  | classes, .ofClass _ => true
  | fields, .ofMember x => x.kind = .field
  | methods, .ofMember x => x.kind = .method
  | constructors, .ofMember x => x.kind = .constructor
  | codeUnits, .ofMember x => x.kind ≠ .field
  | members, .ofMember _ => true
  | _, _ => false

/-- A view of the members of a class, if it is a filter of them, collects what the filter
covers. -/
theorem map_view {c : Collection} {α : Type} {view : Class → List α} {back : α → Member}
    {p : Member → Bool} (hview : ∀ k, (view k).map back = k.members.filter p)
    (hmember : ∀ x, c.covers (.ofMember x) = p x)
    (hclass : ∀ k, c.covers (.ofClass k) = false) (k : Class) :
    (view k).map (fun a => Element.ofMember (back a)) = k.elements.filter c.covers := by
  have hmap : (view k).map (fun a => Element.ofMember (back a)) =
      ((view k).map back).map .ofMember := by
    rw [List.map_map]
    rfl
  rw [hmap, hview, Class.elements, List.filter_cons, hclass, List.filter_map]
  simp only [Function.comp_def, hmember]
  rfl

/-- A collection consists of the elements of its kind in the analyzed classes, class by
class and in the order of their declaration. -/
theorem map_collect (c : Collection) (m : Model) :
    (c.collect m).map c.kind.itemElement =
      m.analyzed.flatMap (fun k => k.elements.filter c.covers) := by
  cases c with
  | classes =>
      have hcovered : ∀ k : Class, k.elements.filter classes.covers = [.ofClass k] := by
        intro k
        have hmembers : (k.members.map Element.ofMember).filter classes.covers = [] := by
          rw [List.filter_map, List.map_eq_nil_iff, List.filter_eq_nil_iff]
          intro x _
          exact Bool.false_ne_true
        rw [Class.elements, List.filter_cons_of_pos rfl, hmembers]
      simp only [hcovered]
      exact List.map_eq_flatMap
  | fields =>
      exact map_flatMap_congr
        (map_view Class.fields_toMember (fun _ => rfl) (fun _ => rfl)) _
  | methods =>
      exact map_flatMap_congr
        (map_view Class.methods_toMember (fun _ => rfl) (fun _ => rfl)) _
  | constructors =>
      exact map_flatMap_congr
        (map_view Class.constructors_toMember (fun _ => rfl) (fun _ => rfl)) _
  | codeUnits =>
      exact map_flatMap_congr
        (map_view Class.codeUnits_toMember (fun _ => rfl) (fun _ => rfl)) _
  | members =>
      have hall : ∀ k : Class, k.members.map id = k.members.filter (fun _ => true) := by
        intro k
        rw [List.map_id, List.filter_true]
      exact map_flatMap_congr (map_view hall (fun _ => rfl) (fun _ => rfl)) _

variable {c : Collection} {m : Model}

theorem home_analyzed_of_mem_collect {a : c.Item} (ha : a ∈ c.collect m) :
    (c.kind.itemElement a).home ∈ m.analyzed := by
  have helement : c.kind.itemElement a ∈ (c.collect m).map c.kind.itemElement :=
    List.mem_map_of_mem ha
  rw [map_collect] at helement
  obtain ⟨k, hk, hmem⟩ := List.mem_flatMap.mp helement
  rwa [Class.home_of_mem_elements (List.mem_of_mem_filter hmem)]

theorem nodup_collect_ids (c : Collection) {d : Draft} {log : List Note}
    (hf : d.Follows log) :
    ((c.collect d.finish).map (fun a => (c.kind.itemElement a).id)).Nodup := by
  have hsublist := ((c.collect_sublist d.finish).trans
    d.finish.analyzedElements_sublist).map Element.id
  rw [List.map_map] at hsublist
  exact (Workshop.nodup_elements_finish hf).sublist hsublist

end Collection

theorem flatMap_filter {α β : Type} (keep : α → Bool) (f : α → List β) (l : List α) :
    (l.filter keep).flatMap f = l.flatMap (fun a => if keep a then f a else []) := by
  induction l with
  | nil => rfl
  | cons a rest ih =>
      rw [List.flatMap_cons, ← ih]
      cases h : keep a <;> simp [h]

namespace Chain

variable {c : Collection}

/-- What the rule of the chain reports, each event with the item it is reported about. -/
def reports (ch : Chain c) (m : Model) : List (c.Item × Event) :=
  (ch.selection.items m).value.flatMap
    (fun a => (ch.condition.check a m).value.map (fun event => (a, event)))

/-- The reports about some of the items are what the condition says about those items. -/
theorem map_filter_reports (ch : Chain c) (m : Model) (keep : c.Item → Bool) :
    ((ch.reports m).filter (fun r => keep r.1)).map Prod.snd =
      ((ch.selection.items m).value.filter keep).flatMap
        (fun a => (ch.condition.check a m).value) := by
  have hitem : ∀ a : c.Item,
      (((ch.condition.check a m).value.map (fun event => (a, event))).filter
        (fun r => keep r.1)).map Prod.snd =
        if keep a then (ch.condition.check a m).value else [] := by
    intro a
    rw [List.filter_map, List.map_map]
    cases h : keep a <;> simp [Function.comp_def, h]
  rw [reports, List.filter_flatMap, List.map_flatMap, flatMap_filter]
  exact List.flatMap_congr fun a _ => hitem a

theorem map_reports (ch : Chain c) (m : Model) :
    (ch.reports m).map Prod.snd = (ch.rule.evaluate m).value.events := by
  have hall := ch.map_filter_reports m (fun _ => true)
  rw [List.filter_true, List.filter_true] at hall
  rw [hall, ch.evaluate_events]

/-- The rule of the chain finds fault with the item. -/
def FindsFault (ch : Chain c) (m : Model) (a : c.Item) : Prop :=
  ∃ event, (a, event) ∈ ch.reports m ∧ event.violated = true

/-- The rule finds fault with a selected item when the condition does. -/
theorem findsFault_iff (ch : Chain c) {m : Model} {a : c.Item}
    (ha : a ∈ (ch.selection.items m).value) :
    ch.FindsFault m a ↔ Event.anyViolated (ch.condition.check a m).value = true := by
  rw [Event.anyViolated, List.any_eq_true]
  constructor
  · rintro ⟨event, hevent, hviolated⟩
    obtain ⟨a', _, hmem⟩ := List.mem_flatMap.mp hevent
    obtain ⟨event', hevent', heq⟩ := List.mem_map.mp hmem
    obtain ⟨rfl, rfl⟩ := Prod.mk.inj heq
    exact ⟨event', hevent', hviolated⟩
  · rintro ⟨event, hevent, hviolated⟩
    exact ⟨event, List.mem_flatMap.mpr ⟨a, ha, List.mem_map_of_mem hevent⟩, hviolated⟩

theorem evaluate_checked (ch : Chain c) (m : Model) :
    (ch.rule.evaluate m).value.checked = (ch.selection.items m).value.length := by
  rw [ch.rule.evaluate_checked, Selection.value_items]
  rfl

end Chain

/-- A further link that restricts the selection leaves the items that it accepts. -/
theorem Narrowing.value_items_concat_andThat {c : Collection}
    (ns : List (Narrowing c.kind)) {target : Kind} (view : Widening c.kind target)
    (operand : PredicateTree (.item target)) (m : Model) :
    ((narrowed (ns ++ [⟨.andThat, target, view, operand⟩]) : Selection c).items m).value =
      ((narrowed ns : Selection c).items m).value.filter
        (fun a => operand.predicate.accepts (view.apply a)) := by
  rw [value_items_narrowed, value_items_narrowed, List.filter_filter]
  apply List.filter_congr
  intro a _
  rw [keeps_concat_andThat, Bool.and_comm]

namespace Rule

/-- The rule of a written chain checks the items that the links keep: items of the
collected kind, each once, and none outside the analyzed classes.  They stand class by
class, in the order in which the classes and then their members were asked for.  The
events are what the condition reports about one item after the other.  A further link that
restricts the selection leaves the events about the items that it accepts. -/
theorem evaluate_written (stamp : Nat) (requests : List Request) {c : Collection}
    (ns : List (Narrowing c.kind)) (first : Condition c.Item)
    (others : List (Join × Condition c.Item)) :
    let m := ((Draft.start stamp).run requests).finish
    let log := (Draft.start stamp).ledger requests
    let root := first.chained others
    let checked := (c.collect m).filter (Narrowing.keeps ns)
    let reports := checked.flatMap
      (fun a => (root.check a m).value.map (fun event => (a, event)))
    (∃ ch, (ChainExpr.written ns first others).build = .ok ch ∧
      (ch.rule.evaluate m).value.checked = checked.length ∧
      (ch.rule.evaluate m).value.events =
        checked.flatMap (fun a => (root.check a m).value)) ∧
    (c.collect m).map c.kind.itemElement =
      m.analyzed.flatMap (fun k => k.elements.filter c.covers) ∧
    m.analyzed.map Class.head = (Ledger.heads log).filter ClassHead.analyzed ∧
    (∀ k ∈ m.analyzed,
      k.members.map (fun x => x.decl.bare) = Ledger.declarationsOf log k.id) ∧
    (checked.map (fun a => (c.kind.itemElement a).id)).Nodup ∧
    checked.all (fun a => (c.kind.itemElement a).home.analyzed) = true ∧
    (∀ (target : Kind) (view : Widening c.kind target) (q : Predicate target.Item),
      ∃ ch, (ChainExpr.written
        (ns ++ [⟨.andThat, target, view, .leaf q⟩]) first others).build =
          .ok ch ∧
        (ch.rule.evaluate m).value.checked =
          (checked.filter (fun a => q.accepts (view.apply a))).length ∧
        (ch.rule.evaluate m).value.events =
          (reports.filter (fun r => q.accepts (view.apply r.1))).map Prod.snd) := by
  intro m log root checked reports
  have hf := Draft.follows_run stamp requests
  let ch := (Narrowing.narrowed ns).should root
  have hitems : (ch.selection.items m).value = checked :=
    Narrowing.value_items_narrowed ns m
  refine ⟨⟨ch, ChainExpr.build_written ns first others, ?_, ?_⟩, c.map_collect m,
    hf.classesFrom.analyzed_eq, ?_, ?_, ?_, ?_⟩
  · rw [ch.evaluate_checked, hitems]
  · rw [ch.evaluate_events, hitems]
    rfl
  · intro k hk
    exact hf.membersFrom.declared_eq k (List.mem_of_mem_filter hk)
  · exact (c.nodup_collect_ids hf).sublist (List.filter_sublist.map _)
  · rw [List.all_eq_true]
    intro a ha
    have hhome := Collection.home_analyzed_of_mem_collect (List.mem_of_mem_filter ha)
    exact (List.mem_filter.mp hhome).2
  · intro target view q
    let further := (Narrowing.narrowed (ns ++ [⟨.andThat, target, view, .leaf q⟩])).should
      root
    have hfurther : (further.selection.items m).value =
        checked.filter (fun a => q.accepts (view.apply a)) := by
      rw [← hitems]
      exact Narrowing.value_items_concat_andThat ns view (.leaf q) m
    have hkept := ch.map_filter_reports m (fun a => q.accepts (view.apply a))
    rw [Chain.reports, hitems] at hkept
    refine ⟨further, ChainExpr.build_written _ first others, ?_, ?_⟩
    · rw [further.evaluate_checked, hfurther]
    · rw [further.evaluate_events, hfurther]
      exact hkept.symm

end Rule

end Conformance
