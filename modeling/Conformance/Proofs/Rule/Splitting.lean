import Conformance.Proofs.Condition.Tree
import Conformance.Proofs.Rule.Evaluated
import Mathlib.Data.List.Basic

/-!
# Rules about mixed items

Code units are methods and constructors, and members are fields and code units.  A rule
about the wider items can be narrowed to either part: its filters and conditions are
adapted to the narrower kind, each where it is attached.  The two narrowed rules find what
the rule finds, divided by what the items are, and nothing else.
-/

namespace Conformance

theorem Kind.Step.itemElement_apply {j k : Kind} (s : Kind.Step j k) (a : j.Item) :
    k.itemElement (s.apply a) = j.itemElement a :=
  (Widening.step s (.refl k)).itemElement_apply a

/-! ## Adaptation to a narrower kind -/

namespace ConditionTree

variable {j k : Kind}

/-- The tree for items of a narrower kind.  Leaves and widened parts are adapted as a
whole, and joined conditions are joined for the narrower items. -/
def narrowedTo (s : Kind.Step j k) : ConditionTree k → ConditionTree j
  | leaf c => widened (.step s (.refl k)) (leaf c)
  | join jn left right description =>
      join jn (left.narrowedTo s) (right.narrowedTo s) description
  | renamed inner description => renamed (inner.narrowedTo s) description
  | widened w inner => widened (.step s w) inner

theorem condition_narrowedTo (s : Kind.Step j k) (t : ConditionTree k) :
    (t.narrowedTo s).condition = t.condition.along s.apply := by
  induction t with
  | leaf c => rfl
  | join jn left right description ihleft ihright =>
      -- A joined condition names the item in its event, and the item is the same element
      -- when it is seen as one of the wider kind.
      have helement : ∀ a : j.Item, toElement a = toElement (s.apply a) :=
        fun a => (s.itemElement_apply a).symm
      rw [narrowedTo, condition, ihleft, ihright]
      simp only [Condition.join, Condition.along, helement]
      rfl
  | renamed inner description ih =>
      rw [narrowedTo, condition, ih]
      rfl
  | widened w inner ih => rfl

end ConditionTree

namespace Narrowing

variable {j k : Kind}

/-- The link for items of a narrower kind. -/
def narrowedTo (s : Kind.Step j k) (n : Narrowing k) : Narrowing j :=
  { n with view := .step s n.view }

theorem keeps_narrowedTo (s : Kind.Step j k) (ns : List (Narrowing k)) (a : j.Item) :
    keeps (ns.map (narrowedTo s)) a = keeps ns (s.apply a) := by
  cases ns with
  | nil => rfl
  | cons first rest =>
      rw [List.map_cons, keeps, keeps, List.foldl_map]
      rfl

end Narrowing

/-- The chain that some links and a condition tree make. -/
def Chain.ofTree {c : Collection} (ns : List (Narrowing c.kind))
    (t : ConditionTree c.kind) :
    Chain c :=
  (Narrowing.narrowed ns).should t.condition

/-! ## One part -/

namespace Chain

variable {c p : Collection} (s : Kind.Step p.kind c.kind) {isPart : c.Item → Bool}
  {m : Model}

/-- The items that a narrowed rule checks are those of its part that the rule checks. -/
theorem map_items_narrowedTo
    (hpart : (p.collect m).map s.apply = (c.collect m).filter isPart)
    (ns : List (Narrowing c.kind)) :
    (((Narrowing.narrowed (ns.map (Narrowing.narrowedTo s)) : Selection p).items
      m).value).map
        s.apply =
      (((Narrowing.narrowed ns : Selection c).items m).value).filter isPart := by
  have hkeeps : ∀ a : p.Item, Narrowing.keeps (ns.map (Narrowing.narrowedTo s)) a =
      Narrowing.keeps ns (s.apply a) := Narrowing.keeps_narrowedTo s ns
  calc
    (((Narrowing.narrowed (ns.map (Narrowing.narrowedTo s)) : Selection p).items
      m).value).map
          s.apply =
        ((p.collect m).filter (Narrowing.keeps (ns.map (Narrowing.narrowedTo s)))).map
          s.apply := by
      rw [Narrowing.value_items_narrowed]
    _ = ((p.collect m).filter (fun a => Narrowing.keeps ns (s.apply a))).map s.apply := by
      rw [List.filter_congr fun a _ => hkeeps a]
    _ = ((p.collect m).map s.apply).filter (Narrowing.keeps ns) := by
      rw [List.filter_map]
      rfl
    _ = ((c.collect m).filter isPart).filter (Narrowing.keeps ns) := by rw [hpart]
    _ = ((c.collect m).filter (Narrowing.keeps ns)).filter isPart := by
      rw [List.filter_filter, List.filter_filter]
      exact List.filter_congr fun a _ => Bool.and_comm _ _
    _ = _ := by rw [Narrowing.value_items_narrowed]

theorem evaluate_events_narrowedTo
    (hpart : (p.collect m).map s.apply = (c.collect m).filter isPart)
    (ns : List (Narrowing c.kind)) (t : ConditionTree c.kind) :
    ((ofTree (ns.map (Narrowing.narrowedTo s)) (t.narrowedTo s)).rule.evaluate
      m).value.events =
      (((ofTree ns t).reports m).filter (fun r => isPart r.1)).map Prod.snd := by
  rw [map_filter_reports, evaluate_events, ofTree, ofTree, t.condition_narrowedTo s]
  change _ = List.flatMap _
    (((Narrowing.narrowed ns : Selection c).items m).value.filter isPart)
  rw [← map_items_narrowedTo s hpart ns, List.flatMap_map]
  rfl

theorem evaluate_checked_narrowedTo
    (hpart : (p.collect m).map s.apply = (c.collect m).filter isPart)
    (ns : List (Narrowing c.kind)) (t : ConditionTree c.kind) :
    ((ofTree (ns.map (Narrowing.narrowedTo s)) (t.narrowedTo s)).rule.evaluate
      m).value.checked =
      (((Narrowing.narrowed ns : Selection c).items m).value.filter isPart).length := by
  rw [evaluate_checked, ← map_items_narrowedTo s hpart ns, List.length_map]
  rfl

end Chain

/-! ## Two parts -/

/-- A collection of mixed items with the collections of its two parts. -/
inductive Split : Collection → Collection → Collection → Type where
  | codeUnits : Split .codeUnits .methods .constructors
  | members : Split .members .fields .codeUnits

namespace Split

variable {c p q : Collection} {m : Model}

/-- The step from the first part. -/
def first : Split c p q → Kind.Step p.kind c.kind
  | codeUnits => .methodUnit
  | members => .fieldMember

/-- The step from the second part. -/
def second : Split c p q → Kind.Step q.kind c.kind
  | codeUnits => .constructorUnit
  | members => .unitMember

/-- Does the item belong to the first part? -/
def isFirst : Split c p q → c.Item → Bool
  | codeUnits, u => u.isMethod
  | members, x => x.kind = .field

/-- Does the item belong to the second part? -/
def isSecond : Split c p q → c.Item → Bool
  | codeUnits, u => u.isConstructor
  | members, x => x.kind ≠ .field

theorem isSecond_eq (s : Split c p q) (a : c.Item) : s.isSecond a = !s.isFirst a := by
  cases s with
  | codeUnits =>
      obtain ⟨owner, decl | decl⟩ := a
      · rfl
      · rfl
  | members => exact decide_not

theorem map_collect_first (s : Split c p q) (m : Model) :
    (p.collect m).map s.first.apply = (c.collect m).filter s.isFirst := by
  cases s with
  | codeUnits =>
      have hmethods : ∀ k : Class,
          k.methods.map Method.toCodeUnit = k.codeUnits.filter CodeUnit.isMethod := by
        intro k
        apply map_filterMap_eq_filter
        rintro ⟨owner, decl | decl⟩ <;> rfl
      exact (map_flatMap_congr hmethods _).trans List.filter_flatMap.symm
  | members =>
      exact (map_flatMap_congr Class.fields_toMember _).trans List.filter_flatMap.symm

theorem map_collect_second (s : Split c p q) (m : Model) :
    (q.collect m).map s.second.apply = (c.collect m).filter s.isSecond := by
  cases s with
  | codeUnits =>
      have hconstructors : ∀ k : Class,
          k.constructors.map Constructor.toCodeUnit =
            k.codeUnits.filter CodeUnit.isConstructor := by
        intro k
        apply map_filterMap_eq_filter
        rintro ⟨owner, decl | decl⟩ <;> rfl
      exact (map_flatMap_congr hconstructors _).trans List.filter_flatMap.symm
  | members =>
      exact (map_flatMap_congr Class.codeUnits_toMember _).trans List.filter_flatMap.symm

theorem anyViolated_eq_or (s : Split c p q) (reports : List (c.Item × Event)) :
    Event.anyViolated (reports.map Prod.snd) =
      (Event.anyViolated ((reports.filter (fun r => s.isFirst r.1)).map Prod.snd) ||
        Event.anyViolated ((reports.filter (fun r => s.isSecond r.1)).map Prod.snd)) := by
  induction reports with
  | nil => rfl
  | cons r rest ih =>
      unfold Event.anyViolated at ih ⊢
      rw [List.map_cons, List.any_cons, ih, List.filter_cons, List.filter_cons,
        s.isSecond_eq]
      cases s.isFirst r.1 with
      | true => simp [Bool.or_assoc]
      | false => simp [Bool.or_left_comm]

/-- A rule about mixed items and the same rule about either part: the events about items
of a part are those of the part's rule, in the same order, every item is of one of the
parts, the numbers of checked items add up, and the rule has a violation exactly when one
of the two has one.  Adapting the condition to a part changes nothing that it reports. -/
theorem evaluate_parts (m : Model) (s : Split c p q) (ns : List (Narrowing c.kind))
    (t : ConditionTree c.kind) :
    ∃ (whole : Chain c) (left : Chain p) (right : Chain q),
      (ChainExpr.written ns t.condition []).build = .ok whole ∧
      (ChainExpr.written (ns.map (Narrowing.narrowedTo s.first))
        (t.narrowedTo s.first).condition []).build = .ok left ∧
      (ChainExpr.written (ns.map (Narrowing.narrowedTo s.second))
        (t.narrowedTo s.second).condition []).build = .ok right ∧
      (let e := (whole.rule.evaluate m).value
       let e₁ := (left.rule.evaluate m).value
       let e₂ := (right.rule.evaluate m).value
       let reports := whole.reports m
       e.events = reports.map Prod.snd ∧
       e₁.events = (reports.filter (fun r => s.isFirst r.1)).map Prod.snd ∧
       e₂.events = (reports.filter (fun r => s.isSecond r.1)).map Prod.snd ∧
       e.checked = e₁.checked + e₂.checked ∧
       e.hasViolation = (e₁.hasViolation || e₂.hasViolation)) ∧
      (∀ a : c.Item, s.isSecond a = !s.isFirst a) ∧
      (∀ a : p.Item,
        (t.narrowedTo s.first).condition.check a m =
          t.condition.check (s.first.apply a) m) ∧
      (∀ a : q.Item,
        (t.narrowedTo s.second).condition.check a m =
          t.condition.check (s.second.apply a) m) := by
  let whole := Chain.ofTree ns t
  let left := Chain.ofTree (ns.map (Narrowing.narrowedTo s.first)) (t.narrowedTo s.first)
  let right := Chain.ofTree (ns.map (Narrowing.narrowedTo s.second))
    (t.narrowedTo s.second)
  have hevents : (whole.reports m).map Prod.snd = (whole.rule.evaluate m).value.events :=
    whole.map_reports m
  have hleft := Chain.evaluate_events_narrowedTo s.first (s.map_collect_first m) ns t
  have hright := Chain.evaluate_events_narrowedTo s.second (s.map_collect_second m) ns t
  refine ⟨whole, left, right, ChainExpr.build_written ns _ [],
    ChainExpr.build_written _ _ [], ChainExpr.build_written _ _ [],
    ⟨hevents.symm, hleft, hright, ?_, ?_⟩, s.isSecond_eq, ?_, ?_⟩
  · have hnot : ∀ a, s.isSecond a = !s.isFirst a := s.isSecond_eq
    rw [Chain.evaluate_checked_narrowedTo s.first (s.map_collect_first m) ns t,
      Chain.evaluate_checked_narrowedTo s.second (s.map_collect_second m) ns t,
      whole.evaluate_checked, List.filter_congr fun a _ => hnot a]
    exact List.length_eq_length_filter_add s.isFirst
  · rw [Evaluation.hasViolation, Evaluation.hasViolation, Evaluation.hasViolation,
      ← hevents, hleft, hright]
    exact s.anyViolated_eq_or (whole.reports m)
  · intro a
    rw [t.condition_narrowedTo s.first]
    rfl
  · intro a
    rw [t.condition_narrowedTo s.second]
    rfl

end Split

end Conformance
