import Conformance.Proofs.Condition.Tree
import Conformance.Proofs.Rule.Narrowing

/-!
# Who is consulted

A filter asks no more than it needs, and a condition asks everybody.  For every item of
its collection, in order, a rule first takes the walk through its filter, and when the
filter accepts the item, it checks all leaves of its condition from left to right,
whatever they report.
-/

namespace Conformance

/-! ## Conditions -/

namespace ConditionTree

variable {k : Kind}

/-- The leaves, from left to right, each as a condition for the items of the whole
tree. -/
def leaves : {k : Kind} → ConditionTree k → List (Condition k.Item)
  | _, leaf c => [c]
  | _, join _ left right _ => left.leaves ++ right.leaves
  | _, renamed inner _ => inner.leaves
  | _, widened w inner => inner.leaves.map (fun c => c.along w.apply)

theorem calls_check (t : ConditionTree k) (a : k.Item) (m : Model) :
    (t.condition.check a m).calls = t.leaves.flatMap (fun c => (c.check a m).calls) := by
  induction t with
  | leaf c => exact (List.append_nil _).symm
  | join j left right description ihleft ihright =>
      rw [condition, Condition.join, Consulted.calls_bind, Consulted.calls_bind,
        Consulted.calls_pure, List.append_nil, ihleft a, ihright a, leaves,
        List.flatMap_append]
  | renamed inner description ih => exact ih a
  | widened w inner ih =>
      rw [leaves, List.flatMap_map]
      exact ih (w.apply a)

/-- The tree of a chain: a first tree, and others linked to it one after the other. -/
def chained (first : ConditionTree k) (others : List (Join × ConditionTree k)) :
    ConditionTree k :=
  others.foldl (fun root next => linked next.1 root next.2) first

theorem condition_chained (first : ConditionTree k)
    (others : List (Join × ConditionTree k)) :
    (first.chained others).condition =
      first.condition.chained (others.map (fun next => (next.1, next.2.condition))) := by
  induction others generalizing first with
  | nil => rfl
  | cons next rest ih => exact ih _

end ConditionTree

/-! ## Filters -/

namespace Narrowing

variable {k : Kind} {c : Collection}

/-- The questions that the filter of some links asks about an item. -/
def walk (ns : List (Narrowing k)) (a : k.Item) : List (Consulted Bool) :=
  (filterTree? ns).elim [] (fun t => t.walk a)

theorem calls_passes_narrowed (ns : List (Narrowing c.kind)) (a : c.Item) :
    (Predicate.passes (narrowed ns).filter a).calls =
      (walk ns a).flatMap Consulted.calls := by
  rw [filter_narrowed, walk]
  cases filterTree? ns with
  | none => rfl
  | some t => exact t.calls_test a

end Narrowing

/-! ## Rules -/

namespace RuleContent

variable (r : RuleContent) (m : Model)

theorem calls_examine (a : r.collection.Item) :
    (r.examine m a).calls = (Predicate.passes r.filter a).calls ++
      if (Predicate.passes r.filter a).value then (r.condition.check a m).calls
      else [] := by
  rw [examine, Consulted.calls_bind]
  cases (Predicate.passes r.filter a).value with
  | true => exact congrArg _ (List.append_nil _)
  | false => rfl

theorem calls_examineAll (items : List r.collection.Item) :
    (r.examineAll m items).calls = items.flatMap (fun a => (r.examine m a).calls) := by
  induction items with
  | nil => rfl
  | cons a rest ih =>
      rw [examineAll, Consulted.calls_bind, Consulted.calls_bind, Consulted.calls_pure,
        List.append_nil, ih, List.flatMap_cons]

end RuleContent

namespace Rule

theorem calls_evaluate (r : Rule) (m : Model) :
    (r.evaluate m).calls =
      (r.content.collection.collect m).flatMap
        (fun a => (r.content.examine m a).calls) := by
  rw [evaluate, Consulted.calls_bind, Consulted.calls_pure, List.append_nil,
    RuleContent.calls_examineAll]

/-- One evaluation consults, for one item after the other: those whom the filter asks on
its walk, and then, if the filter accepts the item, the leaves of the condition, each once
and from left to right.  Whether the filter accepts is the Boolean value of what its links
say.  A name, a reason and a setting for empty selections change nothing.  Predicates
about some annotation and about some declared throwable ask about one type after the
other, up to the first that is accepted. -/
theorem evaluate_consults (m : Model) {c : Collection} (ns : List (Narrowing c.kind))
    (first : ConditionTree c.kind) (others : List (Join × ConditionTree c.kind))
    (name reason : Option Text) (emptyAllowed : Option Bool) :
    (∃ ch, (ChainExpr.written ns first.condition
        (others.map (fun next => (next.1, next.2.condition)))).build = .ok ch ∧
      (({ ch.rule with otherDescription := name, reason, emptyAllowed } : Rule).evaluate
        m).calls =
        (c.collect m).flatMap (fun a =>
          (Narrowing.walk ns a).flatMap Consulted.calls ++
            if Narrowing.keeps ns a then
              (first.chained others).leaves.flatMap (fun leaf => (leaf.check a m).calls)
            else []) ∧
      ∀ a, (Predicate.passes ch.selection.filter a).value = Narrowing.keeps ns a) ∧
    (∀ a, Narrowing.keeps ns a =
      (Narrowing.filterTree? ns).elim true (fun t => t.holds a)) ∧
    (∀ (p : Predicate TypeName) (e : Element),
      ((Predicate.annotated p).test e).calls =
        (Consulted.throughFirst p.accepts e.annotations).flatMap
          (fun t => (p.test t).calls)) ∧
    (∀ (p : Predicate TypeName) (u : CodeUnit),
      ((Predicate.throwing p).test u).calls =
        (Consulted.throughFirst p.accepts u.decl.throws).flatMap
          (fun t => (p.test t).calls)) := by
  refine ⟨?_, fun a => (Narrowing.holds_filterTree? ns a).symm, ?_, ?_⟩
  · let root := (first.chained others).condition
    let ch := (Narrowing.narrowed ns).should root
    have hbuild : (ChainExpr.written ns first.condition
        (others.map (fun next => (next.1, next.2.condition)))).build = .ok ch := by
      rw [ChainExpr.build_written, ← ConditionTree.condition_chained]
    have hitem : ∀ a : c.Item, (ch.rule.content.examine m a).calls =
        (Narrowing.walk ns a).flatMap Consulted.calls ++
          if Narrowing.keeps ns a then
            (first.chained others).leaves.flatMap (fun leaf => (leaf.check a m).calls)
          else [] := by
      intro a
      rw [← ConditionTree.calls_check, ← Narrowing.calls_passes_narrowed,
        ← Narrowing.value_passes_narrowed]
      exact ch.rule.content.calls_examine m a
    refine ⟨ch, hbuild, ?_, Narrowing.value_passes_narrowed ns⟩
    rw [calls_evaluate]
    exact List.flatMap_congr fun a _ => hitem a
  · intro p e
    exact Consulted.calls_anyInOrder p.test e.annotations
  · intro p u
    exact Consulted.calls_anyInOrder p.test u.decl.throws

-- The second link is not asked, since the first one refuses; both leaves are, although
-- the first one is satisfied.
example :
    let c : Class :=
      { id := ⟨0, 0⟩, name := ⟨"p.A"⟩, modifiers := .empty, sourceFile := "A.java",
        analyzed := true }
    let m : Model := { classes := [c], edges := #[] }
    let ask := fun (label : Text) (answer : Bool) =>
      (Predicate.user label (some label) (fun _ => answer) : Predicate Class)
    let leaf := fun (label : Text) (violated : Bool) =>
      (Condition.fixed label (some label) [(violated, label)] : Condition Class)
    let selection : Selection .classes :=
      (({} : Selection .classes).that (ask "no" false)).that (ask "maybe" true)
    let ch := ((selection.orThat (ask "yes" true)).should (leaf "a" false)).orShould
      (leaf "b" true)
    (ch.rule.evaluate m).calls.map Consultation.render =
      ["no:p.A", "yes:p.A", "a:p.A", "b:p.A"] := by
  decide

end Rule

end Conformance
