import Conformance.Expression.Rule
import Conformance.Proofs.Predicate.Tree
import Conformance.Proofs.Rule.Selected

/-!
# Narrowed selections

A selection is narrowed link by link, and every link acts on what the links before it have
left.  The first link is special: it keeps what its predicate accepts, whatever its word.
The links also make a filter, and the filter accepts what they keep.
-/

namespace Conformance

namespace FilterWord

/-- Is an item kept by one more link, given whether it was kept before and is accepted
now? -/
def combine : FilterWord → Bool → Bool → Bool
  | that, kept, accepted => kept && accepted
  | andThat, kept, accepted => kept && accepted
  | orThat, kept, accepted => kept || accepted

/-- The predicate tree so far, joined with the one of the link. -/
def joinTrees {s : Subject} :
    FilterWord → PredicateTree s → PredicateTree s → PredicateTree s
  | that => .and
  | andThat => .and
  | orThat => .or

theorem holds_joinTrees {s : Subject} (w : FilterWord) (t u : PredicateTree s)
    (a : s.Carrier) :
    (w.joinTrees t u).holds a = w.combine (t.holds a) (u.holds a) := by
  cases w <;> rfl

end FilterWord

/-- A link that narrows a selection: its word and a predicate about the items, or about
items of a wider kind. -/
structure Narrowing (k : Kind) where
  word : FilterWord
  target : Kind
  view : Widening k target
  operand : PredicateTree (.item target)

namespace Narrowing

variable {k : Kind} {c : Collection}

/-- The predicate tree of the link, for the items themselves. -/
def tree (n : Narrowing k) : PredicateTree (.item k) :=
  .widened n.view n.operand

/-- Does the predicate of the link accept the item? -/
def accepts (n : Narrowing k) (a : k.Item) : Bool :=
  n.operand.predicate.accepts (n.view.apply a)

/-- The link as it is written. -/
def link (n : Narrowing k) : FilterLink k :=
  { word := n.word
    argument := { target := n.target, widening := n.view, expr := n.operand.expr } }

/-- Do the links together keep the item? -/
def keeps : List (Narrowing k) → k.Item → Bool
  | [], _ => true
  | first :: rest, a =>
      rest.foldl (fun kept n => n.word.combine kept (n.accepts a)) (first.accepts a)

/-- The filter that the links make together. -/
def filterTree? : List (Narrowing k) → Option (PredicateTree (.item k))
  | [] => none
  | first :: rest => some (rest.foldl (fun t n => n.word.joinTrees t n.tree) first.tree)

/-- The selection that the links make together. -/
def narrowed (ns : List (Narrowing c.kind)) : Selection c :=
  ns.foldl (fun s n => n.word.apply s n.tree.predicate) {}

theorem holds_tree (n : Narrowing k) (a : k.Item) : n.tree.holds a = n.accepts a :=
  (n.operand.value_test (n.view.apply a)).symm

/-! ## The filter of a narrowed selection -/

theorem filter_foldl (ns : List (Narrowing c.kind)) (t : PredicateTree (.item c.kind)) :
    (ns.foldl (fun s n => n.word.apply s n.tree.predicate)
        ({ filter := some t.predicate } : Selection c)).filter =
      some (ns.foldl (fun t n => n.word.joinTrees t n.tree) t).predicate := by
  -- Only an empty selection treats its first link in a special way, so here the filter so
  -- far is arbitrary.
  induction ns generalizing t with
  | nil => rfl
  | cons n rest ih =>
      have hstep : n.word.apply
          ({ filter := some t.predicate } : Selection c) n.tree.predicate =
          { filter := some (n.word.joinTrees t n.tree).predicate } := by
        cases n.word <;> rfl
      rw [List.foldl_cons, List.foldl_cons, hstep, ih]

theorem filter_narrowed (ns : List (Narrowing c.kind)) :
    (narrowed ns).filter = (filterTree? ns).map PredicateTree.predicate := by
  cases ns with
  | nil => rfl
  | cons first rest =>
      have hfirst : first.word.apply ({} : Selection c) first.tree.predicate =
          { filter := some first.tree.predicate } := by
        cases first.word <;> rfl
      rw [narrowed, List.foldl_cons, hfirst, filter_foldl]
      rfl

theorem holds_foldl (ns : List (Narrowing k)) (t : PredicateTree (.item k)) (a : k.Item) :
    (ns.foldl (fun t n => n.word.joinTrees t n.tree) t).holds a =
      ns.foldl (fun kept n => n.word.combine kept (n.accepts a)) (t.holds a) := by
  induction ns generalizing t with
  | nil => rfl
  | cons n rest ih =>
      rw [List.foldl_cons, List.foldl_cons, ih, FilterWord.holds_joinTrees, holds_tree]

theorem holds_filterTree? (ns : List (Narrowing k)) (a : k.Item) :
    (filterTree? ns).elim true (fun t => t.holds a) = keeps ns a := by
  cases ns with
  | nil => rfl
  | cons first rest => rw [filterTree?, Option.elim_some, holds_foldl, holds_tree, keeps]

theorem value_passes_map (t? : Option (PredicateTree (.item k))) (a : k.Item) :
    (Predicate.passes (t?.map PredicateTree.predicate) a).value =
      t?.elim true (fun t => t.holds a) := by
  cases t? with
  | none => rfl
  | some t => exact t.value_test a

theorem value_passes_narrowed (ns : List (Narrowing c.kind)) (a : c.Item) :
    (Predicate.passes (narrowed ns).filter a).value = keeps ns a := by
  rw [filter_narrowed, value_passes_map, holds_filterTree?]

/-- A narrowed selection consists of the items that the links keep. -/
theorem value_items_narrowed (ns : List (Narrowing c.kind)) (m : Model) :
    ((narrowed ns).items m).value = (c.collect m).filter (keeps ns) := by
  rw [Selection.value_items]
  exact List.filter_congr fun a _ => value_passes_narrowed ns a

theorem keeps_concat_andThat (ns : List (Narrowing k)) {target : Kind}
    (view : Widening k target) (operand : PredicateTree (.item target)) (a : k.Item) :
    keeps (ns ++ [⟨.andThat, target, view, operand⟩]) a =
      (keeps ns a && operand.predicate.accepts (view.apply a)) := by
  cases ns with
  | nil => rfl
  | cons first rest =>
      rw [List.cons_append, keeps, keeps, List.foldl_append]
      rfl

end Narrowing

/-! ## Written chains -/

/-- The condition of a chain: a first one, and others joined to it one after the other. -/
def Condition.chained {α : Type} [ToElement α] (first : Condition α)
    (others : List (Join × Condition α)) : Condition α :=
  others.foldl (fun root next => root.join next.1 next.2
    (root.description ++ " " ++ next.1.word ++ " should " ++ next.2.description)) first

theorem Chain.foldl_join {c : Collection} (s : Selection c) (first : Condition c.Item)
    (others : List (Join × Condition c.Item)) :
    others.foldl (fun ch next => ch.join next.1 next.2) (s.should first) =
      s.should (first.chained others) := by
  induction others generalizing first with
  | nil => rfl
  | cons next rest ih => exact ih _

namespace ChainExpr

variable {c : Collection}

/-- A condition that is joined to a chain, as it is written. -/
def conditionLink (next : Join × Condition c.Item) : ShouldLink c.kind :=
  match next.1 with
  | .and => .andShould (.atom next.2)
  | .or => .orShould (.atom next.2)

/-- A chain as it is written: the links that narrow the selection, the first condition,
and the conditions that are joined to it. -/
def written (ns : List (Narrowing c.kind)) (first : Condition c.Item)
    (others : List (Join × Condition c.Item)) : ChainExpr c :=
  { filters := ns.map Narrowing.link
    first := .should (.atom first)
    others := others.map conditionLink }

theorem buildSelection_link (ns : List (Narrowing c.kind)) (s : Selection c) :
    buildSelection s (ns.map Narrowing.link) =
      .ok (ns.foldl (fun s n => n.word.apply s n.tree.predicate) s) := by
  induction ns generalizing s with
  | nil => rfl
  | cons n rest ih =>
      have hoperand : n.link.argument.buildDirect n.link.word.entry =
          .ok n.tree.predicate := by
        rw [Narrowing.link, PredicateArg.buildDirect, PredicateTree.build_expr]
        rfl
      rw [List.map_cons, buildSelection, hoperand, List.foldl_cons, ← ih]
      rfl

theorem extendChain_conditionLink (others : List (Join × Condition c.Item))
    (ch : Chain c) :
    extendChain ch (others.map conditionLink) =
      .ok (others.foldl (fun ch next => ch.join next.1 next.2) ch) := by
  induction others generalizing ch with
  | nil => rfl
  | cons next rest ih =>
      obtain ⟨j, condition⟩ := next
      rw [List.foldl_cons, ← ih]
      cases j <;> rfl

/-- A written chain has a meaning: its conditions on the narrowed selection. -/
theorem build_written (ns : List (Narrowing c.kind)) (first : Condition c.Item)
    (others : List (Join × Condition c.Item)) :
    (written ns first others).build =
      .ok ((Narrowing.narrowed ns).should (first.chained others)) := by
  rw [build, written, buildSelection_link, ← Chain.foldl_join,
    ← extendChain_conditionLink]
  rfl

end ChainExpr

end Conformance
