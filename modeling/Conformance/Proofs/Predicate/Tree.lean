import Conformance.Expression.Predicate

/-!
# Predicate trees

A predicate tree keeps the way a predicate was put together, as a condition tree does for
conditions.  What the predicate answers is the Boolean value of the tree.  Whom it asks on
the way is another matter: a walk through the tree goes from left to right and leaves out
every part that can no longer change the answer.
-/

namespace Conformance

namespace Consulted

variable {α : Type}

/-- The items up to the first one with a property, and that one. -/
def throughFirst (p : α → Bool) (items : List α) : List α :=
  items.takeWhile (fun a => !p a) ++ (items.find? p).toList

theorem throughFirst_cons (p : α → Bool) (a : α) (rest : List α) :
    throughFirst p (a :: rest) = a :: if p a then [] else throughFirst p rest := by
  cases h : p a <;> simp [throughFirst, h]

theorem anyInOrder_cons (test : α → Consulted Bool) (a : α) (rest : List α) :
    anyInOrder test (a :: rest) =
      test a >>= fun passed => if passed then pure true else anyInOrder test rest := rfl

theorem anyInOrder_singleton (test : α → Consulted Bool) (a : α) :
    anyInOrder test [a] = test a := by
  rw [anyInOrder_cons]
  apply Consulted.ext
  · rw [value_bind]
    cases (test a).value <;> rfl
  · rw [calls_bind]
    cases (test a).value <;> exact List.append_nil _

@[simp]
theorem value_anyInOrder (test : α → Consulted Bool) (items : List α) :
    (anyInOrder test items).value = items.any (fun a => (test a).value) := by
  induction items with
  | nil => rfl
  | cons a rest ih =>
      rw [anyInOrder_cons, value_bind, List.any_cons]
      cases h : (test a).value with
      | true => rfl
      | false => simpa using ih

@[simp]
theorem calls_anyInOrder (test : α → Consulted Bool) (items : List α) :
    (anyInOrder test items).calls =
      (throughFirst (fun a => (test a).value) items).flatMap
        (fun a => (test a).calls) := by
  induction items with
  | nil => rfl
  | cons a rest ih =>
      rw [anyInOrder_cons, calls_bind, throughFirst_cons, List.flatMap_cons]
      cases h : (test a).value with
      | true => rfl
      | false => simpa using ih

end Consulted

namespace Aspect

/-- What the item has of the aspect. -/
def parts {s : Subject} {k : Kind} : Aspect s k → k.Item → List s.Carrier
  | annotated, e => e.annotations
  | ownedBy, x => [x.owner]
  | ofType, f => [f.decl.rawType]
  | taking, u => [u.decl.parameters]
  | returning, u => [u.returnType]
  | throwing, u => u.decl.throws

/-- All aspects ask in the same way: part by part, up to the first that is accepted. -/
theorem test_predicate {s : Subject} {k : Kind} (a : Aspect s k) (p : Predicate s.Carrier)
    (x : k.Item) : (a.predicate p).test x = Consulted.anyInOrder p.test (a.parts x) := by
  cases a with
  | annotated => rfl
  | ownedBy => exact (Consulted.anyInOrder_singleton p.test x.owner).symm
  | ofType => exact (Consulted.anyInOrder_singleton p.test x.decl.rawType).symm
  | taking => exact (Consulted.anyInOrder_singleton p.test x.decl.parameters).symm
  | returning => exact (Consulted.anyInOrder_singleton p.test x.returnType).symm
  | throwing => rfl

end Aspect

/-- The way a predicate about a subject was put together. -/
inductive PredicateTree : Subject → Type where
  | leaf {s : Subject} (p : Predicate s.Carrier) : PredicateTree s
  | and {s : Subject} (left right : PredicateTree s) : PredicateTree s
  | or {s : Subject} (left right : PredicateTree s) : PredicateTree s
  | not {s : Subject} (inner : PredicateTree s) : PredicateTree s
  | renamed {s : Subject} (inner : PredicateTree s) (description : Text) : PredicateTree s
  | widened {j k : Kind} (w : Widening j k) (inner : PredicateTree (.item k)) :
      PredicateTree (.item j)
  | aspect {s : Subject} {k : Kind} (a : Aspect s k) (inner : PredicateTree s) :
      PredicateTree (.item k)

namespace PredicateTree

/-- The predicate that was put together. -/
def predicate : {s : Subject} → PredicateTree s → Predicate s.Carrier
  | _, leaf p => p
  | _, and left right => left.predicate.and right.predicate
  | _, or left right => left.predicate.or right.predicate
  | _, not inner => inner.predicate.not
  | _, renamed inner description => inner.predicate.renamed description
  | _, widened w inner => inner.predicate.along w.apply
  | _, aspect a inner => a.predicate inner.predicate

/-- The expression that says how to put the predicate together. -/
def expr : {s : Subject} → PredicateTree s → PredicateExpr s
  | _, leaf p => .atom p
  | _, and left right => .and left.expr right.expr
  | _, or left right => .or left.expr right.expr
  | _, not inner => .not inner.expr
  | _, renamed inner description => .renamed inner.expr description
  | _, widened w inner => .widened w inner.expr
  | _, aspect a inner => .aspect a inner.expr

/-- The Boolean value of the tree, given what each leaf answers. -/
def holds : {s : Subject} → PredicateTree s → s.Carrier → Bool
  | _, leaf p, a => p.accepts a
  | _, and left right, a => left.holds a && right.holds a
  | _, or left right, a => left.holds a || right.holds a
  | _, not inner, a => !inner.holds a
  | _, renamed inner _, a => inner.holds a
  | _, widened w inner, a => inner.holds (w.apply a)
  | _, aspect asp inner, a => (asp.parts a).any (fun part => inner.holds part)

/-- The questions to leaves, in their order.  The right side of *and* is asked only when
the left one holds, the right side of *or* only when it does not, and of several parts
only those up to the first that is accepted. -/
def walk : {s : Subject} → PredicateTree s → s.Carrier → List (Consulted Bool)
  | _, leaf p, a => [p.test a]
  | _, and left right, a => left.walk a ++ if left.holds a then right.walk a else []
  | _, or left right, a => left.walk a ++ if left.holds a then [] else right.walk a
  | _, not inner, a => inner.walk a
  | _, renamed inner _, a => inner.walk a
  | _, widened w inner, a => inner.walk (w.apply a)
  | _, aspect asp inner, a =>
      (Consulted.throughFirst (fun part => inner.holds part) (asp.parts a)).flatMap
        (fun part => inner.walk part)

variable {s : Subject}

/-- Every tree can be written down. -/
theorem build_expr (t : PredicateTree s) : t.expr.build = .ok (some t.predicate) := by
  induction t with
  | leaf p => rfl
  | and left right ihleft ihright =>
      rw [expr, PredicateExpr.build, ihleft, ihright]
      rfl
  | or left right ihleft ihright =>
      rw [expr, PredicateExpr.build, ihleft, ihright]
      rfl
  | not inner ih =>
      rw [expr, PredicateExpr.build, ih]
      rfl
  | renamed inner description ih =>
      rw [expr, PredicateExpr.build, ih]
      rfl
  | widened w inner ih =>
      rw [expr, PredicateExpr.build, ih]
      rfl
  | aspect a inner ih =>
      rw [expr, PredicateExpr.build, ih]
      rfl

/-- The predicate answers with the value of the tree. -/
theorem value_test (t : PredicateTree s) (a : s.Carrier) :
    (t.predicate.test a).value = t.holds a := by
  induction t with
  | leaf p => rfl
  | and left right ihleft ihright =>
      rw [holds, ← ihleft a, ← ihright a, predicate, Predicate.and, Consulted.value_bind]
      cases (left.predicate.test a).value <;> rfl
  | or left right ihleft ihright =>
      rw [holds, ← ihleft a, ← ihright a, predicate, Predicate.or, Consulted.value_bind]
      cases (left.predicate.test a).value <;> rfl
  | not inner ih =>
      rw [holds, ← ih a]
      rfl
  | renamed inner description ih => exact ih a
  | widened w inner ih => exact ih (w.apply a)
  | aspect asp inner ih =>
      rw [predicate, asp.test_predicate, Consulted.value_anyInOrder]
      simp only [ih]
      rfl

/-- The predicate consults whom the leaves on the walk consult. -/
theorem calls_test (t : PredicateTree s) (a : s.Carrier) :
    (t.predicate.test a).calls = (t.walk a).flatMap Consulted.calls := by
  induction t with
  | leaf p => exact (List.append_nil _).symm
  | and left right ihleft ihright =>
      -- The right side is tested behind a branch, and on the walk it stands behind the
      -- same one.
      have hright : ∀ answer : Bool,
          (if answer then right.predicate.test a else pure false).calls =
            (if answer then right.walk a else []).flatMap Consulted.calls := by
        intro answer
        cases answer with
        | true => exact ihright a
        | false => rfl
      rw [predicate, Predicate.and, Consulted.calls_bind, left.value_test, ihleft a, walk,
        List.flatMap_append]
      exact congrArg _ (hright (left.holds a))
  | or left right ihleft ihright =>
      have hright : ∀ answer : Bool,
          (if answer then pure true else right.predicate.test a).calls =
            (if answer then [] else right.walk a).flatMap Consulted.calls := by
        intro answer
        cases answer with
        | true => rfl
        | false => exact ihright a
      rw [predicate, Predicate.or, Consulted.calls_bind, left.value_test, ihleft a, walk,
        List.flatMap_append]
      exact congrArg _ (hright (left.holds a))
  | not inner ih =>
      rw [predicate, Predicate.not, Consulted.calls_bind, ih a]
      exact List.append_nil _
  | renamed inner description ih => exact ih a
  | widened w inner ih => exact ih (w.apply a)
  | aspect asp inner ih =>
      rw [predicate, asp.test_predicate, Consulted.calls_anyInOrder, walk,
        List.flatMap_assoc]
      simp only [ih, value_test]

end PredicateTree

end Conformance
