import Conformance.Proofs.Condition.Merge
import Conformance.Rule.Chain
import Conformance.Rule.CodingRules

/-!
# Condition trees

Conditions are put together from leaves by joining, renaming and widening.  A condition
tree keeps the way a condition was put together, so that what the condition reports can be
compared with what its leaves report.

Whether a tree is violated is read off its leaves with the rules for *and* and *or* alone.
A leaf is exposed when every joined node on the way from the root to it is violated; the
texts of the exposed leaves are what a merged message should consist of.
-/

namespace Conformance

/-- The way a condition on items of a kind was put together. -/
inductive ConditionTree : Kind → Type where
  | leaf {k : Kind} (c : Condition k.Item) : ConditionTree k
  | join {k : Kind} (j : Join) (left right : ConditionTree k) (description : Text) :
      ConditionTree k
  | renamed {k : Kind} (inner : ConditionTree k) (description : Text) : ConditionTree k
  | widened {j k : Kind} (w : Widening j k) (inner : ConditionTree k) : ConditionTree j

/-- What one leaf of a tree reports, with the verdicts of the joined nodes above it, the
root first. -/
structure LeafReport where
  above : List Bool
  events : List Event

namespace LeafReport

/-- The report seen from one more joined node above all others. -/
def under (verdict : Bool) (r : LeafReport) : LeafReport :=
  { r with above := verdict :: r.above }

/-- Is every joined node above the leaf violated? -/
def exposed (r : LeafReport) : Bool :=
  r.above.all id

/-- The messages of the violated events of the leaf. -/
def texts (r : LeafReport) : List Text :=
  Event.violations r.events

@[simp]
theorem exposed_under (verdict : Bool) (r : LeafReport) :
    (r.under verdict).exposed = (verdict && r.exposed) := rfl

@[simp]
theorem texts_under (verdict : Bool) (r : LeafReport) :
    (r.under verdict).texts = r.texts := rfl

end LeafReport

namespace ConditionTree

variable {k : Kind}

/-- The condition that was put together. -/
def condition : {k : Kind} → ConditionTree k → Condition k.Item
  | _, leaf c => c
  | _, join j left right description => left.condition.join j right.condition description
  | _, renamed inner description => inner.condition.renamed description
  | _, widened w inner => inner.condition.along w.apply

/-- Is the tree violated?  A leaf is when it reports a violated event. -/
def violated : {k : Kind} → ConditionTree k → k.Item → Model → Bool
  | _, leaf c, a, m => Event.anyViolated (c.check a m).value
  | _, join .and left right _, a, m => left.violated a m || right.violated a m
  | _, join .or left right _, a, m => left.violated a m && right.violated a m
  | _, renamed inner _, a, m => inner.violated a m
  | _, widened w inner, a, m => inner.violated (w.apply a) m

/-- What the leaves report, from left to right. -/
def leafReports : {k : Kind} → ConditionTree k → k.Item → Model → List LeafReport
  | _, leaf c, a, m => [{ above := [], events := (c.check a m).value }]
  | _, join j left right description, a, m =>
      (left.leafReports a m ++ right.leafReports a m).map
        (LeafReport.under ((join j left right description).violated a m))
  | _, renamed inner _, a, m => inner.leafReports a m
  | _, widened w inner, a, m => inner.leafReports (w.apply a) m

/-- The messages of the exposed leaves, from left to right. -/
def exposedTexts (t : ConditionTree k) (a : k.Item) (m : Model) : List Text :=
  ((t.leafReports a m).filter LeafReport.exposed).flatMap LeafReport.texts

/-- No leaf reports a violated event without words. -/
def Outspoken (t : ConditionTree k) (a : k.Item) (m : Model) : Prop :=
  ∀ r ∈ t.leafReports a m, ∀ text ∈ r.texts, text ≠ []

/-- The events of the leaf when the tree is a single leaf under new names and for narrower
kinds. -/
def loneEvents? : {k : Kind} → ConditionTree k → k.Item → Model → Option (List Event)
  | _, leaf c, a, m => some (c.check a m).value
  | _, join .., _, _ => none
  | _, renamed inner _, a, m => inner.loneEvents? a m
  | _, widened w inner, a, m => inner.loneEvents? (w.apply a) m

/-! ## The ways to write a joined node -/

/-- Two trees joined as conditions are. -/
def and (left right : ConditionTree k) : ConditionTree k :=
  join .and left right
    (left.condition.description ++ " and " ++ right.condition.description)

/-- Two trees of which one has to hold, joined as conditions are. -/
def or (left right : ConditionTree k) : ConditionTree k :=
  join .or left right
    (left.condition.description ++ " or " ++ right.condition.description)

/-- Two trees joined as the links of a chain are. -/
def linked (j : Join) (left right : ConditionTree k) : ConditionTree k :=
  join j left right
    (left.condition.description ++ " " ++ j.word ++ " should "
      ++ right.condition.description)

@[simp]
theorem condition_and (left right : ConditionTree k) :
    (left.and right).condition = left.condition.and right.condition := rfl

@[simp]
theorem condition_or (left right : ConditionTree k) :
    (left.or right).condition = left.condition.or right.condition := rfl

/-- A chain that has reached the left tree goes on to the linked tree. -/
theorem condition_linked {c : Collection} (s : Selection c) (j : Join)
    (left right : ConditionTree c.kind) :
    ((s.should left.condition).join j right.condition).condition =
      (linked j left right).condition := rfl

theorem condition_andShould {c : Collection} (s : Selection c)
    (left right : ConditionTree c.kind) :
    ((s.should left.condition).andShould right.condition).condition =
      (linked .and left right).condition := condition_linked s .and left right

theorem condition_orShould {c : Collection} (s : Selection c)
    (left right : ConditionTree c.kind) :
    ((s.should left.condition).orShould right.condition).condition =
      (linked .or left right).condition := condition_linked s .or left right

end ConditionTree

end Conformance
