import Conformance.Rule.Assertion
import Conformance.Rule.Kind

/-!
# Judging conditions

Most conditions judge an item by a predicate: they report one event about it, which is
violated when the predicate refuses the item, and they have a text for either outcome.
Such a condition can be judged by its predicate alone.  To deny a predicate is to report
the same findings with the other verdict.
-/

namespace Conformance

namespace Event

/-- The same finding with the other verdict. -/
def opposite (e : Event) : Event :=
  { e with violated := !e.violated }

@[simp]
theorem opposite_opposite (e : Event) : e.opposite.opposite = e := by
  rw [opposite, opposite, Bool.not_not]

/-- The finding about an item for which a judgement has come out. -/
def judged {α : Type} [ToElement α] (fail pass : Text) (a : α) (accepted : Bool) :
    Event :=
  about a (!accepted) (if accepted then pass else fail)

/-- With the other verdict, the two texts change places. -/
theorem opposite_judged {α : Type} [ToElement α] (fail pass : Text) (a : α)
    (accepted : Bool) :
    (judged fail pass a accepted).opposite = judged pass fail a (!accepted) := by
  cases accepted <;> rfl

/-- An item of a wider kind is the same element. -/
theorem judged_apply {j k : Kind} (w : Widening j k) (fail pass : Text) (a : j.Item)
    (accepted : Bool) :
    judged fail pass (w.apply a) accepted = judged fail pass a accepted := by
  have helement : toElement (w.apply a) = toElement a := w.itemElement_apply a
  simp only [judged, about, helement]

end Event

namespace Condition

/-- The condition judges every item by the predicate, in one of two texts, and consults
whom the predicate consults. -/
def Judges {k : Kind} (c : Condition k.Item) (p : Predicate k.Item)
    (fail pass : Text) : Prop :=
  ∀ a m, c.check a m = (fun accepted => [Event.judged fail pass a accepted]) <$> p.test a

/-- The second condition finds what the first one finds, with the other verdict. -/
def Mirrors {k : Kind} (c c' : Condition k.Item) : Prop :=
  ∀ a m, c'.check a m = List.map Event.opposite <$> c.check a m

section

variable {j k : Kind} {c c' : Condition k.Item} {p : Predicate k.Item} {fail pass : Text}

theorem judges_judging (description : Text) (p : Predicate k.Item) (fail pass : Text) :
    Judges (judging description p fail pass) p fail pass := by
  intro a m
  have hbranch : ∀ accepted : Bool,
      (if accepted then pure [Event.about a false pass]
       else pure [Event.about a true fail] :
        Consulted (List Event)) = pure [Event.judged fail pass a accepted] := by
    intro accepted
    cases accepted <;> rfl
  rw [map_eq_pure_bind]
  exact congrArg (p.test a >>= ·) (funext hbranch)

theorem judges_asserting (words : Wording) (object : Text) (p : Predicate k.Item) :
    Judges (asserting words object p) p
      (words.missing ++ " " ++ object) (words.present ++ " " ++ object) :=
  judges_judging _ p _ _

/-- What denies a predicate is the mirror image of what asserts it. -/
theorem mirrors_denying (words : Wording) (object : Text) (p : Predicate k.Item) :
    Mirrors (asserting words object p) (denying words object p) := by
  intro a m
  have hnot : p.not.test a = (fun accepted => !accepted) <$> p.test a := by
    rw [map_eq_pure_bind]
    rfl
  rw [judges_asserting words object p a m, denying, judges_judging _ p.not _ _ a m, hnot,
    Functor.map_map, Functor.map_map]
  simp only [List.map_cons, List.map_nil, Event.opposite_judged]

/-- Descriptions do not matter. -/
theorem Judges.renamed (h : Judges c p fail pass) (description description' : Text) :
    Judges (c.renamed description) (p.renamed description') fail pass :=
  fun a m => h a m

theorem Judges.along (h : Judges c p fail pass) (w : Widening j k) :
    Judges (c.along w.apply) (p.along w.apply) fail pass := by
  intro a m
  refine (h (w.apply a) m).trans ?_
  simp only [Event.judged_apply]
  rfl

theorem Mirrors.along (h : Mirrors c c') (w : Widening j k) :
    Mirrors (c.along w.apply) (c'.along w.apply) :=
  fun a m => h (w.apply a) m

theorem Judges.value_check (h : Judges c p fail pass) (a : k.Item) (m : Model) :
    (c.check a m).value = [Event.judged fail pass a (p.accepts a)] := by
  rw [h a m]
  rfl

theorem Mirrors.value_check (h : Mirrors c c') (a : k.Item) (m : Model) :
    (c'.check a m).value = (c.check a m).value.map Event.opposite := by
  rw [h a m]
  rfl

end

end Condition

end Conformance
