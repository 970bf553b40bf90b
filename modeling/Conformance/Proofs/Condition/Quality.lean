import Conformance.Expression.Condition
import Conformance.Proofs.Condition.Judging

/-!
# Qualities

Much of what a filter can ask of an item, a condition can assert about it.  A quality
stands for both.  Where it is about something that the item has, such as its type, this is
compared with types given outright, with types given by name, or by any predicate.  The
condition judges the items by the filter; and some qualities can be denied as well.
-/

namespace Conformance

namespace Subject

/-- The names that things can be given by. -/
@[reducible]
def Names : Subject → Type
  | type => Text
  | typeList => List Text
  | item _ => Text

/-- What the names stand for. -/
def called : (s : Subject) → s.Names → s.Given
  | type => TypeName.mk
  | typeList => List.map TypeName.mk
  | item _ => TypeName.mk

end Subject

/-- What an aspect of an item is compared with. -/
inductive Operand (s : Subject) where
  | given (x : s.Given)
  | named (x : s.Names)
  | accepted (p : Predicate s.Carrier)

/-- The predicate that the aspect is compared by. -/
def Operand.predicate {s : Subject} {k : Kind} (a : Aspect s k) :
    Operand s → Predicate s.Carrier
  | given x => a.comparison x
  | named x => a.comparison (s.called x)
  | accepted p => p

namespace Operand

variable {s : Subject} {k : Kind}

/-- The operand as it is written. -/
def form : Operand s → Form s
  | given x => .given x
  | named x => .given (s.called x)
  | accepted p => .matching (.atom p)

theorem build_form (a : Aspect s k) (o : Operand s) :
    (o.form.expression a).build = .ok (some (o.predicate a)) := by
  cases o <;> rfl

/-- A filter that is written with the operand asks the predicate of the operand. -/
theorem build_aspect (a : Aspect s k) (o : Operand s) :
    (PredicateExpr.aspect a (o.form.expression a)).build =
      .ok (some (a.predicate (o.predicate a))) := by
  rw [PredicateExpr.build, o.build_form a]
  rfl

/-- An assertion that is written with the operand asserts the predicate of the operand. -/
theorem build_assertion (b : Assertion s k) (o : Operand s) :
    (ConditionExpr.assertion b (o.form.expression b.aspect)).build =
      .ok (some (b.condition (o.predicate b.aspect))) := by
  rw [ConditionExpr.build, o.build_form b.aspect]
  rfl

end Operand

/-- The assertion that an aspect of an item is accepted. -/
def Aspect.assertion {s : Subject} {k : Kind} : Aspect s k → Assertion s k
  | annotated => .annotated
  | ownedBy => .ownedBy
  | ofType => .ofType
  | taking => .taking
  | returning => .returning
  | throwing => .throwing

/-- The assertion judges items by the filter about the same aspect. -/
theorem Aspect.exists_judges {s : Subject} {k : Kind} (a : Aspect s k)
    (p : Predicate s.Carrier) :
    ∃ fail pass, (a.assertion.condition p).Judges (a.predicate p) fail pass := by
  cases a with
  | annotated => exact ⟨_, _, Condition.judges_asserting (k := .elements) .annotated _ _⟩
  | ownedBy => exact ⟨_, _, Condition.judges_asserting (k := .members) .ownedBy _ _⟩
  | ofType =>
      exact ⟨_, _, Condition.judges_asserting (k := .fields) (.having "raw type") _ _⟩
  | taking =>
      exact ⟨_, _,
        Condition.judges_asserting (k := .codeUnits) (.having "raw parameter types") _ _⟩
  | returning =>
      exact ⟨_, _, Condition.judges_asserting (k := .codeUnits)
        (.having "raw return type") _ _⟩
  | throwing => exact ⟨_, _, Condition.judges_asserting (k := .codeUnits) .throwing _ _⟩

/-- What a filter can ask of the items of a kind, and a condition can assert about
them. -/
inductive Quality : Kind → Type where
  | aspect {s : Subject} {k : Kind} (a : Aspect s k) (o : Operand s) : Quality k
  | modifier (m : Modifier) : Quality .elements
  | isPublic : Quality .elements
  | isProtected : Quality .elements
  | isPrivate : Quality .elements
  | isPackagePrivate : Quality .elements
  | name (name : Text) : Quality .elements
  | package (identifier : Text) : Quality .classes
  | simpleNameEnding (suffix : Text) : Quality .classes

namespace Quality

variable {k : Kind}

/-- The predicate that asks for the quality. -/
def filter : {k : Kind} → Quality k → Predicate k.Item
  | _, aspect a o => a.predicate (o.predicate a)
  | _, modifier m => .hasModifier m
  | _, isPublic => .isPublic
  | _, isProtected => .isProtected
  | _, isPrivate => .isPrivate
  | _, isPackagePrivate => .isPackagePrivate
  | _, name text => .named text
  | _, package identifier => .inPackage identifier
  | _, simpleNameEnding suffix => .simpleNameEnds suffix

/-- The condition that asserts the quality. -/
def condition : {k : Kind} → Quality k → Condition k.Item
  | _, aspect a o => a.assertion.condition (o.predicate a)
  | _, modifier m => .hasModifier m
  | _, isPublic => .isPublic
  | _, isProtected => .isProtected
  | _, isPrivate => .isPrivate
  | _, isPackagePrivate => .isPackagePrivate
  | _, name text => .named text
  | _, package identifier => .inPackage identifier
  | _, simpleNameEnding suffix => .simpleNameEnds suffix

theorem aspect_assertion {s : Subject} (a : Aspect s k) : a.assertion.aspect = a := by
  cases a <;> rfl

/-- The filter and the condition about an aspect are what is built when they are
written. -/
theorem build_aspect {s : Subject} (a : Aspect s k) (o : Operand s) :
    (PredicateExpr.aspect a (o.form.expression a)).build =
      .ok (some (aspect a o).filter) ∧
      (ConditionExpr.assertion a.assertion (o.form.expression a)).build =
        .ok (some (aspect a o).condition) := by
  have hassertion := o.build_assertion a.assertion
  rw [aspect_assertion] at hassertion
  exact ⟨o.build_aspect a, hassertion⟩

/-- The filter and the condition about a package are what an accepted identifier gives. -/
theorem inPackage?_of_accept {identifier : Text}
    (h : Package.accept identifier = .ok ()) :
    Predicate.inPackage? identifier = .ok (package identifier).filter ∧
      Condition.inPackage? identifier = .ok (package identifier).condition := by
  have hpredicate : Predicate.inPackage? identifier =
      .ok (package identifier).filter := by
    rw [Predicate.inPackage?, h]
    rfl
  refine ⟨hpredicate, ?_⟩
  rw [Condition.inPackage?, hpredicate]
  rfl

theorem judges_hasModifier (m : Modifier) :
    (Condition.hasModifier m).Judges (k := .elements) (.hasModifier m)
      ("does not have modifier" ++ " " ++ m.label) ("has modifier" ++ " " ++ m.label) :=
  Condition.judges_asserting (k := .elements) (.having "modifier") m.label
    (.hasModifier m)

/-- The condition judges items by the filter, whatever the quality is compared with. -/
theorem exists_judges (q : Quality k) :
    ∃ fail pass, q.condition.Judges q.filter fail pass := by
  cases q with
  | aspect a o => exact a.exists_judges (o.predicate a)
  | modifier m => exact ⟨_, _, judges_hasModifier m⟩
  | isPublic => exact ⟨_, _, (judges_hasModifier .pub).renamed "be public" "are public"⟩
  | isProtected =>
      exact ⟨_, _, (judges_hasModifier .prot).renamed "be protected" "are protected"⟩
  | isPrivate =>
      exact ⟨_, _, (judges_hasModifier .priv).renamed "be private" "are private"⟩
  | isPackagePrivate => exact ⟨_, _, Condition.judges_judging (k := .elements) _ _ _ _⟩
  | name text =>
      exact ⟨_, _, Condition.judges_asserting (k := .elements) (.having "name") _ _⟩
  | package identifier =>
      exact ⟨_, _, Condition.judges_asserting (k := .classes) .residing _ _⟩
  | simpleNameEnding suffix =>
      exact ⟨_, _,
        Condition.judges_asserting (k := .classes)
          (.having "simple name ending with") _ _⟩

end Quality

/-- The qualities that can be denied. -/
inductive Deniable : Kind → Type where
  | modifier (m : Modifier) : Deniable .elements
  | annotated (o : Operand .type) : Deniable .elements
  | taking (o : Operand .typeList) : Deniable .codeUnits
  | returning (o : Operand .type) : Deniable .codeUnits
  | throwing (o : Operand .type) : Deniable .codeUnits

namespace Deniable

variable {k : Kind}

/-- The quality itself. -/
def quality : {k : Kind} → Deniable k → Quality k
  | _, modifier m => .modifier m
  | _, annotated o => .aspect .annotated o
  | _, taking o => .aspect .taking o
  | _, returning o => .aspect .returning o
  | _, throwing o => .aspect .throwing o

/-- The condition that denies the quality. -/
def denial : {k : Kind} → Deniable k → Condition k.Item
  | _, modifier m => .lacksModifier m
  | _, annotated o => Assertion.notAnnotated.condition (o.predicate .annotated)
  | _, taking o => Assertion.notTaking.condition (o.predicate .taking)
  | _, returning o => Assertion.notReturning.condition (o.predicate .returning)
  | _, throwing o => Assertion.notThrowing.condition (o.predicate .throwing)

/-- The denials of what an aspect is compared with are what is built when they are
written. -/
theorem build_denials (o : Operand .type) (ts : Operand .typeList) :
    (ConditionExpr.assertion .notAnnotated (o.form.expression .annotated)).build =
        .ok (some (annotated o).denial) ∧
      (ConditionExpr.assertion .notTaking (ts.form.expression .taking)).build =
        .ok (some (taking ts).denial) ∧
      (ConditionExpr.assertion .notReturning (o.form.expression .returning)).build =
        .ok (some (returning o).denial) ∧
      (ConditionExpr.assertion .notThrowing (o.form.expression .throwing)).build =
        .ok (some (throwing o).denial) :=
  ⟨o.build_assertion .notAnnotated, ts.build_assertion .notTaking,
    o.build_assertion .notReturning, o.build_assertion .notThrowing⟩

/-- To deny a quality is to find what asserting it finds, with the other verdict. -/
theorem mirrors_denial (d : Deniable k) : d.quality.condition.Mirrors d.denial := by
  cases d with
  | modifier m =>
      exact Condition.mirrors_denying (k := .elements) (.having "modifier") m.label
        (.hasModifier m)
  | annotated o => exact Condition.mirrors_denying (k := .elements) .annotated _ _
  | taking o =>
      exact Condition.mirrors_denying (k := .codeUnits)
        (.having "raw parameter types") _ _
  | returning o =>
      exact Condition.mirrors_denying (k := .codeUnits) (.having "raw return type") _ _
  | throwing o => exact Condition.mirrors_denying (k := .codeUnits) .throwing _ _

end Deniable

end Conformance
