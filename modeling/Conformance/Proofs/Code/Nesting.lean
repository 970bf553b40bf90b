import Conformance.Model.Draft
import Conformance.Proofs.Text.Parts

/-!
# Nested names

The full name of a class is put together from the segments of its package and from the
names of the classes around it.  The last dot and the last separator give the package and
the simple name back.  The outermost class is searched for from the other end, at the
first dollar sign, and there a dollar sign in the package stands in the way.
-/

namespace Conformance

/-- The parts of a class name: the segments of the package, and the chain of nested
classes, which begins with one that stands in no other.  A segment may contain dollar
signs. -/
structure NestedName where
  package : List Text
  outermost : Text
  nested : List Text
  segment_ne_nil : ∀ s ∈ package, s ≠ []
  dot_notMem_segment : ∀ s ∈ package, Text.dot ∉ s
  class_ne_nil : ∀ c ∈ outermost :: nested, c ≠ []
  dot_notMem_class : ∀ c ∈ outermost :: nested, Text.dot ∉ c
  dollar_notMem_class : ∀ c ∈ outermost :: nested, Text.dollar ∉ c

namespace NestedName

variable (n : NestedName)

/-- The segments of the package with dots between them. -/
def packageText : Text :=
  Text.join [Text.dot] n.package

/-- What stands before the chain: the package and a dot, or nothing. -/
def qualifier : Text :=
  if n.package = [] then [] else n.packageText ++ [Text.dot]

/-- The chain with dollar signs between its classes. -/
def chainText : Text :=
  Text.join [Text.dollar] (n.outermost :: n.nested)

/-- The name that the parts make. -/
def typeName : TypeName :=
  ⟨n.qualifier ++ n.chainText⟩

/-- The class at the end of the chain. -/
def innermost : Text :=
  (n.outermost :: n.nested).getLast (List.cons_ne_nil _ _)

theorem innermost_mem : n.innermost ∈ n.outermost :: n.nested :=
  List.getLast_mem _

theorem dot_notMem_chainText : Text.dot ∉ n.chainText := by
  intro hdot
  rcases Text.mem_join hdot with hseparator | ⟨c, hc, hmem⟩
  · revert hseparator
    decide
  · exact n.dot_notMem_class c hc hmem

theorem qualifier_eq_nil_or : n.qualifier = [] ∧ n.packageText = [] ∨
    n.qualifier = n.packageText ++ [Text.dot] := by
  by_cases hpackage : n.package = []
  · exact Or.inl ⟨if_pos hpackage, by rw [packageText, hpackage]; rfl⟩
  · exact Or.inr (if_neg hpackage)

theorem mem_qualifier_of_ne_dot {b : UInt8} (hb : b ≠ Text.dot) :
    b ∈ n.qualifier ↔ b ∈ n.packageText := by
  rcases n.qualifier_eq_nil_or with ⟨hqualifier, hpackage⟩ | hqualifier
  · rw [hqualifier, hpackage]
  · rw [hqualifier, List.mem_append, List.mem_singleton]
    simp [hb]

/-- The chain begins with the outermost class, and a dollar sign comes next if anything
does. -/
theorem chainText_eq : n.chainText = n.outermost ∨
    ∃ rest, n.chainText = n.outermost ++ Text.dollar :: rest := by
  rw [chainText]
  by_cases hnested : n.nested = []
  · rw [hnested]
    exact Or.inl (by simp [Text.join])
  · refine Or.inr ⟨Text.join [Text.dollar] n.nested, ?_⟩
    rw [Text.join, List.intercalate_cons_of_ne_nil hnested]
    simp [Text.join]

/-! ## Reading the parts back -/

/-- The package of a name that begins with the qualifier of the package. -/
theorem packageName_qualified {t : Text} (ht : Text.dot ∉ t) :
    (TypeName.mk (n.qualifier ++ t)).packageName = n.packageText := by
  have hfree : ∀ b ∈ t, (b == Text.dot) = false := by
    intro b hb
    rw [beq_eq_false_iff_ne]
    rintro rfl
    exact ht hb
  rw [TypeName.packageName]
  rcases n.qualifier_eq_nil_or with ⟨hqualifier, hpackage⟩ | hqualifier
  · rw [hqualifier, hpackage, List.nil_append, Text.beforeLast_eq_nil hfree]
  · rw [hqualifier, List.append_assoc, List.singleton_append]
    exact Text.beforeLast_append_cons (p := (· == Text.dot)) (beq_self_eq_true _) _ hfree

/-- The simple name behind a front that is empty or ends in a separator. -/
theorem simpleName_append {front c : Text}
    (hfront : front = [] ∨ ∃ init b, front = init ++ [b] ∧
      (b = Text.dot ∨ b = Text.dollar))
    (hdot : Text.dot ∉ c) (hdollar : Text.dollar ∉ c) :
    (TypeName.mk (front ++ c)).simpleName = c := by
  apply Text.afterLast_append
  · rcases hfront with hnil | ⟨init, b, hinit, hb⟩
    · exact Or.inl hnil
    · exact Or.inr ⟨init, b, hinit, by simpa using hb⟩
  · intro b hb
    rw [Bool.or_eq_false_iff, beq_eq_false_iff_ne, beq_eq_false_iff_ne]
    exact ⟨fun h => hdot (h ▸ hb), fun h => hdollar (h ▸ hb)⟩

theorem qualifier_front : n.qualifier = [] ∨
    ∃ init b, n.qualifier = init ++ [b] ∧ (b = Text.dot ∨ b = Text.dollar) := by
  rcases n.qualifier_eq_nil_or with ⟨hqualifier, _⟩ | hqualifier
  · exact Or.inl hqualifier
  · exact Or.inr ⟨n.packageText, Text.dot, hqualifier, Or.inl rfl⟩

theorem simpleName_typeName : n.typeName.simpleName = n.innermost := by
  obtain ⟨front, hfront, hchain⟩ :=
    Text.join_eq_front_append (List.cons_ne_nil n.outermost n.nested) Text.dollar
  have htext : n.typeName = ⟨(n.qualifier ++ front) ++ n.innermost⟩ := by
    rw [typeName, chainText, hchain, List.append_assoc]
    rfl
  rw [htext]
  apply simpleName_append
  · rcases hfront with rfl | ⟨init, rfl⟩
    · rw [List.append_nil]
      exact n.qualifier_front
    · exact Or.inr ⟨n.qualifier ++ init, Text.dollar, (List.append_assoc _ _ _).symm,
        Or.inr rfl⟩
  · exact n.dot_notMem_class _ n.innermost_mem
  · exact n.dollar_notMem_class _ n.innermost_mem

/-- The first dollar sign of the package, if there is one, is taken for that of the
chain. -/
theorem topLevel_typeName : n.typeName.topLevel =
    ⟨if Text.dollar ∈ n.packageText then n.packageText.beforeFirst (· == Text.dollar)
      else n.qualifier ++ n.outermost⟩ := by
  have hne : Text.dollar ≠ Text.dot := by decide
  rw [TypeName.topLevel, typeName]
  congr 1
  by_cases hdollar : Text.dollar ∈ n.packageText
  · have hsome : ∃ b ∈ n.packageText, (b == Text.dollar) = true :=
      ⟨Text.dollar, hdollar, beq_self_eq_true _⟩
    rw [if_pos hdollar]
    rcases n.qualifier_eq_nil_or with ⟨_, hpackage⟩ | hqualifier
    · simp [hpackage] at hdollar
    · rw [hqualifier, List.append_assoc]
      exact Text.beforeFirst_append hsome _
  · have hfree : ∀ b ∈ n.qualifier ++ n.outermost, (b == Text.dollar) = false := by
      intro b hb
      rw [beq_eq_false_iff_ne]
      rintro rfl
      rcases List.mem_append.mp hb with hqualifier | houtermost
      · exact hdollar ((n.mem_qualifier_of_ne_dot hne).mp hqualifier)
      · exact n.dollar_notMem_class _ List.mem_cons_self houtermost
    rw [if_neg hdollar]
    rcases n.chainText_eq with hchain | ⟨rest, hchain⟩
    · rw [hchain, Text.beforeFirst_eq_self hfree]
    · rw [hchain, ← List.append_assoc]
      exact Text.beforeFirst_append_cons hfree (beq_self_eq_true _) rest

theorem simpleName_qualified :
    (TypeName.mk (n.qualifier ++ n.outermost)).simpleName = n.outermost :=
  simpleName_append n.qualifier_front (n.dot_notMem_class _ List.mem_cons_self)
    (n.dollar_notMem_class _ List.mem_cons_self)

theorem simpleName_topLevel : n.typeName.topLevel.simpleName =
    if Text.dollar ∈ n.packageText then
      (n.packageText.beforeFirst (· == Text.dollar)).afterLast (· == Text.dot)
    else n.outermost := by
  rw [topLevel_typeName]
  by_cases hdollar : Text.dollar ∈ n.packageText
  · have hfree : Text.dollar ∉ n.packageText.beforeFirst (· == Text.dollar) :=
      Text.notMem_beforeFirst (p := (· == Text.dollar)) (beq_self_eq_true _)
    rw [if_pos hdollar, if_pos hdollar, TypeName.simpleName]
    apply Text.afterLast_congr
    intro b hb
    have hne : b ≠ Text.dollar := fun h => hfree (h ▸ hb)
    simp [hne]
  · rw [if_neg hdollar, if_neg hdollar, n.simpleName_qualified]

/-- The part of the package before a dollar sign is not the name of a class in the
package. -/
theorem packageName_topLevel_iff :
    n.typeName.topLevel.packageName = n.packageText ↔ Text.dollar ∉ n.packageText := by
  rw [topLevel_typeName]
  constructor
  · intro hpackage hdollar
    rw [if_pos hdollar] at hpackage
    have hsublist := Text.beforeLast_sublist (p := (· == Text.dot))
      (n.packageText.beforeFirst (· == Text.dollar))
    rw [TypeName.packageName] at hpackage
    rw [hpackage] at hsublist
    exact Text.notMem_beforeFirst (p := (· == Text.dollar)) (beq_self_eq_true _)
      (hsublist.subset hdollar)
  · intro hdollar
    rw [if_neg hdollar]
    exact n.packageName_qualified (n.dot_notMem_class _ List.mem_cons_self)

theorem topLevel_eq_iff :
    n.typeName.topLevel = ⟨n.qualifier ++ n.outermost⟩ ↔ Text.dollar ∉ n.packageText := by
  constructor
  · intro htop
    rw [← packageName_topLevel_iff, htop]
    exact n.packageName_qualified (n.dot_notMem_class _ List.mem_cons_self)
  · intro hdollar
    rw [topLevel_typeName, if_neg hdollar]

/-- A name gives back its package, whatever the segments contain, and the last class of
the chain.  The outermost class, its package and the source file are those of the chain
exactly when the package has no dollar sign; otherwise the name is cut at the first dollar
sign of the package. -/
theorem typeName_parts :
    n.typeName.packageName = n.packageText ∧
    n.typeName.simpleName = n.innermost ∧
    (n.typeName.topLevel.text =
      if Text.dollar ∈ n.packageText then n.packageText.beforeFirst (· == Text.dollar)
      else n.qualifier ++ n.outermost) ∧
    (n.typeName.topLevel = ⟨n.qualifier ++ n.outermost⟩ ↔ Text.dollar ∉ n.packageText) ∧
    (n.typeName.topLevel.packageName = n.packageText ↔ Text.dollar ∉ n.packageText) ∧
    ∀ (d : Draft) (modifiers : ModifierSet) (analyzed : Bool),
      (d.newClass n.typeName modifiers analyzed).sourceFile =
        (if Text.dollar ∈ n.packageText then
          (n.packageText.beforeFirst (· == Text.dollar)).afterLast (· == Text.dot)
        else n.outermost) ++ ".java" := by
  refine ⟨n.packageName_qualified n.dot_notMem_chainText, n.simpleName_typeName,
    congrArg TypeName.text n.topLevel_typeName, n.topLevel_eq_iff,
    n.packageName_topLevel_iff, ?_⟩
  intro d modifiers analyzed
  rw [← n.simpleName_topLevel]
  rfl

/-- A dollar sign in the package is taken for the one behind the outermost class. -/
theorem typeName_parts_dollarPackage :
    let n : NestedName :=
      { package := ["p$q"], outermost := "Outer", nested := ["Inner"]
        segment_ne_nil := by decide, dot_notMem_segment := by decide
        class_ne_nil := by decide, dot_notMem_class := by decide
        dollar_notMem_class := by decide }
    n.typeName = ⟨"p$q.Outer$Inner"⟩ ∧ n.typeName.packageName = "p$q" ∧
      n.qualifier ++ n.outermost = "p$q.Outer" ∧ n.typeName.topLevel = ⟨"p"⟩ ∧
      (Draft.newClass (.start 0) n.typeName .empty true).sourceFile = "p.java" := by
  decide

end NestedName

end Conformance
