import Conformance.Proofs.Code.Nesting
import Conformance.Rule.Vocabulary

/-!
# Enclosing classes

Whether one class is nested in another is decided by their names alone: the name of the
nested one goes on with a dollar sign where the name of the other ends.  Put a dollar sign
behind both names, and this says that the one begins with the other.  So the classes are
ordered as their closed names are by "begins with", and the classes around a class form a
chain.

For a name that was put together from a package and a chain of classes, the order is the
one that the chains show, unless a dollar sign in the package is taken for the end of a
class.
-/

namespace Conformance

namespace TypeName

/-- The first class is the second one, or nested in it at some depth. -/
def Within (c t : TypeName) : Prop :=
  Predicate.nestedIn c t = true

instance (c t : TypeName) : Decidable (c.Within t) :=
  inferInstanceAs (Decidable (Predicate.nestedIn c t = true))

/-- The name with the dollar sign that the names of the classes nested in it go on
with. -/
def stem (t : TypeName) : Text :=
  t.text ++ [Text.dollar]

variable {c s t : TypeName}

theorem within_iff : c.Within t ↔ c = t ∨ t.stem <+: c.text := by
  rw [Within, Predicate.nestedIn, Bool.or_eq_true, decide_eq_true_iff,
    List.isPrefixOf_iff_prefix, stem]

theorem within_iff_stem : c.Within t ↔ t.stem <+: c.stem := by
  have heq : c = t ↔ t.stem = c.stem := by
    rw [stem, stem, List.append_cancel_right_eq, TypeName.mk.injEq, eq_comm]
  rw [within_iff, heq, stem, stem, List.prefix_concat_iff]

namespace Within

theorem refl (t : TypeName) : t.Within t :=
  within_iff.mpr (Or.inl rfl)

theorem trans (hcs : c.Within s) (hst : s.Within t) : c.Within t := by
  rw [within_iff_stem] at hcs hst ⊢
  exact hst.trans hcs

theorem antisymm (hct : c.Within t) (htc : t.Within c) : c = t := by
  rw [within_iff_stem] at hct htc
  have hstem : c.stem = t.stem := htc.eq_of_length_le hct.length_le
  rw [stem, stem, List.append_cancel_right_eq] at hstem
  rw [TypeName.mk.injEq, hstem]

/-- Of two classes around the same class, one is around the other. -/
theorem comparable (hcs : c.Within s) (hct : c.Within t) : s.Within t ∨ t.Within s := by
  rw [within_iff_stem] at hcs hct
  rw [within_iff_stem, within_iff_stem]
  exact (List.prefix_or_prefix_of_prefix hcs hct).symm

end Within

/-- A longer name is that of a nested class only if it goes on with a dollar sign. -/
theorem within_append_cons_iff {b : UInt8} {rest : Text} :
    (TypeName.mk (t.text ++ b :: rest)).Within t ↔ b = Text.dollar := by
  have hne : TypeName.mk (t.text ++ b :: rest) ≠ t := by
    intro h
    have htext := congrArg TypeName.text h
    simp at htext
  rw [within_iff, or_iff_right hne, stem, List.prefix_append_right_inj,
    List.singleton_prefix_cons_iff, eq_comm]

end TypeName

namespace NestedName

/-- The classes from the outermost one to the class itself. -/
def chain (n : NestedName) : List Text :=
  n.outermost :: n.nested

variable (n c t : NestedName)

/-- The chain with a dollar sign behind each of its classes. -/
def closedChain : Text :=
  n.chain.flatMap (fun name => name ++ [Text.dollar])

theorem stem_typeName : n.typeName.stem = n.qualifier ++ n.closedChain := by
  have hclosed : n.chainText ++ [Text.dollar] = n.closedChain :=
    Text.join_append_separator (List.cons_ne_nil _ _)
  rw [TypeName.stem, typeName, List.append_assoc, hclosed]

theorem dot_notMem_closedChain : Text.dot ∉ n.closedChain := by
  intro hdot
  obtain ⟨name, hname, hmem⟩ := List.mem_flatMap.mp hdot
  rcases List.mem_append.mp hmem with hmem | hmem
  · exact n.dot_notMem_class name hname hmem
  · exact absurd (List.mem_singleton.mp hmem) (by decide)

variable {n c t}

theorem closedChain_prefix_iff : t.closedChain <+: c.closedChain ↔ t.chain <+: c.chain :=
  Text.flatMap_closed_prefix_iff t.dollar_notMem_class c.dollar_notMem_class

/-- The text of a package tells its segments. -/
theorem packageText_inj (h : c.packageText = t.packageText) : c.package = t.package :=
  Text.join_inj
    (fun segment hsegment =>
      ⟨c.segment_ne_nil segment hsegment, c.dot_notMem_segment segment hsegment⟩)
    (fun segment hsegment =>
      ⟨t.segment_ne_nil segment hsegment, t.dot_notMem_segment segment hsegment⟩) h

theorem qualifier_congr (h : c.package = t.package) : c.qualifier = t.qualifier := by
  rw [qualifier, qualifier, packageText, packageText, h]

/-- A stem that goes on behind the package of a class is that of a class in the same
package. -/
theorem package_eq_of_stem (hpackage : c.qualifier <+: t.typeName.stem)
    (hstem : t.typeName.stem <+: c.typeName.stem) : c.package = t.package := by
  obtain ⟨tail, htail⟩ := hpackage
  rw [← htail, stem_typeName, List.prefix_append_right_inj] at hstem
  have hdot : Text.dot ∉ tail := fun h => c.dot_notMem_closedChain (hstem.subset h)
  rw [stem_typeName] at htail
  apply packageText_inj
  rw [← c.packageName_qualified hdot, htail,
    t.packageName_qualified t.dot_notMem_closedChain]

/-- Of two names with their parts, the first is nested in the second when both have the
same package and the chain of the first continues that of the second.  Otherwise, the
whole second name with a dollar sign stands at the beginning of the package. -/
theorem within_typeName_iff : c.typeName.Within t.typeName ↔
    (c.package = t.package ∧ t.chain <+: c.chain) ∨
      t.typeName.stem <+: c.packageText := by
  rw [TypeName.within_iff_stem]
  constructor
  · intro h
    have hqualifier : c.qualifier <+: c.typeName.stem := by
      rw [stem_typeName]
      exact List.prefix_append _ _
    rcases List.prefix_or_prefix_of_prefix h hqualifier with hinside | hbehind
    · right
      rcases c.qualifier_eq_nil_or with ⟨hnil, _⟩ | hdotted
      · rw [hnil, List.prefix_nil, TypeName.stem] at hinside
        simp at hinside
      · rw [hdotted, List.prefix_concat_iff, TypeName.stem] at hinside
        rcases hinside with hwhole | hinside
        · have hlast : [Text.dollar] = [Text.dot] := (List.append_inj' hwhole rfl).2
          exact absurd hlast (by decide)
        · exact hinside
    · left
      have hpackage := package_eq_of_stem hbehind h
      refine ⟨hpackage, ?_⟩
      rwa [stem_typeName, stem_typeName, qualifier_congr hpackage,
        List.prefix_append_right_inj, closedChain_prefix_iff] at h
  · rintro (⟨hpackage, hchain⟩ | hinside)
    · rwa [stem_typeName, stem_typeName, qualifier_congr hpackage,
        List.prefix_append_right_inj, closedChain_prefix_iff]
    · rw [c.stem_typeName]
      apply hinside.trans
      rcases c.qualifier_eq_nil_or with ⟨hnil, hpackage⟩ | hdotted
      · rw [hpackage]
        exact List.nil_prefix
      · rw [hdotted, List.append_assoc]
        exact List.prefix_append _ _

end NestedName

namespace Predicate

theorem accepts_withinAny_iff (outers : List TypeName) (k : Class) :
    (withinAny outers).accepts k = true ↔ ∃ t ∈ outers, k.name.Within t :=
  List.any_eq_true

/-- Being one of some classes or nested in one of them is an order on names, whatever
bytes they consist of, and the classes around a class form a chain in it.  Where no dollar
sign in the package interferes, the names are ordered as their packages and chains show.
A name that only begins with that of a class is not within it.  Given several classes, the
predicate accepts what it accepts for some of them. -/
theorem withinAny_nests :
    (∀ (k : Class) (t : TypeName), (withinAny [t]).accepts k = true ↔ k.name.Within t) ∧
    ((∀ c : TypeName, c.Within c) ∧
      (∀ c t : TypeName, c.Within t → t.Within c → c = t) ∧
      (∀ c s t : TypeName, c.Within s → s.Within t → c.Within t) ∧
      (∀ c s t : TypeName, c.Within s → c.Within t → s.Within t ∨ t.Within s)) ∧
    (∀ c t : NestedName, Text.dollar ∉ c.packageText →
      (c.typeName.Within t.typeName ↔ c.package = t.package ∧ t.chain <+: c.chain)) ∧
    (∀ (t : TypeName) (b : UInt8) (rest : Text),
      (TypeName.mk (t.text ++ b :: rest)).Within t ↔ b = Text.dollar) ∧
    (∀ (k : Class) (xs ys : List TypeName),
      (withinAny (xs ++ ys)).accepts k =
        ((withinAny xs).accepts k || (withinAny ys).accepts k)) ∧
    (∀ (k : Class) (xs ys : List TypeName), (∀ t, t ∈ xs ↔ t ∈ ys) →
      (withinAny xs).accepts k = (withinAny ys).accepts k) := by
  refine ⟨?_, ⟨TypeName.Within.refl, fun _ _ => TypeName.Within.antisymm,
    fun _ _ _ => TypeName.Within.trans, fun _ _ _ => TypeName.Within.comparable⟩, ?_,
    fun _ _ _ => TypeName.within_append_cons_iff, fun _ _ _ => List.any_append, ?_⟩
  · intro k t
    rw [accepts_withinAny_iff]
    simp
  · intro c t hdollar
    have hinside : ¬ t.typeName.stem <+: c.packageText := by
      intro h
      exact hdollar (h.subset (List.mem_append_right _ (List.mem_singleton_self _)))
    rw [NestedName.within_typeName_iff, or_iff_left hinside]
  · intro k xs ys hsame
    rw [Bool.eq_iff_iff, accepts_withinAny_iff, accepts_withinAny_iff]
    simp only [hsame]

/-- A class two levels deep is within the classes around it, and not in a neighbour whose
name begins in the same way. -/
theorem withinAny_nests_twoLevels :
    let deep : NestedName :=
      { package := ["p", "q"], outermost := "Outer", nested := ["Inner", "Deep"]
        segment_ne_nil := by decide, dot_notMem_segment := by decide
        class_ne_nil := by decide, dot_notMem_class := by decide
        dollar_notMem_class := by decide }
    let beside : NestedName :=
      { package := ["p", "q"], outermost := "Out", nested := []
        segment_ne_nil := by decide, dot_notMem_segment := by decide
        class_ne_nil := by decide, dot_notMem_class := by decide
        dollar_notMem_class := by decide }
    let inner : TypeName := ⟨"p.q.Outer$Inner"⟩
    let outer : TypeName := ⟨"p.q.Outer"⟩
    let k : Class :=
      { id := ⟨0, 0⟩, name := deep.typeName, modifiers := .empty,
        sourceFile := "Outer.java", analyzed := true }
    deep.typeName.Within inner ∧ inner.Within outer ∧ deep.typeName.Within outer ∧
      (inner.Within outer ∨ outer.Within inner) ∧
      deep.typeName = ⟨"p.q.Outer$Inner$Deep"⟩ ∧
      ¬ deep.typeName.Within beside.typeName ∧
      (withinAny [inner, outer, inner]).accepts k =
        (withinAny [outer, inner]).accepts k := by
  intro deep beside inner outer k
  obtain ⟨_, ⟨_, hantisymm, htrans, hcomparable⟩, hchains, _, _, hlists⟩ :=
    withinAny_nests
  have hdeep : deep.typeName.Within inner := by decide
  have hinner : inner.Within outer := by decide
  have houter : deep.typeName.Within outer := htrans _ _ _ hdeep hinner
  have hplain : Text.dollar ∉ deep.packageText := by decide
  refine ⟨hdeep, hinner, houter, hcomparable _ _ _ hdeep houter,
    hantisymm _ _ (by decide) (by decide), ?_, hlists k _ _ ?_⟩
  · rw [hchains deep beside hplain]
    decide
  · intro t
    simp [or_comm, or_left_comm]

end Predicate

end Conformance
