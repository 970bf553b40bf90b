import Conformance.Proofs.Condition.Tree
import Mathlib.Logic.Basic

/-!
# Offered conditions

The conditions that the library offers are judgements by a predicate, restrictions on
dependencies and the placement of test classes, each possibly under another name.  All
assertions are judgements.  Every violated event of such a condition says something.
-/

namespace Conformance

namespace Condition

/-- The conditions that the library offers. -/
inductive Offered : {k : Kind} → Condition k.Item → Prop where
  | judging {k : Kind} (description : Text) (p : Predicate k.Item) (fail pass : Text) :
      Offered (Condition.judging description p fail pass)
  | calledOnlyBy (t : CallerTest) : Offered (k := .codeUnits) (Condition.calledOnlyBy t)
  | dependsOnlyOn (p : Predicate Class) :
      Offered (k := .classes) (Condition.dependsOnlyOn p)
  | besideImplementation (suffix : Text) :
      Offered (k := .classes) (Condition.besideImplementation suffix)
  | renamed {k : Kind} {c : Condition k.Item} (h : Offered c) (description : Text) :
      Offered (c.renamed description)

end Condition

/-- A violated event never goes without words. -/
def Event.AllSpeak (events : List Event) : Prop :=
  ∀ text ∈ Event.violations events, text ≠ []

namespace Event

theorem about_message_ne_nil {α : Type} [ToElement α] (a : α) (violated : Bool)
    (text : Text) :
    (about a violated text).message ≠ [] := by
  have hword : (" in " : Text) ≠ [] := by decide
  simp [about, hword]

theorem allSpeak_nil : AllSpeak [] := by
  simp [AllSpeak, violations]

theorem allSpeak_about {α : Type} [ToElement α] (a : α) (violated : Bool) (text : Text) :
    AllSpeak [about a violated text] := by
  intro message hmessage
  simp only [violations, List.mem_map, List.mem_filter, List.mem_singleton] at hmessage
  obtain ⟨event, ⟨rfl, _⟩, rfl⟩ := hmessage
  exact about_message_ne_nil a violated text

end Event

namespace Edge

theorem description_ne_nil (e : Edge) : e.description ≠ [] := by
  have hword : ("> in " : Text) ≠ [] := by decide
  simp [description, hword]

theorem allSpeak_violations (edges : List Edge) (subject : Edge → Element) :
    Event.AllSpeak (edges.map (fun e => e.violation (subject e))) := by
  intro message hmessage
  simp only [Event.violations, List.mem_map, List.mem_filter] at hmessage
  obtain ⟨event, ⟨⟨e, _, rfl⟩, _⟩, rfl⟩ := hmessage
  exact e.description_ne_nil

end Edge

namespace Condition

theorem allSpeak_besideImplementationEvents (suffix : Text) (test : Class) (m : Model) :
    Event.AllSpeak (besideImplementationEvents suffix test m) := by
  unfold besideImplementationEvents
  dsimp only
  split
  · exact Event.allSpeak_nil
  · split
    · exact Event.allSpeak_nil
    · split
      · exact Event.allSpeak_about test false _
      · exact Event.allSpeak_about test true _

/-- What an offered condition finds fault with, it puts into words. -/
theorem Offered.allSpeak {k : Kind} {c : Condition k.Item} (h : Offered c) (a : k.Item)
    (m : Model) : Event.AllSpeak (c.check a m).value := by
  induction h with
  | judging description p fail pass =>
      simp only [Condition.judging, Consulted.value_bind]
      split
      · exact Event.allSpeak_about a false pass
      · exact Event.allSpeak_about a true fail
  | calledOnlyBy t => exact Edge.allSpeak_violations _ (fun e => toElement e.origin)
  | dependsOnlyOn p => exact Edge.allSpeak_violations _ (fun _ => Element.ofClass a)
  | besideImplementation suffix => exact allSpeak_besideImplementationEvents suffix a m
  | renamed h description ih => exact ih a

end Condition

namespace ConditionTree

/-- All leaves of the tree are conditions that the library offers. -/
def Offered : {k : Kind} → ConditionTree k → Prop
  | _, leaf c => c.Offered
  | _, join _ left right _ => left.Offered ∧ right.Offered
  | _, renamed inner _ => inner.Offered
  | _, widened _ inner => inner.Offered

theorem outspoken_of_offered {k : Kind} (t : ConditionTree k) (h : t.Offered) (a : k.Item)
    (m : Model) : t.Outspoken a m := by
  induction t with
  | leaf c =>
      intro r hr
      rw [List.mem_singleton.mp hr]
      exact Condition.Offered.allSpeak h a m
  | join j left right description ihleft ihright =>
      intro r hr
      obtain ⟨r', hr', rfl⟩ := List.mem_map.mp hr
      rcases List.mem_append.mp hr' with hr' | hr'
      · exact ihleft h.1 a r' hr'
      · exact ihright h.2 a r' hr'
  | renamed inner description ih => exact ih h a
  | widened w inner ih => exact ih h (w.apply a)

end ConditionTree

end Conformance
