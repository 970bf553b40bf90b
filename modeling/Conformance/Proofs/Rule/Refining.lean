import Conformance.Proofs.Rule.Narrowing
import Conformance.Proofs.Rule.Verdict
import Mathlib.Data.List.Forall2

/-!
# Refined rules

A chain describes its rule in the words of its parts, in the order in which they were
written.  The rule can then be given reasons, other descriptions and settings for empty
selections, in any order and any number.  Only the last call of each sort matters, and the
calls change what is said about the rule and what happens when nothing is selected, but
not what is found.
-/

namespace Conformance

/-! ## The words of a chain -/

namespace Selection

variable {c : Collection}

end Selection

namespace ShouldLink

variable {k : Kind}

/-- How the link joins its condition to those before it, if it does not begin a chain. -/
def join? : ShouldLink k → Option Join
  | should _ => none
  | calledOnlyBy _ _ _ => none
  | andShould _ => some .and
  | orShould _ => some .or

/-- The links go on with a chain and join these conditions to it. -/
def GoOn (links : List (ShouldLink k)) (others : List (Join × Condition k.Item)) : Prop :=
  List.Forall₂ (fun link next => link.join? = some next.1 ∧
    link.build = .ok next.2) links others

/-- One of the links begins a chain anew with the first condition, and those after it go
on. -/
def BeginAnew (links : List (ShouldLink k)) (first : Condition k.Item)
    (others : List (Join × Condition k.Item)) : Prop :=
  ∃ before link after, links = before ++ link :: after ∧
    link.begins = true ∧ link.build = .ok first ∧ GoOn after others

theorem BeginAnew.cons {links : List (ShouldLink k)} {first : Condition k.Item}
    {others : List (Join × Condition k.Item)} (h : BeginAnew links first others)
    (link : ShouldLink k) : BeginAnew (link :: links) first others := by
  obtain ⟨before, last, after, hlinks, hlast⟩ := h
  refine ⟨link :: before, last, after, ?_, hlast⟩
  rw [hlinks, List.cons_append]

end ShouldLink

namespace ChainExpr

variable {c : Collection}

/-- The links of an expression stand for these filters and conditions.  The first
condition is that of the first link, unless a later link begins the chain anew. -/
structure Means (e : ChainExpr c) (filters : List (FilterWord × Predicate c.Item))
    (first : Condition c.Item) (others : List (Join × Condition c.Item)) : Prop where
  filters_eq : List.Forall₂ (fun link f =>
    link.word = f.1 ∧ link.argument.buildDirect link.word.entry =
      .ok f.2) e.filters filters
  conditions_eq : (e.first.build = .ok first ∧ ShouldLink.GoOn e.others others) ∨
    ShouldLink.BeginAnew e.others first others

end ChainExpr

/-! ## Refinements -/

/-- A call that makes a refined rule of a rule. -/
inductive Refinement where
  | because (reason : Text)
  | rename (description : Text)
  | allowEmpty (allow : Bool)

namespace Refinement

/-- The refined rule. -/
def apply (r : Rule) : Refinement → Rule
  | because reason => r.withReason reason
  | rename description => r.renamed description
  | allowEmpty allow => r.allowingEmpty allow

/-- The setting for an empty selection that the call gives. -/
def allowed? : Refinement → Option Bool
  | because _ => none
  | rename _ => none
  | allowEmpty allow => some allow

/-- What the last of the calls gives that gives such a thing at all. -/
def last? {α : Type} (given : Refinement → Option α) (calls : List Refinement) :
    Option α :=
  (calls.filterMap given).getLast?

end Refinement

/-! ## What refinements change -/

namespace Rule

variable {r s : Rule} (m : Model) (options : Options)

/-- The rule with the setting for an empty selection that some calls give, if they give
one. -/
def settled (r : Rule) (calls : List Refinement) : Rule :=
  match Refinement.last? Refinement.allowed? calls with
  | some allow => r.allowingEmpty allow
  | none => r

end Rule

end Conformance
