import Conformance.Model.EdgeIndex

/-!
# Models

A model is a finished picture of the code: its classes and the edges between their
members.  Questions about the edges of a member are answered through the index, in the
order in which the edges were recorded.
-/

namespace Conformance

/-- A finished model.  `classes` lists all classes in the order of their addition, also
those that are not analyzed. -/
structure Model where
  classes : List Class
  edges : Array Edge
  index : EdgeIndex := EdgeIndex.ofEdges edges.toList
  index_eq : index = EdgeIndex.ofEdges edges.toList := by rfl

namespace Model

/-- The analyzed classes, in the order of their addition. -/
def analyzed (m : Model) : List Class :=
  m.classes.filter Class.analyzed

/-- The class of a given name, analyzed or not. -/
def classNamed? (m : Model) (name : TypeName) : Option Class :=
  m.classes.find? (fun c => c.name = name)

/-- The number of members of all classes, also of those that are not analyzed. -/
def memberCount (m : Model) : Nat :=
  (m.classes.flatMap Class.declarations).length

/-- All edges, in the order in which they were recorded. -/
def edgeList (m : Model) : List Edge :=
  m.edges.toList

def edgesAt (m : Model) (positions : Array Nat) : List Edge :=
  positions.toList.filterMap (fun i => m.edges[i]?)

def edgesTo (m : Model) (target : Member) : List Edge :=
  m.edgesAt (m.index.incoming.positionsOf target.id)

def edgesFrom (m : Model) (origin : CodeUnit) : List Edge :=
  m.edgesAt (m.index.outgoing.positionsOf origin.id)

/-- The calls of a code unit. -/
def callsTo (m : Model) (target : CodeUnit) : List Edge :=
  (m.edgesTo target.toMember).filter (fun e => e.access = .call)

end Model

end Conformance
