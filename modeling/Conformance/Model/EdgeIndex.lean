import Conformance.Code.Edge
import Std.Data.TreeMap

/-!
# The edge index

The index lists, for every member, the positions of the edges that end in it and of the
edges that start in it.  Positions refer to the list of edges the index was made from and
come in increasing order; an edge that occurs several times is listed once for every
occurrence.
-/

namespace Conformance

/-- Edge positions by member. -/
abbrev PositionsBy := Std.TreeMap Ident (Array Nat)

namespace PositionsBy

/-- Add a position at the end of a member's list. -/
def add (p : PositionsBy) (member : Ident) (position : Nat) : PositionsBy :=
  p.alter member (fun known => some ((known.getD #[]).push position))

def positionsOf (p : PositionsBy) (member : Ident) : Array Nat :=
  p.getD member #[]

end PositionsBy

/-- Edge positions by target and by origin. -/
structure EdgeIndex where
  incoming : PositionsBy := ∅
  outgoing : PositionsBy := ∅

namespace EdgeIndex

/-- Enter the edge that stands at a position. -/
def enter (index : EdgeIndex) (entry : Edge × Nat) : EdgeIndex :=
  { incoming := index.incoming.add entry.1.target.id entry.2
    outgoing := index.outgoing.add entry.1.origin.id entry.2 }

def ofEdges (edges : List Edge) : EdgeIndex :=
  edges.zipIdx.foldl enter {}

end EdgeIndex

end Conformance
