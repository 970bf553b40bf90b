import Conformance.Code.Element

/-!
# Dependency edges

An edge records one call or one field access: from the code unit that makes it to the
member it uses.  Its location is the file of the origin's class with the line of the
access.
-/

namespace Conformance

/-- What an edge records. -/
inductive Access where
  | call
  | read
  | write
  deriving DecidableEq

namespace Access

/-- The verb of the edge's description. -/
def verb : Access → Text
  | call => "calls"
  | read => "gets"
  | write => "sets"

end Access

/-- One call or field access. -/
structure Edge where
  origin : CodeUnit
  target : Member
  access : Access
  location : Location
  deriving DecidableEq

namespace Edge

def description (e : Edge) : Text :=
  e.origin.toMember.kind.label ++ " <" ++ e.origin.fullName ++ "> " ++ e.access.verb
    ++ " " ++ e.target.kind.lowerLabel ++ " <" ++ e.target.fullName ++ "> in "
    ++ e.location.render

end Edge

end Conformance
