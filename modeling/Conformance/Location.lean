import Conformance.Text

/-!
# Source locations

A location is a file name with a line.  An empty file name stands for an unknown file and
line `0` for an unknown line; both are still written out, so that every location has the
same two-field shape.
-/

namespace Conformance

/-- A position in a source file. -/
structure Location where
  file : Text := []
  line : UInt32 := 0
  deriving DecidableEq

namespace Location

/-- The location of something whose place is not known. -/
def unknown : Location := {}

def hasFile (l : Location) : Bool :=
  !l.file.isEmpty

def hasLine (l : Location) : Bool :=
  l.line != 0

/-- The location as messages show it: the file and the line, in parentheses, with a colon
between them. -/
def render (l : Location) : Text :=
  "(" ++ l.file ++ ":" ++ Text.decimal l.line.toNat ++ ")"

end Location

end Conformance
