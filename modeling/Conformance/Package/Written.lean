import Conformance.Package

/-!
# Identifiers written as patterns

A package identifier can be written as a name pattern.  Two dots become an optional group,
a star a repeated class of bytes, and a byte that means something in patterns gets a
backslash in front.
-/

namespace Conformance.Package

/-- Does the byte mean something of its own in a pattern?  Dots and stars are not among
these. -/
def hasMeaning (b : UInt8) : Bool :=
  ("\\^$|?+()[]\x7b\x7d" : Text).contains b

def Piece.patternText : Piece → Text
  | byte b => if b = Text.dot ∨ hasMeaning b = true then "\\" ++ [b] else [b]
  | word => "\\w+"
  | leadingGap => "(?:.*\\.)?"
  | innerGap => "\\.(?:.*\\.)?"
  | trailingGap => "(?:\\..*)?"
  | anything => ".*"

def patternText (identifier : Text) : Text :=
  (pieces identifier).flatMap Piece.patternText

end Conformance.Package
