import Conformance.Text

/-!
# Type names

A type is known by its fully qualified name.  Dots separate the package segments, and a
dollar sign separates a nested class from the class around it, as in `a.Outer$Inner`.
-/

namespace Conformance

/-- The fully qualified name of a type. -/
structure TypeName where
  text : Text
  deriving DecidableEq

namespace TypeName

/-- Type names are ordered as their texts are, byte by byte. -/
instance : Ord TypeName := ⟨fun a b => compare a.text b.text⟩

/-- The name after the last package or nesting separator. -/
def simpleName (t : TypeName) : Text :=
  t.text.afterLast (fun b => b == Text.dot || b == Text.dollar)

/-- The part before the last dot; empty for the default package. -/
def packageName (t : TypeName) : Text :=
  t.text.beforeLast (· == Text.dot)

/-- The name of the outermost enclosing class: all that precedes the first dollar sign. -/
def topLevel (t : TypeName) : TypeName :=
  ⟨t.text.beforeFirst (· == Text.dollar)⟩

/-- The source file a class of this name is taken to come from unless told otherwise. -/
def defaultSourceFile (t : TypeName) : Text :=
  t.topLevel.simpleName ++ ".java"

def commaSeparated (types : List TypeName) : Text :=
  Text.join ", " (types.map text)

/-- A list of types in square brackets. -/
def listText (types : List TypeName) : Text :=
  "[" ++ commaSeparated types ++ "]"

end TypeName

end Conformance
