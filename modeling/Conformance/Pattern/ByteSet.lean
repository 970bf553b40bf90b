import Conformance.Text

/-!
# Sets of bytes

A name pattern tests one byte at a time, against a set written as a list of entries:
single bytes, ranges and named classes.  The named classes hold ASCII bytes only.  The
ends of a range are compared as signed numbers, which puts the bytes from 128 up before
all ASCII bytes.
-/

namespace Conformance.Pattern

/-- The named classes of bytes. -/
inductive ByteClass where
  | alnum
  | alpha
  | blank
  | cntrl
  | digit
  | graph
  | lower
  | print
  | punct
  | space
  | upper
  | word
  | xdigit
  deriving DecidableEq

namespace ByteClass

/-- The class of a name; case does not matter. -/
def ofName? (name : List Char) : Option ByteClass :=
  match String.ofList (name.map Char.toLower) with
  | "alnum" => some alnum
  | "alpha" => some alpha
  | "blank" => some blank
  | "cntrl" => some cntrl
  | "d" | "digit" => some digit
  | "graph" => some graph
  | "lower" => some lower
  | "print" => some print
  | "punct" => some punct
  | "s" | "space" => some space
  | "upper" => some upper
  | "w" => some word
  | "xdigit" => some xdigit
  | _ => none

/-- Is `b` between `lo` and `hi`, ends included? -/
def within (lo hi b : UInt8) : Bool :=
  lo ≤ b && b ≤ hi

def contains (c : ByteClass) (b : UInt8) : Bool :=
  let isUpper := within 65 90 b
  let isLower := within 97 122 b
  let isDigit := within 48 57 b
  match c with
  | alnum => isUpper || isLower || isDigit
  | alpha => isUpper || isLower
  | blank => b == 32 || b == 9
  | cntrl => within 0 31 b || b == 127
  | digit => isDigit
  | graph => within 33 126 b
  | lower => isLower
  | print => within 32 126 b
  | punct => within 33 126 b && !(isUpper || isLower || isDigit)
  | space => b == 32 || within 9 13 b
  | upper => isUpper
  | word => isUpper || isLower || isDigit || b == 95
  | xdigit => isDigit || within 65 70 b || within 97 102 b

end ByteClass

/-- The small letter for a capital ASCII letter, any other byte as it is. -/
def lowerByte (b : UInt8) : UInt8 :=
  if ByteClass.upper.contains b then b + 32 else b

/-- One entry of a set. -/
inductive SetEntry where
  | byte (b : UInt8)
  | range (lo hi : UInt8)
  | named (c : ByteClass)
  | notNamed (c : ByteClass)
  | sameLetter (b : UInt8)
  deriving DecidableEq

namespace SetEntry

def covers (b : UInt8) : SetEntry → Bool
  | byte x => b == x
  | range lo hi => lo.toInt8 ≤ b.toInt8 && b.toInt8 ≤ hi.toInt8
  | named c => c.contains b
  | notNamed c => !c.contains b
  | sameLetter x => lowerByte b == lowerByte x

end SetEntry

/-- A set of bytes: those that some entry covers or, if negated, those that none
covers. -/
structure ByteSet where
  negated : Bool
  entries : List SetEntry
  deriving DecidableEq

namespace ByteSet

def contains (s : ByteSet) (b : UInt8) : Bool :=
  s.entries.any (SetEntry.covers b) != s.negated

def single (b : UInt8) : ByteSet :=
  ⟨false, [.byte b]⟩

/-- All bytes but the two that end a line. -/
def exceptLineEnds : ByteSet :=
  ⟨true, [.byte 10, .byte 13]⟩

end ByteSet

end Conformance.Pattern
