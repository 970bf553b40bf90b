import Conformance.Pattern.Token

/-!
# Package identifiers

A package identifier describes a set of packages.  Two dots stand for any number of
segments, a star for a run of word bytes, and every other byte for itself.  Two dots at
either end also stand for no segment at all, together with the dot next to them.

An identifier is cut into pieces.  A name matches when the pieces, one after the other,
can use it up; each piece says which remainders of a name it may leave.

Identifiers are looked for by automata, as name patterns are, and an identifier whose
automaton would be larger than any may be is refused.
-/

namespace Conformance.Package

/-- A piece of a package identifier. -/
inductive Piece where
  /-- Exactly this byte. -/
  | byte (b : UInt8)
  /-- One or more word bytes. -/
  | word
  /-- Nothing, or a run that ends in a dot. -/
  | leadingGap
  /-- A dot, and then nothing or a run that ends in a dot. -/
  | innerGap
  /-- Nothing, or a dot with any run after it. -/
  | trailingGap
  /-- Any run. -/
  | anything
  deriving DecidableEq

/-- May the byte be part of a run of skipped segments?  The bytes that end a line may
not. -/
def skippable (b : UInt8) : Bool :=
  b != 10 && b != 13

/-- The remainders after a run of any length. -/
def afterRun : Text → List Text
  | [] => [[]]
  | b :: rest => (b :: rest) :: (if skippable b then afterRun rest else [])

/-- The remainders after a run that ends in a dot. -/
def afterRunToDot : Text → List Text
  | [] => []
  | b :: rest =>
      (if b = Text.dot then [rest] else [])
        ++ (if skippable b then afterRunToDot rest else [])

/-- The remainders after one or more word bytes. -/
def afterWord : Text → List Text
  | [] => []
  | b :: rest => if Pattern.ByteClass.word.contains b then rest :: afterWord rest else []

namespace Piece

def remainders : Piece → Text → List Text
  | byte b, t =>
      match t with
      | [] => []
      | x :: rest => if x = b then [rest] else []
  | word, t => afterWord t
  | leadingGap, t => t :: afterRunToDot t
  | innerGap, t =>
      match t with
      | [] => []
      | x :: rest => if x = Text.dot then rest :: afterRunToDot rest else []
  | trailingGap, t =>
      match t with
      | [] => [[]]
      | x :: rest => if x = Text.dot then (x :: rest) :: afterRun rest else [x :: rest]
  | anything, t => afterRun t

end Piece

/-- The pieces of an identifier without its ends. -/
def innerPieces : Text → List Piece
  | [] => []
  | 46 :: 46 :: rest => .innerGap :: innerPieces rest
  | 42 :: rest => .word :: innerPieces rest
  | b :: rest => .byte b :: innerPieces rest

def gap : Text := [Text.dot, Text.dot]

/-- The pieces of an identifier.  Two dots in front are taken off before two dots at the
end. -/
def pieces (identifier : Text) : List Piece :=
  if identifier = gap then
    [.anything]
  else
    let leading := gap.isPrefixOf identifier
    let rest := if leading then identifier.drop 2 else identifier
    let trailing := gap.isSuffixOf rest
    let inner := if trailing then rest.dropLast.dropLast else rest
    (if leading then [.leadingGap] else []) ++ innerPieces inner
      ++ (if trailing then [.trailingGap] else [])

/-- The remainders that the pieces may leave of some names, each remainder once. -/
def remaindersOf : List Piece → List Text → List Text
  | [], names => names
  | p :: ps, names => remaindersOf ps (names.flatMap p.remainders).eraseDups

/-- Does the identifier describe the package, once it is accepted? -/
def matchesName (identifier name : Text) : Bool :=
  (remaindersOf (pieces identifier) [name]).contains []

/-! ## Refused identifiers -/

/-- The number of states of the automaton of the piece. -/
def Piece.states : Piece → Nat
  | byte _ => 1
  | word => 2
  | leadingGap => 7
  | innerGap => 8
  | trailingGap => 7
  | anything => 2

/-- The number of states of the automata of some pieces. -/
def statesOf : List Piece → Nat
  | [] => 0
  | p :: ps => p.states + statesOf ps

/-- The number of states of the automaton of an identifier.  Four of them belong to no
piece. -/
def states (identifier : Text) : Nat :=
  statesOf (pieces identifier) + 4

/-- Accept an identifier unless its automaton is too large. -/
def accept (identifier : Text) : Except Pattern.PatternError Unit :=
  if states identifier ≤ Pattern.maxStates then .ok () else .error .tooLarge

/-- Does the identifier describe the package?  No name is looked at when the identifier is
refused. -/
def matches? (identifier name : Text) : Except Pattern.PatternError Bool := do
  accept identifier
  return matchesName identifier name

end Conformance.Package
