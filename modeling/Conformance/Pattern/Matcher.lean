import Conformance.Pattern.Program

/-!
# Matching names

A pattern is matched by trying its choices in their order and going back to the last one
that is left when the match cannot go on.  A loop body that has been entered twice at the
same place is not entered a third time there, so every search ends.

Captured spans survive from one pass of a loop to the next, and a back reference to a
group that has captured nothing fails.  A lookahead starts a search of its own: the
beginning of that search counts as the beginning of the name, and what it captures stays
captured when the search around it goes back.
-/

namespace Conformance.Pattern

/-- What a group has captured: where it began and ended, and whether it has been closed at
all. -/
structure Span where
  first : Nat := 0
  last : Nat := 0
  closed : Bool := false
  deriving DecidableEq

/-- The spans of all groups, by index. -/
abbrev Captures := Array Span

/-- For every label, where the last passes began and how many there were. -/
abbrev Passes := Array (Nat × Nat)

/-- What remains to be matched: a part of the program, or the end of a group. -/
inductive Goal where
  | part (p : Program)
  | closeGroup (index : Nat)

/-- How a search ended, with the captures it leaves. -/
inductive Outcome where
  | found (captures : Captures)
  | missed (captures : Captures)

namespace Outcome

def isFound : Outcome → Bool
  | found _ => true
  | missed _ => false

/-- Try something else, with the captures left over, when nothing has been found. -/
def orElse (o : Outcome) (next : Captures → Outcome) : Outcome :=
  match o with
  | found c => found c
  | missed c => next c

/-- Give a group its old span back when nothing has been found. -/
def restoring (o : Outcome) (undo : Captures → Captures) : Outcome :=
  match o with
  | found c => found c
  | missed c => missed (undo c)

end Outcome

/-- What stays fixed during one search: the name, the position where the search began, and
whether it has to reach the end of the name. -/
structure Search where
  name : Array UInt8
  start : Nat
  whole : Bool

namespace Search

def wordAt (s : Search) (position : Nat) : Bool :=
  (s.name[position]?).any ByteClass.word.contains

/-- Does a word begin or end at this position?  Nothing before the start of the search
counts. -/
def boundaryAt (s : Search) (position : Nat) : Bool :=
  let left := s.start < position && s.wordAt (position - 1)
  left != s.wordAt position

def spanBytes (s : Search) (span : Span) : List UInt8 :=
  (s.name.extract span.first span.last).toList

/-- May the body of the loop with this label be entered once more here?  If so, the passes
to go on with. -/
def oncemore? (passes : Passes) (label position : Nat) : Option Passes :=
  let (place, count) := passes.getD label (0, 0)
  if count = 0 ∨ place ≠ position then
    some (passes.setIfInBounds label (position, 1))
  else if count < 2 then
    some (passes.setIfInBounds label (place, count + 1))
  else
    none

/-- Search for a way through the goals from a position on.  Every step takes one unit of
fuel. -/
def run (s : Search) : (fuel : Nat) → List Goal → Nat → Passes → Captures → Outcome
  | 0, _, _, _, captures => .missed captures
  | _ + 1, [], position, _, captures =>
      if s.whole && position != s.name.size then .missed captures else .found captures
  | fuel + 1, .closeGroup index :: rest, position, passes, captures =>
      let span := captures.getD index {}
      (run s fuel rest position passes
        (captures.setIfInBounds index
          { span with last := position, closed := true })).restoring
            (fun c => c.setIfInBounds index span)
  | fuel + 1, .part p :: rest, position, passes, captures =>
      let goOn := fun captures => run s fuel rest position passes captures
      match p with
      | .skip => goOn captures
      | .byte set =>
          match s.name[position]? with
          | some b =>
              if set.contains b then
                run s fuel rest (position + 1) passes captures
              else
                .missed captures
          | none => .missed captures
      | .seq a b => run s fuel (.part a :: .part b :: rest) position passes captures
      | .alt a b =>
          (run s fuel (.part a :: rest) position passes captures).orElse
            (fun c => run s fuel (.part b :: rest) position passes c)
      | .group index body =>
          let span := captures.getD index {}
          (run s fuel (.part body :: .closeGroup index :: rest) position passes
            (captures.setIfInBounds index { span with first := position })).restoring
              (fun c => c.setIfInBounds index
                { c.getD index {} with first := span.first })
      | .backref index =>
          let span := captures.getD index {}
          if span.closed
              && (s.spanBytes span).isPrefixOf (s.name.toList.drop position) then
            run s fuel rest (position + (span.last - span.first)) passes captures
          else
            .missed captures
      | .lineStart => if position = s.start then goOn captures else .missed captures
      | .lineEnd => if position = s.name.size then goOn captures else .missed captures
      | .wordBoundary negated =>
          if s.boundaryAt position != negated then goOn captures else .missed captures
      | .lookahead negated body =>
          let inner : Search := { s with start := position, whole := false }
          let fresh := passes.map (fun _ => (0, 0))
          match run inner fuel [.part body] position fresh captures with
          | .found seen =>
              let merged :=
                captures.zipWith (fun old new => if new.closed then new else old) seen
              if negated then .missed merged else goOn merged
          | .missed _ => if negated then goOn captures else .missed captures
      | .loop label greedy body =>
          let again := fun captures =>
            match oncemore? passes label position with
            | some passes' =>
                run s fuel (.part body :: .part (.loop label greedy body) :: rest)
                  position passes' captures
            | none => .missed captures
          if greedy then (again captures).orElse goOn else (goOn captures).orElse again
      | .optional label greedy body =>
          let again := fun captures =>
            match oncemore? passes label position with
            | some passes' => run s fuel (.part body :: rest) position passes' captures
            | none => .missed captures
          if greedy then (again captures).orElse goOn else (goOn captures).orElse again

end Search

/-- More fuel than any search in a name of this length needs: each label lets a search
pass at most twice through its body at each position, and searches are nested no deeper
than the program. -/
def fuelFor (program : Program) (length : Nat) : Nat :=
  8 * ((program.size + 1) * (program.size + 1) * (program.size + 1)) * (length + 1)

/-- Does the pattern match the whole name? -/
def matchesWhole (p : Pattern) (name : Text) : Bool :=
  let search : Search := { name := name.toArray, start := 0, whole := true }
  let passes : Passes := Array.replicate p.labels (0, 0)
  let captures : Captures := Array.replicate (p.groups + 1) {}
  (search.run (fuelFor p.program name.length) [.part p.program] 0 passes captures).isFound

end Conformance.Pattern
