import Conformance.Pattern.Token

/-!
# Reading patterns

The tree of a pattern is built from its tokens with a stack of the groups that are still
open.  A quantifier applies to the atom right before it; there is none at the start of a
branch and after an assertion.
-/

namespace Conformance.Pattern

/-- What opened a group: nothing for the whole pattern. -/
inductive Opener where
  | whole
  | group (index : Nat)
  | plain
  | lookahead (negated : Bool)
  deriving DecidableEq

/-- A group that is being read: its finished branches, the finished terms of the present
branch, last one first, and the atom that a quantifier would apply to. -/
structure Frame where
  opener : Opener
  branches : List Tree := []
  terms : List Tree := []
  atom : Option Tree := none

namespace Frame

/-- The terms of the present branch, last one first, with the atom among them. -/
def settled (f : Frame) : List Tree :=
  f.atom.toList ++ f.terms

/-- Add a term that takes no quantifier. -/
def addTerm (f : Frame) (t : Tree) : Frame :=
  { f with terms := t :: f.settled, atom := none }

/-- Add an atom, to which a quantifier may apply. -/
def addAtom (f : Frame) (t : Tree) : Frame :=
  { f with terms := f.settled, atom := some t }

def branch (f : Frame) : Tree :=
  f.settled.foldl (fun rest t => .seq t rest) .empty

/-- Finish the present branch and begin another one. -/
def nextBranch (f : Frame) : Frame :=
  { opener := f.opener, branches := f.branches ++ [f.branch] }

/-- The alternatives of the group as one tree; an earlier one is tried first. -/
def alternatives (f : Frame) : Tree :=
  match f.branches ++ [f.branch] with
  | [] => .empty
  | first :: others => others.foldl .alt first

end Frame

/-- The state of the reader: the innermost open group, the groups around it, and the index
of the next capturing group. -/
structure ReaderState where
  frame : Frame
  outer : List Frame
  nextGroup : Nat

namespace ReaderState

def initial : ReaderState :=
  { frame := { opener := .whole }, outer := [], nextGroup := 1 }

/-- Open a group. -/
def push (s : ReaderState) (opener : Opener) : ReaderState :=
  { s with frame := { opener }, outer := s.frame :: s.outer }

def isOpen (s : ReaderState) (index : Nat) : Bool :=
  (s.frame :: s.outer).any (fun f => f.opener = .group index)

/-- Close the innermost group. -/
def close (s : ReaderState) : Except PatternError ReaderState :=
  match s.outer with
  | [] => .error .parenthesis
  | parent :: outer =>
      let body := s.frame.alternatives
      let frame :=
        match s.frame.opener with
        | .whole => parent
        | .group index => parent.addAtom (.group index body)
        | .plain => parent.addAtom (.seq .empty body)
        | .lookahead negated => parent.addTerm (.lookahead negated body)
      .ok { s with frame, outer }

def read (s : ReaderState) : Token → Except PatternError ReaderState
  | .byte set => .ok { s with frame := s.frame.addAtom (.byte set) }
  | .backref index =>
      if index = 0 ∨ index ≥ s.nextGroup ∨ s.isOpen index then
        .error .backReference
      else
        .ok { s with frame := s.frame.addAtom (.backref index) }
  | .openGroup => .ok { s.push (.group s.nextGroup) with nextGroup := s.nextGroup + 1 }
  | .openPlain => .ok (s.push .plain)
  | .openLookahead negated => .ok (s.push (.lookahead negated))
  | .close => s.close
  | .bar => .ok { s with frame := s.frame.nextBranch }
  | .lineStart => .ok { s with frame := s.frame.addTerm .lineStart }
  | .lineEnd => .ok { s with frame := s.frame.addTerm .lineEnd }
  | .wordBoundary negated =>
      .ok { s with frame := s.frame.addTerm (.wordBoundary negated) }
  | .quantifier q =>
      match s.frame.atom with
      | none => .error .repetition
      | some t => .ok { s with frame := { s.frame with atom := some (.repeated q t) } }

end ReaderState

/-- The tree of a pattern and the number of its capturing groups, whatever its size. -/
def parse (t : Text) : Except PatternError (Tree × Nat) := do
  let s ← (← tokens t).foldlM ReaderState.read .initial
  match s.outer with
  | _ :: _ => throw .parenthesis
  | [] => return (s.frame.alternatives, s.nextGroup - 1)

/-- The tree of a pattern that fits and the number of its capturing groups. -/
def readTree (t : Text) : Except PatternError (Tree × Nat) := do
  let (tree, groups) ← parse t
  if tree.fits then
    return (tree, groups)
  else
    throw .tooLarge

end Conformance.Pattern
