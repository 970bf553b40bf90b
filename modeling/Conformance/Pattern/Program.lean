import Conformance.Pattern.Reader

/-!
# Pattern programs

A program is a tree whose repetitions have been written out: a bounded repetition is a row
of copies of its body.  Every loop and every optional part has a label.  The copies of a
bounded repetition have labels of their own; the first occurrence that `+` asks for shares
its labels with the later ones.
-/

namespace Conformance.Pattern

/-- A pattern ready for matching. -/
inductive Program where
  | skip
  | byte (set : ByteSet)
  | seq (first second : Program)
  | alt (first second : Program)
  | group (index : Nat) (body : Program)
  | backref (index : Nat)
  | lineStart
  | lineEnd
  | wordBoundary (negated : Bool)
  | lookahead (negated : Bool) (body : Program)
  | loop (label : Nat) (greedy : Bool) (body : Program)
  | optional (label : Nat) (greedy : Bool) (body : Program)
  deriving DecidableEq

namespace Program

def size : Program → Nat
  | skip | byte _ | backref _ | lineStart | lineEnd | wordBoundary _ => 1
  | seq a b | alt a b => a.size + b.size + 1
  | group _ a | lookahead _ a | loop _ _ a | optional _ _ a => a.size + 1

/-- A row of `count` copies, each made by `make` from the next free label, with `last` at
the end. -/
def row (make : Nat → Program × Nat) (last : Nat → Program × Nat) :
    (count : Nat) → Nat → Program × Nat
  | 0, next => last next
  | count + 1, next =>
      let (first, next) := make next
      let (rest, next) := row make last count next
      (.seq first rest, next)

/-- At most `count` copies, each inside the optional part that the copy before it
opens. -/
def optionals (greedy : Bool) (make : Nat → Program × Nat) :
    (count : Nat) → Nat → Program × Nat
  | 0, next => (.skip, next)
  | count + 1, next =>
      let (first, next') := make (next + 1)
      let (rest, next') := optionals greedy make count next'
      (.optional next greedy (.seq first rest), next')

/-- The program of a tree, and the next free label. -/
def ofTree : Tree → Nat → Program × Nat
  | .empty, next => (.skip, next)
  | .byte set, next => (.byte set, next)
  | .seq a b, next =>
      let (a', next) := ofTree a next
      let (b', next) := ofTree b next
      (.seq a' b', next)
  | .alt a b, next =>
      let (a', next) := ofTree a next
      let (b', next) := ofTree b next
      (.alt a' b', next)
  | .group i a, next =>
      let (a', next) := ofTree a next
      (.group i a', next)
  | .backref i, next => (.backref i, next)
  | .lineStart, next => (.lineStart, next)
  | .lineEnd, next => (.lineEnd, next)
  | .wordBoundary n, next => (.wordBoundary n, next)
  | .lookahead n a, next =>
      let (a', next) := ofTree a next
      (.lookahead n a', next)
  | .repeated ⟨.star, greedy⟩ a, next =>
      let (a', next') := ofTree a (next + 1)
      (.loop next greedy a', next')
  | .repeated ⟨.plus, greedy⟩ a, next =>
      let (a', next') := ofTree a (next + 1)
      (.seq a' (.loop next greedy a'), next')
  | .repeated ⟨.optional, greedy⟩ a, next =>
      let (a', next') := ofTree a (next + 1)
      (.optional next greedy a', next')
  | .repeated ⟨.between least none, greedy⟩ a, next =>
      let endless := fun next =>
        let (a', next') := ofTree a (next + 1)
        (.loop next greedy a', next')
      row (ofTree a) endless least next
  | .repeated ⟨.between least (some most), greedy⟩ a, next =>
      row (ofTree a) (optionals greedy (ofTree a) (most - least)) least next

end Program

end Conformance.Pattern

namespace Conformance

open Pattern in
/-- A name pattern: its program with the number of labels and of capturing groups in
it. -/
structure Pattern where
  program : Program
  labels : Nat
  groups : Nat
  deriving DecidableEq

namespace Pattern

def ofTree (tree : Tree) (groups : Nat) : Pattern :=
  let (program, labels) := Program.ofTree tree 0
  { program, labels, groups }

/-- The pattern that a text describes. -/
def read (t : Text) : Except PatternError Pattern := do
  let (tree, groups) ← readTree t
  return ofTree tree groups

end Pattern

end Conformance
