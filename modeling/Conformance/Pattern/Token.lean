import Conformance.Pattern.Collating
import Conformance.Pattern.Syntax

/-!
# Pattern tokens

The first step in reading a pattern cuts its bytes into tokens.  A set in brackets and a
quantifier in braces are one token each.  Bytes are looked at as the characters of their
numbers.
-/

namespace Conformance.Pattern

/-- Why a text is not a pattern. -/
inductive PatternError where
  | escape
  | bracket
  | range
  | className
  | brace
  | parenthesis
  | repetition
  | backReference
  | tooLarge
  deriving DecidableEq

/-- A token of a pattern. -/
inductive Token where
  | byte (set : ByteSet)
  | backref (index : Nat)
  | openGroup
  | openPlain
  | openLookahead (negated : Bool)
  | close
  | bar
  | lineStart
  | lineEnd
  | wordBoundary (negated : Bool)
  | quantifier (q : Quantifier)
  deriving DecidableEq

/-- What a backslash may introduce. -/
inductive Escape where
  | byte (b : UInt8)
  | named (entry : SetEntry)
  | wordBoundary (negated : Bool)
  | backref (index : Nat)
  deriving DecidableEq

/-- The byte a character of the pattern stands for. -/
def byteOf (c : Char) : UInt8 :=
  c.toNat.toUInt8

/-- The value of a hexadecimal digit. -/
def hexValue? (c : Char) : Option Nat :=
  if '0' ≤ c ∧ c ≤ '9' then some (c.toNat - 48)
  else if 'a' ≤ c ∧ c ≤ 'f' then some (c.toNat - 87)
  else if 'A' ≤ c ∧ c ≤ 'F' then some (c.toNat - 55)
  else none

/-- The number that a sequence of decimal digits denotes. -/
def decimalValue (digits : List Char) : Nat :=
  digits.foldl (fun n c => 10 * n + (c.toNat - 48)) 0

def isDigit (c : Char) : Bool :=
  '0' ≤ c && c ≤ '9'

/-- The number written by exactly `count` hexadecimal digits, and what follows them. -/
def readHex :
    (count : Nat) → (value : Nat) → List Char → Except PatternError (Nat × List Char)
  | 0, value, rest => .ok (value, rest)
  | _ + 1, _, [] => .error .escape
  | count + 1, value, c :: rest =>
      match hexValue? c with
      | some d => readHex count (16 * value + d) rest
      | none => .error .escape

/-- The escape after a backslash, and what follows it.  Inside brackets `\b` is the
backspace. -/
def readEscape (inBrackets : Bool) : List Char → Except PatternError (Escape × List Char)
  | [] => .error .escape
  | c :: rest =>
      match c with
      | '0' => .ok (.byte 0, rest)
      | 'b' => .ok (if inBrackets then .byte 8 else .wordBoundary false, rest)
      | 'B' => .ok (.wordBoundary true, rest)
      | 'f' => .ok (.byte 12, rest)
      | 'n' => .ok (.byte 10, rest)
      | 'r' => .ok (.byte 13, rest)
      | 't' => .ok (.byte 9, rest)
      | 'v' => .ok (.byte 11, rest)
      | 'd' => .ok (.named (.named .digit), rest)
      | 'D' => .ok (.named (.notNamed .digit), rest)
      | 's' => .ok (.named (.named .space), rest)
      | 'S' => .ok (.named (.notNamed .space), rest)
      | 'w' => .ok (.named (.named .word), rest)
      | 'W' => .ok (.named (.notNamed .word), rest)
      | 'c' =>
          match rest with
          | [] => .error .escape
          | x :: rest' => .ok (.byte (byteOf x), rest')
      | 'x' => (readHex 2 0 rest).map (fun r => (.byte r.1.toUInt8, r.2))
      | 'u' => (readHex 4 0 rest).map (fun r => (.byte r.1.toUInt8, r.2))
      | _ =>
          if isDigit c then
            .ok (.backref (decimalValue (c :: rest.takeWhile isDigit)),
              rest.dropWhile isDigit)
          else
            .ok (.byte (byteOf c), rest)

/-- A token inside brackets.  A character that is given by its name can start a range and
cannot end one. -/
inductive SetToken where
  | byte (b : UInt8)
  | character (b : UInt8)
  | dash
  | entry (e : SetEntry)
  deriving DecidableEq

/-- The name inside brackets up to its closing mark, as in `[:alpha:]`, and what follows
it. -/
def readName (mark : Char) : List Char → Option (List Char × List Char)
  | [] => none
  | c :: rest =>
      if c = mark then
        match rest with
        | ']' :: rest' => some ([], rest')
        | _ => none
      else
        (readName mark rest).map (fun r => (c :: r.1, r.2))

/-- The token that starts with an opening bracket inside brackets. -/
def readInnerBracket (rest : List Char) : Except PatternError (SetToken × List Char) :=
  match rest with
  | [] => .error .bracket
  | ':' :: rest' =>
      match readName ':' rest' with
      | none => .error .className
      | some (name, rest'') =>
          match ByteClass.ofName? name with
          | none => .error .className
          | some c => .ok (.entry (.named c), rest'')
  | '.' :: rest' =>
      match (readName '.' rest').bind (fun r => (characterNamed? r.1).map (·, r.2)) with
      | none => .error .className
      | some (b, rest'') => .ok (.character b, rest'')
  | '=' :: rest' =>
      match (readName '=' rest').bind (fun r => (characterNamed? r.1).map (·, r.2)) with
      | none => .error .className
      | some (b, rest'') => .ok (.entry (.sameLetter b), rest'')
  | _ => .ok (.byte 91, rest)

/-- The next token inside brackets, which starts with `c`, and what follows it. -/
def readSetToken (c : Char) (rest : List Char) :
    Except PatternError (SetToken × List Char) :=
  match c with
  | '-' => .ok (.dash, rest)
  | '[' => readInnerBracket rest
  | '\\' => do
      match ← readEscape true rest with
      | (.byte b, rest') => .ok (.byte b, rest')
      | (.named e, rest') => .ok (.entry e, rest')
      | _ => .error .bracket
  | _ => .ok (.byte (byteOf c), rest)

/-- The tokens inside brackets up to the bracket that closes them, and what follows it.
Every round takes at least one character, so as many rounds as there are characters
suffice. -/
def readSetTokens :
    (rounds : Nat) → List Char → Except PatternError (List SetToken × List Char)
  | _, [] => .error .bracket
  | 0, _ => .error .bracket
  | rounds + 1, c :: rest =>
      if c = ']' then
        .ok ([], rest)
      else do
        let (token, rest') ← readSetToken c rest
        let (tokens, rest'') ← readSetTokens rounds rest'
        return (token :: tokens, rest'')

/-- The entry read last inside brackets: a byte that may still start a range, or something
that may not. -/
inductive LastEntry where
  | nothing
  | byte (b : UInt8)
  | other
  deriving DecidableEq

/-- The entries of the remaining tokens, given the entry read last.  A dash is a byte of
its own at the start, at the end and after a range. -/
def setEntries : LastEntry → List SetToken → Except PatternError (List SetEntry)
  | .byte l, [] => .ok [.byte l]
  | _, [] => .ok []
  | .byte l, [.dash] => .ok [.byte l, .byte 45]
  | _, [.dash] => .ok [.byte 45]
  | .other, .dash :: _ => .error .range
  | .byte l, .dash :: .byte r :: rest =>
      if l.toInt8 ≤ r.toInt8 then
        (.range l r :: ·) <$> setEntries .nothing rest
      else
        .error .range
  | .byte l, .dash :: .dash :: rest =>
      if l.toInt8 ≤ 45 then
        (.range l 45 :: ·) <$> setEntries .nothing rest
      else
        .error .range
  | .byte _, .dash :: .character _ :: _ => .error .range
  | .byte _, .dash :: .entry _ :: _ => .error .range
  | .nothing, .dash :: rest => setEntries (.byte 45) rest
  | .byte l, .byte b :: rest => (.byte l :: ·) <$> setEntries (.byte b) rest
  | _, .byte b :: rest => setEntries (.byte b) rest
  | .byte l, .character b :: rest => (.byte l :: ·) <$> setEntries (.byte b) rest
  | _, .character b :: rest => setEntries (.byte b) rest
  | .byte l, .entry e :: rest => (fun es => .byte l :: e :: es) <$> setEntries .other rest
  | _, .entry e :: rest => (e :: ·) <$> setEntries .other rest

/-- The entries of all tokens inside brackets.  A dash in front is a byte of its own. -/
def entriesOfTokens : List SetToken → Except PatternError (List SetEntry)
  | .dash :: rest => setEntries (.byte 45) rest
  | tokens => setEntries .nothing tokens

/-- The set whose brackets have just been opened, and what follows it. -/
def readSet (cs : List Char) : Except PatternError (ByteSet × List Char) := do
  let (negated, inner) :=
    match cs with
    | '^' :: rest => (true, rest)
    | _ => (false, cs)
  let (tokens, rest) ← readSetTokens inner.length inner
  let entries ← entriesOfTokens tokens
  return (⟨negated, entries⟩, rest)

/-- The bounds whose brace has just been opened, and what follows them. -/
def readBounds (cs : List Char) : Except PatternError (Times × List Char) :=
  let least := cs.takeWhile isDigit
  if least.isEmpty then
    .error .brace
  else
    match cs.dropWhile isDigit with
    | '\x7d' :: rest =>
        .ok (.between (decimalValue least) (some (decimalValue least)), rest)
    | ',' :: rest =>
        let most := rest.takeWhile isDigit
        match rest.dropWhile isDigit with
        | '\x7d' :: rest' =>
            if most.isEmpty then
              .ok (.between (decimalValue least) none, rest')
            else if decimalValue most < decimalValue least then
              .error .brace
            else
              .ok (.between (decimalValue least) (some (decimalValue most)), rest')
        | _ => .error .brace
    | _ => .error .brace

/-- A quantifier that occurs `times` times; a question mark after it makes it prefer
fewer. -/
def readQuantifier (times : Times) : List Char → Token × List Char
  | '?' :: rest => (.quantifier ⟨times, false⟩, rest)
  | rest => (.quantifier ⟨times, true⟩, rest)

/-- The token that starts with an opening parenthesis, and what follows it. -/
def readOpening : List Char → Except PatternError (Token × List Char)
  | '?' :: ':' :: rest => .ok (.openPlain, rest)
  | '?' :: '=' :: rest => .ok (.openLookahead false, rest)
  | '?' :: '!' :: rest => .ok (.openLookahead true, rest)
  | '?' :: _ => .error .parenthesis
  | rest => .ok (.openGroup, rest)

/-- The next token, which starts with `c`, and what follows it. -/
def readToken (c : Char) (rest : List Char) : Except PatternError (Token × List Char) :=
  match c with
  | '\\' => do
      match ← readEscape false rest with
      | (.byte b, rest') => return (.byte (.single b), rest')
      | (.named e, rest') => return (.byte ⟨false, [e]⟩, rest')
      | (.wordBoundary n, rest') => return (.wordBoundary n, rest')
      | (.backref i, rest') => return (.backref i, rest')
  | '.' => .ok (.byte .exceptLineEnds, rest)
  | '[' => (fun r => (.byte r.1, r.2)) <$> readSet rest
  | '(' => readOpening rest
  | ')' => .ok (.close, rest)
  | '|' => .ok (.bar, rest)
  | '^' => .ok (.lineStart, rest)
  | '$' => .ok (.lineEnd, rest)
  | '*' => .ok (readQuantifier .star rest)
  | '+' => .ok (readQuantifier .plus rest)
  | '?' => .ok (readQuantifier .optional rest)
  | '\x7b' => (fun r => readQuantifier r.1 r.2) <$> readBounds rest
  | _ => .ok (.byte (.single (byteOf c)), rest)

/-- The tokens of a list of characters.  Every round takes at least one character. -/
def readTokens : (rounds : Nat) → List Char → Except PatternError (List Token)
  | _, [] => .ok []
  | 0, _ => .ok []
  | rounds + 1, c :: rest => do
      let (token, rest') ← readToken c rest
      return token :: (← readTokens rounds rest')

def tokens (t : Text) : Except PatternError (List Token) :=
  readTokens t.length (t.map (fun b => Char.ofNat b.toNat))

end Conformance.Pattern
