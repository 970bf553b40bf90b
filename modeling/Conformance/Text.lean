/-!
# Texts

Names, descriptions, messages and patterns are sequences of bytes.  Lengths, cuts, suffix
tests and the order of names are all taken byte by byte, so a text may be cut in the
middle of an encoded character; such a piece is compared with other texts, never shown.
-/

namespace Conformance

/-- A text is the sequence of its bytes. -/
abbrev Text := List UInt8

namespace Text

/-- The UTF-8 bytes of a string. -/
def ofString (s : String) : Text :=
  s.toUTF8.data.toList

instance : Coe String Text := ⟨ofString⟩

/-- The byte `.` that separates package segments. -/
def dot : UInt8 := 46

/-- The byte `$` that separates a nested class from the class around it. -/
def dollar : UInt8 := 36

/-- A number in decimal notation, without leading zeros. -/
def decimal (n : Nat) : Text :=
  (Nat.toDigits 10 n).map (fun c => c.toNat.toUInt8)

/-- The texts one after the other, with `separator` between every two neighbours. -/
def join (separator : Text) (texts : List Text) : Text :=
  List.intercalate separator texts

/-- The bytes before the first one that satisfies `p`; the whole text when none does. -/
def beforeFirst (p : UInt8 → Bool) (t : Text) : Text :=
  t.takeWhile (fun b => !p b)

/-- The bytes after the last one that satisfies `p`; the whole text when none does. -/
def afterLast (p : UInt8 → Bool) (t : Text) : Text :=
  (t.reverse.takeWhile (fun b => !p b)).reverse

/-- The bytes before the last one that satisfies `p`; empty when none does. -/
def beforeLast (p : UInt8 → Bool) (t : Text) : Text :=
  ((t.reverse.dropWhile (fun b => !p b)).drop 1).reverse

/-- The part of a text that a reader of zero-terminated text sees. -/
def beforeZero (t : Text) : Text :=
  beforeFirst (· == 0) t

/-- Does `part` occur in the text as a block of neighbouring bytes? -/
def hasPart (t part : Text) : Bool :=
  match t with
  | [] => part.isEmpty
  | b :: rest => part.isPrefixOf (b :: rest) || hasPart rest part

/-- A text between single quotation marks. -/
def quoted (t : Text) : Text :=
  "'" ++ t ++ "'"

end Text

end Conformance
