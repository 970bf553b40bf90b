import Conformance.Text

/-!
# Names of single characters

Inside brackets a character may be written by its name, as in `[[.hyphen.]]`.  Every ASCII
character has one name; letters are named by themselves.
-/

namespace Conformance.Pattern

/-- The names of the ASCII characters, in the order of their numbers. -/
def characterNames : List String :=
  ["NUL", "SOH", "STX", "ETX", "EOT", "ENQ", "ACK", "alert", "backspace", "tab",
    "newline", "vertical-tab", "form-feed", "carriage-return", "SO", "SI", "DLE", "DC1",
    "DC2", "DC3", "DC4", "NAK", "SYN", "ETB", "CAN", "EM", "SUB", "ESC", "IS4", "IS3",
    "IS2", "IS1", "space", "exclamation-mark", "quotation-mark", "number-sign",
    "dollar-sign", "percent-sign", "ampersand", "apostrophe", "left-parenthesis",
    "right-parenthesis", "asterisk", "plus-sign", "comma", "hyphen", "period", "slash",
    "zero", "one", "two", "three", "four", "five", "six", "seven", "eight", "nine",
    "colon", "semicolon", "less-than-sign", "equals-sign", "greater-than-sign",
    "question-mark", "commercial-at", "A", "B", "C", "D", "E", "F", "G", "H", "I", "J",
    "K", "L", "M", "N", "O", "P", "Q", "R", "S", "T", "U", "V", "W", "X", "Y", "Z",
    "left-square-bracket", "backslash", "right-square-bracket", "circumflex",
    "underscore", "grave-accent", "a", "b", "c", "d", "e", "f", "g", "h", "i", "j", "k",
    "l", "m", "n", "o", "p", "q", "r", "s", "t", "u", "v", "w", "x", "y", "z",
    "left-curly-bracket", "vertical-line", "right-curly-bracket", "tilde", "DEL"]

def characterNamed? (name : List Char) : Option UInt8 :=
  (characterNames.findIdx? (fun n => n == String.ofList name)).map Nat.toUInt8

end Conformance.Pattern
