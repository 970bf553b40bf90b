import Conformance.Rule.Condition
import Conformance.Rule.Vocabulary
import Conformance.Pattern.Matcher

/-!
# Assertions

The conditions that the library offers about single items.  Each one asserts a predicate,
or denies it, and says in its own words what it found.
-/

namespace Conformance

/-- The words for asserting and denying one thing.  The object, which is added after each
of them, says what is asserted. -/
structure Wording where
  assertion : Text
  denial : Text
  present : Text
  missing : Text
  deriving DecidableEq

namespace Wording

def annotated : Wording :=
  { assertion := "be annotated with"
    denial := "not be annotated with"
    present := "is annotated with"
    missing := "is not annotated with" }

/-- The words for having something. -/
def having (what : Text) : Wording :=
  { assertion := "have " ++ what
    denial := "not have " ++ what
    present := "has " ++ what
    missing := "does not have " ++ what }

def residing : Wording :=
  { assertion := "reside in a package"
    denial := "not reside in a package"
    present := "resides in a package"
    missing := "does not reside in a package" }

def ownedBy : Wording :=
  { assertion := "be declared in"
    denial := "not be declared in"
    present := "is declared in"
    missing := "is not declared in" }

def throwing : Wording :=
  { assertion := "declare throwable of type"
    denial := "not declare throwable of type"
    present := "declares throwable of type"
    missing := "does not declare throwable of type" }

end Wording

namespace Condition

variable {α : Type}

def asserting [ToElement α] (words : Wording) (object : Text) (p : Predicate α) :
    Condition α :=
  judging (words.assertion ++ " " ++ object) p
    (words.missing ++ " " ++ object) (words.present ++ " " ++ object)

/-- Deny a predicate: the negated predicate, with the two findings exchanged. -/
def denying [ToElement α] (words : Wording) (object : Text) (p : Predicate α) :
    Condition α :=
  judging (words.denial ++ " " ++ object) p.not
    (words.present ++ " " ++ object) (words.missing ++ " " ++ object)

/-! ## Elements -/

/-- Some annotation is accepted. -/
def annotated (p : Predicate TypeName) : Condition Element :=
  asserting .annotated p.description (.annotated p)

/-- No annotation is accepted. -/
def notAnnotated (p : Predicate TypeName) : Condition Element :=
  denying .annotated p.description (.annotated p)

def hasModifier (m : Modifier) : Condition Element :=
  asserting (.having "modifier") m.label (.hasModifier m)

def lacksModifier (m : Modifier) : Condition Element :=
  denying (.having "modifier") m.label (.hasModifier m)

def isPublic : Condition Element :=
  (hasModifier .pub).renamed "be public"

def isProtected : Condition Element :=
  (hasModifier .prot).renamed "be protected"

def isPrivate : Condition Element :=
  (hasModifier .priv).renamed "be private"

def isPackagePrivate : Condition Element :=
  judging "be package private" .isPackagePrivate
    "is not package private" "is package private"

def named (name : Text) : Condition Element :=
  asserting (.having "name") name.quoted (.named name)

/-- The whole name of the element matches the pattern.  `source` is the text of the
pattern. -/
def nameMatches (source : Text) (pattern : Pattern) : Condition Element :=
  asserting (.having "name matching") source.quoted
    (.describe ("name matching " ++ source.quoted) (fun e => pattern.matchesWhole e.name))

/-! ## Classes -/

/-- The package of the class is one that the identifier describes. -/
def inPackage (identifier : Text) : Condition Class :=
  asserting .residing identifier.quoted (.inPackage identifier)

/-- The condition about the packages that an identifier describes, unless the identifier
is refused. -/
def inPackage? (identifier : Text) : Except Pattern.PatternError (Condition Class) := do
  let p ← Predicate.inPackage? identifier
  return asserting .residing identifier.quoted p

def simpleNameEnds (suffix : Text) : Condition Class :=
  asserting (.having "simple name ending with") suffix.quoted (.simpleNameEnds suffix)

/-! ## Members -/

/-- The class of the member is accepted. -/
def ownedBy (p : Predicate Class) : Condition Member :=
  asserting .ownedBy p.description (.ownedBy p)

/-- The type of the field is accepted. -/
def ofType (p : Predicate TypeName) : Condition Field :=
  asserting (.having "raw type") p.description (.ofType p)

/-! ## Code units -/

/-- The list of parameter types is accepted. -/
def taking (p : Predicate (List TypeName)) : Condition CodeUnit :=
  asserting (.having "raw parameter types") p.description (.taking p)

/-- The list of parameter types is refused. -/
def notTaking (p : Predicate (List TypeName)) : Condition CodeUnit :=
  denying (.having "raw parameter types") p.description (.taking p)

def returning (p : Predicate TypeName) : Condition CodeUnit :=
  asserting (.having "raw return type") p.description (.returning p)

def notReturning (p : Predicate TypeName) : Condition CodeUnit :=
  denying (.having "raw return type") p.description (.returning p)

/-- Some type of the throws clause is accepted. -/
def throwing (p : Predicate TypeName) : Condition CodeUnit :=
  asserting .throwing p.description (.throwing p)

/-- No type of the throws clause is accepted. -/
def notThrowing (p : Predicate TypeName) : Condition CodeUnit :=
  denying .throwing p.description (.throwing p)

end Condition

end Conformance
