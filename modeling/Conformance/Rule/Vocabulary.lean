import Conformance.Package
import Conformance.Rule.Predicate

/-!
# The vocabulary of predicates

The predicates that the library offers, by what they are about: types, lists of types,
elements, classes, members, fields and code units.  A predicate about the type of
something comes from a predicate about types; a type or a name can be given in its place.
-/

namespace Conformance

namespace Predicate

/-! ## Types and lists of types -/

def isType (t : TypeName) : Predicate TypeName :=
  describe ("equivalent to " ++ t.text) (fun x => x = t)

def typeCalled (t : TypeName) : Predicate TypeName :=
  describe t.text (fun x => x = t)

def annotationCalled (t : TypeName) : Predicate TypeName :=
  describe ("@" ++ t.simpleName) (fun x => x = t)

def areTypes (ts : List TypeName) : Predicate (List TypeName) :=
  describe (TypeName.listText ts) (fun xs => xs = ts)

/-! ## Elements -/

/-- Some annotation of the element is accepted. -/
def annotated (p : Predicate TypeName) : Predicate Element :=
  ofSome "are annotated with" Element.annotations p

def hasModifier (m : Modifier) : Predicate Element :=
  describe ("have modifier " ++ m.label) (fun e => e.hasModifier m)

def isPublic : Predicate Element :=
  (hasModifier .pub).renamed "are public"

def isProtected : Predicate Element :=
  (hasModifier .prot).renamed "are protected"

def isPrivate : Predicate Element :=
  (hasModifier .priv).renamed "are private"

def isPackagePrivate : Predicate Element :=
  describe "are package private" Element.isPackagePrivate

/-- The element has the name: the full one of a class, the plain one of a member. -/
def named (name : Text) : Predicate Element :=
  describe ("have name " ++ name.quoted) (fun e => e.name = name)

/-! ## Classes -/

/-- Is the class called `name` the class called `outer`, or nested in it at some depth? -/
def nestedIn (name outer : TypeName) : Bool :=
  name = outer || (outer.text ++ [Text.dollar]).isPrefixOf name.text

/-- The class is one of the given classes, or nested in one of them at some depth. -/
def withinAny (outers : List TypeName) : Predicate Class :=
  describe ("belong to any of " ++ TypeName.listText outers)
    (fun c => outers.any (fun outer => nestedIn c.name outer))

def fullyNamed (t : TypeName) : Predicate Class :=
  describe ("have fully qualified name " ++ t.text.quoted) (fun c => c.name = t)

def simplyNamed (name : Text) : Predicate Class :=
  describe ("have simple name " ++ name.quoted) (fun c => c.simpleName = name)

def simpleNameEnds (suffix : Text) : Predicate Class :=
  describe ("have simple name ending with " ++ suffix.quoted)
    (fun c => suffix.isSuffixOf c.simpleName)

/-- The package of the class is one that the identifier describes.  A refused identifier
has no such predicate, see `inPackage?`. -/
def inPackage (identifier : Text) : Predicate Class :=
  describe ("reside in a package " ++ identifier.quoted)
    (fun c => Package.matchesName identifier c.packageName)

/-- The predicate about the packages that an identifier describes, unless the identifier
is refused. -/
def inPackage? (identifier : Text) : Except Pattern.PatternError (Predicate Class) := do
  Package.accept identifier
  return inPackage identifier

/-- The class is called `t`, under a description that is the name alone. -/
def classCalled (t : TypeName) : Predicate Class :=
  (fullyNamed t).renamed t.text

/-! ## Members -/

/-- The class of the member is accepted. -/
def ownedBy (p : Predicate Class) : Predicate Member :=
  ofPart "are declared in" Member.owner p

def ofType (p : Predicate TypeName) : Predicate Field :=
  ofPart "have raw type" (fun f => f.decl.rawType) p

/-! ## Code units -/

def isMethod : Predicate CodeUnit :=
  describe "are methods" CodeUnit.isMethod

def isConstructor : Predicate CodeUnit :=
  describe "are constructors" CodeUnit.isConstructor

/-- The list of parameter types is accepted. -/
def taking (p : Predicate (List TypeName)) : Predicate CodeUnit :=
  ofPart "have raw parameter types" (fun u => u.decl.parameters) p

def returning (p : Predicate TypeName) : Predicate CodeUnit :=
  ofPart "have raw return type" CodeUnit.returnType p

/-- Some type of the throws clause is accepted. -/
def throwing (p : Predicate TypeName) : Predicate CodeUnit :=
  ofSome "declare throwable of type" (fun u => u.decl.throws) p

end Predicate

end Conformance
