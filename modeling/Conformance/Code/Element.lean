import Conformance.Code.Declaration
import Conformance.Location

/-!
# Code elements

Rules speak about classes and their members.  A member is a declaration seen together with
the class that makes it, so its full name and its location can be read off the member
alone.

Every element has a description, which is the subject of the messages about it, and a
location.
-/

namespace Conformance

/-- A class with the members it declares, in the order of their declaration.  An analyzed
class is part of the code under examination; any other class is only known as the owner of
something the code uses. -/
structure Class where
  id : Ident
  name : TypeName
  modifiers : ModifierSet
  annotations : List TypeName := []
  sourceFile : Text
  analyzed : Bool
  declarations : List MemberDecl := []
  deriving DecidableEq

/-- A field in its class. -/
structure Field where
  owner : Class
  decl : FieldDecl
  deriving DecidableEq

/-- A method in its class. -/
structure Method where
  owner : Class
  decl : MethodDecl
  deriving DecidableEq

/-- A constructor in its class. -/
structure Constructor where
  owner : Class
  decl : ConstructorDecl
  deriving DecidableEq

/-- A method or a constructor in its class. -/
structure CodeUnit where
  owner : Class
  decl : UnitDecl
  deriving DecidableEq

/-- A field, a method or a constructor in its class. -/
structure Member where
  owner : Class
  decl : MemberDecl
  deriving DecidableEq

/-- A class or a member. -/
inductive Element where
  | ofClass (c : Class)
  | ofMember (m : Member)
  deriving DecidableEq

/-- The three sorts of members. -/
inductive MemberKind where
  | field
  | method
  | constructor
  deriving DecidableEq

namespace MemberKind

/-- The word that starts a description. -/
def label : MemberKind → Text
  | field => "Field"
  | method => "Method"
  | constructor => "Constructor"

/-- The word inside a sentence. -/
def lowerLabel : MemberKind → Text
  | field => "field"
  | method => "method"
  | constructor => "constructor"

end MemberKind

namespace Method

/-- The method among the code units. -/
def toCodeUnit (m : Method) : CodeUnit :=
  ⟨m.owner, .method m.decl⟩

end Method

namespace Constructor

/-- The constructor among the code units. -/
def toCodeUnit (c : Constructor) : CodeUnit :=
  ⟨c.owner, .constructor c.decl⟩

end Constructor

namespace Field

def toMember (f : Field) : Member :=
  ⟨f.owner, .field f.decl⟩

end Field

namespace CodeUnit

def toMember (u : CodeUnit) : Member :=
  ⟨u.owner, .unit u.decl⟩

def id (u : CodeUnit) : Ident :=
  u.decl.base.id

/-- The code unit as a method, if it is one. -/
def asMethod? (u : CodeUnit) : Option Method :=
  match u.decl with
  | .method d => some ⟨u.owner, d⟩
  | .constructor _ => none

/-- The code unit as a constructor, if it is one. -/
def asConstructor? (u : CodeUnit) : Option Constructor :=
  match u.decl with
  | .method _ => none
  | .constructor d => some ⟨u.owner, d⟩

def isMethod (u : CodeUnit) : Bool :=
  u.asMethod?.isSome

def isConstructor (u : CodeUnit) : Bool :=
  u.asConstructor?.isSome

/-- The declared return type.  A constructor returns its class. -/
def returnType (u : CodeUnit) : TypeName :=
  match u.decl with
  | .method d => d.returnType
  | .constructor _ => u.owner.name

/-- The name with its owner and its parameter types. -/
def fullName (u : CodeUnit) : Text :=
  u.owner.name.text ++ "." ++ u.decl.name ++ "("
    ++ TypeName.commaSeparated u.decl.parameters ++ ")"

end CodeUnit

namespace Member

def id (m : Member) : Ident :=
  m.decl.id

def asField? (m : Member) : Option Field :=
  match m.decl with
  | .field d => some ⟨m.owner, d⟩
  | .unit _ => none

def asUnit? (m : Member) : Option CodeUnit :=
  match m.decl with
  | .field _ => none
  | .unit d => some ⟨m.owner, d⟩

def kind (m : Member) : MemberKind :=
  match m.decl with
  | .field _ => .field
  | .unit (.method _) => .method
  | .unit (.constructor _) => .constructor

/-- The declared name, without the owner. -/
def name (m : Member) : Text :=
  match m.decl with
  | .field d => d.name
  | .unit d => d.name

/-- The name with its owner, and with the parameter types of a code unit. -/
def fullName (m : Member) : Text :=
  match m.decl with
  | .field d => m.owner.name.text ++ "." ++ d.name
  | .unit d => CodeUnit.fullName ⟨m.owner, d⟩

/-- The subject of messages about the member. -/
def description (m : Member) : Text :=
  m.kind.label ++ " <" ++ m.fullName ++ ">"

/-- A member stands in the file of its class, on a line of its own. -/
def location (m : Member) : Location :=
  ⟨m.owner.sourceFile, m.decl.base.line⟩

end Member

namespace Class

/-- The members, in the order of their declaration. -/
def members (c : Class) : List Member :=
  c.declarations.map (fun d => ⟨c, d⟩)

def fields (c : Class) : List Field :=
  c.members.filterMap Member.asField?

/-- The methods and constructors, in the order of their declaration. -/
def codeUnits (c : Class) : List CodeUnit :=
  c.members.filterMap Member.asUnit?

def methods (c : Class) : List Method :=
  c.codeUnits.filterMap CodeUnit.asMethod?

def constructors (c : Class) : List Constructor :=
  c.codeUnits.filterMap CodeUnit.asConstructor?

/-- The name without package and enclosing classes. -/
def simpleName (c : Class) : Text :=
  c.name.simpleName

/-- The package of the class; empty for the default package. -/
def packageName (c : Class) : Text :=
  c.name.packageName

/-- The subject of messages about the class. -/
def description (c : Class) : Text :=
  "Class <" ++ c.name.text ++ ">"

/-- A class stands in its file; its line is not recorded. -/
def location (c : Class) : Location :=
  ⟨c.sourceFile, 0⟩

end Class

namespace Element

def id : Element → Ident
  | ofClass c => c.id
  | ofMember m => m.id

/-- The fully qualified name of a class, the plain name of a member. -/
def name : Element → Text
  | ofClass c => c.name.text
  | ofMember m => m.name

/-- The fully qualified name of a class, or the name of a member with its owner. -/
def fullName : Element → Text
  | ofClass c => c.name.text
  | ofMember m => m.fullName

def description : Element → Text
  | ofClass c => c.description
  | ofMember m => m.description

def location : Element → Location
  | ofClass c => c.location
  | ofMember m => m.location

def modifiers : Element → ModifierSet
  | ofClass c => c.modifiers
  | ofMember m => m.decl.base.modifiers

/-- The annotations, each once, in the order of their first declaration. -/
def annotations : Element → List TypeName
  | ofClass c => c.annotations
  | ofMember m => m.decl.base.annotations

def isAnnotatedWith (e : Element) (t : TypeName) : Bool :=
  e.annotations.contains t

def hasModifier (e : Element) (m : Modifier) : Bool :=
  e.modifiers.contains m

/-- The class or member with a given identity among some classes and their members. -/
def find? (classes : List Class) (id : Ident) : Option Element :=
  match classes.find? (fun c => c.id = id) with
  | some c => some (.ofClass c)
  | none => ((classes.flatMap Class.members).find? (fun m => m.id = id)).map .ofMember

/-- An element that is neither public, protected nor private is visible in its package. -/
def isPackagePrivate (e : Element) : Bool :=
  !e.hasModifier .pub && !e.hasModifier .prot && !e.hasModifier .priv

end Element

/-- The things that are code elements, each with its view as one. -/
class ToElement (α : Type) where
  toElement : α → Element

export ToElement (toElement)

instance : ToElement Element := ⟨fun e => e⟩

instance : ToElement Class := ⟨.ofClass⟩

instance : ToElement Member := ⟨.ofMember⟩

instance : ToElement Field := ⟨fun f => .ofMember f.toMember⟩

instance : ToElement CodeUnit := ⟨fun u => .ofMember u.toMember⟩

instance : ToElement Method := ⟨fun m => .ofMember m.toCodeUnit.toMember⟩

instance : ToElement Constructor := ⟨fun c => .ofMember c.toCodeUnit.toMember⟩

end Conformance
