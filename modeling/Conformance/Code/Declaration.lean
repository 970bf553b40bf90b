import Conformance.Code.Modifier
import Conformance.Code.TypeName

/-!
# Declarations

A class lists the declarations of its fields, methods and constructors.  Every class and
every declaration has an identity of its own: two methods of one class may agree in all
that they declare and are still two methods.
-/

namespace Conformance

/-- The identity of a class or of a declaration: the draft that made it and its number in
that draft. -/
structure Ident where
  draft : Nat
  serial : Nat
  deriving DecidableEq

namespace Ident

/-- Identities are ordered by draft, then by number. -/
instance : Ord Ident :=
  ⟨compareLex (compareOn Ident.draft) (compareOn Ident.serial)⟩

instance : Std.TransOrd Ident :=
  inferInstanceAs
    (Std.TransCmp (compareLex (compareOn Ident.draft) (compareOn Ident.serial)))

instance : Std.LawfulEqOrd Ident where
  eq_of_compare := by
    intro a b h
    have h' : (compare a.draft b.draft).then (compare a.serial b.serial) = .eq := h
    rw [Ordering.then_eq_eq] at h'
    cases a
    cases b
    simp_all

end Ident

/-- What all declarations have in common.  Line `0` stands for an unknown line. -/
structure Declaration where
  id : Ident
  modifiers : ModifierSet
  annotations : List TypeName := []
  line : UInt32 := 0
  deriving DecidableEq

/-- The declaration of a field. -/
structure FieldDecl extends Declaration where
  name : Text
  rawType : TypeName
  deriving DecidableEq

/-- The declaration of a method.  Its throws clause lists each type once. -/
structure MethodDecl extends Declaration where
  name : Text
  parameters : List TypeName
  returnType : TypeName
  throws : List TypeName := []
  deriving DecidableEq

/-- The declaration of a constructor.  It has no name of its own and returns its class. -/
structure ConstructorDecl extends Declaration where
  parameters : List TypeName
  throws : List TypeName := []
  deriving DecidableEq

/-- The declaration of a code unit: a method or a constructor. -/
inductive UnitDecl where
  | method (decl : MethodDecl)
  | constructor (decl : ConstructorDecl)
  deriving DecidableEq

/-- The declaration of a member: a field or a code unit. -/
inductive MemberDecl where
  | field (decl : FieldDecl)
  | unit (decl : UnitDecl)
  deriving DecidableEq

/-- Add a type at the end of a list unless the list has it already. -/
def TypeName.addTo (types : List TypeName) (t : TypeName) : List TypeName :=
  if types.contains t then types else types ++ [t]

namespace UnitDecl

def base : UnitDecl → Declaration
  | method d => d.toDeclaration
  | constructor d => d.toDeclaration

def mapBase (f : Declaration → Declaration) : UnitDecl → UnitDecl
  | method d => method { d with toDeclaration := f d.toDeclaration }
  | constructor d => constructor { d with toDeclaration := f d.toDeclaration }

/-- The name that all constructors share. -/
def constructorName : Text := "<init>"

def name : UnitDecl → Text
  | method d => d.name
  | constructor _ => constructorName

def parameters : UnitDecl → List TypeName
  | method d => d.parameters
  | constructor d => d.parameters

/-- The types of the throws clause, in the order of their first declaration. -/
def throws : UnitDecl → List TypeName
  | method d => d.throws
  | constructor d => d.throws

def addThrowable (t : TypeName) : UnitDecl → UnitDecl
  | method d => method { d with throws := t.addTo d.throws }
  | constructor d => constructor { d with throws := t.addTo d.throws }

end UnitDecl

namespace MemberDecl

def base : MemberDecl → Declaration
  | field d => d.toDeclaration
  | unit d => d.base

def id (d : MemberDecl) : Ident :=
  d.base.id

def mapBase (f : Declaration → Declaration) : MemberDecl → MemberDecl
  | field d => field { d with toDeclaration := f d.toDeclaration }
  | unit d => unit (d.mapBase f)

/-- Add an annotation, unless the declaration has it already. -/
def addAnnotation (t : TypeName) (d : MemberDecl) : MemberDecl :=
  d.mapBase (fun b => { b with annotations := t.addTo b.annotations })

def setLine (line : UInt32) (d : MemberDecl) : MemberDecl :=
  d.mapBase (fun b => { b with line := line })

/-- Declare one more throwable; a field has no throws clause and stays as it is. -/
def addThrowable (t : TypeName) : MemberDecl → MemberDecl
  | field d => field d
  | unit d => unit (d.addThrowable t)

end MemberDecl

end Conformance
