import Conformance.Rule.Condition

/-!
# Restrictions on dependencies

Two conditions look at the edges of a model.  One restricts who may call a code unit, the
other restricts the classes that a class may depend on.  Each reports one violated event
for every edge it does not accept, in the words of the edge.
-/

namespace Conformance

/-- The sorts of callers a restriction may speak of. -/
inductive CallerKind where
  | classes
  | methods
  | constructors
  | codeUnits
  deriving DecidableEq

namespace CallerKind

def all : List CallerKind := [classes, methods, constructors, codeUnits]

/-- The name of the sort in descriptions. -/
def label : CallerKind → Text
  | classes => "classes"
  | methods => "methods"
  | constructors => "constructors"
  | codeUnits => "code units"

/-- May a call from this code unit be accepted at all? -/
def admits : CallerKind → CodeUnit → Bool
  | classes, _ => true
  | methods, u => u.isMethod
  | constructors, u => u.isConstructor
  | codeUnits, _ => true

end CallerKind

/-- What a restriction asks of callers: a predicate about the sort of caller it speaks
of. -/
inductive CallerTest where
  | classes (p : Predicate Class)
  | methods (p : Predicate Method)
  | constructors (p : Predicate Constructor)
  | codeUnits (p : Predicate CodeUnit)

namespace CallerTest

def kind : CallerTest → CallerKind
  | classes _ => .classes
  | methods _ => .methods
  | constructors _ => .constructors
  | codeUnits _ => .codeUnits

def description : CallerTest → Text
  | classes p => p.description
  | methods p => p.description
  | constructors p => p.description
  | codeUnits p => p.description

/-- Is a call from this code unit accepted?  A code unit of another sort is refused
without asking the predicate. -/
def test : CallerTest → CodeUnit → Consulted Bool
  | classes p, u => p.test u.owner
  | methods p, u =>
      match u.asMethod? with
      | some m => p.test m
      | none => pure false
  | constructors p, u =>
      match u.asConstructor? with
      | some c => p.test c
      | none => pure false
  | codeUnits p, u => p.test u

end CallerTest

namespace Edge

/-- The violated event about an edge; `subject` stands for the side that is checked. -/
def violation (e : Edge) (subject : Element) : Event :=
  { elements := [subject, toElement e.target]
    violated := true
    message := e.description }

end Edge

namespace Condition

/-- Every call of the code unit is accepted. -/
def calledOnlyBy (t : CallerTest) : Condition CodeUnit :=
  { description := "only be called by " ++ t.kind.label ++ " that " ++ t.description
    check := fun u m => do
      let refused ← Consulted.failing (fun e : Edge => t.test e.origin) (m.callsTo u)
      return refused.map (fun e => e.violation (toElement e.origin)) }

/-- The class of every caller is accepted. -/
def calledOnlyByClasses (p : Predicate Class) : Condition CodeUnit :=
  calledOnlyBy (.classes p)

/-- Every caller is a method that is accepted. -/
def calledOnlyByMethods (p : Predicate Method) : Condition CodeUnit :=
  calledOnlyBy (.methods p)

/-- Every caller is a constructor that is accepted. -/
def calledOnlyByConstructors (p : Predicate Constructor) : Condition CodeUnit :=
  calledOnlyBy (.constructors p)

/-- Every caller is accepted. -/
def calledOnlyByCodeUnits (p : Predicate CodeUnit) : Condition CodeUnit :=
  calledOnlyBy (.codeUnits p)

/-- The edges that start in the code units of a class, unit by unit. -/
def edgesOf (c : Class) (m : Model) : List Edge :=
  c.codeUnits.flatMap m.edgesFrom

/-- The class of every member that the class uses is accepted. -/
def dependsOnlyOn (p : Predicate Class) : Condition Class :=
  { description := "only depend on classes that " ++ p.description
    check := fun c m => do
      let refused ←
        Consulted.failing (fun e : Edge => p.test e.target.owner) (edgesOf c m)
      return refused.map (fun e => e.violation (.ofClass c)) }

end Condition

end Conformance
