import Conformance.Model.Basic

/-!
# Drafts

A draft is a model in the making.  It numbers the classes and members it makes, and it
refuses everything that would leave the finished model inconsistent: a class name taken
twice, an element of another draft, an edge that starts outside the analyzed classes.  A
refused operation leaves the draft as it was.

Elements of a draft are handed out as values.  An operation that is given such a value
looks at its identity only, so an older view of the element serves as well as a recent
one.
-/

namespace Conformance

/-- The operations on a draft, as messages about refused operations name them. -/
inductive Operation where
  | addClass
  | addExternalClass
  | addField
  | addMethod
  | addConstructor
  | annotate
  | declareThrowable
  | setLine
  | setSourceFile
  | addEdge (access : Access)
  deriving DecidableEq

namespace Operation

/-- The name in messages. -/
def label : Operation → Text
  | addClass => "addClass"
  | addExternalClass => "addExternalClass"
  | addField => "addField"
  | addMethod => "addMethod"
  | addConstructor => "addConstructor"
  | annotate => "annotate"
  | declareThrowable => "declareThrowable"
  | setLine => "setLine"
  | setSourceFile => "setSourceFile"
  | addEdge .call => "addCall"
  | addEdge .read => "addFieldRead"
  | addEdge .write => "addFieldWrite"

end Operation

/-- Why a draft refuses an operation. -/
inductive Misuse where
  | duplicateClass (name : TypeName)
  | alreadyAnalyzed (name : TypeName)
  | notOwned (operation : Operation) (fullName : Text)
  | unknownOrigin (access : Access) (fullName : Text)
  | unknownTarget (access : Access) (fullName : Text)
  | externalOrigin (access : Access) (fullName : Text)
  deriving DecidableEq

namespace Misuse

def message : Misuse → Text
  | duplicateClass n => Operation.addClass.label ++ ": duplicate class " ++ n.text.quoted
  | alreadyAnalyzed n =>
      Operation.addExternalClass.label ++ ": " ++ n.text.quoted ++ " is an analyzed class"
  | notOwned op n => op.label ++ ": " ++ n.quoted ++ " was not created by this builder"
  | unknownOrigin a n => (Operation.addEdge a).label ++ ": unknown origin " ++ n.quoted
  | unknownTarget a n => (Operation.addEdge a).label ++ ": unknown target " ++ n.quoted
  | externalOrigin a n =>
      (Operation.addEdge a).label ++ ": origin " ++ n.quoted
        ++ " belongs to an external class"

/-- The message as it is shown: up to its first zero byte. -/
def shown (e : Misuse) : Text :=
  e.message.beforeZero

end Misuse

/-- An edge of a draft.  Its ends are known by identity, since they may still change. -/
structure DraftEdge where
  origin : Ident
  target : Ident
  access : Access
  line : UInt32
  deriving DecidableEq

/-- A model in the making.  `stamp` tells it from all other drafts, and `next` is the
number of the next class or member. -/
structure Draft where
  stamp : Nat
  next : Nat := 0
  classes : List Class := []
  edges : Array DraftEdge := #[]
  deriving DecidableEq

namespace Draft

/-- The draft with a given stamp before anything is added. -/
def start (stamp : Nat) : Draft :=
  { stamp }

/-- The identity of the next class or member. -/
def freshId (d : Draft) : Ident :=
  ⟨d.stamp, d.next⟩

def classNamed? (d : Draft) (name : TypeName) : Option Class :=
  d.classes.find? (fun c => c.name = name)

def class? (d : Draft) (id : Ident) : Option Class :=
  d.classes.find? (fun c => c.id = id)

def member? (d : Draft) (id : Ident) : Option Member :=
  (d.classes.flatMap Class.members).find? (fun m => m.id = id)

def unit? (d : Draft) (id : Ident) : Option CodeUnit :=
  (d.member? id).bind Member.asUnit?

/-- The class or member with a given identity. -/
def element? (d : Draft) (id : Ident) : Option Element :=
  Element.find? d.classes id

def updateClass (d : Draft) (id : Ident) (f : Class → Class) : Draft :=
  { d with classes := d.classes.map (fun c => if c.id = id then f c else c) }

/-- Change the declaration with a given identity, wherever it is made. -/
def updateMember (d : Draft) (id : Ident) (f : MemberDecl → MemberDecl) : Draft :=
  { d with classes := d.classes.map (fun c =>
      { c with
        declarations := c.declarations.map (fun m => if m.id = id then f m else m) }) }

def pushClass (d : Draft) (c : Class) : Draft :=
  { d with next := d.next + 1, classes := d.classes ++ [c] }

/-- The class that a draft makes for a name, with nothing declared yet. -/
def newClass (d : Draft) (name : TypeName) (modifiers : ModifierSet) (analyzed : Bool) :
    Class :=
  { id := d.freshId, name, modifiers, sourceFile := name.defaultSourceFile, analyzed }

/-- Add an analyzed class. -/
def addClass (d : Draft) (name : TypeName) (modifiers : ModifierSet) :
    Except Misuse (Class × Draft) :=
  match d.classNamed? name with
  | some _ => .error (.duplicateClass name)
  | none =>
      let c := d.newClass name modifiers true
      .ok (c, d.pushClass c)

/-- The class of that name that is not analyzed; it is added unless the draft has it
already. -/
def addExternalClass (d : Draft) (name : TypeName) : Except Misuse (Class × Draft) :=
  match d.classNamed? name with
  | some c => if c.analyzed then .error (.alreadyAnalyzed name) else .ok (c, d)
  | none =>
      let c := d.newClass name .empty false
      .ok (c, d.pushClass c)

/-- Let a class of this draft declare one more member.  The answer holds the class with
the declaration. -/
def declareIn (d : Draft) (operation : Operation) (owner : Class) (decl : MemberDecl) :
    Except Misuse (Class × Draft) :=
  match d.class? owner.id with
  | none => .error (.notOwned operation owner.name.text)
  | some c =>
      let extended := { c with declarations := c.declarations ++ [decl] }
      .ok (extended,
        { d.updateClass owner.id (fun _ => extended) with next := d.next + 1 })

def addField (d : Draft) (owner : Class) (name : Text) (rawType : TypeName)
    (modifiers : ModifierSet) : Except Misuse (Field × Draft) := do
  let decl : FieldDecl := { id := d.freshId, modifiers, name, rawType }
  let (c, d') ← d.declareIn .addField owner (.field decl)
  return (⟨c, decl⟩, d')

def addMethod (d : Draft) (owner : Class) (name : Text) (parameters : List TypeName)
    (returnType : TypeName) (modifiers : ModifierSet) :
    Except Misuse (Method × Draft) := do
  let decl : MethodDecl := { id := d.freshId, modifiers, name, parameters, returnType }
  let (c, d') ← d.declareIn .addMethod owner (.unit (.method decl))
  return (⟨c, decl⟩, d')

def addConstructor (d : Draft) (owner : Class) (parameters : List TypeName)
    (modifiers : ModifierSet) : Except Misuse (Constructor × Draft) := do
  let decl : ConstructorDecl := { id := d.freshId, modifiers, parameters }
  let (c, d') ← d.declareIn .addConstructor owner (.unit (.constructor decl))
  return (⟨c, decl⟩, d')

/-- Annotate a class or member, unless it has the annotation already. -/
def annotate (d : Draft) (element : Element) (t : TypeName) : Except Misuse Draft :=
  match element with
  | .ofClass c =>
      match d.class? c.id with
      | none => .error (.notOwned .annotate c.name.text)
      | some _ => .ok (d.updateClass c.id
          (fun k => { k with annotations := t.addTo k.annotations }))
  | .ofMember m =>
      match d.member? m.id with
      | none => .error (.notOwned .annotate m.fullName)
      | some _ => .ok (d.updateMember m.id (MemberDecl.addAnnotation t))

/-- Add a type to the throws clause of a code unit, unless the clause has it already. -/
def declareThrowable (d : Draft) (u : CodeUnit) (t : TypeName) : Except Misuse Draft :=
  match d.unit? u.id with
  | none => .error (.notOwned .declareThrowable u.fullName)
  | some _ => .ok (d.updateMember u.id (MemberDecl.addThrowable t))

def setLine (d : Draft) (m : Member) (line : UInt32) : Except Misuse Draft :=
  match d.member? m.id with
  | none => .error (.notOwned .setLine m.fullName)
  | some _ => .ok (d.updateMember m.id (MemberDecl.setLine line))

def setSourceFile (d : Draft) (c : Class) (file : Text) : Except Misuse Draft :=
  match d.class? c.id with
  | none => .error (.notOwned .setSourceFile c.name.text)
  | some _ => .ok (d.updateClass c.id (fun k => { k with sourceFile := file }))

/-- Record an edge.  Of several reasons to refuse it, an unknown origin comes first and an
origin outside the analyzed classes last. -/
def addEdge (d : Draft) (access : Access) (origin : CodeUnit) (target : Member)
    (line : UInt32) : Except Misuse Draft :=
  match d.unit? origin.id with
  | none => .error (.unknownOrigin access origin.fullName)
  | some u =>
      match d.member? target.id with
      | none => .error (.unknownTarget access target.fullName)
      | some _ =>
          if u.owner.analyzed then
            .ok { d with edges := d.edges.push ⟨origin.id, target.id, access, line⟩ }
          else
            .error (.externalOrigin access origin.fullName)

def addCall (d : Draft) (origin target : CodeUnit) (line : UInt32) :
    Except Misuse Draft :=
  d.addEdge .call origin target.toMember line

def addFieldRead (d : Draft) (origin : CodeUnit) (target : Field) (line : UInt32) :
    Except Misuse Draft :=
  d.addEdge .read origin target.toMember line

def addFieldWrite (d : Draft) (origin : CodeUnit) (target : Field) (line : UInt32) :
    Except Misuse Draft :=
  d.addEdge .write origin target.toMember line

/-- The finished edge: its ends as they are now, in the source file that the origin's
class has now. -/
def resolve? (d : Draft) (e : DraftEdge) : Option Edge := do
  let origin ← d.unit? e.origin
  let target ← d.member? e.target
  return {
    origin, target
    access := e.access
    location := ⟨origin.owner.sourceFile, e.line⟩ }

def finish (d : Draft) : Model :=
  { classes := d.classes, edges := d.edges.filterMap d.resolve? }

end Draft

end Conformance
