import Conformance.Model.Request

/-!
# Ledgers

A ledger lists what a draft has accepted: a note for every request that was carried out,
in their order.  Notes hold what the requests said and the identities of what was made,
and nothing of the state of a draft.

From a ledger alone one can write down the classes and edges that a draft should have:
every class with the members noted for it, every element with the distinct annotations
noted for it, with the last line or source file, and so on.  The other modules of this
directory show that a draft is always what its ledger says.
-/

namespace Conformance

/-- The part of a class that is fixed when it is made. -/
structure ClassHead where
  id : Ident
  name : TypeName
  modifiers : ModifierSet
  analyzed : Bool
  deriving DecidableEq

/-- The class as it is made, with nothing declared yet. -/
def ClassHead.toClass (h : ClassHead) : Class :=
  { id := h.id, name := h.name, modifiers := h.modifiers, analyzed := h.analyzed,
    sourceFile := h.name.defaultSourceFile }

/-- The fixed part of a class. -/
def Class.head (c : Class) : ClassHead :=
  { id := c.id, name := c.name, modifiers := c.modifiers, analyzed := c.analyzed }

/-- The declaration with all that may be added to it after it is made.  A field has no
throws clause. -/
def MemberDecl.filled (annotations : List TypeName) (line : UInt32)
    (throws : List TypeName) (d : MemberDecl) : MemberDecl :=
  match d.mapBase (fun b => { b with annotations, line }) with
  | .field f => .field f
  | .unit (.method f) => .unit (.method { f with throws })
  | .unit (.constructor f) => .unit (.constructor { f with throws })

/-- The declaration as it is made. -/
def MemberDecl.bare (d : MemberDecl) : MemberDecl :=
  d.filled [] 0 []

/-- What a request that was carried out has said. -/
inductive Note where
  | newClass (head : ClassHead)
  | newMember (owner : Ident) (decl : MemberDecl)
  | annotateClass (id : Ident) (type : TypeName)
  | annotateMember (id : Ident) (type : TypeName)
  | throwable (id : Ident) (type : TypeName)
  | line (id : Ident) (line : UInt32)
  | sourceFile (id : Ident) (file : Text)
  | edge (e : DraftEdge)

/-- The note about a request, given the element that was the answer. -/
def Request.note? (answer : Option Element) : Request → Option Note
  | .addClass name modifiers =>
      answer.map (fun e => .newClass { id := e.id, name, modifiers, analyzed := true })
  | .addExternalClass name =>
      answer.map (fun e =>
        .newClass { id := e.id, name, modifiers := .empty, analyzed := false })
  | .addField owner name rawType modifiers =>
      answer.map (fun e =>
        .newMember owner.id (.field { id := e.id, modifiers, name, rawType }))
  | .addMethod owner name parameters returnType modifiers =>
      answer.map (fun e => .newMember owner.id
        (.unit (.method { id := e.id, modifiers, name, parameters, returnType })))
  | .addConstructor owner parameters modifiers =>
      answer.map (fun e => .newMember owner.id
        (.unit (.constructor { id := e.id, modifiers, parameters })))
  | .annotate (.ofClass c) type => some (.annotateClass c.id type)
  | .annotate (.ofMember m) type => some (.annotateMember m.id type)
  | .declareThrowable unit type => some (.throwable unit.id type)
  | .setLine member line => some (.line member.id line)
  | .setSourceFile c file => some (.sourceFile c.id file)
  | .addCall origin target line => some (.edge ⟨origin.id, target.id, .call, line⟩)
  | .addFieldRead origin target line =>
      some (.edge ⟨origin.id, target.toMember.id, .read, line⟩)
  | .addFieldWrite origin target line =>
      some (.edge ⟨origin.id, target.toMember.id, .write, line⟩)

namespace Draft

/-- The note about a request, unless the draft refuses it. -/
def note? (d : Draft) (r : Request) : Option Note :=
  match d.perform r with
  | .ok (answer, _) => r.note? answer
  | .error _ => none

/-- The notes about the requests that a draft carries out, the first one first. -/
def ledger (d : Draft) : List Request → List Note
  | [] => []
  | r :: rest => (d.note? r).toList ++ (d.step r).2.ledger rest

end Draft

namespace Note

/-- The class that a note is about to make, or has found made. -/
def head? : Note → Option ClassHead
  | newClass h => some h
  | _ => none

/-- The new declaration, with the class that makes it. -/
def member? : Note → Option (Ident × MemberDecl)
  | newMember owner decl => some (owner, decl)
  | _ => none

/-- The annotation of a class. -/
def annotateClass? : Note → Option (Ident × TypeName)
  | annotateClass id type => some (id, type)
  | _ => none

/-- The annotation of a member. -/
def annotateMember? : Note → Option (Ident × TypeName)
  | annotateMember id type => some (id, type)
  | _ => none

/-- The throwable of a code unit. -/
def throwable? : Note → Option (Ident × TypeName)
  | throwable id type => some (id, type)
  | _ => none

/-- The line of a member. -/
def line? : Note → Option (Ident × UInt32)
  | line id l => some (id, l)
  | _ => none

/-- The source file of a class. -/
def sourceFile? : Note → Option (Ident × Text)
  | sourceFile id file => some (id, file)
  | _ => none

/-- The edge. -/
def edge? : Note → Option DraftEdge
  | edge e => some e
  | _ => none

/-- The classes and members that must be there before the note is taken. -/
def subjects : Note → List Ident
  | newClass _ => []
  | newMember owner _ => [owner]
  | annotateClass id _ => [id]
  | annotateMember id _ => [id]
  | throwable id _ => [id]
  | line id _ => [id]
  | sourceFile id _ => [id]
  | edge e => [e.origin, e.target]

end Note

namespace Ledger

variable {α : Type}

/-- The values listed for an identity. -/
def valuesFor (entries : List (Ident × α)) (id : Ident) : List α :=
  (entries.filter (fun entry => entry.1 = id)).map Prod.snd

/-- The classes that were asked for, once for every time. -/
def heads (log : List Note) : List ClassHead :=
  log.filterMap Note.head?

/-- The declarations that were made, with their classes. -/
def members (log : List Note) : List (Ident × MemberDecl) :=
  log.filterMap Note.member?

/-- The edges that were recorded. -/
def edges (log : List Note) : List DraftEdge :=
  log.filterMap Note.edge?

/-- The declarations that a class made. -/
def declarationsOf (log : List Note) (owner : Ident) : List MemberDecl :=
  valuesFor (members log) owner

/-- The distinct annotations of a class, in the order of their first declaration. -/
def classAnnotationsOf (log : List Note) (id : Ident) : List TypeName :=
  (valuesFor (log.filterMap Note.annotateClass?) id).eraseDups

/-- The distinct annotations of a member, in the order of their first declaration. -/
def memberAnnotationsOf (log : List Note) (id : Ident) : List TypeName :=
  (valuesFor (log.filterMap Note.annotateMember?) id).eraseDups

/-- The distinct throwables of a code unit, in the order of their first declaration. -/
def throwablesOf (log : List Note) (id : Ident) : List TypeName :=
  (valuesFor (log.filterMap Note.throwable?) id).eraseDups

/-- The line that a member was given last. -/
def lineOf (log : List Note) (id : Ident) : UInt32 :=
  (valuesFor (log.filterMap Note.line?) id).getLast?.getD 0

/-- The source file that a class was given last; its default file when it was given
none. -/
def sourceFileOf (log : List Note) (h : ClassHead) : Text :=
  (valuesFor (log.filterMap Note.sourceFile?) h.id).getLast?.getD h.name.defaultSourceFile

/-- The declaration with all that was noted about it. -/
def complete (log : List Note) (decl : MemberDecl) : MemberDecl :=
  decl.filled (memberAnnotationsOf log decl.id) (lineOf log decl.id)
    (throwablesOf log decl.id)

/-- The class with all that was noted about it and its members. -/
def classOf (log : List Note) (h : ClassHead) : Class :=
  { h.toClass with
    annotations := classAnnotationsOf log h.id
    sourceFile := sourceFileOf log h
    declarations := (declarationsOf log h.id).map (complete log) }

/-- All classes that were asked for, each once. -/
def classes (log : List Note) : List Class :=
  (heads log).eraseDups.map (classOf log)

end Ledger

end Conformance
