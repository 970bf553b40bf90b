import Conformance.Proofs.Draft.Ledger

/-!
# What a draft does with a request

Twelve requests change a draft in nine ways.  This module lists the ways, each with what
the draft must look like before; everything that is later said about a step of a draft is
said about these nine.
-/

namespace Conformance

/-- The class with one more declaration. -/
def Class.declare (c : Class) (decl : MemberDecl) : Class :=
  { c with declarations := c.declarations ++ [decl] }

namespace Request

/-- The declaration that a request makes if it is for a new member, with the operation and
the class. -/
def declaration? (id : Ident) : Request → Option (Operation × Class × MemberDecl)
  | .addField owner name rawType modifiers =>
      some (.addField, owner, .field { id, modifiers, name, rawType })
  | .addMethod owner name parameters returnType modifiers =>
      some (.addMethod, owner,
        .unit (.method { id, modifiers, name, parameters, returnType }))
  | .addConstructor owner parameters modifiers =>
      some (.addConstructor, owner, .unit (.constructor { id, modifiers, parameters }))
  | _ => none

/-- The edge that a request is for, with its ends as they were given. -/
def edge? : Request → Option (Access × CodeUnit × Member × UInt32)
  | .addCall origin target line => some (.call, origin, target.toMember, line)
  | .addFieldRead origin target line => some (.read, origin, target.toMember, line)
  | .addFieldWrite origin target line => some (.write, origin, target.toMember, line)
  | _ => none

end Request

namespace Draft

variable {d : Draft}

/-! ## Every request in closed form -/

theorem perform_addClass (name : TypeName) (modifiers : ModifierSet) :
    d.perform (.addClass name modifiers) =
      match d.classNamed? name with
      | some _ => .error (.duplicateClass name)
      | none =>
          let c := d.newClass name modifiers true
          .ok (some (.ofClass c), d.pushClass c) := by
  simp only [perform, addClass]
  cases hname : d.classNamed? name <;> rfl

theorem perform_addExternalClass (name : TypeName) :
    d.perform (.addExternalClass name) =
      match d.classNamed? name with
      | some c =>
          if c.analyzed then .error (.alreadyAnalyzed name)
          else .ok (some (.ofClass c), d)
      | none =>
          let c := d.newClass name .empty false
          .ok (some (.ofClass c), d.pushClass c) := by
  simp only [perform, addExternalClass]
  cases hname : d.classNamed? name with
  | none => rfl
  | some c => cases hanalyzed : c.analyzed <;> simp only [hanalyzed] <;> rfl

theorem perform_declaration {r : Request} {operation : Operation} {owner : Class}
    {decl : MemberDecl} (hr : r.declaration? d.freshId = some (operation, owner, decl)) :
    d.perform r =
      match d.class? owner.id with
      | none => .error (.notOwned operation owner.name.text)
      | some c =>
          .ok (some (.ofMember ⟨c.declare decl, decl⟩),
            { d.updateClass owner.id
              (fun _ => c.declare decl) with next := d.next + 1 }) := by
  cases r <;> cases hr <;>
    simp only [perform, addField, addMethod, addConstructor, declareIn] <;>
    cases hclass : d.class? owner.id <;> rfl

theorem perform_annotateClass (c : Class) (type : TypeName) :
    d.perform (.annotate (.ofClass c) type) =
      match d.class? c.id with
      | none => .error (.notOwned .annotate c.name.text)
      | some _ =>
          .ok (changed c.id (d.updateClass c.id
            (fun k => { k with annotations := type.addTo k.annotations }))) := by
  simp only [perform, annotate]
  cases hclass : d.class? c.id <;> rfl

theorem perform_annotateMember (m : Member) (type : TypeName) :
    d.perform (.annotate (.ofMember m) type) =
      match d.member? m.id with
      | none => .error (.notOwned .annotate m.fullName)
      | some _ =>
          .ok (changed m.id (d.updateMember m.id (MemberDecl.addAnnotation type))) := by
  simp only [perform, annotate]
  cases hmember : d.member? m.id <;> rfl

theorem perform_declareThrowable (u : CodeUnit) (type : TypeName) :
    d.perform (.declareThrowable u type) =
      match d.unit? u.id with
      | none => .error (.notOwned .declareThrowable u.fullName)
      | some _ =>
          .ok (changed u.id (d.updateMember u.id (MemberDecl.addThrowable type))) := by
  simp only [perform, declareThrowable]
  cases hunit : d.unit? u.id <;> rfl

theorem perform_setLine (m : Member) (line : UInt32) :
    d.perform (.setLine m line) =
      match d.member? m.id with
      | none => .error (.notOwned .setLine m.fullName)
      | some _ => .ok (changed m.id (d.updateMember m.id (MemberDecl.setLine line))) := by
  simp only [perform, setLine]
  cases hmember : d.member? m.id <;> rfl

theorem perform_setSourceFile (c : Class) (file : Text) :
    d.perform (.setSourceFile c file) =
      match d.class? c.id with
      | none => .error (.notOwned .setSourceFile c.name.text)
      | some _ =>
          .ok (changed c.id (d.updateClass c.id
            (fun k => { k with sourceFile := file }))) := by
  simp only [perform, setSourceFile]
  cases hclass : d.class? c.id <;> rfl

theorem perform_edge {r : Request} {access : Access} {origin : CodeUnit} {target : Member}
    {line : UInt32} (hr : r.edge? = some (access, origin, target, line)) :
    d.perform r =
      match d.unit? origin.id, d.member? target.id with
      | none, _ => .error (.unknownOrigin access origin.fullName)
      | some _, none => .error (.unknownTarget access target.fullName)
      | some u, some _ =>
          if u.owner.analyzed then
            .ok (none,
              { d with edges := d.edges.push ⟨origin.id, target.id, access, line⟩ })
          else
            .error (.externalOrigin access origin.fullName) := by
  have hadd : d.perform r = (none, ·) <$> d.addEdge access origin target line := by
    cases r <;> cases hr <;> rfl
  rw [hadd, addEdge]
  cases hunit : d.unit? origin.id with
  | none => rfl
  | some u =>
      cases hmember : d.member? target.id with
      | none => rfl
      | some m =>
          dsimp only
          split <;> rfl

/-! ## The changes -/

/-- Taking a note changes a draft into another one. -/
inductive Transition (d : Draft) : Note → Draft → Prop where
  | newClass {h : ClassHead} (hid : h.id = d.freshId) (hnew : d.classNamed? h.name = none)
      (hplain : h.analyzed = false → h.modifiers = .empty) :
      Transition d (.newClass h) (d.pushClass h.toClass)
  | knownClass {c : Class} {name : TypeName} (hknown : d.classNamed? name = some c)
      (hexternal : c.analyzed = false) :
      Transition d
        (.newClass { id := c.id, name, modifiers := .empty, analyzed := false }) d
  | newMember {owner : Ident} {decl : MemberDecl} {c : Class}
      (howner : d.class? owner = some c)
      (hid : decl.id = d.freshId) (hbare : decl.bare = decl) :
      Transition d (.newMember owner decl)
        { d.updateClass owner (fun _ => c.declare decl) with next := d.next + 1 }
  | annotateClass {id : Ident} {c : Class} (hclass : d.class? id = some c)
      (type : TypeName) :
      Transition d (.annotateClass id type)
        (d.updateClass id (fun k => { k with annotations := type.addTo k.annotations }))
  | annotateMember {id : Ident} {m : Member} (hmember : d.member? id = some m)
      (type : TypeName) :
      Transition d (.annotateMember id type)
        (d.updateMember id (MemberDecl.addAnnotation type))
  | throwable {id : Ident} {u : CodeUnit} (hunit : d.unit? id = some u)
      (type : TypeName) :
      Transition d (.throwable id type) (d.updateMember id (MemberDecl.addThrowable type))
  | line {id : Ident} {m : Member} (hmember : d.member? id = some m) (line : UInt32) :
      Transition d (.line id line) (d.updateMember id (MemberDecl.setLine line))
  | sourceFile {id : Ident} {c : Class} (hclass : d.class? id = some c) (file : Text) :
      Transition d (.sourceFile id file)
        (d.updateClass id (fun k => { k with sourceFile := file }))
  | edge {e : DraftEdge} {u : CodeUnit} {m : Member} (horigin : d.unit? e.origin = some u)
      (htarget : d.member? e.target = some m) (hanalyzed : u.owner.analyzed = true) :
      Transition d (.edge e) { d with edges := d.edges.push e }

theorem transition_of_declaration {d' : Draft} {r : Request} {answer : Option Element}
    {operation : Operation} {owner : Class} {decl : MemberDecl}
    (hr : r.declaration? d.freshId = some (operation, owner, decl))
    (h : d.perform r = .ok (answer, d')) :
    ∃ n, r.note? answer = some n ∧ Transition d n d' := by
  rw [perform_declaration hr] at h
  split at h
  · cases h
  · rename_i c howner
    cases h
    cases r <;> cases hr <;> exact ⟨_, rfl, .newMember howner rfl rfl⟩

theorem transition_of_edge {d' : Draft} {r : Request} {answer : Option Element}
    {access : Access} {origin : CodeUnit} {target : Member} {line : UInt32}
    (hr : r.edge? = some (access, origin, target, line))
    (h : d.perform r = .ok (answer, d')) :
    ∃ n, r.note? answer = some n ∧ Transition d n d' := by
  rw [perform_edge hr] at h
  split at h
  · cases h
  · cases h
  · rename_i u m horigin htarget
    split at h
    · rename_i hanalyzed
      cases h
      cases r <;> cases hr <;> exact ⟨_, rfl, .edge horigin htarget hanalyzed⟩
    · cases h

/-- A request that is carried out leaves a note, and the draft changes as the note
says. -/
theorem transition_of_perform {d' : Draft} {r : Request} {answer : Option Element}
    (h : d.perform r = .ok (answer, d')) :
    ∃ n, r.note? answer = some n ∧ Transition d n d' := by
  cases r with
  | addClass name modifiers =>
      rw [perform_addClass] at h
      split at h
      · cases h
      · rename_i hnew
        cases h
        exact ⟨_, rfl, .newClass rfl hnew nofun⟩
  | addExternalClass name =>
      rw [perform_addExternalClass] at h
      split at h
      · rename_i c hknown
        split at h
        · cases h
        · rename_i hexternal
          cases h
          exact ⟨_, rfl, .knownClass hknown (Bool.eq_false_iff.mpr hexternal)⟩
      · rename_i hnew
        cases h
        exact ⟨_, rfl, .newClass rfl hnew (fun _ => rfl)⟩
  | addField owner name rawType modifiers => exact transition_of_declaration rfl h
  | addMethod owner name parameters returnType modifiers =>
      exact transition_of_declaration rfl h
  | addConstructor owner parameters modifiers => exact transition_of_declaration rfl h
  | annotate element type =>
      cases element with
      | ofClass c =>
          rw [perform_annotateClass] at h
          split at h
          · cases h
          · rename_i hclass
            cases h
            exact ⟨_, rfl, .annotateClass hclass type⟩
      | ofMember m =>
          rw [perform_annotateMember] at h
          split at h
          · cases h
          · rename_i hmember
            cases h
            exact ⟨_, rfl, .annotateMember hmember type⟩
  | declareThrowable u type =>
      rw [perform_declareThrowable] at h
      split at h
      · cases h
      · rename_i hunit
        cases h
        exact ⟨_, rfl, .throwable hunit type⟩
  | setLine m line =>
      rw [perform_setLine] at h
      split at h
      · cases h
      · rename_i hmember
        cases h
        exact ⟨_, rfl, .line hmember line⟩
  | setSourceFile c file =>
      rw [perform_setSourceFile] at h
      split at h
      · cases h
      · rename_i hclass
        cases h
        exact ⟨_, rfl, .sourceFile hclass file⟩
  | addCall origin target line => exact transition_of_edge rfl h
  | addFieldRead origin target line => exact transition_of_edge rfl h
  | addFieldWrite origin target line => exact transition_of_edge rfl h

/-- A step either refuses the request and keeps the draft, or takes a note and changes the
draft. -/
theorem step_cases (d : Draft) (r : Request) :
    (d.note? r = none ∧ (d.step r).2 = d) ∨
      ∃ n, d.note? r = some n ∧ Transition d n (d.step r).2 := by
  unfold note? step
  cases h : d.perform r with
  | error e => exact Or.inl ⟨rfl, rfl⟩
  | ok answer => exact Or.inr (transition_of_perform h)

end Draft

end Conformance
