import Conformance.Proofs.Model.Accounts

/-!
# Drafts with another stamp

Two drafts that carry out the same requests differ in their stamps and in nothing else.
To say so, this module puts another stamp on everything that has one: on elements, on
requests about them, on drafts and on models. Within one draft no two identities become
the same in this way.
-/

namespace Conformance

/-! ## Restamping -/

/-- The identity with the same number in the draft of another stamp. -/
def Ident.restamp (stamp : Nat) (id : Ident) : Ident :=
  { id with draft := stamp }

def FieldDecl.restamp (stamp : Nat) (d : FieldDecl) : FieldDecl :=
  { d with id := d.id.restamp stamp }

def UnitDecl.restamp (stamp : Nat) (d : UnitDecl) : UnitDecl :=
  d.mapBase (fun b => { b with id := b.id.restamp stamp })

def MemberDecl.restamp (stamp : Nat) : MemberDecl → MemberDecl
  | field d => field (d.restamp stamp)
  | unit d => unit (d.restamp stamp)

def Class.restamp (stamp : Nat) (c : Class) : Class :=
  { c with
    id := c.id.restamp stamp
    declarations := c.declarations.map (MemberDecl.restamp stamp) }

def Field.restamp (stamp : Nat) (f : Field) : Field :=
  ⟨f.owner.restamp stamp, f.decl.restamp stamp⟩

def CodeUnit.restamp (stamp : Nat) (u : CodeUnit) : CodeUnit :=
  ⟨u.owner.restamp stamp, u.decl.restamp stamp⟩

def Member.restamp (stamp : Nat) (x : Member) : Member :=
  ⟨x.owner.restamp stamp, x.decl.restamp stamp⟩

def Element.restamp (stamp : Nat) : Element → Element
  | ofClass c => ofClass (c.restamp stamp)
  | ofMember x => ofMember (x.restamp stamp)

def Edge.restamp (stamp : Nat) (e : Edge) : Edge :=
  { e with origin := e.origin.restamp stamp, target := e.target.restamp stamp }

def DraftEdge.restamp (stamp : Nat) (e : DraftEdge) : DraftEdge :=
  { e with origin := e.origin.restamp stamp, target := e.target.restamp stamp }

/-- The same request about the elements with the same numbers. -/
def Request.restamp (stamp : Nat) : Request → Request
  | addClass name modifiers => addClass name modifiers
  | addExternalClass name => addExternalClass name
  | addField owner name rawType modifiers =>
      addField (owner.restamp stamp) name rawType modifiers
  | addMethod owner name parameters returnType modifiers =>
      addMethod (owner.restamp stamp) name parameters returnType modifiers
  | addConstructor owner parameters modifiers =>
      addConstructor (owner.restamp stamp) parameters modifiers
  | annotate element type => annotate (element.restamp stamp) type
  | declareThrowable unit type => declareThrowable (unit.restamp stamp) type
  | setLine member line => setLine (member.restamp stamp) line
  | setSourceFile c file => setSourceFile (c.restamp stamp) file
  | addCall origin target line =>
      addCall (origin.restamp stamp) (target.restamp stamp) line
  | addFieldRead origin target line =>
      addFieldRead (origin.restamp stamp) (target.restamp stamp) line
  | addFieldWrite origin target line =>
      addFieldWrite (origin.restamp stamp) (target.restamp stamp) line

def Draft.restamp (stamp : Nat) (d : Draft) : Draft :=
  { stamp, next := d.next, classes := d.classes.map (Class.restamp stamp),
    edges := d.edges.map (DraftEdge.restamp stamp) }

def Model.restamp (stamp : Nat) (m : Model) : Model :=
  { classes := m.classes.map (Class.restamp stamp),
    edges := m.edges.map (Edge.restamp stamp) }

/-! ## What restamping does to the parts -/

variable {stamp : Nat}

theorem Ident.restamp_eq_iff {a b : Ident} (h : a.draft = b.draft) :
    a.restamp stamp = b.restamp stamp ↔ a = b := by
  cases a
  cases b
  simp_all [restamp]

theorem MemberDecl.restamp_id (d : MemberDecl) :
    (d.restamp stamp).id = d.id.restamp stamp := by
  rcases d with f | (f | f) <;> rfl

theorem MemberDecl.addAnnotation_restamp (t : TypeName) (d : MemberDecl) :
    MemberDecl.addAnnotation t (d.restamp stamp) =
      (MemberDecl.addAnnotation t d).restamp stamp := by
  rcases d with f | (f | f) <;> rfl

theorem MemberDecl.setLine_restamp (line : UInt32) (d : MemberDecl) :
    (d.restamp stamp).setLine line = (d.setLine line).restamp stamp := by
  rcases d with f | (f | f) <;> rfl

theorem MemberDecl.addThrowable_restamp (t : TypeName) (d : MemberDecl) :
    (d.restamp stamp).addThrowable t = (d.addThrowable t).restamp stamp := by
  rcases d with f | (f | f) <;> rfl

theorem Member.restamp_id (x : Member) : (x.restamp stamp).id = x.id.restamp stamp :=
  x.decl.restamp_id

theorem CodeUnit.restamp_id (u : CodeUnit) : (u.restamp stamp).id = u.id.restamp stamp :=
  u.toMember.restamp_id

theorem Class.restamp_members (c : Class) :
    (c.restamp stamp).members = c.members.map (Member.restamp stamp) := by
  rw [members, members, restamp, List.map_map, List.map_map]
  rfl

theorem Class.restamp_declare (c : Class) (decl : MemberDecl) :
    (c.declare decl).restamp stamp = (c.restamp stamp).declare (decl.restamp stamp) := by
  simp [declare, restamp]

theorem Member.restamp_asUnit? (x : Member) :
    (x.restamp stamp).asUnit? = x.asUnit?.map (CodeUnit.restamp stamp) := by
  rcases x with ⟨owner, f | f⟩ <;> rfl

theorem Request.declaration?_restamp {id : Ident} {r : Request} {operation : Operation}
    {owner : Class} {decl : MemberDecl}
    (h : r.declaration? id = some (operation, owner, decl)) :
    (r.restamp stamp).declaration? (id.restamp stamp) =
      some (operation, owner.restamp stamp, decl.restamp stamp) := by
  cases r <;> cases h <;> rfl

theorem Request.edge?_restamp {r : Request} {access : Access} {origin : CodeUnit}
    {target : Member} {line : UInt32}
    (h : r.edge? = some (access, origin, target, line)) :
    (r.restamp stamp).edge? =
      some (access, origin.restamp stamp, target.restamp stamp, line) := by
  cases r <;> cases h <;> rfl

/-- Searching a list for a key commutes with a map that keeps the key recognizable. -/
theorem find?_key_map {α β κ κ' : Type} [DecidableEq κ] [DecidableEq κ'] {key : α → κ}
    {key' : β → κ'} {f : α → β} {l : List α} {k : κ} {k' : κ'}
    (h : ∀ a ∈ l, key' (f a) = k' ↔ key a = k) :
    (l.map f).find? (fun b => key' b = k') = (l.find? (fun a => key a = k)).map f := by
  rw [List.find?_map]
  congr 1
  induction l with
  | nil => rfl
  | cons a l ih =>
      have ha : decide (key' (f a) = k') = decide (key a = k) :=
        decide_eq_decide.mpr (h a List.mem_cons_self)
      rw [List.find?_cons, List.find?_cons, Function.comp_apply, ha,
        ih fun b hb => h b (List.mem_cons_of_mem a hb)]

namespace Draft

variable {d d' : Draft}

/-! ## Looking things up in a restamped draft -/

/-- Every identity in the draft has the stamp of the draft. -/
structure Own (d : Draft) : Prop where
  classes : ∀ c ∈ d.classes, c.id.draft = d.stamp
  members : ∀ x ∈ d.classes.flatMap Class.members, x.id.draft = d.stamp

theorem Follows.own {log : List Note} (hf : d.Follows log) : d.Own where
  classes := by
    intro c hc
    rw [hf.classes_eq, Ledger.mem_classes] at hc
    obtain ⟨h, hh, rfl⟩ := hc
    exact (hf.sound.below h.id
      (List.mem_append_left _ (Ledger.mem_classIds.mpr ⟨h, hh, rfl⟩))).1
  members := by
    intro x hx
    rw [hf.classes_eq] at hx
    have hid := hf.sound.memberIds_perm.mem_iff.mp (List.mem_map_of_mem hx)
    exact (hf.sound.below x.id (List.mem_append_right _ hid)).1

namespace Own

theorem draft_of_class? (hd : d.Own) {id : Ident} {c : Class} (h : d.class? id = some c) :
    id.draft = d.stamp := by
  obtain ⟨hc, rfl⟩ := mem_of_find?_key h
  exact hd.classes c hc

theorem draft_of_member? (hd : d.Own) {id : Ident} {x : Member}
    (h : d.member? id = some x) :
    id.draft = d.stamp := by
  obtain ⟨hx, rfl⟩ := mem_of_find?_key h
  exact hd.members x hx

theorem draft_of_unit? (hd : d.Own) {id : Ident} {u : CodeUnit}
    (h : d.unit? id = some u) :
    id.draft = d.stamp := by
  obtain ⟨x, hx, _⟩ := Option.bind_eq_some_iff.mp h
  exact hd.draft_of_member? hx

theorem restamp_class? (hd : d.Own) {id : Ident} (hid : id.draft = d.stamp) :
    (d.restamp stamp).class? (id.restamp stamp) =
      (d.class? id).map (Class.restamp stamp) := by
  apply find?_key_map
  intro c hc
  exact Ident.restamp_eq_iff ((hd.classes c hc).trans hid.symm)

theorem restamp_member? (hd : d.Own) {id : Ident} (hid : id.draft = d.stamp) :
    (d.restamp stamp).member? (id.restamp stamp) =
      (d.member? id).map (Member.restamp stamp) := by
  have hmembers : (d.restamp stamp).classes.flatMap Class.members =
      (d.classes.flatMap Class.members).map (Member.restamp stamp) := by
    rw [restamp, List.flatMap_map, List.map_flatMap]
    exact List.flatMap_congr fun c _ => c.restamp_members
  rw [member?, hmembers]
  apply find?_key_map
  intro x hx
  rw [Member.restamp_id]
  exact Ident.restamp_eq_iff ((hd.members x hx).trans hid.symm)

theorem restamp_unit? (hd : d.Own) {id : Ident} (hid : id.draft = d.stamp) :
    (d.restamp stamp).unit? (id.restamp stamp) =
      (d.unit? id).map (CodeUnit.restamp stamp) := by
  rw [unit?, unit?, hd.restamp_member? hid]
  cases d.member? id with
  | none => rfl
  | some x => exact x.restamp_asUnit?

/-! What has been found is found under its new identity. -/

theorem restamp_class (hd : d.Own) {id : Ident} {c : Class} (h : d.class? id = some c) :
    (d.restamp stamp).class? (id.restamp stamp) = some (c.restamp stamp) := by
  rw [hd.restamp_class? (hd.draft_of_class? h), h, Option.map_some]

theorem restamp_member (hd : d.Own) {id : Ident} {x : Member}
    (h : d.member? id = some x) :
    (d.restamp stamp).member? (id.restamp stamp) = some (x.restamp stamp) := by
  rw [hd.restamp_member? (hd.draft_of_member? h), h, Option.map_some]

theorem restamp_unit (hd : d.Own) {id : Ident} {u : CodeUnit} (h : d.unit? id = some u) :
    (d.restamp stamp).unit? (id.restamp stamp) = some (u.restamp stamp) := by
  rw [hd.restamp_unit? (hd.draft_of_unit? h), h, Option.map_some]

theorem restamp_element? (hd : d.Own) {id : Ident} (hid : id.draft = d.stamp) :
    (d.restamp stamp).element? (id.restamp stamp) =
      (d.element? id).map (Element.restamp stamp) := by
  have hclass : (d.restamp stamp).class? (id.restamp stamp) = _ := hd.restamp_class? hid
  have hmember : (d.restamp stamp).member? (id.restamp stamp) = _ :=
    hd.restamp_member? hid
  simp only [class?, member?] at hclass hmember
  rw [element?, element?, Element.find?, Element.find?, hclass, hmember]
  cases d.classes.find? (fun c => c.id = id) with
  | some c => rfl
  | none =>
      simp only [Option.map_none, Option.map_map]
      rfl

end Own

theorem restamp_classNamed? (d : Draft) (name : TypeName) :
    (d.restamp stamp).classNamed? name =
      (d.classNamed? name).map (Class.restamp stamp) := by
  apply find?_key_map
  intro c _
  exact Iff.rfl

/-! ## Changing a restamped draft -/

theorem restamp_updateClass (hd : d.Own) {id : Ident} (hid : id.draft = d.stamp)
    {f g : Class → Class} (hfg : ∀ c, g (c.restamp stamp) = (f c).restamp stamp) :
    (d.restamp stamp).updateClass (id.restamp stamp) g =
      (d.updateClass id f).restamp stamp := by
  have hclasses : ((d.classes.map (Class.restamp stamp)).map
      (fun c => if c.id = id.restamp stamp then g c else c)) =
      (d.classes.map (fun c => if c.id = id then f c else c)).map
        (Class.restamp stamp) := by
    rw [List.map_map, List.map_map]
    apply List.map_congr_left
    intro c hc
    have hiff : (c.restamp stamp).id = id.restamp stamp ↔ c.id = id :=
      Ident.restamp_eq_iff ((hd.classes c hc).trans hid.symm)
    by_cases h : c.id = id
    · rw [Function.comp_apply, Function.comp_apply, if_pos h, ← hfg, if_pos (hiff.mpr h)]
    · rw [Function.comp_apply, Function.comp_apply, if_neg h]
      exact if_neg fun heq => h (hiff.mp heq)
  rw [updateClass, restamp, restamp, hclasses]
  rfl

theorem restamp_updateMember (hd : d.Own) {id : Ident} (hid : id.draft = d.stamp)
    {f : MemberDecl → MemberDecl} (hf : ∀ m, f (m.restamp stamp) = (f m).restamp stamp) :
    (d.restamp stamp).updateMember (id.restamp stamp) f =
      (d.updateMember id f).restamp stamp := by
  have hdeclarations : ∀ c ∈ d.classes,
      ((c.declarations.map (MemberDecl.restamp stamp)).map
        (fun m => if m.id = id.restamp stamp then f m else m)) =
      (c.declarations.map (fun m => if m.id = id then f m else m)).map
        (MemberDecl.restamp stamp) := by
    intro c hc
    rw [List.map_map, List.map_map]
    apply List.map_congr_left
    intro m hm
    have hmember : (⟨c, m⟩ : Member) ∈ d.classes.flatMap Class.members :=
      List.mem_flatMap.mpr ⟨c, hc, List.mem_map_of_mem hm⟩
    have hiff : m.id.restamp stamp = id.restamp stamp ↔ m.id = id :=
      Ident.restamp_eq_iff ((hd.members _ hmember).trans hid.symm)
    by_cases h : m.id = id
    · rw [Function.comp_apply, Function.comp_apply, if_pos h, ← hf, MemberDecl.restamp_id,
        if_pos (hiff.mpr h)]
    · rw [Function.comp_apply, Function.comp_apply, if_neg h, MemberDecl.restamp_id]
      exact if_neg fun heq => h (hiff.mp heq)
  simp only [updateMember, restamp, List.map_map]
  congr 1
  apply List.map_congr_left
  intro c hc
  simp only [Function.comp_apply, Class.restamp, hdeclarations c hc]

theorem restamp_pushClass (c : Class) :
    (d.pushClass c).restamp stamp = (d.restamp stamp).pushClass (c.restamp stamp) := by
  simp [pushClass, restamp]

end Draft

end Conformance
