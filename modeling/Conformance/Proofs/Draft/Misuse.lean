import Conformance.Proofs.Model.Accounts

/-!
# Misuse of a draft

A draft refuses a request for a reason that can be read off its ledger: a name is taken,
an element is not one that the draft has introduced, or an edge would start outside the
analyzed classes.  This module says what the reasons are, and shows that a draft refuses a
request exactly when there is one.
-/

namespace Conformance

namespace Ledger

/-! ## Reasons to refuse a request -/

/-- The names of all classes. -/
def names (log : List Note) : List TypeName :=
  (heads log).map ClassHead.name

/-- The names of the analyzed classes. -/
def analyzedNames (log : List Note) : List TypeName :=
  ((heads log).filter ClassHead.analyzed).map ClassHead.name

/-- The identities of the classes that are not analyzed. -/
def externalIds (log : List Note) : List Ident :=
  ((heads log).filter (fun h => !h.analyzed)).map ClassHead.id

/-- The identity of a declaration that is one of a code unit. -/
def unitId? : MemberDecl → Option Ident
  | .field _ => none
  | .unit u => some u.base.id

/-- The identities of the code units. -/
def unitIds (log : List Note) : List Ident :=
  (members log).filterMap (fun p => unitId? p.2)

/-- The identities of the code units of classes that are not analyzed. -/
def externalUnitIds (log : List Note) : List Ident :=
  ((members log).filter (fun p => p.1 ∈ externalIds log)).filterMap (fun p => unitId? p.2)

/-- The reason to refuse an operation on an element that is not among the known ones. -/
def foreign? (known : List Ident) (operation : Operation) (id : Ident) (fullName : Text) :
    Option Misuse :=
  if id ∈ known then none else some (.notOwned operation fullName)

/-- The reason to refuse an edge; of several reasons, the first one in this order. -/
def edgeMisuse? (log : List Note) (access : Access) (origin : CodeUnit)
    (target : Member) :
    Option Misuse :=
  if origin.id ∉ unitIds log then
    some (.unknownOrigin access origin.fullName)
  else if target.id ∉ memberIds log then
    some (.unknownTarget access target.fullName)
  else if origin.id ∈ externalUnitIds log then
    some (.externalOrigin access origin.fullName)
  else
    none

/-- The reason to refuse a request, if there is one. -/
def misuse? (log : List Note) : Request → Option Misuse
  | .addClass name _ => if name ∈ names log then some (.duplicateClass name) else none
  | .addExternalClass name =>
      if name ∈ analyzedNames log then some (.alreadyAnalyzed name) else none
  | .addField owner _ _ _ => foreign? (classIds log) .addField owner.id owner.name.text
  | .addMethod owner _ _ _ _ =>
      foreign? (classIds log) .addMethod owner.id owner.name.text
  | .addConstructor owner _ _ =>
      foreign? (classIds log) .addConstructor owner.id owner.name.text
  | .annotate (.ofClass c) _ => foreign? (classIds log) .annotate c.id c.name.text
  | .annotate (.ofMember x) _ => foreign? (memberIds log) .annotate x.id x.fullName
  | .declareThrowable u _ => foreign? (unitIds log) .declareThrowable u.id u.fullName
  | .setLine x _ => foreign? (memberIds log) .setLine x.id x.fullName
  | .setSourceFile c _ => foreign? (classIds log) .setSourceFile c.id c.name.text
  | .addCall origin target _ => edgeMisuse? log .call origin target.toMember
  | .addFieldRead origin target _ => edgeMisuse? log .read origin target.toMember
  | .addFieldWrite origin target _ => edgeMisuse? log .write origin target.toMember

variable {log : List Note} {stamp next : Nat}

theorem mem_unitIds {id : Ident} :
    id ∈ unitIds log ↔ ∃ owner u, (owner, .unit u) ∈ members log ∧ u.base.id = id := by
  rw [unitIds, List.mem_filterMap]
  constructor
  · rintro ⟨⟨owner, f | u⟩, hmem, hid⟩
    · cases hid
    · exact ⟨owner, u, hmem, Option.some.inj hid⟩
  · rintro ⟨owner, u, hmem, rfl⟩
    exact ⟨(owner, .unit u), hmem, rfl⟩

theorem mem_externalUnitIds {id : Ident} :
    id ∈ externalUnitIds log ↔
      ∃ h ∈ heads log, h.analyzed = false ∧
        ∃ u, (h.id, .unit u) ∈ members log ∧ u.base.id = id := by
  rw [externalUnitIds, List.mem_filterMap]
  constructor
  · rintro ⟨⟨owner, decl⟩, hmem, hid⟩
    obtain ⟨hdecl, howner⟩ := List.mem_filter.mp hmem
    obtain ⟨h, hh, rfl⟩ := List.mem_map.mp (of_decide_eq_true howner)
    obtain ⟨hheads, hexternal⟩ := List.mem_filter.mp hh
    refine ⟨h, hheads, by simpa using hexternal, ?_⟩
    cases decl with
    | field f => cases hid
    | unit u => exact ⟨u, hdecl, Option.some.inj hid⟩
  · rintro ⟨h, hh, hexternal, u, hu, rfl⟩
    refine ⟨(h.id, .unit u), List.mem_filter.mpr ⟨hu, ?_⟩, rfl⟩
    have howner : h.id ∈ externalIds log :=
      List.mem_map_of_mem (List.mem_filter.mpr ⟨hh, by simpa using hexternal⟩)
    exact decide_eq_true howner

theorem analyzedNames_subset : analyzedNames log ⊆ names log :=
  List.map_subset _ (List.filter_subset_self _)

/-- In a sound ledger a name belongs to one class only. -/
theorem Sound.name_unique (hsound : Sound log stamp next) {h k : ClassHead}
    (hh : h ∈ heads log) (hk : k ∈ heads log) (heq : h.name = k.name) : h = k :=
  List.inj_on_of_nodup_map hsound.names_nodup (List.mem_eraseDups.mpr hh)
    (List.mem_eraseDups.mpr hk) heq

end Ledger

namespace Draft

open Ledger

/-- The reason for a refusal; nothing for a request that was carried out. -/
def refusal? {α : Type} : Except Misuse α → Option Misuse
  | .error misuse => some misuse
  | .ok _ => none

namespace Follows

variable {d : Draft} {log : List Note} {r : Request}

/-! ## What can be found, and what cannot -/

theorem mem_names_of_classNamed? (hf : d.Follows log) {name : TypeName} {c : Class}
    (hfound : d.classNamed? name = some c) : name ∈ names log := by
  obtain ⟨k, hk, rfl, _⟩ := hf.exists_head_of_classNamed? hfound
  exact List.mem_map_of_mem hk

theorem notMem_names_of_classNamed? (hf : d.Follows log) {name : TypeName}
    (hnone : d.classNamed? name = none) : name ∉ names log := by
  intro hmem
  obtain ⟨h, hh, hname⟩ := List.mem_map.mp hmem
  exact hf.name_ne_of_classNamed?_eq_none hnone h hh hname

theorem mem_classIds_of_class? (hf : d.Follows log) {id : Ident} {c : Class}
    (hfound : d.class? id = some c) : id ∈ classIds log := by
  obtain ⟨k, hk, hid, _⟩ := hf.exists_head_of_class? hfound
  exact mem_classIds.mpr ⟨k, hk, hid⟩

theorem notMem_classIds_of_class? (hf : d.Follows log) {id : Ident}
    (hnone : d.class? id = none) :
    id ∉ classIds log := by
  intro hmem
  obtain ⟨h, hh, rfl⟩ := mem_classIds.mp hmem
  rw [hf.class?_eq_some hh] at hnone
  cases hnone

theorem mem_memberIds_of_member? (hf : d.Follows log) {id : Ident} {x : Member}
    (hfound : d.member? id = some x) : id ∈ memberIds log := by
  obtain ⟨k, _, decl, hdecl, hid, _⟩ := hf.exists_member_of_member? hfound
  exact List.mem_map.mpr ⟨(k.id, decl), hdecl, hid⟩

theorem notMem_memberIds_of_member? (hf : d.Follows log) {id : Ident}
    (hnone : d.member? id = none) : id ∉ memberIds log := by
  intro hmem
  obtain ⟨⟨owner, decl⟩, hdecl, rfl⟩ := List.mem_map.mp hmem
  obtain ⟨k, hk, rfl⟩ := mem_classIds.mp (hf.sound.owners_known _ hdecl)
  rw [hf.member?_eq_some hk hdecl] at hnone
  cases hnone

theorem mem_unitIds_of_unit? (hf : d.Follows log) {id : Ident} {u : CodeUnit}
    (hfound : d.unit? id = some u) : id ∈ unitIds log := by
  obtain ⟨k, _, decl, hdecl, hid, _⟩ := hf.exists_member_of_unit? hfound
  exact mem_unitIds.mpr ⟨k.id, decl, hdecl, hid⟩

theorem notMem_unitIds_of_unit? (hf : d.Follows log) {id : Ident}
    (hnone : d.unit? id = none) :
    id ∉ unitIds log := by
  intro hmem
  obtain ⟨owner, u, hu, rfl⟩ := mem_unitIds.mp hmem
  obtain ⟨k, hk, rfl⟩ := mem_classIds.mp (hf.sound.owners_known _ hu)
  obtain ⟨u', _, hunit⟩ := hf.unit?_eq_some hk hu
  rw [hunit] at hnone
  cases hnone

/-! ## What kind of class was found -/

theorem analyzed_iff_of_classNamed? (hf : d.Follows log) {name : TypeName} {c : Class}
    (hfound : d.classNamed? name = some c) :
    c.analyzed = true ↔ name ∈ analyzedNames log := by
  obtain ⟨k, hk, rfl, rfl⟩ := hf.exists_head_of_classNamed? hfound
  rw [classOf_analyzed, analyzedNames, List.mem_map]
  constructor
  · intro hanalyzed
    exact ⟨k, List.mem_filter.mpr ⟨hk, hanalyzed⟩, rfl⟩
  · rintro ⟨h, hh, hname⟩
    obtain ⟨hheads, hanalyzed⟩ := List.mem_filter.mp hh
    rwa [hf.sound.name_unique hheads hk hname] at hanalyzed

theorem external_iff_of_unit? (hf : d.Follows log) {id : Ident} {u : CodeUnit}
    (hfound : d.unit? id = some u) :
    u.owner.analyzed = false ↔ id ∈ externalUnitIds log := by
  obtain ⟨k, hk, decl, hdecl, hid, howner⟩ := hf.exists_member_of_unit? hfound
  rw [howner, classOf_analyzed, mem_externalUnitIds]
  constructor
  · intro hexternal
    exact ⟨k, hk, hexternal, decl, hdecl, hid⟩
  · rintro ⟨h, hh, hexternal, decl', hdecl', hid'⟩
    -- The unit was declared once, so both entries name the same class.
    have hsame : (h.id, MemberDecl.unit decl') = (k.id, MemberDecl.unit decl) :=
      hf.sound.member_unique hdecl' hdecl (hid'.trans hid.symm)
    rwa [hf.sound.head_unique hh hk (congrArg Prod.fst hsame)] at hexternal

/-! ## Requests -/

theorem refusal?_declaration (hf : d.Follows log) {operation : Operation} {owner : Class}
    {decl : MemberDecl} (hr : r.declaration? d.freshId = some (operation, owner, decl)) :
    refusal? (d.perform r) =
      foreign? (classIds log) operation owner.id owner.name.text := by
  rw [perform_declaration hr]
  cases hclass : d.class? owner.id with
  | none => exact (if_neg (hf.notMem_classIds_of_class? hclass)).symm
  | some c => exact (if_pos (hf.mem_classIds_of_class? hclass)).symm

theorem refusal?_edge (hf : d.Follows log) {access : Access} {origin : CodeUnit}
    {target : Member} {line : UInt32}
    (hr : r.edge? = some (access, origin, target, line)) :
    refusal? (d.perform r) = edgeMisuse? log access origin target := by
  rw [perform_edge hr, edgeMisuse?]
  cases horigin : d.unit? origin.id with
  | none =>
      rw [if_pos (hf.notMem_unitIds_of_unit? horigin)]
      rfl
  | some u =>
      rw [if_neg (not_not_intro (hf.mem_unitIds_of_unit? horigin))]
      cases htarget : d.member? target.id with
      | none =>
          rw [if_pos (hf.notMem_memberIds_of_member? htarget)]
          rfl
      | some x =>
          have hexternal := hf.external_iff_of_unit? horigin
          rw [if_neg (not_not_intro (hf.mem_memberIds_of_member? htarget))]
          cases hanalyzed : u.owner.analyzed with
          | false =>
              rw [if_pos (hexternal.mp hanalyzed)]
              simp only [hanalyzed]
              rfl
          | true =>
              rw [hanalyzed] at hexternal
              rw [if_neg fun hid => Bool.noConfusion (hexternal.mpr hid)]
              simp only [hanalyzed]
              rfl

/-- A draft refuses a request for the reason that its ledger gives, and for no other. -/
theorem refusal?_perform (hf : d.Follows log) (r : Request) :
    refusal? (d.perform r) = misuse? log r := by
  cases r with
  | addClass name modifiers =>
      rw [perform_addClass]
      cases hname : d.classNamed? name with
      | none => exact (if_neg (hf.notMem_names_of_classNamed? hname)).symm
      | some c => exact (if_pos (hf.mem_names_of_classNamed? hname)).symm
  | addExternalClass name =>
      rw [perform_addExternalClass]
      cases hname : d.classNamed? name with
      | none =>
          have hnew : name ∉ analyzedNames log := fun hmem =>
            hf.notMem_names_of_classNamed? hname (analyzedNames_subset hmem)
          exact (if_neg hnew).symm
      | some c =>
          have hanalyzed := hf.analyzed_iff_of_classNamed? hname
          dsimp only
          split
          · rename_i hc
            exact (if_pos (hanalyzed.mp hc)).symm
          · rename_i hc
            exact (if_neg fun hmem => hc (hanalyzed.mpr hmem)).symm
  | addField owner name rawType modifiers => exact hf.refusal?_declaration rfl
  | addMethod owner name parameters returnType modifiers =>
      exact hf.refusal?_declaration rfl
  | addConstructor owner parameters modifiers => exact hf.refusal?_declaration rfl
  | annotate element type =>
      cases element with
      | ofClass c =>
          rw [perform_annotateClass]
          cases hclass : d.class? c.id with
          | none => exact (if_neg (hf.notMem_classIds_of_class? hclass)).symm
          | some k => exact (if_pos (hf.mem_classIds_of_class? hclass)).symm
      | ofMember x =>
          rw [perform_annotateMember]
          cases hmember : d.member? x.id with
          | none => exact (if_neg (hf.notMem_memberIds_of_member? hmember)).symm
          | some y => exact (if_pos (hf.mem_memberIds_of_member? hmember)).symm
  | declareThrowable u type =>
      rw [perform_declareThrowable]
      cases hunit : d.unit? u.id with
      | none => exact (if_neg (hf.notMem_unitIds_of_unit? hunit)).symm
      | some v => exact (if_pos (hf.mem_unitIds_of_unit? hunit)).symm
  | setLine x line =>
      rw [perform_setLine]
      cases hmember : d.member? x.id with
      | none => exact (if_neg (hf.notMem_memberIds_of_member? hmember)).symm
      | some y => exact (if_pos (hf.mem_memberIds_of_member? hmember)).symm
  | setSourceFile c file =>
      rw [perform_setSourceFile]
      cases hclass : d.class? c.id with
      | none => exact (if_neg (hf.notMem_classIds_of_class? hclass)).symm
      | some k => exact (if_pos (hf.mem_classIds_of_class? hclass)).symm
  | addCall origin target line => exact hf.refusal?_edge rfl
  | addFieldRead origin target line => exact hf.refusal?_edge rfl
  | addFieldWrite origin target line => exact hf.refusal?_edge rfl

/-! ## The class that is not analyzed -/

theorem filter_name (hf : d.Follows log) {c : Class} (hc : c ∈ d.classes) :
    d.classes.filter (fun k => k.name = c.name) = [c] :=
  filter_key_eq_singleton hf.classesFrom.names_nodup hc

/-- Unless the name is that of an analyzed class, the draft hands out the one class of
that name, which is not analyzed: the class it has, or else a new one. -/
theorem perform_addExternalClass_eq_ok (hf : d.Follows log) {name : TypeName}
    (hname : name ∉ analyzedNames log) :
    ∃ c d', d.perform (.addExternalClass name) = .ok (some (.ofClass c), d') ∧
      c.name = name ∧ c.analyzed = false ∧
        (∀ h ∈ heads log, h.name = name → h.id = c.id) ∧
      d'.classes.filter (fun k => k.name = name) = [c] := by
  cases hfound : d.classNamed? name with
  | none =>
      let c := d.newClass name .empty false
      have hperform : d.perform (.addExternalClass name) =
          .ok (some (.ofClass c), d.pushClass c) := by
        rw [perform_addExternalClass, hfound]
      obtain ⟨n, _, hchange⟩ := transition_of_perform hperform
      have hc : c ∈ (d.pushClass c).classes :=
        List.mem_append_right _ (List.mem_singleton_self c)
      refine ⟨c, d.pushClass c, hperform, rfl, rfl, ?_,
        (hf.transition hchange).filter_name hc⟩
      intro h hh hhname
      exact absurd hhname (hf.name_ne_of_classNamed?_eq_none hfound h hh)
  | some c =>
      obtain ⟨hmem, rfl⟩ := mem_of_find?_key hfound
      have hexternal : c.analyzed = false := by
        rw [Bool.eq_false_iff]
        exact fun hanalyzed =>
          hname ((hf.analyzed_iff_of_classNamed? hfound).mp hanalyzed)
      have hperform : d.perform (.addExternalClass c.name) =
          .ok (some (.ofClass c), d) := by
        rw [perform_addExternalClass, hfound]
        exact if_neg (Bool.eq_false_iff.mp hexternal)
      refine ⟨c, d, hperform, rfl, hexternal, ?_, hf.filter_name hmem⟩
      intro h hh hhname
      obtain ⟨k, hk, hkname, rfl⟩ := hf.exists_head_of_classNamed? hfound
      rw [hf.sound.name_unique hh hk hhname]
      rfl

end Follows

end Draft

end Conformance
