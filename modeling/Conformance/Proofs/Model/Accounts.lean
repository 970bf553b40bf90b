import Conformance.Proofs.Draft.Lookup
import Mathlib.Algebra.GroupWithZero.Nat

/-!
# What a finished model holds

Everything in a finished model can be accounted for by the ledger of its draft: the
classes and the names under which they are found, the members and the classes that list
them, the edges and their ends, and the annotations, throws clauses, lines and files.
Each section below compares one part of a model with a ledger.
-/

namespace Conformance

open Ledger

/-! ## Views of a class -/

/-- A view that finds the members with a property, and loses nothing of them, filters
members. -/
theorem map_filterMap_eq_filter {α β : Type} {view : α → Option β} {back : β → α}
    {p : α → Bool} (hview : ∀ x, (view x).map back = Option.guard p x) (l : List α) :
    (l.filterMap view).map back = l.filter p := by
  rw [List.map_filterMap, List.filterMap_congr fun x _ => hview x,
    List.filterMap_eq_filter]

namespace Class

theorem fields_toMember (c : Class) :
    c.fields.map Field.toMember = c.members.filter (fun x => x.kind = .field) := by
  apply map_filterMap_eq_filter
  rintro ⟨owner, f | (f | f)⟩ <;> rfl

theorem codeUnits_toMember (c : Class) :
    c.codeUnits.map CodeUnit.toMember = c.members.filter (fun x => x.kind ≠ .field) := by
  apply map_filterMap_eq_filter
  rintro ⟨owner, f | (f | f)⟩ <;> rfl

theorem methods_toMember (c : Class) :
    c.methods.map (fun f => f.toCodeUnit.toMember) =
      c.members.filter (fun x => x.kind = .method) := by
  rw [methods, codeUnits, List.filterMap_filterMap]
  apply map_filterMap_eq_filter
  rintro ⟨owner, f | (f | f)⟩ <;> rfl

theorem constructors_toMember (c : Class) :
    c.constructors.map (fun f => f.toCodeUnit.toMember) =
      c.members.filter (fun x => x.kind = .constructor) := by
  rw [constructors, codeUnits, List.filterMap_filterMap]
  apply map_filterMap_eq_filter
  rintro ⟨owner, f | (f | f)⟩ <;> rfl

theorem toMember_mem_members {c : Class} {u : CodeUnit} (hu : u ∈ c.codeUnits) :
    u.toMember ∈ c.members := by
  have hviews : u.toMember ∈ c.codeUnits.map CodeUnit.toMember := List.mem_map_of_mem hu
  rw [c.codeUnits_toMember] at hviews
  exact List.mem_of_mem_filter hviews

end Class

/-! ## What is to be compared -/

/-- The edge as it was asked for. -/
def Edge.asked (e : Edge) : DraftEdge :=
  { origin := e.origin.id, target := e.target.id, access := e.access,
    line := e.location.line }

namespace Model

/-- The members of all classes, also of those that are not analyzed. -/
def members (m : Model) : List Member :=
  m.classes.flatMap Class.members

/-- The model lists the classes that were asked for, and finds them by their names. -/
structure ClassesFrom (m : Model) (log : List Note) : Prop where
  heads_eq : m.classes.map Class.head = (heads log).eraseDups
  names_nodup : (m.classes.map Class.name).Nodup
  ids_nodup : (m.classes.map Class.id).Nodup
  analyzed_eq : m.analyzed.map Class.head = (heads log).filter ClassHead.analyzed
  analyzed_nodup : (m.analyzed.map Class.id).Nodup
  found_iff : ∀ name c, m.classNamed? name = some c ↔ c ∈ m.classes ∧ c.name = name
  missing_iff : ∀ name, m.classNamed? name = none ↔ ∀ h ∈ heads log, h.name ≠ name

/-- Every class lists the members that it was given, in order, and no member is listed
anywhere else. -/
structure MembersFrom (m : Model) (log : List Note) : Prop where
  declared_eq : ∀ c ∈ m.classes,
    c.members.map (fun x => x.decl.bare) = declarationsOf log c.id
  owner_eq : ∀ c ∈ m.classes, ∀ x ∈ c.members, x.owner = c
  owner_known : ∀ p ∈ Ledger.members log, ∃ c ∈ m.classes, c.id = p.1
  once : ∀ p ∈ Ledger.members log, ∀ c ∈ m.classes,
    (c.members.map Member.id).count p.2.id = if c.id = p.1 then 1 else 0
  ids_nodup : (m.members.map Member.id).Nodup
  memberCount_eq : m.memberCount = (Ledger.members log).length
  memberCount_total : m.memberCount = (m.classes.map (fun c => c.members.length)).sum
  fields_eq : ∀ c ∈ m.classes,
    c.fields.map Field.toMember = c.members.filter (fun x => x.kind = .field)
  methods_eq : ∀ c ∈ m.classes,
    c.methods.map (fun f => f.toCodeUnit.toMember) =
      c.members.filter (fun x => x.kind = .method)
  constructors_eq : ∀ c ∈ m.classes,
    c.constructors.map (fun f => f.toCodeUnit.toMember) =
      c.members.filter (fun x => x.kind = .constructor)
  codeUnits_eq : ∀ c ∈ m.classes,
    c.codeUnits.map CodeUnit.toMember = c.members.filter (fun x => x.kind ≠ .field)

/-- An edge starts in an analyzed class of the model and ends in a class of the model.  It
stands in the source file of the class where it starts. -/
structure Holds (m : Model) (e : Edge) : Prop where
  origin_owner : e.origin.owner ∈ m.analyzed
  origin_mem : e.origin ∈ e.origin.owner.codeUnits
  target_owner : e.target.owner ∈ m.classes
  target_mem : e.target ∈ e.target.owner.members
  file_eq : e.location.file = e.origin.owner.sourceFile

theorem Holds.target_mem_members {m : Model} {e : Edge} (he : m.Holds e) :
    e.target ∈ m.members :=
  List.mem_flatMap.mpr ⟨e.target.owner, he.target_owner, he.target_mem⟩

theorem Holds.origin_mem_members {m : Model} {e : Edge} (he : m.Holds e) :
    e.origin.toMember ∈ m.members := by
  refine List.mem_flatMap.mpr
    ⟨e.origin.owner, ?_, Class.toMember_mem_members he.origin_mem⟩
  exact List.mem_of_mem_filter he.origin_owner

/-- The edges are those that were asked for, in order, between members of the model. -/
structure EdgesFrom (m : Model) (log : List Note) : Prop where
  asked_eq : m.edgeList.map Edge.asked = Ledger.edges log
  holds : ∀ e ∈ m.edgeList, m.Holds e

/-- Classes and members are described as they were asked to be. -/
structure DetailsFrom (m : Model) (log : List Note) : Prop where
  classAnnotations : ∀ c ∈ m.classes,
    c.annotations.Nodup ∧ c.annotations = classAnnotationsOf log c.id
  memberAnnotations : ∀ x ∈ m.members,
    x.decl.base.annotations.Nodup ∧ x.decl.base.annotations = memberAnnotationsOf log x.id
  throws : ∀ c ∈ m.classes, ∀ u ∈ c.codeUnits,
    u.decl.throws.Nodup ∧ u.decl.throws = throwablesOf log u.id
  sourceFile : ∀ c ∈ m.classes, c.sourceFile = sourceFileOf log c.head
  line : ∀ x ∈ m.members, x.decl.base.line = lineOf log x.id

/-- Every part of the model is as the ledger says. -/
structure AccountedBy (m : Model) (log : List Note) : Prop where
  classes : m.ClassesFrom log
  members : m.MembersFrom log
  edges : m.EdgesFrom log
  details : m.DetailsFrom log

end Model

namespace Draft.Follows

variable {d : Draft} {log : List Note}

theorem finish_classes (hf : d.Follows log) : d.finish.classes = Ledger.classes log :=
  hf.classes_eq

theorem mem_finish_classes (hf : d.Follows log) {c : Class} :
    c ∈ d.finish.classes ↔ ∃ h ∈ heads log, classOf log h = c := by
  rw [hf.finish_classes, mem_classes]

/-! ## Classes -/

theorem classesFrom (hf : d.Follows log) : d.finish.ClassesFrom log := by
  have hclasses : d.finish.classes = (heads log).eraseDups.map (classOf log) :=
    hf.classes_eq
  have hnames : (d.finish.classes.map Class.name).Nodup := by
    rw [hclasses, List.map_map]
    exact hf.sound.names_nodup
  have hids : (d.finish.classes.map Class.id).Nodup := by
    rw [hclasses, List.map_map]
    exact hf.sound.nodup_classIds
  constructor
  case heads_eq =>
    rw [hclasses, List.map_map]
    exact List.map_id _
  case names_nodup => exact hnames
  case ids_nodup => exact hids
  case analyzed_eq =>
    rw [Model.analyzed, hclasses, List.filter_map, List.map_map, ← hf.sound.analyzed_once]
    exact List.map_id _
  case analyzed_nodup => exact List.Nodup.sublist (List.filter_sublist.map Class.id) hids
  case found_iff =>
    intro name c
    constructor
    · exact mem_of_find?_key
    · rintro ⟨hc, rfl⟩
      exact find?_key_eq_some hnames hc
  case missing_iff =>
    intro name
    constructor
    · exact hf.name_ne_of_classNamed?_eq_none
    · intro hname
      rw [Model.classNamed?, List.find?_eq_none]
      intro c hc heq
      rw [hclasses] at hc
      obtain ⟨h, hh, rfl⟩ := List.mem_map.mp hc
      exact hname h (List.mem_eraseDups.mp hh) (of_decide_eq_true heq)

/-! ## Members -/

theorem memberCount_finish (hf : d.Follows log) :
    d.finish.memberCount = (Ledger.members log).length := by
  calc
    d.finish.memberCount = (d.finish.members.map Member.id).length := by
      simp [Model.memberCount, Model.members, Class.members, List.map_flatMap,
        List.length_flatMap]
    _ = (memberIds log).length := by
      rw [Model.members, hf.finish_classes]
      exact hf.sound.memberIds_perm.length_eq
    _ = (Ledger.members log).length := List.length_map _

/-- The class that was given a member lists it once, and no other class does. -/
theorem count_members (hf : d.Follows log) {p : Ident × MemberDecl} {h : ClassHead}
    (hp : p ∈ Ledger.members log) (hh : h ∈ heads log) :
    ((classOf log h).members.map Member.id).count p.2.id =
      if h.id = p.1 then 1 else 0 := by
  have hids : (classOf log h).members.map Member.id =
      (declarationsOf log h.id).map MemberDecl.id := by
    rw [members_classOf, List.map_map]
    apply List.map_congr_left
    intro decl _
    exact complete_id log decl
  have hnodup : ((classOf log h).members.map Member.id).Nodup := by
    have hsublist : (classOf log h).members.Sublist
        ((Ledger.classes log).flatMap Class.members) :=
      List.sublist_flatten_of_mem (List.mem_map_of_mem (mem_classes.mpr ⟨h, hh, rfl⟩))
    exact List.Nodup.sublist (hsublist.map Member.id) hf.sound.nodup_members
  have hmem : p.2.id ∈ (classOf log h).members.map Member.id ↔ h.id = p.1 := by
    rw [hids, List.mem_map]
    constructor
    · rintro ⟨decl, hdecl, hid⟩
      have hsame := hf.sound.member_unique (mem_valuesFor.mp hdecl) hp hid
      rw [← hsame]
    · intro hid
      refine ⟨p.2, ?_, rfl⟩
      rw [hid]
      exact mem_valuesFor.mpr hp
  by_cases hid : h.id = p.1
  · rw [if_pos hid]
    exact List.count_eq_one_of_mem hnodup (hmem.mpr hid)
  · rw [if_neg hid]
    exact List.count_eq_zero.mpr fun hin => hid (hmem.mp hin)

theorem membersFrom (hf : d.Follows log) : d.finish.MembersFrom log := by
  constructor
  case declared_eq =>
    intro c hc
    obtain ⟨h, _, rfl⟩ := hf.mem_finish_classes.mp hc
    rw [members_classOf, List.map_map, classOf_id]
    conv_rhs => rw [← List.map_id (declarationsOf log h.id)]
    apply List.map_congr_left
    intro decl hdecl
    have hbare := hf.sound.members_bare _ (mem_valuesFor.mp hdecl)
    rw [Function.comp_apply, complete, MemberDecl.filled_bare, hbare, id_eq]
  case owner_eq =>
    intro c _ x hx
    obtain ⟨decl, _, rfl⟩ := List.mem_map.mp hx
    rfl
  case owner_known =>
    intro p hp
    obtain ⟨h, hh, hid⟩ := mem_classIds.mp (hf.sound.owners_known p hp)
    exact ⟨classOf log h, hf.mem_finish_classes.mpr ⟨h, hh, rfl⟩, hid⟩
  case once =>
    intro p hp c hc
    obtain ⟨h, hh, rfl⟩ := hf.mem_finish_classes.mp hc
    exact hf.count_members hp hh
  case ids_nodup =>
    rw [Model.members, hf.finish_classes]
    exact hf.sound.nodup_members
  case memberCount_eq => exact hf.memberCount_finish
  case memberCount_total => simp [Model.memberCount, Class.members, List.length_flatMap]
  case fields_eq => exact fun c _ => c.fields_toMember
  case methods_eq => exact fun c _ => c.methods_toMember
  case constructors_eq => exact fun c _ => c.constructors_toMember
  case codeUnits_eq => exact fun c _ => c.codeUnits_toMember

/-! ## Edges -/

/-- An edge that was asked for is found between members of the model. -/
theorem resolve?_eq_some (hf : d.Follows log) {e : DraftEdge}
    (he : e ∈ Ledger.edges log) :
    ∃ e', d.resolve? e = some e' ∧ e'.asked = e ∧ d.finish.Holds e' := by
  obtain ⟨⟨h, hh, hanalyzed, u, hu, horigin⟩, ⟨⟨owner, decl⟩, hdecl, htarget⟩⟩ :=
    hf.sound.ends_known e he
  obtain ⟨k, hk, rfl⟩ := mem_classIds.mp (hf.sound.owners_known _ hdecl)
  obtain ⟨u', hcomplete, hunit⟩ := hf.unit?_eq_some hh hu
  have hmember := hf.member?_eq_some hk hdecl
  rw [horigin] at hunit
  rw [htarget] at hmember
  have hu' : u'.base.id = e.origin := by
    have hid := complete_id log (.unit u)
    rw [hcomplete] at hid
    exact hid.trans horigin
  have hmem : ∀ k ∈ heads log, classOf log k ∈ d.finish.classes := by
    intro k hk
    exact hf.mem_finish_classes.mpr ⟨k, hk, rfl⟩
  refine ⟨⟨⟨classOf log h, u'⟩, ⟨classOf log k, complete log decl⟩, e.access,
    ⟨(classOf log h).sourceFile, e.line⟩⟩, ?_, ?_, ?_⟩
  · rw [resolve?, hunit, hmember]
    rfl
  · have htarget' : Member.id ⟨classOf log k, complete log decl⟩ = e.target :=
      (complete_id log decl).trans htarget
    rw [Edge.asked, htarget', CodeUnit.id, hu']
  · constructor
    case origin_owner => exact List.mem_filter.mpr ⟨hmem h hh, hanalyzed⟩
    case origin_mem =>
      refine List.mem_filterMap.mpr ⟨⟨classOf log h, .unit u'⟩, ?_, rfl⟩
      exact List.mem_map_of_mem (mem_classOf_declarations.mpr ⟨.unit u, hu, hcomplete⟩)
    case target_owner => exact hmem k hk
    case target_mem =>
      exact List.mem_map_of_mem (mem_classOf_declarations.mpr ⟨decl, hdecl, rfl⟩)
    case file_eq => rfl

theorem edgeList_finish (hf : d.Follows log) :
    d.finish.edgeList = (Ledger.edges log).filterMap d.resolve? := by
  rw [← hf.edges_eq, Model.edgeList, finish, Array.toList_filterMap]

theorem edgesFrom (hf : d.Follows log) : d.finish.EdgesFrom log := by
  constructor
  case asked_eq =>
    have hasked : ∀ e ∈ Ledger.edges log, (d.resolve? e).map Edge.asked = some e := by
      intro e he
      obtain ⟨e', he', hsame, _⟩ := hf.resolve?_eq_some he
      rw [he', Option.map_some, hsame]
    rw [hf.edgeList_finish, List.map_filterMap, List.filterMap_congr hasked,
      List.filterMap_some]
  case holds =>
    intro e' he'
    rw [hf.edgeList_finish] at he'
    obtain ⟨e, he, hresolve⟩ := List.mem_filterMap.mp he'
    obtain ⟨e'', he'', _, hholds⟩ := hf.resolve?_eq_some he
    rw [hresolve] at he''
    cases he''
    exact hholds

/-! ## Details -/

theorem detailsFrom (hf : d.Follows log) : d.finish.DetailsFrom log := by
  have hclass : ∀ c ∈ d.finish.classes, ∃ h, classOf log h = c := by
    intro c hc
    obtain ⟨h, _, rfl⟩ := hf.mem_finish_classes.mp hc
    exact ⟨h, rfl⟩
  have hmember : ∀ x ∈ d.finish.members, ∃ decl, x.decl = complete log decl := by
    intro x hx
    obtain ⟨c, hc, hx⟩ := List.mem_flatMap.mp hx
    obtain ⟨h, rfl⟩ := hclass c hc
    obtain ⟨decl, _, rfl⟩ := List.mem_map.mp (members_classOf log h ▸ hx)
    exact ⟨decl, rfl⟩
  constructor
  case classAnnotations =>
    intro c hc
    obtain ⟨h, rfl⟩ := hclass c hc
    exact ⟨nodup_eraseDups _, rfl⟩
  case memberAnnotations =>
    intro x hx
    obtain ⟨decl, hdecl⟩ := hmember x hx
    have hannotations : x.decl.base.annotations = memberAnnotationsOf log x.id := by
      rw [Member.id, hdecl, complete_id, complete, MemberDecl.filled_annotations]
    refine ⟨?_, hannotations⟩
    rw [hannotations]
    exact nodup_eraseDups _
  case throws =>
    intro c hc u hu
    have hmem : u.toMember ∈ d.finish.members :=
      List.mem_flatMap.mpr ⟨c, hc, Class.toMember_mem_members hu⟩
    obtain ⟨decl, hdecl⟩ := hmember _ hmem
    have hthrows : u.decl.throws = throwablesOf log u.id := by
      rcases decl with f | (f | f)
      · cases hdecl
      · rw [CodeUnit.id, MemberDecl.unit.inj hdecl]
        rfl
      · rw [CodeUnit.id, MemberDecl.unit.inj hdecl]
        rfl
    refine ⟨?_, hthrows⟩
    rw [hthrows]
    exact nodup_eraseDups _
  case sourceFile =>
    intro c hc
    obtain ⟨h, rfl⟩ := hclass c hc
    rfl
  case line =>
    intro x hx
    obtain ⟨decl, hdecl⟩ := hmember x hx
    rw [Member.id, hdecl, complete_id, complete, MemberDecl.filled_line]

theorem accountedBy (hf : d.Follows log) : d.finish.AccountedBy log :=
  ⟨hf.classesFrom, hf.membersFrom, hf.edgesFrom, hf.detailsFrom⟩

end Draft.Follows

namespace Draft

/-- Whatever is asked of an empty draft, carried out or refused, its finished model is
accounted for by the requests that it carried out. -/
theorem finish_run_accountedBy (stamp : Nat) (requests : List Request) :
    ((start stamp).run requests).finish.AccountedBy ((start stamp).ledger requests) :=
  (follows_run stamp requests).accountedBy

end Draft

end Conformance
