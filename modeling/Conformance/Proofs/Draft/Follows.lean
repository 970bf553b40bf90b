import Conformance.Proofs.Draft.Sound

/-!
# Drafts follow their ledgers

A draft keeps its classes in a form that later requests rewrite: declarations are appended
inside classes, and annotations, lines and files are changed in place.  Nevertheless its
classes and edges are at every moment those that the ledger of its accepted requests
describes, and the ledger is sound.  Both facts hold of an empty draft, and every change
keeps them.
-/

namespace Conformance

/-- Searching a list by a key finds an entry with that key. -/
theorem mem_of_find?_key {α κ : Type} [DecidableEq κ] {key : α → κ} {l : List α}
    {k : κ} {a : α} (h : l.find? (fun x => key x = k) = some a) : a ∈ l ∧ key a = k :=
  ⟨List.mem_of_find?_eq_some h, by simpa using List.find?_some h⟩

theorem key_ne_of_find?_key {α κ : Type} [DecidableEq κ] {key : α → κ}
    {l : List α} {k : κ} (h : l.find? (fun x => key x = k) = none) :
    ∀ a ∈ l, key a ≠ k := by
  simpa using h

/-- When the keys are distinct, an entry is what a search for its key finds. -/
theorem find?_key_eq_some {α κ : Type} [DecidableEq κ] {key : α → κ} {l : List α}
    (hnodup : (l.map key).Nodup) {a : α} (ha : a ∈ l) :
    l.find? (fun x => key x = key a) = some a := by
  cases h : l.find? (fun x => key x = key a) with
  | none => exact absurd rfl (key_ne_of_find?_key h a ha)
  | some b =>
      obtain ⟨hb, hkey⟩ := mem_of_find?_key h
      rw [List.inj_on_of_nodup_map hnodup hb ha hkey]

namespace Ledger

variable {log : List Note} {id : Ident}

/-- Nothing has been noted about an identity that no note speaks of. -/
theorem valuesFor_unmentioned {α : Type} {f : Note → Option (Ident × α)}
    (hf : ∀ n entry, f n = some entry → entry.1 ∈ n.subjects)
    (hid : ∀ n ∈ log, id ∉ n.subjects) : valuesFor (log.filterMap f) id = [] := by
  apply valuesFor_eq_nil
  intro entry hentry heq
  obtain ⟨n, hn, hfn⟩ := List.mem_filterMap.mp hentry
  exact hid n hn (heq ▸ hf n entry hfn)

theorem complete_unmentioned {decl : MemberDecl} (hid : ∀ n ∈ log, decl.id ∉ n.subjects) :
    complete log decl = decl.bare := by
  have hannotations : valuesFor (log.filterMap Note.annotateMember?) decl.id = [] := by
    apply valuesFor_unmentioned _ hid
    intro n entry h
    cases n <;> cases h
    exact List.mem_singleton_self _
  have hlines : valuesFor (log.filterMap Note.line?) decl.id = [] := by
    apply valuesFor_unmentioned _ hid
    intro n entry h
    cases n <;> cases h
    exact List.mem_singleton_self _
  have hthrowables : valuesFor (log.filterMap Note.throwable?) decl.id = [] := by
    apply valuesFor_unmentioned _ hid
    intro n entry h
    cases n <;> cases h
    exact List.mem_singleton_self _
  rw [complete, memberAnnotationsOf, lineOf, throwablesOf, hannotations, hlines,
    hthrowables]
  rfl

theorem classOf_unmentioned {h : ClassHead} (hid : ∀ n ∈ log, h.id ∉ n.subjects) :
    classOf log h = h.toClass := by
  have hannotations : valuesFor (log.filterMap Note.annotateClass?) h.id = [] := by
    apply valuesFor_unmentioned _ hid
    intro n entry hn
    cases n <;> cases hn
    exact List.mem_singleton_self _
  have hfiles : valuesFor (log.filterMap Note.sourceFile?) h.id = [] := by
    apply valuesFor_unmentioned _ hid
    intro n entry hn
    cases n <;> cases hn
    exact List.mem_singleton_self _
  have hdeclarations : valuesFor (members log) h.id = [] := by
    apply valuesFor_unmentioned _ hid
    intro n entry hn
    cases n <;> cases hn
    exact List.mem_singleton_self _
  rw [classOf, classAnnotationsOf, sourceFileOf, declarationsOf, hannotations, hfiles,
    hdeclarations]
  rfl

@[simp]
theorem classOf_id (log : List Note) (h : ClassHead) : (classOf log h).id = h.id := rfl

@[simp]
theorem classOf_name (log : List Note) (h : ClassHead) :
    (classOf log h).name = h.name := rfl

@[simp]
theorem classOf_analyzed (log : List Note) (h : ClassHead) :
    (classOf log h).analyzed = h.analyzed := rfl

@[simp]
theorem complete_id (log : List Note) (decl : MemberDecl) :
    (complete log decl).id = decl.id :=
  MemberDecl.filled_id _ _ _ decl

theorem mem_classes {c : Class} :
    c ∈ classes log ↔ ∃ h ∈ heads log, classOf log h = c := by
  simp [classes]

theorem mem_classOf_declarations {h : ClassHead} {decl : MemberDecl} :
    decl ∈ (classOf log h).declarations ↔
      ∃ decl', (h.id, decl') ∈ members log ∧ complete log decl' = decl := by
  simp [classOf, declarationsOf, mem_valuesFor]

/-- In a sound ledger an identity belongs to one class only. -/
theorem Sound.head_unique {stamp next : Nat} (hsound : Sound log stamp next)
    {h k : ClassHead} (hh : h ∈ heads log) (hk : k ∈ heads log) (heq : h.id = k.id) :
    h = k := by
  exact List.inj_on_of_nodup_map hsound.nodup_classIds (List.mem_eraseDups.mpr hh)
    (List.mem_eraseDups.mpr hk) heq

/-- In a sound ledger an identity belongs to one member only. -/
theorem Sound.member_unique {stamp next : Nat} (hsound : Sound log stamp next)
    {p q : Ident × MemberDecl} (hp : p ∈ members log) (hq : q ∈ members log)
    (heq : p.2.id = q.2.id) : p = q := by
  exact List.inj_on_of_nodup_map hsound.nodup_memberIds hp hq heq

end Ledger

namespace Draft

open Ledger

/-- The classes and edges of a draft are those that a sound ledger describes. -/
structure Follows (d : Draft) (log : List Note) : Prop where
  classes_eq : d.classes = Ledger.classes log
  edges_eq : d.edges.toList = Ledger.edges log
  sound : Ledger.Sound log d.stamp d.next

namespace Follows

variable {d d' : Draft} {log : List Note}

theorem fresh_unmentioned (hf : d.Follows log) : ∀ n ∈ log, d.freshId ∉ n.subjects := by
  intro n hn hsubject
  exact fresh_notMem_ids hf.sound (hf.sound.subjects_known n hn _ hsubject)

/-! ## Looking things up -/

theorem exists_head_of_class? (hf : d.Follows log) {id : Ident} {c : Class}
    (h : d.class? id = some c) : ∃ k ∈ heads log, k.id = id ∧ classOf log k = c := by
  obtain ⟨hmem, hkey⟩ := mem_of_find?_key h
  rw [hf.classes_eq, mem_classes] at hmem
  obtain ⟨k, hk, rfl⟩ := hmem
  exact ⟨k, hk, hkey, rfl⟩

theorem exists_head_of_classNamed? (hf : d.Follows log) {name : TypeName} {c : Class}
    (h : d.classNamed? name = some c) :
    ∃ k ∈ heads log, k.name = name ∧ classOf log k = c := by
  obtain ⟨hmem, hkey⟩ := mem_of_find?_key h
  rw [hf.classes_eq, mem_classes] at hmem
  obtain ⟨k, hk, rfl⟩ := hmem
  exact ⟨k, hk, hkey, rfl⟩

theorem name_ne_of_classNamed?_eq_none (hf : d.Follows log) {name : TypeName}
    (h : d.classNamed? name = none) : ∀ k ∈ heads log, k.name ≠ name := by
  intro k hk
  have hmem : classOf log k ∈ d.classes := by
    rw [hf.classes_eq, mem_classes]
    exact ⟨k, hk, rfl⟩
  exact key_ne_of_find?_key h _ hmem

theorem exists_member_of_member? (hf : d.Follows log) {id : Ident} {m : Member}
    (h : d.member? id = some m) :
    ∃ k ∈ heads log, ∃ decl, (k.id, decl) ∈ members log ∧ decl.id = id ∧
      m = ⟨classOf log k, complete log decl⟩ := by
  obtain ⟨hmem, hid⟩ := mem_of_find?_key h
  obtain ⟨c, hc, hm⟩ := List.mem_flatMap.mp hmem
  rw [hf.classes_eq, mem_classes] at hc
  obtain ⟨k, hk, rfl⟩ := hc
  obtain ⟨decl, hdecl, rfl⟩ := List.mem_map.mp hm
  obtain ⟨decl', hdecl', rfl⟩ := mem_classOf_declarations.mp hdecl
  refine ⟨k, hk, decl', hdecl', ?_, rfl⟩
  rw [← hid]
  exact (complete_id log decl').symm

theorem exists_member_of_unit? (hf : d.Follows log) {id : Ident} {u : CodeUnit}
    (h : d.unit? id = some u) :
    ∃ k ∈ heads log, ∃ decl, (k.id, .unit decl) ∈ members log ∧ decl.base.id = id ∧
      u.owner = classOf log k := by
  obtain ⟨m, hm, hu⟩ := Option.bind_eq_some_iff.mp h
  obtain ⟨k, hk, decl, hdecl, hid, rfl⟩ := hf.exists_member_of_member? hm
  cases decl with
  | field f => cases hu
  | unit decl =>
      refine ⟨k, hk, decl, hdecl, hid, ?_⟩
      cases decl with
      | method f =>
          cases hu
          rfl
      | constructor f =>
          cases hu
          rfl

/-! ## Steps -/

theorem start (stamp : Nat) : (Draft.start stamp).Follows [] where
  classes_eq := rfl
  edges_eq := rfl
  sound := sound_nil stamp 0

theorem pushClass (hf : d.Follows log) {h : ClassHead} (hid : h.id = d.freshId)
    (hnew : d.classNamed? h.name = none)
    (hplain : h.analyzed = false → h.modifiers = .empty) :
    (d.pushClass h.toClass).Follows (log ++ [.newClass h]) where
  classes_eq := by
    have hnames := hf.name_ne_of_classNamed?_eq_none hnew
    have hnotMem : h ∉ heads log := fun hmem => hnames h hmem rfl
    have hunmentioned : ∀ n ∈ log, h.id ∉ n.subjects := by
      rw [hid]
      exact hf.fresh_unmentioned
    have hdistinct : (heads (log ++ [.newClass h])).eraseDups =
        (heads log).eraseDups ++ [h] := by
      rw [heads_concat, Note.head?, Option.toList_some, eraseDups_concat,
        if_neg (by simpa using hnotMem)]
    have hclassOf : classOf (log ++ [.newClass h]) = classOf log :=
      funext (classOf_newClass h)
    rw [Ledger.classes, hdistinct, List.map_append, List.map_singleton, hclassOf,
      classOf_unmentioned hunmentioned, ← Ledger.classes, ← hf.classes_eq]
    rfl
  edges_eq := by
    simpa [edges_concat, Note.edge?, Draft.pushClass] using hf.edges_eq
  sound := hf.sound.newClass hid (hf.name_ne_of_classNamed?_eq_none hnew) hplain

theorem findClass (hf : d.Follows log) {c : Class} {name : TypeName}
    (hknown : d.classNamed? name = some c) (hexternal : c.analyzed = false) :
    d.Follows
      (log ++ [.newClass
        { id := c.id, name, modifiers := .empty, analyzed := false }]) := by
  obtain ⟨k, hk, rfl, rfl⟩ := hf.exists_head_of_classNamed? hknown
  have hplain : k.modifiers = .empty := hf.sound.external_plain k hk hexternal
  have hhead : ClassHead.mk (classOf log k).id k.name .empty false = k := by
    rw [← hplain, ← hexternal]
    rfl
  rw [hhead]
  have hdistinct : (heads (log ++ [.newClass k])).eraseDups = (heads log).eraseDups := by
    rw [heads_concat, Note.head?, Option.toList_some, eraseDups_concat,
      if_pos (List.contains_iff_mem.mpr hk)]
  have hclassOf : classOf (log ++ [.newClass k]) = classOf log :=
    funext (classOf_newClass k)
  constructor
  case classes_eq =>
    rw [Ledger.classes, hdistinct, hclassOf, ← Ledger.classes, hf.classes_eq]
  case edges_eq => simpa [edges_concat, Note.edge?] using hf.edges_eq
  case sound => exact hf.sound.knownClass hk hexternal

/-- The new declaration is the last one of its class, and nothing has been noted about it
yet. -/
theorem declare (hf : d.Follows log) {owner : Ident} {decl : MemberDecl} {c : Class}
    (howner : d.class? owner = some c) (hid : decl.id = d.freshId)
    (hbare : decl.bare = decl) :
    ({ d.updateClass owner
      (fun _ => c.declare decl) with next := d.next + 1 } : Draft).Follows
      (log ++ [.newMember owner decl]) := by
  obtain ⟨k, hk, rfl, rfl⟩ := hf.exists_head_of_class? howner
  have hcomplete : complete log decl = decl := by
    rw [complete_unmentioned, hbare]
    rw [hid]
    exact hf.fresh_unmentioned
  constructor
  case classes_eq =>
    have hheads : heads (log ++ [.newMember k.id decl]) = heads log := by
      simp [heads_concat, Note.head?]
    rw [Ledger.classes, hheads, Draft.updateClass, hf.classes_eq, Ledger.classes,
      List.map_map]
    apply List.map_congr_left
    intro k' hk'
    rw [classOf_newMember, hcomplete]
    by_cases heq : k'.id = k.id
    · have hsame : k' = k := hf.sound.head_unique (List.mem_eraseDups.mp hk') hk heq
      simp [hsame]
    · simp [heq]
  case edges_eq => simpa [edges_concat, Note.edge?, Draft.updateClass] using hf.edges_eq
  case sound => exact hf.sound.newMember (mem_classIds.mpr ⟨k, hk, rfl⟩) hid hbare

/-- A change to a class that the ledger records about that class. -/
theorem updateClass (hf : d.Follows log) {n : Note} {id : Ident} {f : Class → Class}
    (hhead : n.head? = none) (hmember : n.member? = none) (hedge : n.edge? = none)
    (hsubjects : ∀ i ∈ n.subjects, i ∈ ids log)
    (hclassOf : ∀ k, classOf (log ++ [n]) k =
      if k.id = id then f (classOf log k) else classOf log k) :
    (d.updateClass id f).Follows (log ++ [n]) where
  classes_eq := by
    have hheads : heads (log ++ [n]) = heads log := by simp [heads_concat, hhead]
    rw [Ledger.classes, hheads, Draft.updateClass, hf.classes_eq, Ledger.classes,
      List.map_map]
    apply List.map_congr_left
    intro k _
    rw [hclassOf k, Function.comp_apply, classOf_id]
  edges_eq := by simpa [edges_concat, hedge, Draft.updateClass] using hf.edges_eq
  sound := hf.sound.keep hhead hmember hsubjects (by simp [hedge])

/-- A change to a declaration that the ledger records about that declaration. -/
theorem updateMember (hf : d.Follows log) {n : Note} {id : Ident}
    {f : MemberDecl → MemberDecl} (hhead : n.head? = none) (hmember : n.member? = none)
    (hedge : n.edge? = none) (hclass : n.annotateClass? = none)
    (hfile : n.sourceFile? = none) (hsubjects : ∀ i ∈ n.subjects, i ∈ ids log)
    (hcomplete : ∀ decl, complete (log ++ [n]) decl =
      if decl.id = id then f (complete log decl) else complete log decl) :
    (d.updateMember id f).Follows (log ++ [n]) where
  classes_eq := by
    have hheads : heads (log ++ [n]) = heads log := by simp [heads_concat, hhead]
    rw [Ledger.classes, hheads, Draft.updateMember, hf.classes_eq, Ledger.classes,
      List.map_map]
    apply List.map_congr_left
    intro k _
    rw [classOf_of_complete hclass hfile hmember hcomplete, Function.comp_apply]
  edges_eq := by simpa [edges_concat, hedge, Draft.updateMember] using hf.edges_eq
  sound := hf.sound.keep hhead hmember hsubjects (by simp [hedge])

theorem mem_ids_of_class? (hf : d.Follows log) {id : Ident} {c : Class}
    (h : d.class? id = some c) : id ∈ ids log := by
  obtain ⟨k, hk, hkid, _⟩ := hf.exists_head_of_class? h
  exact List.mem_append_left _ (mem_classIds.mpr ⟨k, hk, hkid⟩)

theorem mem_ids_of_member? (hf : d.Follows log) {id : Ident} {m : Member}
    (h : d.member? id = some m) : id ∈ ids log := by
  obtain ⟨k, _, decl, hdecl, hid, _⟩ := hf.exists_member_of_member? h
  exact List.mem_append_right _ (List.mem_map.mpr ⟨(k.id, decl), hdecl, hid⟩)

theorem mem_ids_of_unit? (hf : d.Follows log) {id : Ident} {u : CodeUnit}
    (h : d.unit? id = some u) : id ∈ ids log := by
  obtain ⟨m, hm, _⟩ := Option.bind_eq_some_iff.mp h
  exact hf.mem_ids_of_member? hm

theorem pushEdge (hf : d.Follows log) {e : DraftEdge} {u : CodeUnit} {m : Member}
    (horigin : d.unit? e.origin = some u) (htarget : d.member? e.target = some m)
    (hanalyzed : u.owner.analyzed = true) :
    ({ d with edges := d.edges.push e } : Draft).Follows (log ++ [.edge e]) where
  classes_eq := by
    have hheads : heads (log ++ [.edge e]) = heads log := by
      simp [heads_concat, Note.head?]
    have hclassOf : classOf (log ++ [.edge e]) = classOf log := funext (classOf_edge e)
    rw [Ledger.classes, hheads, hclassOf]
    exact hf.classes_eq
  edges_eq := by
    rw [edges_concat, Array.toList_push, hf.edges_eq]
    rfl
  sound := by
    apply hf.sound.keep rfl rfl
    · intro id hid
      rcases List.mem_cons.mp hid with rfl | hid
      · exact hf.mem_ids_of_unit? horigin
      · rw [List.mem_singleton.mp hid]
        exact hf.mem_ids_of_member? htarget
    · intro e' he'
      cases he'
      obtain ⟨k, hk, decl, hdecl, hid, howner⟩ := hf.exists_member_of_unit? horigin
      obtain ⟨k', _, decl', hdecl', hid', _⟩ := hf.exists_member_of_member? htarget
      rw [howner] at hanalyzed
      exact ⟨⟨k, hk, hanalyzed, decl, hdecl, hid⟩, ⟨(k'.id, decl'), hdecl', hid'⟩⟩

/-- Whatever change a note makes, the changed draft follows the longer ledger. -/
theorem transition (hf : d.Follows log) {n : Note} (h : Transition d n d') :
    d'.Follows (log ++ [n]) := by
  cases h with
  | newClass hid hnew hplain => exact hf.pushClass hid hnew hplain
  | knownClass hknown hexternal => exact hf.findClass hknown hexternal
  | newMember howner hid hbare => exact hf.declare howner hid hbare
  | annotateClass hclass type =>
      exact hf.updateClass rfl rfl rfl
        (List.forall_mem_singleton.mpr (hf.mem_ids_of_class? hclass))
          (classOf_annotateClass _ type)
  | annotateMember hmember type =>
      exact hf.updateMember rfl rfl rfl rfl rfl
        (List.forall_mem_singleton.mpr (hf.mem_ids_of_member? hmember))
        (complete_annotateMember _ type)
  | throwable hunit type =>
      exact hf.updateMember rfl rfl rfl rfl rfl
        (List.forall_mem_singleton.mpr (hf.mem_ids_of_unit? hunit))
          (complete_throwable _ type)
  | line hmember line =>
      exact hf.updateMember rfl rfl rfl rfl rfl
        (List.forall_mem_singleton.mpr (hf.mem_ids_of_member? hmember))
          (complete_line _ line)
  | sourceFile hclass file =>
      exact hf.updateClass rfl rfl rfl
        (List.forall_mem_singleton.mpr (hf.mem_ids_of_class? hclass))
          (classOf_sourceFile _ file)
  | edge horigin htarget hanalyzed => exact hf.pushEdge horigin htarget hanalyzed

theorem step (hf : d.Follows log) (r : Request) :
    (d.step r).2.Follows (log ++ (d.note? r).toList) := by
  rcases step_cases d r with ⟨hnote, hsame⟩ | ⟨n, hnote, hchange⟩
  · rw [hnote, hsame, Option.toList_none, List.append_nil]
    exact hf
  · rw [hnote, Option.toList_some]
    exact hf.transition hchange

/-- Over a whole run, the ledger grows by the notes of the run. -/
theorem run (hf : d.Follows log) (requests : List Request) :
    (d.run requests).Follows (log ++ d.ledger requests) := by
  induction requests generalizing d log with
  | nil => simpa [Draft.run, Draft.ledger] using hf
  | cons r rest ih =>
      have hrest := ih (hf.step r)
      rw [List.append_assoc] at hrest
      exact hrest

end Follows

/-- The run of an empty draft follows its ledger. -/
theorem follows_run (stamp : Nat) (requests : List Request) :
    ((Draft.start stamp).run requests).Follows ((Draft.start stamp).ledger requests) := by
  simpa using (Follows.start stamp).run requests

end Draft

end Conformance
