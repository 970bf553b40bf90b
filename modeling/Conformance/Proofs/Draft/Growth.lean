import Conformance.Proofs.Draft.Transition
import Mathlib.Data.List.Induction
import Mathlib.Data.List.Nodup

/-!
# How a ledger grows

What a ledger says about a class or a member changes by one note at a time.  For every
sort of note this module says which classes and declarations look different once the note
is taken, and how.
-/

namespace Conformance

@[simp]
theorem filterMap_singleton {α β : Type} (f : α → Option β) (a : α) :
    [a].filterMap f = (f a).toList := by
  cases h : f a <;> simp [h]

theorem eraseDups_concat {α : Type} [BEq α] [LawfulBEq α] (l : List α) (a : α) :
    (l ++ [a]).eraseDups = if l.contains a then l.eraseDups else l.eraseDups ++ [a] := by
  rw [List.eraseDups_append, List.removeAll]
  by_cases ha : a ∈ l
  · simp [ha]
  · simp [ha, List.eraseDups_cons]

theorem nodup_eraseDups {α : Type} [BEq α] [LawfulBEq α] (l : List α) :
    l.eraseDups.Nodup := by
  induction l using List.reverseRecOn with
  | nil => exact List.nodup_nil
  | append_singleton l a ih =>
      rw [eraseDups_concat]
      split
      · exact ih
      · rename_i ha
        have hnotMem : a ∉ l.eraseDups := by
          rw [List.mem_eraseDups]
          simpa using ha
        rw [← List.concat_eq_append, List.nodup_concat]
        exact ⟨hnotMem, ih⟩

/-- Adding a type to a list of distinct types keeps them distinct, in the order of their
first mention. -/
theorem TypeName.addTo_eraseDups (types : List TypeName) (t : TypeName) :
    t.addTo types.eraseDups = (types ++ [t]).eraseDups := by
  rw [eraseDups_concat, TypeName.addTo]
  have hcontains : types.eraseDups.contains t = types.contains t := by
    rw [Bool.eq_iff_iff, List.contains_iff_mem, List.contains_iff_mem, List.mem_eraseDups]
  rw [hcontains]

namespace MemberDecl

variable (annotations : List TypeName) (line : UInt32) (throws : List TypeName)
  (d : MemberDecl)

@[simp]
theorem filled_id : (d.filled annotations line throws).id = d.id := by
  cases d with
  | field f => rfl
  | unit u => cases u <;> rfl

@[simp]
theorem filled_annotations :
    (d.filled annotations line throws).base.annotations = annotations := by
  cases d with
  | field f => rfl
  | unit u => cases u <;> rfl

@[simp]
theorem filled_line : (d.filled annotations line throws).base.line = line := by
  cases d with
  | field f => rfl
  | unit u => cases u <;> rfl

@[simp]
theorem filled_bare : (d.filled annotations line throws).bare = d.bare := by
  cases d with
  | field f => rfl
  | unit u => cases u <;> rfl

theorem addAnnotation_filled (t : TypeName) :
    MemberDecl.addAnnotation t (d.filled annotations line throws) =
      d.filled (t.addTo annotations) line throws := by
  cases d with
  | field f => rfl
  | unit u => cases u <;> rfl

theorem setLine_filled (line' : UInt32) :
    (d.filled annotations line throws).setLine line' =
      d.filled annotations line' throws := by
  cases d with
  | field f => rfl
  | unit u => cases u <;> rfl

theorem addThrowable_filled (t : TypeName) :
    (d.filled annotations line throws).addThrowable t =
      d.filled annotations line (t.addTo throws) := by
  cases d with
  | field f => rfl
  | unit u => cases u <;> rfl

end MemberDecl

namespace Ledger

variable {α : Type}

theorem valuesFor_concat (entries : List (Ident × α)) (id : Ident) (a : α) (i : Ident) :
    valuesFor (entries ++ [(id, a)]) i =
      if i = id then valuesFor entries i ++ [a] else valuesFor entries i := by
  by_cases h : i = id
  · simp [valuesFor, h]
  · have h' : id ≠ i := fun h' => h h'.symm
    simp [valuesFor, h, h']

theorem valuesFor_eq_nil {entries : List (Ident × α)} {id : Ident}
    (h : ∀ entry ∈ entries, entry.1 ≠ id) : valuesFor entries id = [] := by
  have hfilter : entries.filter (fun entry => entry.1 = id) = [] := by
    rw [List.filter_eq_nil_iff]
    intro entry hentry
    simpa using h entry hentry
  rw [valuesFor, hfilter, List.map_nil]

theorem mem_valuesFor {entries : List (Ident × α)} {id : Ident} {a : α} :
    a ∈ valuesFor entries id ↔ (id, a) ∈ entries := by
  simp [valuesFor]

/-! ## What a note leaves alone -/

variable {log : List Note} {n : Note}

/-- Only annotations, throwables and lines of members change declarations. -/
theorem complete_concat (hannotate : n.annotateMember? = none) (hline : n.line? = none)
    (hthrowable : n.throwable? = none) : complete (log ++ [n]) = complete log := by
  funext decl
  simp [complete, memberAnnotationsOf, lineOf, throwablesOf, hannotate, hline, hthrowable]

/-- A note that speaks of no class and no member leaves every class as it was. -/
theorem classOf_concat (hannotate : n.annotateMember? = none) (hline : n.line? = none)
    (hthrowable : n.throwable? = none) (hclass : n.annotateClass? = none)
    (hfile : n.sourceFile? = none) (hmember : n.member? = none) (k : ClassHead) :
    classOf (log ++ [n]) k = classOf log k := by
  have hcomplete : complete (log ++ [n]) = complete log :=
    complete_concat hannotate hline hthrowable
  simp [classOf, hcomplete, classAnnotationsOf, sourceFileOf, declarationsOf,
    members, hclass, hfile, hmember]

theorem classOf_newClass (h k : ClassHead) :
    classOf (log ++ [.newClass h]) k = classOf log k :=
  classOf_concat rfl rfl rfl rfl rfl rfl k

theorem classOf_edge (e : DraftEdge) (k : ClassHead) :
    classOf (log ++ [.edge e]) k = classOf log k :=
  classOf_concat rfl rfl rfl rfl rfl rfl k

/-! ## What a note changes -/

/-- A new member is declared by its class and by no other. -/
theorem classOf_newMember (owner : Ident) (decl : MemberDecl) (k : ClassHead) :
    classOf (log ++ [.newMember owner decl]) k =
      if k.id = owner then (classOf log k).declare (complete log decl)
      else classOf log k := by
  have hcomplete : complete (log ++ [.newMember owner decl]) = complete log :=
    complete_concat rfl rfl rfl
  have hdeclarations : declarationsOf (log ++ [.newMember owner decl]) k.id =
      if k.id = owner then declarationsOf log k.id ++ [decl]
      else declarationsOf log k.id := by
    simp [declarationsOf, members, Note.member?, valuesFor_concat]
  by_cases hk : k.id = owner
  · rw [if_pos hk] at hdeclarations ⊢
    simp [classOf, hcomplete, hdeclarations, Class.declare, classAnnotationsOf,
      sourceFileOf, Note.annotateClass?, Note.sourceFile?]
  · rw [if_neg hk] at hdeclarations ⊢
    simp [classOf, hcomplete, hdeclarations, classAnnotationsOf, sourceFileOf,
      Note.annotateClass?, Note.sourceFile?]

theorem classOf_annotateClass (id : Ident) (type : TypeName) (k : ClassHead) :
    classOf (log ++ [.annotateClass id type]) k =
      if k.id = id then
        { classOf log k with annotations := type.addTo (classOf log k).annotations }
      else
        classOf log k := by
  have hcomplete : complete (log ++ [.annotateClass id type]) = complete log :=
    complete_concat rfl rfl rfl
  by_cases hk : k.id = id
  · rw [if_pos hk]
    simp [classOf, hcomplete, hk, classAnnotationsOf, valuesFor_concat,
      TypeName.addTo_eraseDups, sourceFileOf, declarationsOf, members,
      Note.annotateClass?, Note.sourceFile?, Note.member?]
  · rw [if_neg hk]
    simp [classOf, hcomplete, hk, classAnnotationsOf, valuesFor_concat, sourceFileOf,
      declarationsOf, members, Note.annotateClass?, Note.sourceFile?, Note.member?]

theorem classOf_sourceFile (id : Ident) (file : Text) (k : ClassHead) :
    classOf (log ++ [.sourceFile id file]) k =
      if k.id = id then { classOf log k with sourceFile := file } else classOf log k := by
  have hcomplete : complete (log ++ [.sourceFile id file]) = complete log :=
    complete_concat rfl rfl rfl
  by_cases hk : k.id = id
  · rw [if_pos hk]
    simp [classOf, hcomplete, hk, classAnnotationsOf, valuesFor_concat, sourceFileOf,
      declarationsOf, members, Note.annotateClass?, Note.sourceFile?, Note.member?]
  · rw [if_neg hk]
    simp [classOf, hcomplete, hk, classAnnotationsOf, valuesFor_concat, sourceFileOf,
      declarationsOf, members, Note.annotateClass?, Note.sourceFile?, Note.member?]

theorem complete_annotateMember (id : Ident) (type : TypeName) (decl : MemberDecl) :
    complete (log ++ [.annotateMember id type]) decl =
      if decl.id = id then
        MemberDecl.addAnnotation type (complete log decl)
      else
        complete log decl := by
  rw [complete, complete, MemberDecl.addAnnotation_filled]
  by_cases hdecl : decl.id = id
  · simp [hdecl, memberAnnotationsOf, lineOf, throwablesOf, valuesFor_concat,
      TypeName.addTo_eraseDups, Note.annotateMember?, Note.line?, Note.throwable?]
  · simp [hdecl, memberAnnotationsOf, lineOf, throwablesOf, valuesFor_concat,
      Note.annotateMember?, Note.line?, Note.throwable?]

theorem complete_throwable (id : Ident) (type : TypeName) (decl : MemberDecl) :
    complete (log ++ [.throwable id type]) decl =
      if decl.id = id then (complete log decl).addThrowable type
      else complete log decl := by
  rw [complete, complete, MemberDecl.addThrowable_filled]
  by_cases hdecl : decl.id = id
  · simp [hdecl, memberAnnotationsOf, lineOf, throwablesOf, valuesFor_concat,
      TypeName.addTo_eraseDups, Note.annotateMember?, Note.line?, Note.throwable?]
  · simp [hdecl, memberAnnotationsOf, lineOf, throwablesOf, valuesFor_concat,
      Note.annotateMember?, Note.line?, Note.throwable?]

theorem complete_line (id : Ident) (line : UInt32) (decl : MemberDecl) :
    complete (log ++ [.line id line]) decl =
      if decl.id = id then (complete log decl).setLine line else complete log decl := by
  rw [complete, complete, MemberDecl.setLine_filled]
  by_cases hdecl : decl.id = id
  · simp [hdecl, memberAnnotationsOf, lineOf, throwablesOf, valuesFor_concat,
      Note.annotateMember?, Note.line?, Note.throwable?]
  · simp [hdecl, memberAnnotationsOf, lineOf, throwablesOf, valuesFor_concat,
      Note.annotateMember?, Note.line?, Note.throwable?]

/-- A note that changes a declaration changes the classes nowhere else. -/
theorem classOf_of_complete {id : Ident} {f : MemberDecl → MemberDecl}
    (hclass : n.annotateClass? = none) (hfile : n.sourceFile? = none)
    (hmember : n.member? = none) (hcomplete : ∀ decl, complete (log ++ [n]) decl =
      if decl.id = id then f (complete log decl) else complete log decl) (k : ClassHead) :
    classOf (log ++ [n]) k =
      { classOf log k with
        declarations := (classOf log k).declarations.map
          (fun decl => if decl.id = id then f decl else decl) } := by
  have hdeclarations : (declarationsOf log k.id).map (complete (log ++ [n])) =
      ((declarationsOf log k.id).map (complete log)).map
        (fun decl => if decl.id = id then f decl else decl) := by
    rw [List.map_map]
    apply List.map_congr_left
    intro decl _
    rw [hcomplete decl, Function.comp_apply, complete, MemberDecl.filled_id]
  simp only [declarationsOf, members] at hdeclarations
  simp [classOf, classAnnotationsOf, sourceFileOf, declarationsOf, members, hclass, hfile,
    hmember, hdeclarations]

end Ledger

end Conformance
