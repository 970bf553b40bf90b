import Conformance.Proofs.Draft.Restamp

/-!
# Replaying what a draft has carried out

A draft comes from an empty draft by the requests that it carried out.  An empty draft
with another stamp carries out the same requests, answers them with the elements of the
same numbers, and is finished to the same model but for the stamp.
-/

namespace Conformance

namespace Draft

variable {stamp : Nat} {d d' : Draft} {r : Request} {answer : Option Element}

/-! ## One request -/

theorem Transition.stamp_eq {n : Note} (h : Transition d n d') : d'.stamp = d.stamp := by
  cases h <;> rfl

theorem restamp_changed (hd' : d'.Own) {id : Ident} (hid : id.draft = d'.stamp) :
    changed (id.restamp stamp) (d'.restamp stamp) =
      ((changed id d').1.map (Element.restamp stamp),
        (changed id d').2.restamp stamp) := by
  rw [changed, hd'.restamp_element? hid]
  rfl

theorem restamp_changed_updateClass (hd : d.Own) {id : Ident} (hid : id.draft = d.stamp)
    {f g : Class → Class} (hd' : (d.updateClass id f).Own)
    (hfg : ∀ c, g (c.restamp stamp) = (f c).restamp stamp) :
    changed (id.restamp stamp) ((d.restamp stamp).updateClass (id.restamp stamp) g) =
      ((changed id (d.updateClass id f)).1.map (Element.restamp stamp),
        (changed id (d.updateClass id f)).2.restamp stamp) := by
  rw [restamp_updateClass hd hid hfg, restamp_changed hd' hid]

theorem restamp_changed_updateMember (hd : d.Own) {id : Ident} (hid : id.draft = d.stamp)
    {f : MemberDecl → MemberDecl} (hd' : (d.updateMember id f).Own)
    (hf : ∀ m, f (m.restamp stamp) = (f m).restamp stamp) :
    changed (id.restamp stamp) ((d.restamp stamp).updateMember (id.restamp stamp) f) =
      ((changed id (d.updateMember id f)).1.map (Element.restamp stamp),
        (changed id (d.updateMember id f)).2.restamp stamp) := by
  rw [restamp_updateMember hd hid hf, restamp_changed hd' hid]

theorem restamp_declaration (hd : d.Own) {operation : Operation} {owner : Class}
    {decl : MemberDecl} (hr : r.declaration? d.freshId = some (operation, owner, decl))
    (h : d.perform r = .ok (answer, d')) :
    (d.restamp stamp).perform (r.restamp stamp) =
      .ok (answer.map (Element.restamp stamp), d'.restamp stamp) := by
  rw [perform_declaration hr] at h
  split at h
  · cases h
  · rename_i c howner
    cases h
    have hid := hd.draft_of_class? howner
    have hr' : (r.restamp stamp).declaration? (d.restamp stamp).freshId =
        some (operation, owner.restamp stamp, decl.restamp stamp) :=
      Request.declaration?_restamp hr
    have howner' : (d.restamp stamp).class? (owner.restamp stamp).id =
        some (c.restamp stamp) := hd.restamp_class howner
    have hupdate : (d.restamp stamp).updateClass (owner.id.restamp stamp)
        (fun _ => (c.declare decl).restamp stamp) =
        (d.updateClass owner.id (fun _ => c.declare decl)).restamp stamp :=
      restamp_updateClass hd hid fun _ => rfl
    have howner_id : (owner.restamp stamp).id = owner.id.restamp stamp := rfl
    rw [perform_declaration hr', howner']
    simp only [howner_id, ← Class.restamp_declare, hupdate]
    rfl

theorem restamp_edge (hd : d.Own) {access : Access} {origin : CodeUnit} {target : Member}
    {line : UInt32} (hr : r.edge? = some (access, origin, target, line))
    (h : d.perform r = .ok (answer, d')) :
    (d.restamp stamp).perform (r.restamp stamp) =
      .ok (answer.map (Element.restamp stamp), d'.restamp stamp) := by
  rw [perform_edge hr] at h
  split at h
  · cases h
  · cases h
  · rename_i u x horigin htarget
    split at h
    · rename_i hanalyzed
      cases h
      have horigin' : (d.restamp stamp).unit? (origin.restamp stamp).id =
          some (u.restamp stamp) := by
        rw [CodeUnit.restamp_id, hd.restamp_unit horigin]
      have htarget' : (d.restamp stamp).member? (target.restamp stamp).id =
          some (x.restamp stamp) := by
        rw [Member.restamp_id, hd.restamp_member htarget]
      have hanalyzed' : (u.restamp stamp).owner.analyzed = true := hanalyzed
      rw [perform_edge (Request.edge?_restamp hr), horigin', htarget']
      simp [hanalyzed', restamp, DraftEdge.restamp, CodeUnit.restamp_id,
        Member.restamp_id]
    · cases h

/-- A restamped draft carries out the restamped request, with the restamped answer. -/
theorem restamp_perform (hd : d.Own) (hd' : d'.Own) (h : d.perform r = .ok (answer, d')) :
    (d.restamp stamp).perform (r.restamp stamp) =
      .ok (answer.map (Element.restamp stamp), d'.restamp stamp) := by
  cases r with
  | addClass name modifiers =>
      rw [perform_addClass] at h
      split at h
      · cases h
      · rename_i hnew
        cases h
        rw [Request.restamp, perform_addClass, restamp_classNamed?, hnew,
          restamp_pushClass]
        rfl
  | addExternalClass name =>
      rw [perform_addExternalClass] at h
      split at h
      · rename_i c hknown
        split at h
        · cases h
        · rename_i hexternal
          cases h
          have hexternal' : ¬ (c.restamp stamp).analyzed = true := hexternal
          rw [Request.restamp, perform_addExternalClass, restamp_classNamed?, hknown,
            Option.map_some]
          exact if_neg hexternal'
      · rename_i hnew
        cases h
        rw [Request.restamp, perform_addExternalClass, restamp_classNamed?, hnew,
          restamp_pushClass]
        rfl
  | addField owner name rawType modifiers => exact restamp_declaration hd rfl h
  | addMethod owner name parameters returnType modifiers =>
      exact restamp_declaration hd rfl h
  | addConstructor owner parameters modifiers => exact restamp_declaration hd rfl h
  | annotate element type =>
      cases element with
      | ofClass c =>
          rw [perform_annotateClass] at h
          split at h
          · cases h
          · rename_i k hclass
            cases h
            have hid := hd.draft_of_class? hclass
            have hclass' : (d.restamp stamp).class? (c.restamp stamp).id =
                some (k.restamp stamp) := hd.restamp_class hclass
            rw [Request.restamp, Element.restamp, perform_annotateClass, hclass']
            exact congrArg Except.ok (restamp_changed_updateClass hd hid hd' fun _ => rfl)
      | ofMember m =>
          rw [perform_annotateMember] at h
          split at h
          · cases h
          · rename_i x hmember
            cases h
            have hid := hd.draft_of_member? hmember
            rw [Request.restamp, Element.restamp, perform_annotateMember,
              Member.restamp_id, hd.restamp_member hmember]
            exact congrArg Except.ok
              (restamp_changed_updateMember hd hid hd'
                (MemberDecl.addAnnotation_restamp type))
  | declareThrowable u type =>
      rw [perform_declareThrowable] at h
      split at h
      · cases h
      · rename_i x hunit
        cases h
        have hid := hd.draft_of_unit? hunit
        rw [Request.restamp, perform_declareThrowable, CodeUnit.restamp_id,
          hd.restamp_unit hunit]
        exact congrArg Except.ok
          (restamp_changed_updateMember hd hid hd' (MemberDecl.addThrowable_restamp type))
  | setLine m line =>
      rw [perform_setLine] at h
      split at h
      · cases h
      · rename_i x hmember
        cases h
        have hid := hd.draft_of_member? hmember
        rw [Request.restamp, perform_setLine, Member.restamp_id,
          hd.restamp_member hmember]
        exact congrArg Except.ok
          (restamp_changed_updateMember hd hid hd' (MemberDecl.setLine_restamp line))
  | setSourceFile c file =>
      rw [perform_setSourceFile] at h
      split at h
      · cases h
      · rename_i k hclass
        cases h
        have hid := hd.draft_of_class? hclass
        have hclass' : (d.restamp stamp).class? (c.restamp stamp).id =
            some (k.restamp stamp) :=
          hd.restamp_class hclass
        rw [Request.restamp, perform_setSourceFile, hclass']
        exact congrArg Except.ok (restamp_changed_updateClass hd hid hd' fun _ => rfl)
  | addCall origin target line => exact restamp_edge hd rfl h
  | addFieldRead origin target line => exact restamp_edge hd rfl h
  | addFieldWrite origin target line => exact restamp_edge hd rfl h

/-! ## Runs -/

theorem restamp_start (stamp stamp' : Nat) :
    (start stamp).restamp stamp' = start stamp' := by
  simp [start, restamp]

/-- The draft comes from an empty one by requests that were all carried out. -/
inductive CarriedOut (stamp : Nat) : List Request → Draft → Prop where
  | start : CarriedOut stamp [] (start stamp)
  | step {requests : List Request} {d : Draft} {r : Request} {answer : Option Element}
      {d' : Draft} (before : CarriedOut stamp requests d)
      (h : d.perform r = .ok (answer, d')) :
      CarriedOut stamp (requests ++ [r]) d'

namespace CarriedOut

variable {requests : List Request}

theorem run_eq (h : CarriedOut stamp requests d) :
    (Draft.start stamp).run requests = d := by
  induction h with
  | start => rfl
  | @step requests d r answer d' before h ih =>
      have hrun : (Draft.start stamp).run (requests ++ [r]) =
          (((Draft.start stamp).run requests).step r).2 := List.foldl_concat _ _ _ _
      rw [hrun, ih, Draft.step, h]

theorem follows (h : CarriedOut stamp requests d) :
    d.Follows ((Draft.start stamp).ledger requests) := by
  have hfollows := follows_run stamp requests
  rwa [h.run_eq] at hfollows

theorem own (h : CarriedOut stamp requests d) : d.Own :=
  h.follows.own

/-- Every empty draft carries out the same requests, once they speak of its own
elements. -/
theorem replay (h : CarriedOut stamp requests d) (stamp' : Nat) :
    CarriedOut stamp' (requests.map (Request.restamp stamp')) (d.restamp stamp') := by
  induction h with
  | start =>
      rw [restamp_start]
      exact CarriedOut.start
  | step before h ih =>
      rw [List.map_append, List.map_singleton]
      exact ih.step (restamp_perform before.own (before.step h).own h)

end CarriedOut

/-! ## Finished models -/

theorem Follows.restamp_resolve? {log : List Note} (hf : d.Follows log) {e : DraftEdge}
    (he : e ∈ Ledger.edges log) :
    (d.restamp stamp).resolve? (e.restamp stamp) =
      (d.resolve? e).map (Edge.restamp stamp) := by
  obtain ⟨e', hresolve, _, _⟩ := hf.resolve?_eq_some he
  obtain ⟨u, horigin, h⟩ := Option.bind_eq_some_iff.mp hresolve
  obtain ⟨x, htarget, h⟩ := Option.bind_eq_some_iff.mp h
  have hd := hf.own
  have horigin' : (d.restamp stamp).unit? (e.restamp stamp).origin =
      some (u.restamp stamp) :=
    hd.restamp_unit horigin
  have htarget' : (d.restamp stamp).member? (e.restamp stamp).target =
      some (x.restamp stamp) :=
    hd.restamp_member htarget
  rw [resolve?, horigin', htarget', resolve?, horigin, htarget]
  rfl

theorem Follows.restamp_finish {log : List Note} (hf : d.Follows log) :
    (d.restamp stamp).finish = d.finish.restamp stamp := by
  have hedges : (d.edges.map (DraftEdge.restamp stamp)).filterMap
      (d.restamp stamp).resolve? =
      (d.edges.filterMap d.resolve?).map (Edge.restamp stamp) := by
    rw [← Array.toList_inj, Array.toList_filterMap, Array.toList_map, Array.toList_map,
      Array.toList_filterMap, List.filterMap_map, List.map_filterMap, hf.edges_eq]
    apply List.filterMap_congr
    intro e he
    exact hf.restamp_resolve? he
  have hfinish : (d.restamp stamp).finish =
      { classes := d.classes.map (Class.restamp stamp)
        edges :=
          (d.edges.map (DraftEdge.restamp stamp)).filterMap
            (d.restamp stamp).resolve? } := rfl
  rw [hfinish, hedges]
  rfl

/-- The model of a draft is, but for the stamp, the model of any empty draft after the
same requests. -/
theorem CarriedOut.restamp_finish {requests : List Request}
    (h : CarriedOut stamp requests d) (stamp' : Nat) :
    d.finish.restamp stamp' =
      ((Draft.start stamp').run (requests.map (Request.restamp stamp'))).finish := by
  rw [(h.replay stamp').run_eq, h.follows.restamp_finish]

end Draft

end Conformance
