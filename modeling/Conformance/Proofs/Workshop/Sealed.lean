import Conformance.Proofs.Workshop.Orderly

/-!
# Finished models are sealed

The elements of a finished model can still be handed to every builder, but no builder
accepts them any more: a draft carries out only requests about elements with its own
stamp.  So a finished model stays as it is, and what the other builders did, before or
after, has left no trace in it.
-/

namespace Conformance

/-- The elements that a request is given: the owner of a new member, the element to be
changed, or the ends of an edge. -/
def Request.handles : Request → List Ident
  | addClass _ _ => []
  | addExternalClass _ => []
  | addField owner _ _ _ => [owner.id]
  | addMethod owner _ _ _ _ => [owner.id]
  | addConstructor owner _ _ => [owner.id]
  | annotate element _ => [element.id]
  | declareThrowable unit _ => [unit.id]
  | setLine member _ => [member.id]
  | setSourceFile c _ => [c.id]
  | addCall origin target _ => [origin.id, target.id]
  | addFieldRead origin target _ => [origin.id, target.toMember.id]
  | addFieldWrite origin target _ => [origin.id, target.toMember.id]

theorem Request.subjects_of_note? {r : Request} {answer : Option Element} {n : Note}
    (h : r.note? answer = some n) : n.subjects = r.handles := by
  cases r with
  | addClass name modifiers =>
      obtain ⟨e, _, rfl⟩ := Option.map_eq_some_iff.mp h
      rfl
  | addExternalClass name =>
      obtain ⟨e, _, rfl⟩ := Option.map_eq_some_iff.mp h
      rfl
  | addField owner name rawType modifiers =>
      obtain ⟨e, _, rfl⟩ := Option.map_eq_some_iff.mp h
      rfl
  | addMethod owner name parameters returnType modifiers =>
      obtain ⟨e, _, rfl⟩ := Option.map_eq_some_iff.mp h
      rfl
  | addConstructor owner parameters modifiers =>
      obtain ⟨e, _, rfl⟩ := Option.map_eq_some_iff.mp h
      rfl
  | annotate element type => cases element <;> cases h <;> rfl
  | declareThrowable unit type => cases h; rfl
  | setLine member line => cases h; rfl
  | setSourceFile c file => cases h; rfl
  | addCall origin target line => cases h; rfl
  | addFieldRead origin target line => cases h; rfl
  | addFieldWrite origin target line => cases h; rfl

namespace Draft

variable {d d' : Draft}

theorem Transition.subjects_own (hd : d.Own) {n : Note} (h : Transition d n d') :
    ∀ id ∈ n.subjects, id.draft = d.stamp := by
  cases h with
  | newClass hid hnew hplain => exact List.forall_mem_nil _
  | knownClass hknown hexternal => exact List.forall_mem_nil _
  | newMember howner hid hbare =>
      exact List.forall_mem_singleton.mpr (hd.draft_of_class? howner)
  | annotateClass hclass type =>
      exact List.forall_mem_singleton.mpr (hd.draft_of_class? hclass)
  | annotateMember hmember type =>
      exact List.forall_mem_singleton.mpr (hd.draft_of_member? hmember)
  | throwable hunit type => exact List.forall_mem_singleton.mpr (hd.draft_of_unit? hunit)
  | line hmember line => exact List.forall_mem_singleton.mpr (hd.draft_of_member? hmember)
  | sourceFile hclass file =>
      exact List.forall_mem_singleton.mpr (hd.draft_of_class? hclass)
  | edge horigin htarget hanalyzed =>
      refine List.forall_mem_cons.mpr ⟨hd.draft_of_unit? horigin, ?_⟩
      exact List.forall_mem_singleton.mpr (hd.draft_of_member? htarget)

/-- A draft refuses every request about an element that is not its own. -/
theorem Own.perform_foreign (hd : d.Own) {r : Request} {id : Ident} (hid : id ∈ r.handles)
    (hforeign : d.stamp ≠ id.draft) : ∃ misuse, d.perform r = .error misuse := by
  cases h : d.perform r with
  | error misuse => exact ⟨misuse, rfl⟩
  | ok result =>
      obtain ⟨n, hnote, hchange⟩ := transition_of_perform h
      rw [← Request.subjects_of_note? hnote] at hid
      exact absurd (hchange.subjects_own hd id hid).symm hforeign

end Draft

namespace Model

variable {m : Model}

/-! ## Finding the elements of a model -/

theorem find?_classes_of_mem (hids : (m.elements.map Element.id).Nodup) {e : Element}
    (he : e ∈ m.elements) : Element.find? m.classes e.id = some e := by
  rw [elements, List.map_append, List.map_map, List.map_map] at hids
  obtain ⟨hclasses, hmembers, hdisjoint⟩ := List.nodup_append.mp hids
  rcases List.mem_append.mp he with he | he
  · obtain ⟨c, hc, rfl⟩ := List.mem_map.mp he
    have hfound : m.classes.find? (fun k => k.id = c.id) = some c :=
      find?_key_eq_some hclasses hc
    rw [Element.find?, Element.id, hfound]
  · obtain ⟨x, hx, rfl⟩ := List.mem_map.mp he
    have hnone : m.classes.find? (fun k => k.id = x.id) = none := by
      rw [List.find?_eq_none]
      intro c hc heq
      exact hdisjoint _ (List.mem_map_of_mem hc) _ (List.mem_map_of_mem hx)
        (of_decide_eq_true heq)
    have hfound : (m.classes.flatMap Class.members).find? (fun y => y.id = x.id) =
        some x :=
      find?_key_eq_some hmembers hx
    rw [Element.find?, Element.id, hnone, hfound]
    rfl

theorem find?_classes_eq_none {id : Ident} (h : ∀ e ∈ m.elements, e.id ≠ id) :
    Element.find? m.classes id = none := by
  have hclass : m.classes.find? (fun c => c.id = id) = none := by
    rw [List.find?_eq_none]
    intro c hc heq
    exact h (.ofClass c) (List.mem_append_left _ (List.mem_map_of_mem hc))
      (of_decide_eq_true heq)
  have hmember : (m.classes.flatMap Class.members).find? (fun x => x.id = id) = none := by
    rw [List.find?_eq_none]
    intro x hx heq
    exact h (.ofMember x) (List.mem_append_right _ (List.mem_map_of_mem hx))
      (of_decide_eq_true heq)
  rw [Element.find?, hclass, hmember]
  rfl

end Model

namespace Workshop

variable {w : Workshop} {kept : Text → List Request} {m : Model} {e : Element}

namespace Orderly

/-- What a finished model says about its elements is what the workshop says about them. -/
theorem current?_of_mem (hw : Orderly w kept) (hm : m ∈ w.models) (he : e ∈ m.elements) :
    w.current? e.id = some e := by
  have hdrafts : w.drafts.findSome? (fun entry => entry.2.element? e.id) = none := by
    rw [List.findSome?_eq_none_iff]
    rintro ⟨b, d⟩ hd
    have hown := (hw.carriedOut b d hd).own
    apply Model.find?_classes_eq_none (m := d.finish)
    intro e' he' heq
    apply hw.model_retired m hm e he b d hd
    rw [← heq, elements_finish_own hown e' he']
  obtain ⟨before, after, hmodels⟩ := List.append_of_mem hm
  have hbefore : before.findSome? (fun m' => Element.find? m'.classes e.id) = none := by
    rw [List.findSome?_eq_none_iff]
    intro m' hm'
    have hapart := hw.models_apart
    rw [hmodels] at hapart
    apply Model.find?_classes_eq_none
    intro e' he'
    exact (List.pairwise_append.mp hapart).2.2 m' hm' m List.mem_cons_self e' he' e he
  have hfound := Model.find?_classes_of_mem (hw.model_ids m hm) he
  rw [current?, hdrafts, Option.none_or, hmodels, List.findSome?_append, hbefore,
    Option.none_or, List.findSome?_cons, hfound]

/-- No builder carries out a request about an element of a finished model. -/
theorem perform_of_handle (hw : Orderly w kept) (hm : m ∈ w.models) (he : e ∈ m.elements)
    (builder : Text) {r : Request} (hr : e.id ∈ r.handles) :
    ∃ misuse, w.perform builder r = (.error misuse, w) := by
  obtain ⟨hbegun, hmem⟩ := hw.draftOf builder
  have hm' : m ∈ (w.draftOf builder).2.models := by
    rw [draftOf_models]
    exact hm
  have hforeign := hbegun.model_retired m hm' e he builder _ hmem
  obtain ⟨misuse, hmisuse⟩ :=
    (hbegun.carriedOut builder _ hmem).own.perform_foreign hr hforeign
  rcases perform_cases w builder r with ⟨misuse', _, hrefused⟩ | ⟨answer, d', hdone, _⟩
  · exact ⟨misuse', hrefused⟩
  · rw [hmisuse] at hdone
    cases hdone

end Orderly

/-! ## Later steps -/

theorem models_request (w : Workshop) (builder : Text) (r : Request) :
    (w.perform builder r).2.models = w.models := by
  rcases Orderly.perform_cases w builder r with ⟨misuse, _, h⟩ | ⟨answer, d', _, h⟩
  · exact congrArg (fun result => result.2.models) h
  · have hmodels : (w.perform builder r).2.models = (w.draftOf builder).2.models :=
      congrArg (fun result => result.2.models) h
    rw [hmodels, Orderly.draftOf_models]

theorem models_finish (w : Workshop) (builder : Text) :
    (w.finish builder).2.models = w.models ++ [(w.finish builder).1] := by
  rw [← Orderly.draftOf_models w builder]
  rfl

theorem models_step_isPrefix (w : Workshop) (s : Step) :
    w.models <+: (w.step s).models := by
  cases s with
  | request builder r => exact ⟨[], by rw [List.append_nil, step, models_request]⟩
  | finish builder => exact ⟨_, (w.models_finish builder).symm⟩

theorem models_run_isPrefix (w : Workshop) (steps : List Step) :
    w.models <+: (w.run steps).models := by
  induction steps generalizing w with
  | nil => exact List.prefix_refl _
  | cons s rest ih => exact (w.models_step_isPrefix s).trans (ih (w.step s))

/-- Let a builder finish at any time and let anything happen later.  The model is still
there, its elements are as the model has them, and no builder accepts a request about one
of them.  But for the stamp it is the model of a new builder that was asked only for what
this one carried out since it finished last. -/
theorem finish_sealed (steps later : List Step) (builder : Text) :
    let w := ({} : Workshop).run steps
    let m := (w.finish builder).1
    let w' := (w.finish builder).2.run later
    let requests := ({} : Workshop).keptBy builder [] steps
    w'.models[w.models.length]? = some m ∧
    (∀ e ∈ m.elements, w'.current? e.id = some e) ∧
    (∀ e ∈ m.elements, ∀ builder' r, e.id ∈ r.handles →
      ∃ misuse, w'.perform builder' r = (.error misuse, w')) ∧
    (∃ stamp, m = ((Draft.start stamp).run requests).finish) ∧
    ∀ stamp, m.restamp stamp =
      ((Draft.start stamp).run (requests.map (Request.restamp stamp))).finish := by
  intro w m w' requests
  have hbefore : Orderly w _ := orderly_run steps
  have hafter : Orderly w' _ := (hbefore.finish builder).run later
  have hmodels : (w.finish builder).2.models = w.models ++ [m] := w.models_finish builder
  have hkept : w'.models[w.models.length]? = some m := by
    obtain ⟨more, hmore⟩ := models_run_isPrefix (w.finish builder).2 later
    rw [show w'.models = w.models ++ [m] ++ more by rw [← hmodels, hmore]]
    simp
  have hm : m ∈ w'.models := List.mem_of_getElem? hkept
  obtain ⟨hbegun, hmem⟩ := hbefore.draftOf builder
  have hdraft := hbegun.carriedOut builder _ hmem
  refine ⟨hkept, ?_, ?_, ?_, ?_⟩
  · intro e he
    exact hafter.current?_of_mem hm he
  · intro e he builder' r hr
    exact hafter.perform_of_handle hm he builder' hr
  · refine ⟨(w.draftOf builder).1.stamp, ?_⟩
    rw [hdraft.run_eq]
    rfl
  · intro stamp
    exact hdraft.restamp_finish stamp

/-- A builder has finished with a class and has begun another one of the same name.  The
other builder, which was handed the first class, can do nothing with it. -/
theorem finish_sealed_handedOver :
    let c : Class :=
      { id := ⟨0, 0⟩, name := ⟨"p.A"⟩, modifiers := .empty, sourceFile := "A.java",
        analyzed := true }
    let steps : List Step :=
      [.request "first" (.addClass ⟨"p.A"⟩ .empty),
        .request "second" (.addExternalClass ⟨"p.A"⟩)]
    let w' := ((({} : Workshop).run steps).finish "first").2.run
      [.request "first" (.addClass ⟨"p.A"⟩ .empty)]
    w'.current? c.id = some (.ofClass c) ∧
      ∃ misuse, w'.perform "second" (.setSourceFile c "B.java") =
        (.error misuse, w') := by
  intro c steps w'
  have hsealed := finish_sealed steps
      [.request "first" (.addClass ⟨"p.A"⟩ .empty)] "first"
  obtain ⟨_, hcurrent, hrefused, _⟩ := hsealed
  have hc : Element.ofClass
      c ∈ ((({} : Workshop).run steps).finish "first").1.elements := by
    decide
  exact ⟨hcurrent (.ofClass c) hc,
    hrefused (.ofClass c) hc "second" (.setSourceFile c "B.java") List.mem_cons_self⟩

end Workshop

end Conformance
