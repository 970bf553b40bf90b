import Conformance.Proofs.Draft.Replay
import Conformance.Proofs.Workshop.Sealed

/-!
# Drafts with more edges

Edges are put down in a list of their own, and no other operation looks at that list.  So
a run that asks for the same things and for some more edges in between ends with the same
classes and the same members, and it has all the edges of the first run, in their order,
with others between them.
-/

namespace Conformance

namespace Draft

variable {d d' : Draft} {r : Request} {stamp : Nat} {edges : Array DraftEdge}

/-! ## Requests and edges -/

/-- The draft with other edges. -/
def withEdges (d : Draft) (edges : Array DraftEdge) : Draft :=
  { d with edges }

@[simp]
theorem withEdges_classNamed? (name : TypeName) :
    (d.withEdges edges).classNamed? name = d.classNamed? name := rfl

@[simp]
theorem withEdges_class? (id : Ident) : (d.withEdges edges).class? id = d.class? id := rfl

@[simp]
theorem withEdges_member? (id : Ident) :
    (d.withEdges edges).member? id = d.member? id := rfl

@[simp]
theorem withEdges_unit? (id : Ident) : (d.withEdges edges).unit? id = d.unit? id := rfl

theorem perform_withEdges_declaration {operation : Operation} {owner : Class}
    {decl : MemberDecl} (hr : r.declaration? d.freshId = some (operation, owner, decl))
    (edges : Array DraftEdge) :
    (d.withEdges edges).perform r =
      (d.perform r).map (fun result => (result.1, result.2.withEdges edges)) := by
  have hr' : r.declaration? (d.withEdges edges).freshId = some (operation, owner, decl) :=
    hr
  rw [perform_declaration hr', perform_declaration hr, withEdges_class?]
  cases d.class? owner.id <;> rfl

/-- A request that is not for an edge does not look at the edges. -/
theorem perform_withEdges (hr : r.edge? = none) (edges : Array DraftEdge) :
    (d.withEdges edges).perform r =
      (d.perform r).map (fun result => (result.1, result.2.withEdges edges)) := by
  cases r with
  | addClass name modifiers =>
      rw [perform_addClass, perform_addClass, withEdges_classNamed?]
      cases d.classNamed? name <;> rfl
  | addExternalClass name =>
      rw [perform_addExternalClass, perform_addExternalClass, withEdges_classNamed?]
      cases d.classNamed? name with
      | none => rfl
      | some c =>
          dsimp only
          split <;> rfl
  | addField owner name rawType modifiers => exact perform_withEdges_declaration rfl edges
  | addMethod owner name parameters returnType modifiers =>
      exact perform_withEdges_declaration rfl edges
  | addConstructor owner parameters modifiers =>
      exact perform_withEdges_declaration rfl edges
  | annotate element type =>
      cases element with
      | ofClass c =>
          rw [perform_annotateClass, perform_annotateClass, withEdges_class?]
          cases d.class? c.id <;> rfl
      | ofMember m =>
          rw [perform_annotateMember, perform_annotateMember, withEdges_member?]
          cases d.member? m.id <;> rfl
  | declareThrowable u type =>
      rw [perform_declareThrowable, perform_declareThrowable, withEdges_unit?]
      cases d.unit? u.id <;> rfl
  | setLine m line =>
      rw [perform_setLine, perform_setLine, withEdges_member?]
      cases d.member? m.id <;> rfl
  | setSourceFile c file =>
      rw [perform_setSourceFile, perform_setSourceFile, withEdges_class?]
      cases d.class? c.id <;> rfl
  | addCall origin target line => cases hr
  | addFieldRead origin target line => cases hr
  | addFieldWrite origin target line => cases hr

/-- A request for an edge adds it, or nothing, and leaves everything else alone. -/
theorem exists_step_of_edge (d : Draft) (hr : r.edge?.isSome) : ∃ added : Array DraftEdge,
    ∀ edges, ((d.withEdges edges).step r).2 = d.withEdges (edges ++ added) := by
  obtain ⟨⟨access, origin, target, line⟩, hedge⟩ := Option.isSome_iff_exists.mp hr
  simp only [step, perform_edge hedge, withEdges_unit?, withEdges_member?]
  cases d.unit? origin.id with
  | none => exact ⟨#[], fun edges => by rw [Array.append_empty]⟩
  | some u =>
      cases d.member? target.id with
      | none => exact ⟨#[], fun edges => by rw [Array.append_empty]⟩
      | some x =>
          by_cases hanalyzed : u.owner.analyzed = true
          · refine ⟨#[⟨origin.id, target.id, access, line⟩], fun edges => ?_⟩
            simp only [if_pos hanalyzed]
            rfl
          · refine ⟨#[], fun edges => ?_⟩
            simp only [if_neg hanalyzed, Array.append_empty]

/-- A step adds the same edges, whatever edges are there. -/
theorem exists_step_withEdges (d : Draft) (r : Request) : ∃ added : Array DraftEdge,
    ∀ edges, ((d.withEdges edges).step r).2 =
      (d.step r).2.withEdges (edges ++ added) := by
  cases hedge : r.edge? with
  | some edge =>
      obtain ⟨added, hadded⟩ := exists_step_of_edge d (Option.isSome_of_mem hedge)
      refine ⟨added, fun edges => ?_⟩
      have hself : (d.step r).2 = d.withEdges (d.edges ++ added) := hadded d.edges
      rw [hadded, hself]
      rfl
  | none =>
      refine ⟨#[], fun edges => ?_⟩
      rw [Array.append_empty, step, step, perform_withEdges hedge]
      cases d.perform r <;> rfl

/-! ## Requests about the elements with the same numbers -/

/-- Does the draft find both ends of an edge, the origin in an analyzed class? -/
def acceptsEdge (d : Draft) (origin : CodeUnit) (target : Member) : Bool :=
  (d.unit? origin.id).any (fun u => u.owner.analyzed) && (d.member? target.id).isSome

/-- Does the draft find what the request needs, and nothing that is in its way? -/
def accepts (d : Draft) : Request → Bool
  | .addClass name _ => (d.classNamed? name).isNone
  | .addExternalClass name => (d.classNamed? name).all (fun c => !c.analyzed)
  | .addField owner _ _ _ => (d.class? owner.id).isSome
  | .addMethod owner _ _ _ _ => (d.class? owner.id).isSome
  | .addConstructor owner _ _ => (d.class? owner.id).isSome
  | .annotate (.ofClass c) _ => (d.class? c.id).isSome
  | .annotate (.ofMember x) _ => (d.member? x.id).isSome
  | .declareThrowable u _ => (d.unit? u.id).isSome
  | .setLine x _ => (d.member? x.id).isSome
  | .setSourceFile c _ => (d.class? c.id).isSome
  | .addCall origin target _ => d.acceptsEdge origin target.toMember
  | .addFieldRead origin target _ => d.acceptsEdge origin target.toMember
  | .addFieldWrite origin target _ => d.acceptsEdge origin target.toMember

theorem isOk_declaration {operation : Operation} {owner : Class} {decl : MemberDecl}
    (hr : r.declaration? d.freshId = some (operation, owner, decl)) :
    (d.perform r).isOk = (d.class? owner.id).isSome := by
  rw [perform_declaration hr]
  cases d.class? owner.id <;> rfl

theorem isOk_edge {access : Access} {origin : CodeUnit} {target : Member} {line : UInt32}
    (hr : r.edge? = some (access, origin, target, line)) :
    (d.perform r).isOk = d.acceptsEdge origin target := by
  rw [perform_edge hr, acceptsEdge]
  cases d.unit? origin.id with
  | none => rfl
  | some u =>
      cases d.member? target.id with
      | none => rw [Option.isSome_none, Bool.and_false]; rfl
      | some x =>
          dsimp only
          cases h : u.owner.analyzed <;> simp [h] <;> rfl

theorem isOk_perform (d : Draft) (r : Request) : (d.perform r).isOk = d.accepts r := by
  cases r with
  | addClass name modifiers =>
      rw [perform_addClass, accepts]
      cases d.classNamed? name <;> rfl
  | addExternalClass name =>
      rw [perform_addExternalClass, accepts]
      cases d.classNamed? name with
      | none => rfl
      | some c => cases h : c.analyzed <;> simp [h] <;> rfl
  | addField owner name rawType modifiers => exact isOk_declaration rfl
  | addMethod owner name parameters returnType modifiers => exact isOk_declaration rfl
  | addConstructor owner parameters modifiers => exact isOk_declaration rfl
  | annotate element type =>
      cases element with
      | ofClass c =>
          rw [perform_annotateClass, accepts]
          cases d.class? c.id <;> rfl
      | ofMember x =>
          rw [perform_annotateMember, accepts]
          cases d.member? x.id <;> rfl
  | declareThrowable u type =>
      rw [perform_declareThrowable, accepts]
      cases d.unit? u.id <;> rfl
  | setLine x line =>
      rw [perform_setLine, accepts]
      cases d.member? x.id <;> rfl
  | setSourceFile c file =>
      rw [perform_setSourceFile, accepts]
      cases d.class? c.id <;> rfl
  | addCall origin target line => exact isOk_edge rfl
  | addFieldRead origin target line => exact isOk_edge rfl
  | addFieldWrite origin target line => exact isOk_edge rfl

/-- What is found about an element of the draft is found about the one with the same
number. -/
theorem accepts_restamp (hd : d.Own) (hr : ∀ id ∈ r.handles, id.draft = d.stamp) :
    (d.restamp stamp).accepts (r.restamp stamp) = d.accepts r := by
  have hclass : ∀ c : Class, c.id.draft = d.stamp →
      ((d.restamp stamp).class? (c.restamp stamp).id).isSome =
        (d.class? c.id).isSome := by
    intro c hc
    have hfound : (d.restamp stamp).class? (c.restamp stamp).id = _ :=
      hd.restamp_class? hc
    rw [hfound, Option.isSome_map]
  have hmember : ∀ x : Member, x.id.draft = d.stamp →
      ((d.restamp stamp).member? (x.restamp stamp).id).isSome =
        (d.member? x.id).isSome := by
    intro x hx
    rw [Member.restamp_id, hd.restamp_member? hx, Option.isSome_map]
  have hunit : ∀ u : CodeUnit, u.id.draft = d.stamp →
      (d.restamp stamp).unit? (u.restamp stamp).id =
        (d.unit? u.id).map (CodeUnit.restamp stamp) := by
    intro u hu
    rw [CodeUnit.restamp_id, hd.restamp_unit? hu]
  have hedge : ∀ (origin : CodeUnit) (target : Member),
      origin.id.draft = d.stamp → target.id.draft = d.stamp →
      (d.restamp stamp).acceptsEdge (origin.restamp stamp) (target.restamp stamp) =
        d.acceptsEdge origin target := by
    intro origin target horigin htarget
    rw [acceptsEdge, acceptsEdge, hunit origin horigin, hmember target htarget,
      Option.any_map]
    rfl
  cases r with
  | addClass name modifiers =>
      rw [Request.restamp, accepts, accepts, restamp_classNamed?, Option.isNone_map]
  | addExternalClass name =>
      rw [Request.restamp, accepts, accepts, restamp_classNamed?, Option.all_map]
      rfl
  | addField owner name rawType modifiers => exact hclass owner (hr _ List.mem_cons_self)
  | addMethod owner name parameters returnType modifiers =>
      exact hclass owner (hr _ List.mem_cons_self)
  | addConstructor owner parameters modifiers =>
      exact hclass owner (hr _ List.mem_cons_self)
  | annotate element type =>
      cases element with
      | ofClass c => exact hclass c (hr _ List.mem_cons_self)
      | ofMember x => exact hmember x (hr _ List.mem_cons_self)
  | declareThrowable u type =>
      rw [Request.restamp, accepts, accepts, hunit u (hr _ List.mem_cons_self),
        Option.isSome_map]
  | setLine x line => exact hmember x (hr _ List.mem_cons_self)
  | setSourceFile c file => exact hclass c (hr _ List.mem_cons_self)
  | addCall origin target line =>
      exact hedge origin target.toMember (hr _ List.mem_cons_self)
        (hr _ (List.mem_cons_of_mem _ List.mem_cons_self))
  | addFieldRead origin target line =>
      exact hedge origin target.toMember (hr _ List.mem_cons_self)
        (hr _ (List.mem_cons_of_mem _ List.mem_cons_self))
  | addFieldWrite origin target line =>
      exact hedge origin target.toMember (hr _ List.mem_cons_self)
        (hr _ (List.mem_cons_of_mem _ List.mem_cons_self))

/-! ## Runs with more edges -/

theorem step_eq_self {misuse : Misuse} (h : d.perform r = .error misuse) :
    (d.step r).2 = d := by
  rw [step, h]

theorem stamp_step (d : Draft) (r : Request) : (d.step r).2.stamp = d.stamp := by
  rcases step_cases d r with ⟨_, hsame⟩ | ⟨n, _, hchange⟩
  · rw [hsame]
  · exact hchange.stamp_eq

/-- A restamped draft takes the same step about its own elements. -/
theorem restamp_step {log : List Note} (hf : d.Follows log)
    (hr : ∀ id ∈ r.handles, id.draft = d.stamp) :
    ((d.restamp stamp).step (r.restamp stamp)).2 = (d.step r).2.restamp stamp := by
  have hok : (d.restamp stamp).accepts (r.restamp stamp) = d.accepts r :=
    accepts_restamp hf.own hr
  rw [← isOk_perform, ← isOk_perform] at hok
  cases h : d.perform r with
  | error misuse =>
      rw [h] at hok
      cases h' : (d.restamp stamp).perform (r.restamp stamp) with
      | error misuse' => rw [step_eq_self h, step_eq_self h']
      | ok result =>
          rw [h'] at hok
          cases hok
  | ok result =>
      obtain ⟨answer, d'⟩ := result
      have hstep : (d.step r).2 = d' := by
        rw [step, h]
      have hown : d'.Own := by
        rw [← hstep]
        exact (hf.step r).own
      rw [hstep, step, restamp_perform hf.own hown h]

theorem own_restamp_withEdges (d : Draft) (stamp : Nat) (edges : Array DraftEdge) :
    ((d.restamp stamp).withEdges edges).Own where
  classes := by
    intro c hc
    obtain ⟨k, _, rfl⟩ := List.mem_map.mp hc
    rfl
  members := by
    intro x hx
    obtain ⟨c, hc, hx⟩ := List.mem_flatMap.mp hx
    obtain ⟨k, _, rfl⟩ := List.mem_map.mp hc
    rw [Class.restamp_members] at hx
    obtain ⟨y, _, rfl⟩ := List.mem_map.mp hx
    rw [Member.restamp_id]
    rfl

/-- The second list of requests asks for the same things as the first one, in the same
order, and for more edges in between.  Each list is for a draft with a stamp of its own;
where the first one is about an element of its draft, the second one is about the element
with the same number, and where the one is about a foreign element, so is the other. -/
inductive Extends (stamp stamp' : Nat) : List Request → List Request → Prop where
  | nil : Extends stamp stamp' [] []
  | same {r : Request} {rest rest' : List Request}
      (hown : ∀ id ∈ r.handles, id.draft = stamp)
      (hrest : Extends stamp stamp' rest rest') :
      Extends stamp stamp' (r :: rest) (r.restamp stamp' :: rest')
  | foreign {r r' : Request} {id id' : Ident} {rest rest' : List Request}
      (hid : id ∈ r.handles)
      (hforeign : stamp ≠ id.draft) (hid' : id' ∈ r'.handles)
      (hforeign' : stamp' ≠ id'.draft) (hrest : Extends stamp stamp' rest rest') :
      Extends stamp stamp' (r :: rest) (r' :: rest')
  | extra {r' : Request} {rest rest' : List Request} (hedge : r'.edge?.isSome)
      (hrest : Extends stamp stamp' rest rest') : Extends stamp stamp' rest (r' :: rest')

theorem exists_run_eq_withEdges {stamp' : Nat} {requests requests' : List Request}
    (h : Extends stamp stamp' requests requests') {log : List Note} (hf : d.Follows log)
    (hstamp : d.stamp = stamp) (edges : Array DraftEdge)
    (hedges : (d.restamp stamp').edges.toList.Sublist edges.toList) :
    ∃ edges', ((d.restamp stamp').withEdges edges).run requests' =
        ((d.run requests).restamp stamp').withEdges edges' ∧
      ((d.run requests).restamp stamp').edges.toList.Sublist edges'.toList := by
  induction h generalizing d log edges with
  | nil => exact ⟨edges, rfl, hedges⟩
  | @same r rest rest' hown hrest ih =>
      obtain ⟨added, hadded⟩ :=
        exists_step_withEdges (d.restamp stamp') (r.restamp stamp')
      have hstep : ((d.restamp stamp').step (r.restamp stamp')).2 =
          (d.step r).2.restamp stamp' := restamp_step hf (hstamp ▸ hown)
      rw [hstep] at hadded
      have hself : (d.step r).2.restamp stamp' =
          ((d.step r).2.restamp stamp').withEdges ((d.restamp stamp').edges ++ added) :=
        hstep.symm.trans (hadded (d.restamp stamp').edges)
      have hnext : ((d.step r).2.restamp stamp').edges.toList.Sublist
          (edges ++ added).toList := by
        rw [hself, withEdges, Array.toList_append, Array.toList_append]
        exact hedges.append (List.Sublist.refl _)
      obtain ⟨edges', hrun, hsublist⟩ :=
        ih (hf.step r) ((stamp_step d r).trans hstamp) _ hnext
      refine ⟨edges', ?_, hsublist⟩
      rw [← hadded] at hrun
      exact hrun
  | @foreign r r' id id' rest rest' hid hforeign hid' hforeign' hrest ih =>
      obtain ⟨misuse, hrefused⟩ := hf.own.perform_foreign hid (hstamp ▸ hforeign)
      obtain ⟨misuse', hrefused'⟩ :=
        (own_restamp_withEdges d stamp' edges).perform_foreign hid' hforeign'
      have hrun : d.run (r :: rest) = d.run rest :=
        congrArg (fun d => d.run rest) (step_eq_self hrefused)
      have hrun' : ((d.restamp stamp').withEdges edges).run (r' :: rest') =
          ((d.restamp stamp').withEdges edges).run rest' :=
        congrArg (fun d => d.run rest') (step_eq_self hrefused')
      rw [hrun, hrun']
      exact ih hf hstamp edges hedges
  | @extra r' rest rest' hedge hrest ih =>
      obtain ⟨added, hadded⟩ := exists_step_of_edge (d.restamp stamp') hedge
      have hnext : (d.restamp stamp').edges.toList.Sublist (edges ++ added).toList := by
        rw [Array.toList_append]
        exact hedges.trans (List.sublist_append_left _ _)
      obtain ⟨edges', hrun, hsublist⟩ := ih hf hstamp _ hnext
      refine ⟨edges', ?_, hsublist⟩
      rw [← hadded] at hrun
      exact hrun

end Draft

/-- The second model has the classes of the first one, but for the stamp, and its edges,
in their order, with others between them. -/
structure Model.ExtendedBy (stamp : Nat) (m m' : Model) : Prop where
  classes_eq : m'.classes = m.classes.map (Class.restamp stamp)
  edges_sublist : (m.edgeList.map (Edge.restamp stamp)).Sublist m'.edgeList

/-- The finished models of two runs, of which the second one asks for more edges. -/
theorem Draft.Extends.finish {stamp stamp' : Nat} {requests requests' : List Request}
    (h : Extends stamp stamp' requests requests') :
    ((start stamp).run requests).finish.ExtendedBy stamp'
      ((start stamp').run requests').finish := by
  let d := (start stamp).run requests
  have hnone : ((start stamp).restamp stamp').edges.toList.Sublist
      (start stamp').edges.toList := by
    rw [restamp_start]
  obtain ⟨edges, hrun, hsublist⟩ :=
    exists_run_eq_withEdges h (Follows.start stamp) rfl (start stamp').edges hnone
  have hstart : ((start stamp).restamp stamp').withEdges (start stamp').edges =
      start stamp' := by
    rw [restamp_start]
    rfl
  rw [hstart] at hrun
  have hedges : d.finish.edgeList.map (Edge.restamp stamp') =
      (d.restamp stamp').edges.toList.filterMap (d.restamp stamp').resolve? := by
    have hfinish : (d.restamp stamp').finish = d.finish.restamp stamp' :=
      (follows_run stamp requests).restamp_finish
    calc
      d.finish.edgeList.map (Edge.restamp stamp') = (d.finish.restamp stamp').edgeList :=
        Array.toList_map.symm
      _ = (d.restamp stamp').finish.edgeList := by rw [hfinish]
      _ = _ := Array.toList_filterMap ..
  constructor
  · rw [hrun]
    rfl
  · rw [hrun, hedges]
    have hfinish : (((d.restamp stamp').withEdges edges).finish).edgeList =
        edges.toList.filterMap (d.restamp stamp').resolve? := Array.toList_filterMap ..
    rw [hfinish]
    exact hsublist.filterMap _

end Conformance
