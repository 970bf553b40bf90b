import Conformance.Proofs.Rule.Selected
import Conformance.Rule.Restriction

/-!
# No dependency escapes

The restriction on dependencies looks at the edges of a model class by class and unit by
unit, and it never sees the list of edges as a whole.  In a finished model every edge
starts in a code unit of an analyzed class, and every such unit is visited once; so the
restriction reports every edge into a class that is not accepted, once for every time it
was recorded.
-/

namespace Conformance

theorem Class.owner_of_mem_codeUnits {c : Class} {u : CodeUnit} (hu : u ∈ c.codeUnits) :
    u.owner = c := by
  obtain ⟨decl, _, heq⟩ := List.mem_map.mp (Class.toMember_mem_members hu)
  exact congrArg Member.owner heq.symm

namespace Model

variable {m : Model}

theorem toMember_mem_members_of_analyzed {c : Class} {u : CodeUnit} (hc : c ∈ m.analyzed)
    (hu : u ∈ c.codeUnits) : u.toMember ∈ m.members :=
  List.mem_flatMap.mpr ⟨c, List.mem_of_mem_filter hc, Class.toMember_mem_members hu⟩

/-- Every edge starts in a code unit of an analyzed class. -/
theorem Holds.origin_mem_codeUnits {e : Edge} (he : m.Holds e) :
    e.origin ∈ m.analyzed.flatMap Class.codeUnits :=
  List.mem_flatMap.mpr ⟨e.origin.owner, he.origin_owner, he.origin_mem⟩

end Model

namespace Condition

theorem value_dependsOnlyOn (p : Predicate Class) (c : Class) (m : Model) :
    ((dependsOnlyOn p).check c m).value =
      ((edgesOf c m).filter (fun e => !p.accepts e.target.owner)).map
        (fun e => e.violation (.ofClass c)) := by
  rw [dependsOnlyOn, Consulted.value_bind, Consulted.value_failing]
  rfl

/-- What the restriction reports about a class, with the class as the origin's class. -/
theorem value_dependsOnlyOn_indexed {m : Model} (hm : m.Indexed) (p : Predicate Class)
    {c : Class} (hc : c ∈ m.analyzed) :
    ((dependsOnlyOn p).check c m).value =
      (c.codeUnits.flatMap (fun u => m.edgeList.filter
        (fun e => e.origin = u && !p.accepts e.target.owner))).map
        (fun e => e.violation (.ofClass e.origin.owner)) := by
  have hedges : ∀ u ∈ c.codeUnits,
      (m.edgesFrom u).filter (fun e => !p.accepts e.target.owner) =
      m.edgeList.filter (fun e => e.origin = u && !p.accepts e.target.owner) := by
    intro u hu
    rw [hm.edgesFrom_member u (Model.toMember_mem_members_of_analyzed hc hu),
      List.filter_filter]
    exact List.filter_congr fun e _ => Bool.and_comm _ _
  have hrefused : (edgesOf c m).filter (fun e => !p.accepts e.target.owner) =
      c.codeUnits.flatMap (fun u => m.edgeList.filter
        (fun e => e.origin = u && !p.accepts e.target.owner)) := by
    rw [edgesOf, List.filter_flatMap]
    exact List.flatMap_congr hedges
  rw [value_dependsOnlyOn, hrefused]
  -- The events name the checked class, and that is the class of every origin found in it.
  apply List.map_congr_left
  intro e he
  obtain ⟨u, hu, he⟩ := List.mem_flatMap.mp he
  have horigin : e.origin = u := by
    have hboth := (List.mem_filter.mp he).2
    rw [Bool.and_eq_true] at hboth
    exact of_decide_eq_true hboth.1
  rw [horigin, Class.owner_of_mem_codeUnits hu]

end Condition

/-- Taken unit by unit, the edges of a finished model are all there, each as often as it
was recorded. -/
theorem Draft.Follows.perm_flatMap_origin {d : Draft} {log : List Note}
    (hf : d.Follows log) (keep : Edge → Bool) :
    ((d.finish.analyzed.flatMap Class.codeUnits).flatMap
      (fun u => d.finish.edgeList.filter (fun e => e.origin = u && keep e))).Perm
      (d.finish.edgeList.filter keep) := by
  have hunits : (d.finish.analyzed.flatMap Class.codeUnits).Nodup :=
    (Collection.codeUnits.nodup_collect hf).of_map
  have hgroups : ∀ u, d.finish.edgeList.filter (fun e => e.origin = u && keep e) =
      (d.finish.edgeList.filter keep).filter (fun e => e.origin = u) :=
    fun u => List.filter_filter.symm
  rw [List.flatMap_congr fun u _ => hgroups u]
  apply perm_flatMap_filter_key Edge.origin _ _ hunits
  intro e he
  exact (hf.edgesFrom.holds e (List.mem_of_mem_filter he)).origin_mem_codeUnits

/-- Edges are violations, whatever they are reported about. -/
theorem Event.anyViolated_violations (edges : List Edge) (subject : Edge → Element) :
    anyViolated (edges.map (fun e => e.violation (subject e))) = !edges.isEmpty := by
  rw [anyViolated, List.any_map]
  cases edges <;> rfl

namespace Rule

/-- The rule that all classes depend only on classes that a predicate accepts. -/
def dependingOnlyOn (p : Predicate Class) : Rule :=
  ((Selection.mk none : Selection .classes).should (.dependsOnlyOn p)).rule

theorem evaluate_dependingOnlyOn_events {m : Model} (hm : m.Indexed)
    (p : Predicate Class) :
    ((dependingOnlyOn p).evaluate m).value.events =
      ((m.analyzed.flatMap Class.codeUnits).flatMap (fun u => m.edgeList.filter
        (fun e => e.origin = u && !p.accepts e.target.owner))).map
        (fun e => e.violation (.ofClass e.origin.owner)) := by
  have hitems : ((Selection.mk none : Selection .classes).items m).value = m.analyzed :=
    Selection.value_items_unfiltered m
  calc
    ((dependingOnlyOn p).evaluate m).value.events =
        ((Selection.mk none : Selection .classes).items m).value.flatMap
          (fun c => ((Condition.dependsOnlyOn p).check c m).value) :=
            Chain.evaluate_events _ m
    _ = m.analyzed.flatMap (fun c => ((Condition.dependsOnlyOn p).check c m).value) := by
      rw [hitems]
    _ = m.analyzed.flatMap (fun c => (c.codeUnits.flatMap (fun u => m.edgeList.filter
        (fun e => e.origin = u && !p.accepts e.target.owner))).map
        (fun e => e.violation (.ofClass e.origin.owner))) :=
      List.flatMap_congr fun c hc => Condition.value_dependsOnlyOn_indexed hm p hc
    _ = _ := by
      rw [← List.map_flatMap, ← List.flatMap_assoc]

/-- The rule reports exactly the edges into classes that the predicate does not accept,
each as often as it was recorded: in the order of the classes, then of their code units,
and then of the edges.  It holds when the predicate accepts the class of every target. -/
theorem dependingOnlyOn_reports (stamp : Nat) (requests : List Request)
    (p : Predicate Class) :
    let m := ((Draft.start stamp).run requests).finish
    let e := ((dependingOnlyOn p).evaluate m).value
    let refused := fun edge : Edge => !p.accepts edge.target.owner
    let reported := (m.analyzed.flatMap Class.codeUnits).flatMap
      (fun u => m.edgeList.filter (fun edge => edge.origin = u && refused edge))
    e.events = reported.map (fun edge =>
      { elements := [.ofClass edge.origin.owner, .ofMember edge.target], violated := true,
        message := edge.description }) ∧
    reported.Perm (m.edgeList.filter refused) ∧
    (e.hasViolation = false ↔
      ∀ edge ∈ m.edgeList, p.accepts edge.target.owner = true) := by
  intro m e refused reported
  have hf := Draft.follows_run stamp requests
  have hevents : e.events = reported.map (fun edge =>
      edge.violation (.ofClass edge.origin.owner)) :=
    evaluate_dependingOnlyOn_events hf.indexed p
  have hreported : reported.Perm (m.edgeList.filter refused) :=
    hf.perm_flatMap_origin refused
  refine ⟨hevents, hreported, ?_⟩
  have hviolation : e.hasViolation = !reported.isEmpty := by
    rw [Evaluation.hasViolation, hevents, Event.anyViolated_violations]
  rw [hviolation, Bool.not_eq_false', hreported.isEmpty_eq, List.isEmpty_iff,
    List.filter_eq_nil_iff]
  simp [refused]

end Rule

end Conformance
