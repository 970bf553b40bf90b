import Conformance.Proofs.Rule.Narrowing

/-!
# Who is reported for calling

The restriction on callers asks the index for the calls of one code unit after the other.
In a finished model this amounts to a look at all edges: every call of a selected unit
whose origin is rejected is reported, once for every time it was recorded, and no other
edge is.  This is said of the chain as it is written, with any links in front of the
restriction.
-/

namespace Conformance

namespace CallerTest

/-- Does the predicate refuse what it is asked about?  It is asked about the class of the
origin or about the origin itself, and about nothing when the origin is of another
sort. -/
def refuses : CallerTest → CodeUnit → Bool
  | classes p, u => !p.accepts u.owner
  | methods p, u => u.asMethod?.any (fun f => !p.accepts f)
  | constructors p, u => u.asConstructor?.any (fun f => !p.accepts f)
  | codeUnits p, u => !p.accepts u

/-- Is a call from this code unit rejected? -/
def rejects (t : CallerTest) (u : CodeUnit) : Bool :=
  !t.kind.admits u || t.refuses u

theorem value_test (t : CallerTest) (u : CodeUnit) : (t.test u).value = !t.rejects u := by
  cases t with
  | classes p => simp [test, rejects, kind, CallerKind.admits, refuses, Predicate.accepts]
  | methods p =>
      cases h : u.asMethod? <;>
        simp [test, rejects, kind, CallerKind.admits, CodeUnit.isMethod, refuses,
          Predicate.accepts, h]
  | constructors p =>
      cases h : u.asConstructor? <;>
        simp [test, rejects, kind, CallerKind.admits, CodeUnit.isConstructor, refuses,
          Predicate.accepts, h]
  | codeUnits p =>
      simp [test, rejects, kind, CallerKind.admits, refuses, Predicate.accepts]

end CallerTest

namespace CallerKind

/-- What a restriction to callers that a predicate accepts asks of them. -/
def test : (caller : CallerKind) → Predicate caller.kind.Item → CallerTest
  | classes => .classes
  | methods => .methods
  | constructors => .constructors
  | codeUnits => .codeUnits

theorem restriction_eq (caller : CallerKind) (p : Predicate caller.kind.Item) :
    caller.restriction p = Condition.calledOnlyBy (caller.test p) := by
  cases caller <;> rfl

end CallerKind

namespace Condition

theorem value_calledOnlyBy (t : CallerTest) (u : CodeUnit) (m : Model) :
    ((calledOnlyBy t).check u m).value =
      ((m.callsTo u).filter (fun e => t.rejects e.origin)).map
        (fun e => e.violation (toElement e.origin)) := by
  have hrefused : (m.callsTo u).filter (fun e => !(t.test e.origin).value) =
      (m.callsTo u).filter (fun e => t.rejects e.origin) := by
    apply List.filter_congr
    intro e _
    rw [t.value_test, Bool.not_not]
  rw [calledOnlyBy, Consulted.value_bind, Consulted.value_failing, hrefused]
  rfl

/-- In an indexed model the calls of a code unit are found among all edges. -/
theorem value_calledOnlyBy_indexed {m : Model} (hm : m.Indexed) (t : CallerTest)
    {u : CodeUnit} (hu : u.toMember ∈ m.members) :
    ((calledOnlyBy t).check u m).value =
      (m.edgeList.filter (fun e => e.access = .call && e.target = u.toMember &&
        t.rejects e.origin)).map
          (fun e => e.violation (.ofMember e.origin.toMember)) := by
  have hcalls : (m.callsTo u).filter (fun e => t.rejects e.origin) =
      m.edgeList.filter (fun e => e.access = .call && e.target = u.toMember &&
        t.rejects e.origin) := by
    rw [hm.callsTo_member u hu, List.filter_filter]
    exact List.filter_congr fun e _ => Bool.and_comm _ _
  rw [value_calledOnlyBy, hcalls]
  rfl

end Condition

namespace Selection

variable {c : Collection} (s : Selection c)

/-- The selected items as code units. -/
def units (w : Widening c.kind .codeUnits) (m : Model) : List CodeUnit :=
  (s.items m).value.map w.apply

variable {w : Widening c.kind .codeUnits} {m : Model}

theorem units_toElement :
    (s.units w m).map (fun u => Element.ofMember u.toMember) =
      (s.items m).value.map c.kind.itemElement := by
  rw [units, List.map_map]
  exact List.map_congr_left fun a _ => w.itemElement_apply a

/-- Only units of analyzed classes are selected. -/
theorem toMember_mem_of_mem_units {u : CodeUnit} (hu : u ∈ s.units w m) :
    ∃ k ∈ m.analyzed, u.toMember ∈ k.members := by
  have helement : Element.ofMember u.toMember ∈ m.analyzedElements := by
    apply (s.items_sublist m).subset
    rw [← s.units_toElement]
    exact List.mem_map_of_mem hu
  -- A code unit is no class, so it is found among the members.
  rcases List.mem_append.mp helement with hclass | hmember
  · obtain ⟨k, _, heq⟩ := List.mem_map.mp hclass
    cases heq
  · obtain ⟨x, hx, heq⟩ := List.mem_map.mp hmember
    cases heq
    exact List.mem_flatMap.mp hx

theorem toMember_mem_members_of_mem_units {u : CodeUnit} (hu : u ∈ s.units w m) :
    u.toMember ∈ m.members := by
  obtain ⟨k, hk, hmem⟩ := s.toMember_mem_of_mem_units hu
  exact List.mem_flatMap.mpr ⟨k, List.mem_of_mem_filter hk, hmem⟩

theorem owners_subset_analyzed : (s.units w m).map CodeUnit.owner ⊆ m.analyzed := by
  intro k hk
  obtain ⟨u, hu, rfl⟩ := List.mem_map.mp hk
  obtain ⟨k, hk, hmem⟩ := s.toMember_mem_of_mem_units hu
  obtain ⟨decl, _, heq⟩ := List.mem_map.mp hmem
  have howner : k = u.owner := congrArg Member.owner heq
  rwa [← howner]

theorem nodup_units_toMember {d : Draft} {log : List Note} (hf : d.Follows log) :
    ((s.units w d.finish).map CodeUnit.toMember).Nodup := by
  have helements := s.nodup_items hf
  rw [← s.units_toElement (w := w)] at helements
  have hmap : (s.units w d.finish).map (fun u => Element.ofMember u.toMember) =
      ((s.units w d.finish).map CodeUnit.toMember).map .ofMember := by
    rw [List.map_map]
    rfl
  rw [hmap] at helements
  exact helements.of_map

/-- Taken unit by unit, the calls of the selected units are all there, each as often as it
was recorded. -/
theorem perm_flatMap_calls {d : Draft} {log : List Note} (hf : d.Follows log)
    (keep : Edge → Bool) :
    ((s.units w d.finish).flatMap (fun u => d.finish.edgeList.filter
      (fun e => e.access = .call && e.target = u.toMember && keep e))).Perm
      (d.finish.edgeList.filter (fun e => e.access = .call &&
        e.target ∈ (s.units w d.finish).map CodeUnit.toMember && keep e)) := by
  let calls := d.finish.edgeList.filter (fun e => e.access = .call && keep e)
  have hcalls : ∀ test : Edge → Bool, calls.filter test =
      d.finish.edgeList.filter (fun e => e.access = .call && test e && keep e) := by
    intro test
    rw [List.filter_filter]
    apply List.filter_congr
    intro e _
    rw [Bool.and_right_comm, Bool.and_comm]
  have hgroups := perm_flatMap_filter_mem Edge.target calls
      (s.nodup_units_toMember (w := w) hf)
  rw [List.flatMap_map, hcalls] at hgroups
  simpa only [hcalls] using hgroups

end Selection

namespace Chain

variable {c : Collection} (s : Selection c) (w : Widening c.kind .codeUnits)
  (t : CallerTest)

theorem evaluate_calledOnlyBy_events {m : Model} (hm : m.Indexed) :
    ((s.should ((Condition.calledOnlyBy t).along w.apply)).rule.evaluate m).value.events =
      ((s.units w m).flatMap (fun u => m.edgeList.filter
        (fun e => e.access = .call && e.target = u.toMember && t.rejects e.origin))).map
        (fun e => e.violation (.ofMember e.origin.toMember)) := by
  calc
    ((s.should ((Condition.calledOnlyBy t).along w.apply)).rule.evaluate m).value.events =
        (s.items m).value.flatMap
          (fun a => ((Condition.calledOnlyBy t).check (w.apply a) m).value) :=
      evaluate_events _ m
    _ = (s.units w m).flatMap
      (fun u => ((Condition.calledOnlyBy t).check u m).value) := by
      rw [Selection.units, List.flatMap_map]
    _ = (s.units w m).flatMap (fun u => (m.edgeList.filter (fun e => e.access = .call &&
          e.target = u.toMember && t.rejects e.origin)).map
          (fun e => e.violation (.ofMember e.origin.toMember))) :=
      List.flatMap_congr fun u hu => Condition.value_calledOnlyBy_indexed hm t
        (s.toMember_mem_members_of_mem_units hu)
    _ = _ := List.map_flatMap.symm

end Chain

/-- The restriction that is built for a predicate about callers, or about items of a wider
kind. -/
theorem ConditionExpr.buildRestriction_expr (caller : CallerKind) {target : Kind}
    (view : Widening caller.kind target) (operand : PredicateTree (.item target)) :
    buildRestriction caller { target, widening := view, expr := operand.expr } =
      .ok (Condition.calledOnlyBy (caller.test (operand.predicate.along view.apply))) := by
  rw [buildRestriction, PredicateArg.build, PredicateTree.build_expr,
    ← caller.restriction_eq]
  rfl

namespace ChainExpr

variable {c : Collection}

/-- A chain that restricts the callers of the selected items, as it is written: the links
that narrow the selection, the sort of callers, and a predicate about callers or about
items of a wider kind. -/
def calledOnlyBy (ns : List (Narrowing c.kind)) (w : Widening c.kind .codeUnits)
    (caller : CallerKind) {target : Kind} (view : Widening caller.kind target)
    (operand : PredicateTree (.item target)) : ChainExpr c :=
  { filters := ns.map Narrowing.link
    first := .calledOnlyBy w caller { target, widening := view, expr := operand.expr }
    others := [] }

theorem build_calledOnlyBy (ns : List (Narrowing c.kind)) (w : Widening c.kind .codeUnits)
    (caller : CallerKind) {target : Kind} (view : Widening caller.kind target)
    (operand : PredicateTree (.item target)) :
    (calledOnlyBy ns w caller view operand).build =
      .ok ((Narrowing.narrowed ns).should
        ((Condition.calledOnlyBy (caller.test (operand.predicate.along view.apply))).along
          w.apply)) := by
  rw [build, calledOnlyBy, buildSelection_link]
  simp only [bind, Except.bind, ShouldLink.build, ConditionExpr.buildRestriction_expr]
  rfl

/-- The rule reports exactly the calls of the selected units from rejected origins, each
as often as it was recorded: in the order of the units, and then of the edges.  All
selected units belong to analyzed classes. -/
theorem calledOnlyBy_reports (stamp : Nat) (requests : List Request)
    (ns : List (Narrowing c.kind)) (w : Widening c.kind .codeUnits) (caller : CallerKind)
    {target : Kind} (view : Widening caller.kind target)
    (operand : PredicateTree (.item target)) :
    let m := ((Draft.start stamp).run requests).finish
    let units := ((c.collect m).filter (Narrowing.keeps ns)).map w.apply
    let rejected := (caller.test (operand.predicate.along view.apply)).rejects
    let reported := units.flatMap (fun u => m.edgeList.filter
      (fun e => e.access = .call && e.target = u.toMember && rejected e.origin))
    ∃ ch, (calledOnlyBy ns w caller view operand).build = .ok ch ∧
      (ch.rule.evaluate m).value.events = reported.map (fun e =>
        { elements := [.ofMember e.origin.toMember, .ofMember e.target], violated := true,
          message := e.description }) ∧
      reported.Perm (m.edgeList.filter
        (fun e => e.access = .call && e.target ∈ units.map CodeUnit.toMember &&
          rejected e.origin)) ∧
      units.map CodeUnit.owner ⊆ m.analyzed := by
  intro m units rejected reported
  have hf := Draft.follows_run stamp requests
  have hunits : (Narrowing.narrowed ns).units w m = units := by
    rw [Selection.units, Narrowing.value_items_narrowed]
  have hevents := Chain.evaluate_calledOnlyBy_events (Narrowing.narrowed ns) w
    (caller.test (operand.predicate.along view.apply)) hf.indexed
  have hcalls := (Narrowing.narrowed ns).perm_flatMap_calls (w := w) hf
    (fun e => rejected e.origin)
  have howners := (Narrowing.narrowed ns).owners_subset_analyzed (w := w) (m := m)
  rw [hunits] at hevents hcalls howners
  exact ⟨_, build_calledOnlyBy ns w caller view operand, hevents, hcalls, howners⟩

end ChainExpr

end Conformance
