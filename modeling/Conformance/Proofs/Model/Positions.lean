import Conformance.Proofs.Model.Accounts
import Std.Data.TreeMap.Lemmas

/-!
# The index and the list of edges

The index of a model is made in one pass over its edges.  Here it is compared with scans
of the list of edges: first position by position, for any list of edges and any identity,
and then edge by edge for the members of a finished model.
-/

namespace Conformance

namespace PositionsBy

theorem positionsOf_empty (id : Ident) : positionsOf ∅ id = #[] :=
  Std.TreeMap.getD_emptyc

theorem positionsOf_add (p : PositionsBy) (member : Ident) (position : Nat) (id : Ident) :
    (p.add member position).positionsOf id =
      if member = id then (p.positionsOf id).push position else p.positionsOf id := by
  rw [add, positionsOf, Std.TreeMap.getD_alter]
  by_cases h : member = id
  · subst h
    rw [if_pos Std.ReflCmp.compare_self, if_pos rfl, positionsOf,
      Std.TreeMap.getD_eq_getD_getElem?]
    rfl
  · have hcompare : compare member id ≠ .eq := fun heq =>
      h (Std.LawfulEqOrd.eq_of_compare heq)
    rw [if_neg hcompare, if_neg h]
    rfl

/-- One pass over some entries lists, for every identity, its entries in their order. -/
theorem positionsOf_foldl_add (endOf : Edge → Ident) (entries : List (Edge × Nat))
    (p : PositionsBy) (id : Ident) :
    ((entries.foldl (fun p entry => p.add (endOf entry.1) entry.2) p).positionsOf
      id).toList =
      (p.positionsOf id).toList ++
        (entries.filter (fun entry => endOf entry.1 = id)).map Prod.snd := by
  induction entries generalizing p with
  | nil => rw [List.foldl_nil, List.filter_nil, List.map_nil, List.append_nil]
  | cons entry entries ih =>
      rw [List.foldl_cons, ih, positionsOf_add]
      by_cases h : endOf entry.1 = id
      · rw [if_pos h, Array.toList_push, List.append_assoc]
        simp [h]
      · simp [h]

end PositionsBy

namespace EdgeIndex

/-- The positions of the edges with a given identity at one of their ends, found by
looking at every edge. -/
def scan (endOf : Edge → Ident) (edges : List Edge) (id : Ident) : List Nat :=
  (edges.zipIdx.filter (fun entry => endOf entry.1 = id)).map Prod.snd

theorem incoming_foldl_enter (entries : List (Edge × Nat)) (index : EdgeIndex) :
    (entries.foldl enter index).incoming =
      entries.foldl (fun p entry => p.add entry.1.target.id entry.2) index.incoming := by
  induction entries generalizing index with
  | nil => rfl
  | cons entry entries ih => exact ih (index.enter entry)

theorem outgoing_foldl_enter (entries : List (Edge × Nat)) (index : EdgeIndex) :
    (entries.foldl enter index).outgoing =
      entries.foldl (fun p entry => p.add entry.1.origin.id entry.2) index.outgoing := by
  induction entries generalizing index with
  | nil => rfl
  | cons entry entries ih => exact ih (index.enter entry)

theorem incoming_ofEdges (edges : List Edge) (id : Ident) :
    ((ofEdges edges).incoming.positionsOf id).toList =
      scan (fun e => e.target.id) edges id := by
  rw [ofEdges, incoming_foldl_enter,
    PositionsBy.positionsOf_foldl_add (fun e => e.target.id),
    PositionsBy.positionsOf_empty]
  rfl

theorem outgoing_ofEdges (edges : List Edge) (id : Ident) :
    ((ofEdges edges).outgoing.positionsOf id).toList =
      scan (fun e => e.origin.id) edges id := by
  rw [ofEdges, outgoing_foldl_enter,
    PositionsBy.positionsOf_foldl_add (fun e => e.origin.id),
    PositionsBy.positionsOf_empty]
  rfl

/-! ## Positions found by a scan -/

variable {endOf : Edge → Ident} {edges : List Edge} {id : Ident}

theorem mem_scan {i : Nat} :
    i ∈ scan endOf edges id ↔ ∃ e, edges[i]? = some e ∧ endOf e = id := by
  simp [scan, List.mem_zipIdx_iff_getElem?]

theorem lt_of_mem_scan {i : Nat} (h : i ∈ scan endOf edges id) : i < edges.length := by
  obtain ⟨e, he, _⟩ := mem_scan.mp h
  exact (List.getElem?_eq_some_iff.mp he).1

theorem nodup_scan : (scan endOf edges id).Nodup := by
  have hsublist : (scan endOf edges id).Sublist (edges.zipIdx.map Prod.snd) :=
    List.filter_sublist.map Prod.snd
  rw [List.zipIdx_map_snd] at hsublist
  exact List.Nodup.sublist hsublist List.nodup_range'

/-- A position is listed once, for the identity at the end of its edge. -/
theorem count_scan {i : Nat} (hi : i < edges.length) :
    (scan endOf edges id).count i = if endOf edges[i] = id then 1 else 0 := by
  have hmem : i ∈ scan endOf edges id ↔ endOf edges[i] = id := by
    rw [mem_scan, List.getElem?_eq_getElem hi]
    simp
  by_cases h : endOf edges[i] = id
  · rw [if_pos h]
    exact List.count_eq_one_of_mem nodup_scan (hmem.mpr h)
  · rw [if_neg h]
    exact List.count_eq_zero.mpr fun hin => h (hmem.mp hin)

/-- The edges at the positions found are the edges with that end, in their order. -/
theorem filterMap_scan (endOf : Edge → Ident) (edges : List Edge) (id : Ident) :
    (scan endOf edges id).filterMap (fun i => edges[i]?) =
      edges.filter (fun e => endOf e = id) := by
  have hentry : ∀ entry ∈ edges.zipIdx.filter (fun entry => endOf entry.1 = id),
      edges[entry.2]? = some entry.1 := by
    intro entry hentry
    exact List.mem_zipIdx_iff_getElem?.mp (List.mem_of_mem_filter hentry)
  calc
    (scan endOf edges id).filterMap (fun i => edges[i]?) =
        (edges.zipIdx.filter (fun entry => endOf entry.1 = id)).filterMap
          (fun entry => some entry.1) := by
      rw [scan, List.filterMap_map]
      exact List.filterMap_congr hentry
    _ = (edges.zipIdx.filter (fun entry => endOf entry.1 = id)).map Prod.fst :=
      congrFun List.filterMap_eq_map' _
    _ = (edges.zipIdx.map Prod.fst).filter (fun e => endOf e = id) := by
      rw [List.filter_map]
      rfl
    _ = edges.filter (fun e => endOf e = id) := by rw [List.zipIdx_map_fst]

end EdgeIndex

namespace Model

variable (m : Model)

/-! ## Edges of any model -/

theorem incoming_positionsOf (id : Ident) :
    (m.index.incoming.positionsOf id).toList =
      EdgeIndex.scan (fun e => e.target.id) m.edgeList id := by
  rw [m.index_eq, EdgeIndex.incoming_ofEdges, edgeList]

theorem outgoing_positionsOf (id : Ident) :
    (m.index.outgoing.positionsOf id).toList =
      EdgeIndex.scan (fun e => e.origin.id) m.edgeList id := by
  rw [m.index_eq, EdgeIndex.outgoing_ofEdges, edgeList]

theorem edgesTo_eq_filter (x : Member) :
    m.edgesTo x = m.edgeList.filter (fun e => e.target.id = x.id) := by
  rw [edgesTo, edgesAt, incoming_positionsOf,
    ← EdgeIndex.filterMap_scan (fun e => e.target.id)]
  simp [edgeList]

theorem edgesFrom_eq_filter (u : CodeUnit) :
    m.edgesFrom u = m.edgeList.filter (fun e => e.origin.id = u.id) := by
  rw [edgesFrom, edgesAt, outgoing_positionsOf,
    ← EdgeIndex.filterMap_scan (fun e => e.origin.id)]
  simp [edgeList]

theorem callsTo_eq_filter (u : CodeUnit) :
    m.callsTo u =
      m.edgeList.filter (fun e => e.access = .call && e.target.id = u.toMember.id) := by
  rw [callsTo, edgesTo_eq_filter, List.filter_filter]

/-- The index answers every question about edges as a look at all edges would.  It lists
every edge once for its target and once for its origin. -/
structure Indexed (m : Model) : Prop where
  edgesTo_eq : ∀ x, m.edgesTo x = m.edgeList.filter (fun e => e.target.id = x.id)
  edgesFrom_eq : ∀ u, m.edgesFrom u = m.edgeList.filter (fun e => e.origin.id = u.id)
  callsTo_eq : ∀ u, m.callsTo u =
    m.edgeList.filter (fun e => e.access = .call && e.target.id = u.toMember.id)
  edgesTo_member : ∀ x ∈ m.members, m.edgesTo x =
    m.edgeList.filter (fun e => e.target = x)
  edgesFrom_member : ∀ u, u.toMember ∈ m.members →
    m.edgesFrom u = m.edgeList.filter (fun e => e.origin = u)
  callsTo_member : ∀ u, u.toMember ∈ m.members →
    m.callsTo u = m.edgeList.filter (fun e => e.access = .call && e.target = u.toMember)
  incoming_lt : ∀ id, ∀ i ∈ m.index.incoming.positionsOf id, i < m.edges.size
  outgoing_lt : ∀ id, ∀ i ∈ m.index.outgoing.positionsOf id, i < m.edges.size
  incoming_once : ∀ id i, (hi : i < m.edges.size) →
    (m.index.incoming.positionsOf id).count i = if m.edges[i].target.id = id then 1 else 0
  outgoing_once : ∀ id i, (hi : i < m.edges.size) →
    (m.index.outgoing.positionsOf id).count i = if m.edges[i].origin.id = id then 1 else 0
  edgesTo_foreign : ∀ x : Member, (∀ y ∈ m.members, y.id ≠ x.id) → m.edgesTo x = []
  edgesFrom_foreign : ∀ u : CodeUnit, (∀ y ∈ m.members, y.id ≠ u.id) → m.edgesFrom u = []
  callsTo_foreign : ∀ u : CodeUnit, (∀ y ∈ m.members, y.id ≠ u.id) → m.callsTo u = []

variable {m}

/-- In a model without two members of one identity, an identity is as good as the
member. -/
theorem target_id_eq_iff (hnodup : (m.members.map Member.id).Nodup) {e : Edge}
    (he : m.Holds e) {x : Member} (hx : x ∈ m.members) :
    e.target.id = x.id ↔ e.target = x := by
  constructor
  · exact List.inj_on_of_nodup_map hnodup he.target_mem_members hx
  · intro heq
    rw [heq]

theorem origin_id_eq_iff (hnodup : (m.members.map Member.id).Nodup) {e : Edge}
    (he : m.Holds e) {u : CodeUnit} (hu : u.toMember ∈ m.members) :
    e.origin.id = u.id ↔ e.origin = u := by
  constructor
  · intro hid
    have heq := List.inj_on_of_nodup_map hnodup he.origin_mem_members hu hid
    rw [CodeUnit.toMember, CodeUnit.toMember, Member.mk.injEq,
      MemberDecl.unit.injEq] at heq
    rcases e with ⟨⟨owner, decl⟩, target, access, location⟩
    obtain ⟨rfl, rfl⟩ := heq
    rfl
  · intro heq
    rw [heq]

theorem indexed (hnodup : (m.members.map Member.id).Nodup)
    (hedges : ∀ e ∈ m.edgeList, m.Holds e) :
    m.Indexed := by
  constructor
  case edgesTo_eq => exact m.edgesTo_eq_filter
  case edgesFrom_eq => exact m.edgesFrom_eq_filter
  case callsTo_eq => exact m.callsTo_eq_filter
  case edgesTo_member =>
    intro x hx
    rw [edgesTo_eq_filter]
    apply List.filter_congr
    intro e he
    rw [decide_eq_decide]
    exact target_id_eq_iff hnodup (hedges e he) hx
  case edgesFrom_member =>
    intro u hu
    rw [edgesFrom_eq_filter]
    apply List.filter_congr
    intro e he
    rw [decide_eq_decide]
    exact origin_id_eq_iff hnodup (hedges e he) hu
  case callsTo_member =>
    intro u hu
    rw [callsTo_eq_filter]
    apply List.filter_congr
    intro e he
    congr 1
    rw [decide_eq_decide]
    exact target_id_eq_iff hnodup (hedges e he) hu
  case incoming_lt =>
    intro id i hi
    rw [← Array.mem_toList_iff, incoming_positionsOf] at hi
    exact EdgeIndex.lt_of_mem_scan hi
  case outgoing_lt =>
    intro id i hi
    rw [← Array.mem_toList_iff, outgoing_positionsOf] at hi
    exact EdgeIndex.lt_of_mem_scan hi
  case incoming_once =>
    intro id i hi
    rw [← Array.count_toList, incoming_positionsOf]
    exact EdgeIndex.count_scan hi
  case outgoing_once =>
    intro id i hi
    rw [← Array.count_toList, outgoing_positionsOf]
    exact EdgeIndex.count_scan hi
  case edgesTo_foreign =>
    intro x hx
    rw [edgesTo_eq_filter, List.filter_eq_nil_iff]
    intro e he
    simpa using hx e.target (hedges e he).target_mem_members
  case edgesFrom_foreign =>
    intro u hu
    rw [edgesFrom_eq_filter, List.filter_eq_nil_iff]
    intro e he
    have horigin : e.origin.id ≠ u.id :=
      hu e.origin.toMember (hedges e he).origin_mem_members
    simpa using horigin
  case callsTo_foreign =>
    intro u hu
    rw [callsTo_eq_filter, List.filter_eq_nil_iff]
    intro e he
    have htarget : e.target.id ≠ u.toMember.id :=
      hu e.target (hedges e he).target_mem_members
    simp [htarget]

end Model

namespace Draft

theorem Follows.indexed {d : Draft} {log : List Note} (hf : d.Follows log) :
    d.finish.Indexed :=
  Model.indexed hf.membersFrom.ids_nodup hf.edgesFrom.holds

/-- Whatever is asked of an empty draft, the index of its finished model agrees with its
edges. -/
theorem finish_run_indexed (stamp : Nat) (requests : List Request) :
    ((start stamp).run requests).finish.Indexed := by
  have hfollows := follows_run stamp requests
  exact Model.indexed hfollows.membersFrom.ids_nodup hfollows.edgesFrom.holds

end Draft

end Conformance
