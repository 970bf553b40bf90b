import Conformance.Proofs.Draft.Growth

/-!
# Sound ledgers

Not every list of notes is the ledger of a draft.  A sound ledger gives every class and
member an identity of its own, names no class twice, and only speaks of classes and
members that it has introduced before.  This module says which notes may be added to a
sound ledger.
-/

namespace Conformance

namespace Ledger

variable {log : List Note} {stamp next : Nat}

/-- The identities of the classes. -/
def classIds (log : List Note) : List Ident :=
  (heads log).eraseDups.map ClassHead.id

/-- The identities of the members. -/
def memberIds (log : List Note) : List Ident :=
  (members log).map (fun p => p.2.id)

/-- The identities of all classes and members. -/
def ids (log : List Note) : List Ident :=
  classIds log ++ memberIds log

/-- The ends of an edge are members that the ledger has introduced, and the origin is a
code unit of an analyzed class. -/
structure EndsKnown (log : List Note) (e : DraftEdge) : Prop where
  origin : ∃ h ∈ heads log, h.analyzed = true ∧
    ∃ u, (h.id, .unit u) ∈ members log ∧ u.base.id = e.origin
  target : ∃ p ∈ members log, p.2.id = e.target

/-- What holds of the ledger of every draft with the given stamp and the given number for
what comes next. -/
structure Sound (log : List Note) (stamp next : Nat) : Prop where
  names_nodup : ((heads log).eraseDups.map ClassHead.name).Nodup
  ids_nodup : (ids log).Nodup
  below : ∀ id ∈ ids log, id.draft = stamp ∧ id.serial < next
  owners_known : ∀ p ∈ members log, p.1 ∈ classIds log
  subjects_known : ∀ n ∈ log, ∀ id ∈ n.subjects, id ∈ ids log
  members_bare : ∀ p ∈ members log, p.2.bare = p.2
  ends_known : ∀ e ∈ edges log, EndsKnown log e
  /-- An analyzed class is asked for once only. -/
  analyzed_once :
    (heads log).eraseDups.filter ClassHead.analyzed =
      (heads log).filter ClassHead.analyzed
  /-- A class that is not analyzed has no modifiers. -/
  external_plain : ∀ h ∈ heads log, h.analyzed = false → h.modifiers = .empty

/-! ## Adding a note -/

theorem heads_concat (log : List Note) (n : Note) :
    heads (log ++ [n]) = heads log ++ n.head?.toList := by
  simp [heads]

theorem members_concat (log : List Note) (n : Note) :
    members (log ++ [n]) = members log ++ n.member?.toList := by
  simp [members]

theorem edges_concat (log : List Note) (n : Note) :
    edges (log ++ [n]) = edges log ++ n.edge?.toList := by
  simp [edges]

theorem EndsKnown.concat {e : DraftEdge} (h : EndsKnown log e) (n : Note) :
    EndsKnown (log ++ [n]) e where
  origin := by
    obtain ⟨k, hk, hanalyzed, u, hu, horigin⟩ := h.origin
    refine ⟨k, ?_, hanalyzed, u, ?_, horigin⟩
    · rw [heads_concat]
      exact List.mem_append_left _ hk
    · rw [members_concat]
      exact List.mem_append_left _ hu
  target := by
    obtain ⟨p, hp, htarget⟩ := h.target
    refine ⟨p, ?_, htarget⟩
    rw [members_concat]
    exact List.mem_append_left _ hp

theorem mem_classIds {id : Ident} : id ∈ classIds log ↔ ∃ h ∈ heads log, h.id = id := by
  simp [classIds]

theorem Sound.nodup_classIds (hsound : Sound log stamp next) : (classIds log).Nodup :=
  (List.nodup_append.mp hsound.ids_nodup).1

theorem Sound.nodup_memberIds (hsound : Sound log stamp next) : (memberIds log).Nodup :=
  (List.nodup_append.mp hsound.ids_nodup).2.1

theorem fresh_notMem_ids (hsound : Sound log stamp next) :
    (⟨stamp, next⟩ : Ident) ∉ ids log := by
  intro hmem
  have hserial : next < next := (hsound.below _ hmem).2
  omega

theorem sound_nil (stamp next : Nat) : Sound [] stamp next where
  names_nodup := List.nodup_nil
  ids_nodup := List.nodup_nil
  below := by simp [ids, classIds, memberIds, heads, members]
  owners_known := by simp [members]
  subjects_known := by simp
  members_bare := by simp [members]
  ends_known := by simp [edges]
  analyzed_once := rfl
  external_plain := by simp [heads]

namespace Sound

/-- A note that introduces nothing must speak of what is there. -/
theorem keep (hsound : Sound log stamp next) {n : Note} (hhead : n.head? = none)
    (hmember : n.member? = none) (hsubjects : ∀ id ∈ n.subjects, id ∈ ids log)
    (hends : ∀ e ∈ n.edge?, EndsKnown log e) : Sound (log ++ [n]) stamp next := by
  have hheads : heads (log ++ [n]) = heads log := by simp [heads_concat, hhead]
  have hmembers : members (log ++ [n]) = members log := by simp [members_concat, hmember]
  have hids : ids (log ++ [n]) = ids log := by
    simp [ids, classIds, memberIds, hheads, hmembers]
  constructor
  case names_nodup => simpa only [hheads] using hsound.names_nodup
  case ids_nodup => simpa only [hids] using hsound.ids_nodup
  case below => simpa only [hids] using hsound.below
  case owners_known =>
    simpa only [hmembers, classIds, hheads] using hsound.owners_known
  case subjects_known =>
    rw [hids]
    exact List.forall_mem_append.mpr
      ⟨hsound.subjects_known, List.forall_mem_singleton.mpr hsubjects⟩
  case members_bare => simpa only [hmembers] using hsound.members_bare
  case ends_known =>
    intro e he
    rw [edges_concat, List.mem_append, Option.mem_toList] at he
    rcases he with he | he
    · exact (hsound.ends_known e he).concat n
    · exact (hends e he).concat n
  case analyzed_once => simpa only [hheads] using hsound.analyzed_once
  case external_plain => simpa only [hheads] using hsound.external_plain

/-- A class that is not analyzed may be asked for again. -/
theorem knownClass (hsound : Sound log stamp next) {h : ClassHead}
    (hknown : h ∈ heads log) (hexternal : h.analyzed = false) :
    Sound (log ++ [.newClass h]) stamp next := by
  have hheads : heads (log ++ [.newClass h]) = heads log ++ [h] := heads_concat log _
  have hdistinct : (heads (log ++ [.newClass h])).eraseDups = (heads log).eraseDups := by
    rw [hheads, eraseDups_concat, if_pos (List.contains_iff_mem.mpr hknown)]
  have hmembers : members (log ++ [.newClass h]) = members log := by
    simp [members_concat, Note.member?]
  have hids : ids (log ++ [.newClass h]) = ids log := by
    simp only [ids, classIds, memberIds, hdistinct, hmembers]
  constructor
  case names_nodup => simpa only [hdistinct] using hsound.names_nodup
  case ids_nodup => simpa only [hids] using hsound.ids_nodup
  case below => simpa only [hids] using hsound.below
  case owners_known =>
    simpa only [hmembers, classIds, hdistinct] using hsound.owners_known
  case subjects_known =>
    rw [hids]
    refine List.forall_mem_append.mpr
      ⟨hsound.subjects_known, List.forall_mem_singleton.mpr ?_⟩
    intro id hid
    exact absurd hid List.not_mem_nil
  case members_bare => simpa only [hmembers] using hsound.members_bare
  case ends_known =>
    intro e he
    have he' : e ∈ edges log := by simpa [edges_concat, Note.edge?] using he
    exact (hsound.ends_known e he').concat _
  case analyzed_once =>
    rw [hdistinct, hheads, hsound.analyzed_once]
    simp [hexternal]
  case external_plain =>
    rw [hheads]
    refine List.forall_mem_append.mpr
      ⟨hsound.external_plain, List.forall_mem_singleton.mpr ?_⟩
    exact hsound.external_plain h hknown

/-- A new class needs a name and an identity that are not taken. -/
theorem newClass (hsound : Sound log stamp next) {h : ClassHead}
    (hid : h.id = ⟨stamp, next⟩) (hname : ∀ k ∈ heads log, k.name ≠ h.name)
    (hplain : h.analyzed = false → h.modifiers = .empty) :
    Sound (log ++ [.newClass h]) stamp (next + 1) := by
  have hfresh : h.id ∉ ids log := by
    rw [hid]
    exact fresh_notMem_ids hsound
  have hnew : h ∉ heads log := fun hmem => hname h hmem rfl
  have hheads : heads (log ++ [.newClass h]) = heads log ++ [h] := heads_concat log _
  have hdistinct : (heads (log ++ [.newClass h])).eraseDups =
      (heads log).eraseDups ++ [h] := by
    rw [hheads, eraseDups_concat, if_neg (by simpa using hnew)]
  have hmembers : members (log ++ [.newClass h]) = members log := by
    simp [members_concat, Note.member?]
  have hids : ids (log ++ [.newClass h]) = classIds log ++ h.id :: memberIds log := by
    simp [ids, classIds, memberIds, hdistinct, hmembers]
  have hmemIds : ∀ id, id ∈ ids (log ++ [.newClass h]) ↔ id = h.id ∨ id ∈ ids log := by
    intro id
    rw [hids, List.mem_append, List.mem_cons, ids, List.mem_append]
    exact or_left_comm
  constructor
  case names_nodup =>
    rw [hdistinct, List.map_append, List.map_singleton, ← List.concat_eq_append,
      List.nodup_concat]
    refine ⟨?_, hsound.names_nodup⟩
    intro hmem
    obtain ⟨k, hk, hkname⟩ := List.mem_map.mp hmem
    exact hname k (List.mem_eraseDups.mp hk) hkname
  case ids_nodup =>
    rw [hids, List.nodup_middle, List.nodup_cons]
    exact ⟨hfresh, hsound.ids_nodup⟩
  case below =>
    intro id hmem
    rcases (hmemIds id).mp hmem with rfl | hmem
    · rw [hid]
      exact ⟨rfl, Nat.lt_succ_self next⟩
    · obtain ⟨hdraft, hserial⟩ := hsound.below id hmem
      exact ⟨hdraft, Nat.lt_succ_of_lt hserial⟩
  case owners_known =>
    intro p hp
    rw [hmembers] at hp
    rw [classIds, hdistinct, List.map_append]
    exact List.mem_append_left _ (hsound.owners_known p hp)
  case subjects_known =>
    refine List.forall_mem_append.mpr ⟨?_, List.forall_mem_singleton.mpr ?_⟩
    · intro n hn id hsubject
      exact (hmemIds id).mpr (Or.inr (hsound.subjects_known n hn id hsubject))
    · intro id hsubject
      exact absurd hsubject List.not_mem_nil
  case members_bare => simpa only [hmembers] using hsound.members_bare
  case ends_known =>
    intro e he
    have he' : e ∈ edges log := by simpa [edges_concat, Note.edge?] using he
    exact (hsound.ends_known e he').concat _
  case analyzed_once =>
    rw [hdistinct, hheads, List.filter_append, List.filter_append, hsound.analyzed_once]
  case external_plain =>
    rw [hheads]
    exact List.forall_mem_append.mpr
      ⟨hsound.external_plain, List.forall_mem_singleton.mpr hplain⟩

/-- A new member needs a class and an identity that is not taken. -/
theorem newMember (hsound : Sound log stamp next) {owner : Ident} {decl : MemberDecl}
    (howner : owner ∈ classIds log) (hid : decl.id = ⟨stamp, next⟩)
    (hbare : decl.bare = decl) :
    Sound (log ++ [.newMember owner decl]) stamp (next + 1) := by
  have hfresh : decl.id ∉ ids log := by
    rw [hid]
    exact fresh_notMem_ids hsound
  have hheads : heads (log ++ [.newMember owner decl]) = heads log := by
    simp [heads_concat, Note.head?]
  have hmembers : members (log ++ [.newMember owner decl]) =
      members log ++ [(owner, decl)] :=
    members_concat log _
  have hids : ids (log ++ [.newMember owner decl]) = ids log ++ [decl.id] := by
    simp [ids, classIds, memberIds, hheads, hmembers]
  constructor
  case names_nodup => simpa only [hheads] using hsound.names_nodup
  case ids_nodup =>
    rw [hids, ← List.concat_eq_append, List.nodup_concat]
    exact ⟨hfresh, hsound.ids_nodup⟩
  case below =>
    rw [hids]
    refine List.forall_mem_append.mpr ⟨?_, List.forall_mem_singleton.mpr ?_⟩
    · intro id hmem
      obtain ⟨hdraft, hserial⟩ := hsound.below id hmem
      exact ⟨hdraft, Nat.lt_succ_of_lt hserial⟩
    · rw [hid]
      exact ⟨rfl, Nat.lt_succ_self next⟩
  case owners_known =>
    rw [hmembers, classIds, hheads]
    exact List.forall_mem_append.mpr
      ⟨hsound.owners_known, List.forall_mem_singleton.mpr howner⟩
  case subjects_known =>
    rw [hids]
    refine List.forall_mem_append.mpr ⟨?_, List.forall_mem_singleton.mpr ?_⟩
    · intro n hn id hsubject
      exact List.mem_append_left _ (hsound.subjects_known n hn id hsubject)
    · intro id hsubject
      rw [List.mem_singleton.mp hsubject]
      exact List.mem_append_left _ (List.mem_append_left _ howner)
  case members_bare =>
    rw [hmembers]
    exact List.forall_mem_append.mpr
      ⟨hsound.members_bare, List.forall_mem_singleton.mpr hbare⟩
  case ends_known =>
    intro e he
    have he' : e ∈ edges log := by simpa [edges_concat, Note.edge?] using he
    exact (hsound.ends_known e he').concat _
  case analyzed_once => simpa only [hheads] using hsound.analyzed_once
  case external_plain => simpa only [hheads] using hsound.external_plain

end Sound

end Ledger

end Conformance
