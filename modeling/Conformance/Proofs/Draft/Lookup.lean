import Conformance.Proofs.Draft.Follows
import Mathlib.Data.List.Flatten

/-!
# Everything that was noted can be found

The members of a draft lie in their classes.  Taken over all classes they are the members
that the ledger has introduced, each of them once; so a search for the identity of a class
or a member finds exactly what the ledger says about it.
-/

namespace Conformance

/-! ## Entries by key -/

/-- Grouping entries by distinct keys that cover them all loses and repeats nothing. -/
theorem perm_flatMap_filter_key {α κ : Type} [DecidableEq κ] (key : α → κ) (keys : List κ)
    (entries : List α) (hnodup : keys.Nodup)
    (hcover : ∀ entry ∈ entries, key entry ∈ keys) :
    (keys.flatMap (fun k => entries.filter (fun entry => key entry = k))).Perm
      entries := by
  induction keys generalizing entries with
  | nil =>
      have hempty : entries = [] := by
        rw [List.eq_nil_iff_forall_not_mem]
        intro entry hentry
        exact List.not_mem_nil (hcover entry hentry)
      rw [hempty]
      exact List.Perm.refl []
  | cons k keys ih =>
      obtain ⟨hk, hkeys⟩ := List.nodup_cons.mp hnodup
      let others := entries.filter (fun entry => !decide (key entry = k))
      have hothers : others.Perm
          (keys.flatMap (fun k' => entries.filter (fun entry => key entry = k'))) := by
        have hfilter : ∀ k' ∈ keys, others.filter (fun entry => key entry = k') =
            entries.filter (fun entry => key entry = k') := by
          intro k' hk'
          rw [List.filter_filter]
          apply List.filter_congr
          intro entry _
          have hne : key entry = k' → key entry ≠ k := by
            rintro rfl rfl
            exact hk hk'
          by_cases hentry : key entry = k'
          · rw [decide_eq_true hentry, decide_eq_false (hne hentry)]
            rfl
          · simp [hentry]
        have hcover' : ∀ entry ∈ others, key entry ∈ keys := by
          intro entry hentry
          obtain ⟨hmem, hne⟩ := List.mem_filter.mp hentry
          rcases List.mem_cons.mp (hcover entry hmem) with heq | hmem'
          · simp [heq] at hne
          · exact hmem'
        rw [← List.flatMap_congr hfilter]
        exact (ih others hkeys hcover').symm
      rw [List.flatMap_cons]
      exact (hothers.symm.append_left _).trans (List.filter_append_perm _ entries)

/-- Taking the entries of one key after the other, without repeating a key, gives all
entries with one of the keys, each as often as it occurs. -/
theorem perm_flatMap_filter_mem {α κ : Type} [DecidableEq κ] (key : α → κ) {keys : List κ}
    (entries : List α) (hnodup : keys.Nodup) :
    (keys.flatMap (fun k => entries.filter (fun entry => key entry = k))).Perm
      (entries.filter (fun entry => key entry ∈ keys)) := by
  have hkeys : ∀ k ∈ keys, entries.filter (fun entry => key entry = k) =
      (entries.filter (fun entry => key entry ∈ keys)).filter
        (fun entry => key entry = k) := by
    intro k hk
    rw [List.filter_filter]
    apply List.filter_congr
    intro entry _
    by_cases hentry : key entry = k
    · simp [hentry, hk]
    · simp [hentry]
  rw [List.flatMap_congr hkeys]
  apply perm_flatMap_filter_key key keys _ hnodup
  intro entry hentry
  exact of_decide_eq_true (List.mem_filter.mp hentry).2

/-- Among entries with distinct keys, filtering by the key of an entry leaves that
entry. -/
theorem filter_key_eq_singleton {α κ : Type} [DecidableEq α] [DecidableEq κ] {key : α → κ}
    {l : List α} (hnodup : (l.map key).Nodup) {a : α} (ha : a ∈ l) :
    l.filter (fun x => key x = key a) = [a] := by
  have hkey : ∀ x ∈ l, decide (key x = key a) = decide (x = a) := by
    intro x hx
    rw [decide_eq_decide]
    constructor
    · exact List.inj_on_of_nodup_map hnodup hx ha
    · exact congrArg key
  rw [List.filter_congr hkey, List.filter_eq, List.count_eq_one_of_mem hnodup.of_map ha]
  rfl

/-! ## Classes and members -/

namespace Ledger

variable {log : List Note} {stamp next : Nat}

theorem members_classOf (log : List Note) (h : ClassHead) :
    (classOf log h).members =
      (declarationsOf log h.id).map (fun decl => ⟨classOf log h, complete log decl⟩) := by
  rw [Class.members, classOf, List.map_map]
  rfl

/-- The members of all classes are the members that the ledger has introduced. -/
theorem Sound.memberIds_perm (hsound : Sound log stamp next) :
    (((classes log).flatMap Class.members).map Member.id).Perm (memberIds log) := by
  have hclass : ∀ h : ClassHead, (classOf log h).members.map Member.id =
      ((members log).filter (fun p => p.1 = h.id)).map (fun p => p.2.id) := by
    intro h
    rw [members_classOf, declarationsOf, valuesFor, List.map_map, List.map_map]
    apply List.map_congr_left
    intro p _
    exact complete_id log p.2
  have hgroups : ((classes log).flatMap Class.members).map Member.id =
      ((classIds log).flatMap
        (fun id => (members log).filter (fun p => p.1 = id))).map (fun p => p.2.id) := by
    rw [classes, classIds, List.flatMap_map, List.flatMap_map, List.map_flatMap,
      List.map_flatMap]
    exact List.flatMap_congr fun h _ => hclass h
  rw [hgroups]
  exact (perm_flatMap_filter_key Prod.fst _ _ hsound.nodup_classIds
    hsound.owners_known).map _

theorem Sound.nodup_members (hsound : Sound log stamp next) :
    (((classes log).flatMap Class.members).map Member.id).Nodup :=
  hsound.memberIds_perm.nodup_iff.mpr hsound.nodup_memberIds

/-- What makes a declaration a field or a code unit is not changed by what is added to
it. -/
theorem complete_unit (log : List Note) (u : UnitDecl) :
    ∃ u', complete log (.unit u) = .unit u' := by
  cases u <;> exact ⟨_, rfl⟩

end Ledger

namespace Draft.Follows

open Ledger

variable {d : Draft} {log : List Note}

theorem class?_eq_some (hf : d.Follows log) {h : ClassHead} (hh : h ∈ heads log) :
    d.class? h.id = some (classOf log h) := by
  have hnodup : (d.classes.map Class.id).Nodup := by
    rw [hf.classes_eq, Ledger.classes, List.map_map]
    exact hf.sound.nodup_classIds
  have hmem : classOf log h ∈ d.classes := by
    rw [hf.classes_eq, mem_classes]
    exact ⟨h, hh, rfl⟩
  exact find?_key_eq_some hnodup hmem

theorem member?_eq_some (hf : d.Follows log) {h : ClassHead} {decl : MemberDecl}
    (hh : h ∈ heads log) (hdecl : (h.id, decl) ∈ members log) :
    d.member? decl.id = some ⟨classOf log h, complete log decl⟩ := by
  have hnodup : ((d.classes.flatMap Class.members).map Member.id).Nodup := by
    rw [hf.classes_eq]
    exact hf.sound.nodup_members
  have hmem : (⟨classOf log h, complete log decl⟩ : Member) ∈
      d.classes.flatMap Class.members := by
    rw [hf.classes_eq, List.mem_flatMap]
    refine ⟨classOf log h, mem_classes.mpr ⟨h, hh, rfl⟩, ?_⟩
    exact List.mem_map_of_mem (mem_classOf_declarations.mpr ⟨decl, hdecl, rfl⟩)
  have hfound := find?_key_eq_some hnodup hmem
  rwa [show Member.id ⟨classOf log h, complete log decl⟩ =
    decl.id from complete_id log decl]
    at hfound

theorem unit?_eq_some (hf : d.Follows log) {h : ClassHead} {u : UnitDecl}
    (hh : h ∈ heads log) (hu : (h.id, .unit u) ∈ members log) :
    ∃ u', complete log (.unit u) = .unit u' ∧
      d.unit? u.base.id = some ⟨classOf log h, u'⟩ := by
  obtain ⟨u', hcomplete⟩ := complete_unit log u
  refine ⟨u', hcomplete, ?_⟩
  have hmember : d.member? u.base.id = some ⟨classOf log h, .unit u'⟩ := by
    rw [← hcomplete]
    exact hf.member?_eq_some hh hu
  rw [unit?, hmember]
  rfl

end Draft.Follows

end Conformance
