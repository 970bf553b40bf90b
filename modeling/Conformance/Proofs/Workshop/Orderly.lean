import Conformance.Model.Workshop
import Conformance.Proofs.Draft.Replay

/-!
# Orderly workshops

In a workshop the builders take turns.  Whatever the order of their steps, each works on a
draft that has carried out what was accepted from that builder since it finished last, all
drafts have stamps of their own, and a finished model keeps the stamp of its draft, which
no draft has any more.
-/

namespace Conformance

/-- The classes and members of a model. -/
def Model.elements (m : Model) : List Element :=
  m.classes.map .ofClass ++ m.members.map .ofMember

namespace Workshop

/-- A step of a builder: a request, carried out or refused, or the end of its draft. -/
inductive Step where
  | request (builder : Text) (r : Request)
  | finish (builder : Text)

/-- The workshop after a step. -/
def step (w : Workshop) : Step → Workshop
  | .request builder r => (w.perform builder r).2
  | .finish builder => (w.finish builder).2

/-- The workshop after several steps, the first one first. -/
def run (w : Workshop) (steps : List Step) : Workshop :=
  steps.foldl step w

/-- What a builder has carried out since it finished last, after one more step. -/
def keep (w : Workshop) (builder : Text) (kept : List Request) : Step → List Request
  | .request builder' r =>
      if builder' = builder then
        match (w.perform builder r).1 with
        | .ok _ => kept ++ [r]
        | .error _ => kept
      else
        kept
  | .finish builder' => if builder' = builder then [] else kept

/-- What a builder has carried out since it finished last, after several more steps. -/
def keptBy (builder : Text) (w : Workshop) (kept : List Request) :
    List Step → List Request
  | [] => kept
  | s :: rest => (w.step s).keptBy builder (w.keep builder kept s) rest

/-- Drafts and finished models do not get in each other's way, and every draft has carried
out what was kept for its builder. -/
structure Orderly (w : Workshop) (kept : Text → List Request) : Prop where
  carriedOut : ∀ b d, (b, d) ∈ w.drafts → Draft.CarriedOut d.stamp (kept b) d
  idle : ∀ b, (∀ d, (b, d) ∉ w.drafts) → kept b = []
  draft_lt : ∀ b d, (b, d) ∈ w.drafts → d.stamp < w.nextStamp
  stamp_unique : ∀ b d b' d', (b, d) ∈ w.drafts → (b', d') ∈ w.drafts →
    d.stamp = d'.stamp →
    b = b'
  model_lt : ∀ m ∈ w.models, ∀ e ∈ m.elements, e.id.draft < w.nextStamp
  model_retired : ∀ m ∈ w.models, ∀ e ∈ m.elements, ∀ b d, (b, d) ∈ w.drafts →
    d.stamp ≠ e.id.draft
  model_ids : ∀ m ∈ w.models, (m.elements.map Element.id).Nodup
  models_apart : w.models.Pairwise
    (fun m m' => ∀ e ∈ m.elements, ∀ e' ∈ m'.elements, e.id ≠ e'.id)

variable {w : Workshop} {kept : Text → List Request} {builder : Text}

theorem orderly_empty : Orderly {} (fun _ => []) where
  carriedOut := by simp
  idle := by simp
  draft_lt := by simp
  stamp_unique := by simp
  model_lt := by simp
  model_retired := by simp
  model_ids := by simp
  models_apart := List.Pairwise.nil

theorem mem_setDraft {d : Draft} {b : Text} {d' : Draft} :
    (b, d') ∈ (w.setDraft builder d).drafts ↔
      (b = builder ∧ d' = d) ∨ (b ≠ builder ∧ (b, d') ∈ w.drafts) := by
  simp [setDraft, and_comm]

theorem mem_of_draft? {d : Draft} (h : w.draft? builder = some d) :
    (builder, d) ∈ w.drafts := by
  obtain ⟨before, after, hsplit, _⟩ := List.lookup_eq_some_iff.mp h
  rw [hsplit]
  exact List.mem_append_right _ List.mem_cons_self

theorem notMem_of_draft? (h : w.draft? builder = none) (d : Draft) :
    (builder, d) ∉ w.drafts := by
  intro hmem
  have hne := List.lookup_eq_none_iff.mp h _ hmem
  simp at hne

/-! ## The elements of a finished draft -/

theorem elements_finish_own {d : Draft} (hd : d.Own) :
    ∀ e ∈ d.finish.elements, e.id.draft = d.stamp := by
  intro e he
  rcases List.mem_append.mp he with he | he
  · obtain ⟨c, hc, rfl⟩ := List.mem_map.mp he
    exact hd.classes c hc
  · obtain ⟨x, hx, rfl⟩ := List.mem_map.mp he
    exact hd.members x hx

theorem nodup_elements_finish {d : Draft} {log : List Note} (hf : d.Follows log) :
    (d.finish.elements.map Element.id).Nodup := by
  have hids : d.finish.elements.map Element.id =
      d.finish.classes.map Class.id ++ d.finish.members.map Member.id := by
    rw [Model.elements, List.map_append, List.map_map, List.map_map]
    rfl
  have hclasses : d.finish.classes.map Class.id = Ledger.classIds log := by
    rw [hf.finish_classes, Ledger.classes, List.map_map]
    rfl
  have hmembers : (d.finish.members.map Member.id).Perm (Ledger.memberIds log) := by
    rw [Model.members, hf.finish_classes]
    exact hf.sound.memberIds_perm
  rw [hids, hclasses, (hmembers.append_left _).nodup_iff]
  exact hf.sound.ids_nodup

namespace Orderly

/-! ## Changes to a workshop -/

/-- A builder may go on with another draft if no other draft and no model has its
stamp. -/
theorem setDraft (hw : Orderly w kept) {d : Draft} {kept' : Text → List Request}
    {next : Nat} (hnext : w.nextStamp ≤ next) (hlt : d.stamp < next)
    (hd : Draft.CarriedOut d.stamp (kept' builder) d)
    (hkept : ∀ b, b ≠ builder → kept' b = kept b)
    (hother : ∀ b d', (b, d') ∈ w.drafts → b ≠ builder → d'.stamp ≠ d.stamp)
    (hmodel : ∀ m ∈ w.models, ∀ e ∈ m.elements, d.stamp ≠ e.id.draft) :
    Orderly { w.setDraft builder d with nextStamp := next } kept' where
  carriedOut := by
    intro b d' h
    rcases mem_setDraft.mp h with ⟨rfl, rfl⟩ | ⟨hb, h⟩
    · exact hd
    · rw [hkept b hb]
      exact hw.carriedOut b d' h
  idle := by
    intro b h
    have hb : b ≠ builder := by
      rintro rfl
      exact h d (mem_setDraft.mpr (Or.inl ⟨rfl, rfl⟩))
    rw [hkept b hb]
    exact hw.idle b fun d' hd' => h d' (mem_setDraft.mpr (Or.inr ⟨hb, hd'⟩))
  draft_lt := by
    intro b d' h
    rcases mem_setDraft.mp h with ⟨rfl, rfl⟩ | ⟨_, h⟩
    · exact hlt
    · have hold := hw.draft_lt b d' h
      change d'.stamp < next
      omega
  stamp_unique := by
    intro b₁ d₁ b₂ d₂ h₁ h₂ heq
    rcases mem_setDraft.mp h₁ with ⟨rfl, rfl⟩ | ⟨hb₁, hold₁⟩
    · rcases mem_setDraft.mp h₂ with ⟨rfl, rfl⟩ | ⟨hb₂, hold₂⟩
      · rfl
      · exact absurd heq.symm (hother b₂ d₂ hold₂ hb₂)
    · rcases mem_setDraft.mp h₂ with ⟨rfl, rfl⟩ | ⟨hb₂, hold₂⟩
      · exact absurd heq (hother b₁ d₁ hold₁ hb₁)
      · exact hw.stamp_unique b₁ d₁ b₂ d₂ hold₁ hold₂ heq
  model_lt := by
    intro m hm e he
    have hold := hw.model_lt m hm e he
    change e.id.draft < next
    omega
  model_retired := by
    intro m hm e he b d' h
    rcases mem_setDraft.mp h with ⟨rfl, rfl⟩ | ⟨_, h⟩
    · exact hmodel m hm e he
    · exact hw.model_retired m hm e he b d' h
  model_ids := hw.model_ids
  models_apart := hw.models_apart

theorem begin (hw : Orderly w kept) {kept' : Text → List Request}
    (hnil : kept' builder = []) (hkept : ∀ b, b ≠ builder → kept' b = kept b) :
    Orderly (w.begin builder) kept' := by
  have hstamp : (Draft.start w.nextStamp).stamp = w.nextStamp := rfl
  apply hw.setDraft (d := .start w.nextStamp) (Nat.le_succ _) (Nat.lt_succ_self _)
  · rw [hnil]
    exact Draft.CarriedOut.start
  · exact hkept
  · intro b d hd _
    have hlt := hw.draft_lt b d hd
    omega
  · intro m hm e he
    have hlt := hw.model_lt m hm e he
    omega

theorem draftOf (hw : Orderly w kept) (builder : Text) :
    Orderly (w.draftOf builder).2 kept ∧
      (builder, (w.draftOf builder).1) ∈ (w.draftOf builder).2.drafts := by
  unfold Workshop.draftOf
  cases h : w.draft? builder with
  | some d => exact ⟨hw, mem_of_draft? h⟩
  | none =>
      refine ⟨hw.begin (hw.idle builder (notMem_of_draft? h)) fun _ _ => rfl, ?_⟩
      exact List.mem_cons_self

theorem draftOf_models (w : Workshop) (builder : Text) :
    (w.draftOf builder).2.models = w.models := by
  unfold Workshop.draftOf
  cases w.draft? builder <;> rfl

/-- A model may be kept if its stamp is that of no draft and of no other model. -/
theorem keepModel (hw : Orderly w kept) {m : Model} {stamp : Nat}
    (hstamp : ∀ e ∈ m.elements, e.id.draft = stamp)
    (hids : (m.elements.map Element.id).Nodup) (hlt : stamp < w.nextStamp)
    (hdraft : ∀ b d, (b, d) ∈ w.drafts → d.stamp ≠ stamp)
    (hmodel : ∀ m' ∈ w.models, ∀ e ∈ m'.elements, e.id.draft ≠ stamp) :
    Orderly { w with models := w.models ++ [m] } kept where
  carriedOut := hw.carriedOut
  idle := hw.idle
  draft_lt := hw.draft_lt
  stamp_unique := hw.stamp_unique
  model_lt := by
    refine List.forall_mem_append.mpr ⟨hw.model_lt, List.forall_mem_singleton.mpr ?_⟩
    intro e he
    rw [hstamp e he]
    exact hlt
  model_retired := by
    refine List.forall_mem_append.mpr ⟨hw.model_retired, List.forall_mem_singleton.mpr ?_⟩
    intro e he b d hd
    rw [hstamp e he]
    exact hdraft b d hd
  model_ids := List.forall_mem_append.mpr
    ⟨hw.model_ids, List.forall_mem_singleton.mpr hids⟩
  models_apart := by
    refine List.pairwise_append.mpr ⟨hw.models_apart, List.pairwise_singleton _ m, ?_⟩
    intro m' hm' m'' hm'' e' he' e he heq
    rw [List.mem_singleton.mp hm''] at he
    apply hmodel m' hm' e' he'
    rw [heq]
    exact hstamp e he

/-! ## Steps -/

theorem finish (hw : Orderly w kept) (builder : Text) :
    Orderly (w.finish builder).2 (fun b => w.keep b (kept b) (.finish builder)) := by
  obtain ⟨hbegun, hmem⟩ := hw.draftOf builder
  have hdraft := hbegun.carriedOut builder _ hmem
  have hnext : Orderly ((w.draftOf builder).2.begin builder)
      (fun b => w.keep b (kept b) (.finish builder)) := by
    apply hbegun.begin
    · exact if_pos rfl
    · exact fun b hb => if_neg fun heq => hb heq.symm
  apply hnext.keepModel (elements_finish_own hdraft.own)
    (nodup_elements_finish hdraft.follows)
  · exact Nat.lt_succ_of_lt (hbegun.draft_lt builder _ hmem)
  · intro b d hd
    rcases mem_setDraft.mp hd with ⟨rfl, rfl⟩ | ⟨hb, hold⟩
    · exact Nat.ne_of_gt (hbegun.draft_lt b _ hmem)
    · exact fun heq => hb (hbegun.stamp_unique b d builder _ hold hmem heq)
  · exact fun m hm e he heq => hbegun.model_retired m hm e he builder _ hmem heq.symm

/-- A request is refused and leaves the workshop as it was, or it is carried out by the
builder's draft. -/
theorem perform_cases (w : Workshop) (builder : Text) (r : Request) :
    (∃ misuse, (w.draftOf builder).1.perform r = .error misuse ∧
      w.perform builder r = (.error misuse, w)) ∨
    ∃ answer d', (w.draftOf builder).1.perform r = .ok (answer, d') ∧
      w.perform builder r = (.ok answer, (w.draftOf builder).2.setDraft builder d') := by
  cases h : (w.draftOf builder).1.perform r with
  | error misuse =>
      left
      refine ⟨misuse, rfl, ?_⟩
      simp only [Workshop.perform, h]
  | ok result =>
      right
      refine ⟨result.1, result.2, rfl, ?_⟩
      simp only [Workshop.perform, h]

theorem request (hw : Orderly w kept) (builder : Text) (r : Request) :
    Orderly (w.perform builder r).2
      (fun b => w.keep b (kept b) (.request builder r)) := by
  rcases perform_cases w builder r with
    ⟨misuse, _, hrefused⟩ | ⟨answer, d', hdone, hperformed⟩
  · have hkept : (fun b => w.keep b (kept b) (.request builder r)) = kept := by
      funext b
      by_cases hb : builder = b
      · subst hb
        simp [keep, hrefused]
      · exact if_neg hb
    rw [hkept, hrefused]
    exact hw
  · obtain ⟨hbegun, hmem⟩ := hw.draftOf builder
    have hbefore := hbegun.carriedOut builder _ hmem
    obtain ⟨n, _, hchange⟩ := Draft.transition_of_perform hdone
    have hstamp := hchange.stamp_eq
    rw [hperformed]
    apply hbegun.setDraft (Nat.le_refl _)
    · rw [hstamp]
      exact hbegun.draft_lt builder _ hmem
    · have hkept : w.keep builder (kept builder) (.request builder r) =
        kept builder ++ [r] := by
        simp [keep, hperformed]
      rw [hkept, hstamp]
      exact hbefore.step hdone
    · exact fun b hb => if_neg fun heq => hb heq.symm
    · intro b d hd hb heq
      exact hb (hbegun.stamp_unique b d builder _ hd hmem (heq.trans hstamp))
    · intro m hm e he
      rw [hstamp]
      exact hbegun.model_retired m hm e he builder _ hmem

theorem step (hw : Orderly w kept) (s : Step) :
    Orderly (w.step s) (fun b => w.keep b (kept b) s) := by
  cases s with
  | request builder r => exact hw.request builder r
  | finish builder => exact hw.finish builder

theorem run (hw : Orderly w kept) (steps : List Step) :
    Orderly (w.run steps) (fun b => w.keptBy b (kept b) steps) := by
  induction steps generalizing w kept with
  | nil => exact hw
  | cons s rest ih => exact ih (hw.step s)

end Orderly

/-- Whatever the builders do, in whatever order, their workshop stays orderly. -/
theorem orderly_run (steps : List Step) :
    Orderly (({} : Workshop).run steps) (fun b => ({} : Workshop).keptBy b [] steps) :=
  orderly_empty.run steps

end Workshop

end Conformance
