import Conformance.Proofs.Draft.Misuse
import Conformance.Proofs.Workshop.Orderly

/-!
# Refused requests

A builder's requests are judged by what it has made since it finished last, and by nothing
else: not by what other builders did, and not by requests that it was refused.  A refused
request leaves no trace, so a history can be stripped of all refused requests, and nobody
will notice.
-/

namespace Conformance

namespace Workshop

/-! ## What has been noted of a builder -/

/-- What a builder has carried out since it finished last, after one more step. -/
def noting (w : Workshop) (builder : Text) (log : List Note) : Step → List Note
  | .request builder' r =>
      if builder' = builder then
        match (w.perform builder r).1 with
        | .ok answer => log ++ (r.note? answer).toList
        | .error _ => log
      else
        log
  | .finish builder' => if builder' = builder then [] else log

/-- What a builder has carried out since it finished last, after several more steps. -/
def notedBy (builder : Text) (w : Workshop) (log : List Note) : List Step → List Note
  | [] => log
  | s :: rest => (w.step s).notedBy builder (w.noting builder log s) rest

/-- Every draft is what has been noted of its builder. -/
structure Recorded (w : Workshop) (logs : Text → List Note) : Prop where
  follows : ∀ b d, (b, d) ∈ w.drafts → d.Follows (logs b)
  idle : ∀ b, (∀ d, (b, d) ∉ w.drafts) → logs b = []

variable {w : Workshop} {logs : Text → List Note} {builder : Text}

theorem recorded_empty : Recorded {} (fun _ => []) where
  follows := by simp
  idle := by simp

namespace Recorded

theorem setDraft (hw : Recorded w logs) {d : Draft} {logs' : Text → List Note}
    (hd : d.Follows (logs' builder)) (hlogs : ∀ b, b ≠ builder → logs' b = logs b) :
    Recorded (w.setDraft builder d) logs' where
  follows := by
    intro b d' h
    rcases mem_setDraft.mp h with ⟨rfl, rfl⟩ | ⟨hb, h⟩
    · exact hd
    · rw [hlogs b hb]
      exact hw.follows b d' h
  idle := by
    intro b h
    have hb : b ≠ builder := by
      rintro rfl
      exact h d (mem_setDraft.mpr (Or.inl ⟨rfl, rfl⟩))
    rw [hlogs b hb]
    exact hw.idle b fun d' hd' => h d' (mem_setDraft.mpr (Or.inr ⟨hb, hd'⟩))

/-- Only the drafts matter. -/
theorem of_drafts_eq (hw : Recorded w logs) {w' : Workshop}
    (hdrafts : w'.drafts = w.drafts) :
    Recorded w' logs where
  follows := by
    rw [hdrafts]
    exact hw.follows
  idle := by
    rw [hdrafts]
    exact hw.idle

theorem begin (hw : Recorded w logs) {logs' : Text → List Note}
    (hnil : logs' builder = []) (hlogs : ∀ b, b ≠ builder → logs' b = logs b) :
    Recorded (w.begin builder) logs' := by
  have hstart : (Draft.start w.nextStamp).Follows (logs' builder) := by
    rw [hnil]
    exact Draft.Follows.start w.nextStamp
  exact (hw.setDraft hstart hlogs).of_drafts_eq rfl

theorem draftOf (hw : Recorded w logs) (builder : Text) :
    Recorded (w.draftOf builder).2 logs ∧
      (w.draftOf builder).1.Follows (logs builder) := by
  unfold Workshop.draftOf
  cases h : w.draft? builder with
  | some d => exact ⟨hw, hw.follows builder d (mem_of_draft? h)⟩
  | none =>
      have hnil : logs builder = [] := hw.idle builder (notMem_of_draft? h)
      refine ⟨hw.begin hnil fun _ _ => rfl, ?_⟩
      rw [hnil]
      exact Draft.Follows.start w.nextStamp

theorem request (hw : Recorded w logs) (builder : Text) (r : Request) :
    Recorded (w.perform builder r).2
      (fun b => w.noting b (logs b) (.request builder r)) := by
  rcases Orderly.perform_cases w builder r with
    ⟨misuse, _, hrefused⟩ | ⟨answer, d', hdone, hperformed⟩
  · have hlogs : (fun b => w.noting b (logs b) (.request builder r)) = logs := by
      funext b
      by_cases hb : builder = b
      · subst hb
        simp [noting, hrefused]
      · exact if_neg hb
    rw [hlogs, hrefused]
    exact hw
  · -- The draft is begun first if there is none, and that is not noted.
    obtain ⟨hbegun, hfollows⟩ := hw.draftOf builder
    obtain ⟨n, hnote, hchange⟩ := Draft.transition_of_perform hdone
    rw [hperformed]
    apply hbegun.setDraft
    · have hlog : w.noting builder (logs builder) (.request builder r) =
          logs builder ++ [n] := by
        simp [noting, hperformed, hnote]
      rw [hlog]
      exact hfollows.transition hchange
    · exact fun b hb => if_neg fun heq => hb heq.symm

theorem finish (hw : Recorded w logs) (builder : Text) :
    Recorded (w.finish builder).2 (fun b => w.noting b (logs b) (.finish builder)) := by
  have hbegun := (hw.draftOf builder).1
  have hnext : Recorded ((w.draftOf builder).2.begin builder)
      (fun b => w.noting b (logs b) (.finish builder)) := by
    apply hbegun.begin
    · exact if_pos rfl
    · exact fun b hb => if_neg fun heq => hb heq.symm
  exact hnext.of_drafts_eq rfl

theorem step (hw : Recorded w logs) (s : Step) :
    Recorded (w.step s) (fun b => w.noting b (logs b) s) := by
  cases s with
  | request builder r => exact hw.request builder r
  | finish builder => exact hw.finish builder

theorem run (hw : Recorded w logs) (steps : List Step) :
    Recorded (w.run steps) (fun b => w.notedBy b (logs b) steps) := by
  induction steps generalizing w logs with
  | nil => exact hw
  | cons s rest ih => exact ih (hw.step s)

/-! ## Judging a request -/

theorem perform_eq_error_iff (hw : Recorded w logs) (builder : Text) (r : Request)
    (misuse : Misuse) :
    (w.perform builder r).1 = .error misuse ↔
      Ledger.misuse? (logs builder) r = some misuse := by
  have hjudged := (hw.draftOf builder).2.refusal?_perform r
  rcases Orderly.perform_cases w builder r with
    ⟨misuse', hdraft, hrefused⟩ | ⟨answer, d', hdraft, hperformed⟩
  · rw [← hjudged, hdraft, hrefused, Draft.refusal?, Except.error.injEq,
      Option.some.injEq]
  · rw [← hjudged, hdraft, hperformed, Draft.refusal?]
    exact ⟨nofun, nofun⟩

theorem perform_addExternalClass (hw : Recorded w logs) {name : TypeName}
    (hname : name ∉ Ledger.analyzedNames (logs builder)) :
    ∃ c, (w.perform builder (.addExternalClass name)).1 = .ok (some (.ofClass c)) ∧
      c.name = name ∧ c.analyzed = false ∧
      (∀ h ∈ Ledger.heads (logs builder), h.name = name → h.id = c.id) ∧
      ((w.perform builder (.addExternalClass name)).2.draftOf builder).1.classes.filter
        (fun k => k.name = name) = [c] := by
  obtain ⟨c, d', hdraft, hcname, hexternal, hknown, hone⟩ :=
    (hw.draftOf builder).2.perform_addExternalClass_eq_ok hname
  have hperform : w.perform builder (.addExternalClass name) =
      (.ok (some (.ofClass c)), (w.draftOf builder).2.setDraft builder d') := by
    simp only [Workshop.perform, hdraft]
  have hafter : (((w.draftOf builder).2.setDraft builder d').draftOf builder).1 = d' := by
    simp [Workshop.draftOf, draft?, Workshop.setDraft]
  refine ⟨c, ?_, hcname, hexternal, hknown, ?_⟩
  · rw [hperform]
  · rw [hperform, hafter]
    exact hone

end Recorded

/-- Whatever the builders do, in whatever order, every draft is what has been noted of its
builder. -/
theorem recorded_run (steps : List Step) :
    Recorded (({} : Workshop).run steps) (fun b => ({} : Workshop).notedBy b [] steps) :=
  recorded_empty.run steps

/-! ## Leaving out refused requests -/

/-- What a step is answered with. -/
inductive Answer where
  | replied (reply : Except Misuse (Option Element))
  | finished (m : Model)

/-- Is the answer a refusal? -/
def Answer.refused : Answer → Bool
  | .replied (.error _) => true
  | .replied (.ok _) => false
  | .finished _ => false

/-- The answer to a step. -/
def answer (w : Workshop) : Step → Answer
  | .request builder r => .replied (w.perform builder r).1
  | .finish builder => .finished (w.finish builder).1

/-- The answers to several steps, the first one first. -/
def answers (w : Workshop) : List Step → List Answer
  | [] => []
  | s :: rest => w.answer s :: (w.step s).answers rest

/-- The steps that are not refused. -/
def accepted (w : Workshop) : List Step → List Step
  | [] => []
  | s :: rest =>
      if (w.answer s).refused then (w.step s).accepted rest
      else s :: (w.step s).accepted rest

theorem step_of_refused {s : Step} (h : (w.answer s).refused = true) : w.step s = w := by
  cases s with
  | request builder r =>
      rcases Orderly.perform_cases w builder r with
        ⟨misuse, _, hrefused⟩ | ⟨element, d', _, hperformed⟩
      · exact congrArg Prod.snd hrefused
      · rw [answer, hperformed] at h
        cases h
  | finish builder => cases h

theorem run_accepted (w : Workshop) (steps : List Step) :
    w.run (w.accepted steps) = w.run steps := by
  induction steps generalizing w with
  | nil => rfl
  | cons s rest ih =>
      rw [accepted]
      split
      · -- The step left the workshop alone, so both runs go on from the same state.
        rename_i hrefused
        have hsame := step_of_refused hrefused
        have hrun : w.run (s :: rest) = w.run rest := by
          rw [run, List.foldl_cons, hsame, run]
        rw [hrun, hsame]
        exact ih w
      · exact ih (w.step s)

theorem answers_accepted (w : Workshop) (steps : List Step) :
    w.answers (w.accepted steps) = (w.answers steps).filter (fun a => !a.refused) := by
  induction steps generalizing w with
  | nil => rfl
  | cons s rest ih =>
      rw [accepted, answers]
      split
      · rename_i hrefused
        rw [List.filter_cons_of_neg (by simp [hrefused]), step_of_refused hrefused]
        exact ih w
      · rename_i hrefused
        rw [List.filter_cons_of_pos (by simpa using hrefused), answers, ih]

/-- Whatever has happened, a request is refused exactly when the builder's notes give a
reason, and for that reason.  Otherwise a request for a class that is not analyzed is
answered with the one class of that name.  When all refused requests are left out of a
history, the other steps get the same answers, finished models among them, and the
workshop comes out the same. -/
theorem refused_iff_misuse_traceless (steps : List Step) :
    let w := ({} : Workshop).run steps
    let log := fun builder => ({} : Workshop).notedBy builder [] steps
    (∀ builder r misuse, (w.perform builder r).1 = .error misuse ↔
      Ledger.misuse? (log builder) r = some misuse) ∧
    (∀ builder name, name ∉ Ledger.analyzedNames (log builder) →
      ∃ c, (w.perform builder (.addExternalClass name)).1 = .ok (some (.ofClass c)) ∧
        c.name = name ∧ c.analyzed = false ∧
        (∀ h ∈ Ledger.heads (log builder), h.name = name → h.id = c.id) ∧
        ((w.perform builder (.addExternalClass name)).2.draftOf builder).1.classes.filter
          (fun k => k.name = name) = [c]) ∧
    ({} : Workshop).run (({} : Workshop).accepted steps) = w ∧
    ({} : Workshop).answers (({} : Workshop).accepted steps) =
      (({} : Workshop).answers steps).filter (fun a => !a.refused) := by
  intro w log
  have hw : Recorded w log := recorded_run steps
  refine ⟨?_, ?_, run_accepted {} steps, answers_accepted {} steps⟩
  · intro builder r misuse
    exact hw.perform_eq_error_iff builder r misuse
  · intro builder name hname
    exact hw.perform_addExternalClass hname

/-- One builder asks for a class twice, as an analyzed one and as one that is not, and the
other builder is handed the class.  Neither request is granted, and the class can still be
had. -/
theorem refused_iff_misuse_traceless_external :
    let c : Class :=
      { id := ⟨0, 0⟩, name := ⟨"q.B"⟩, modifiers := .empty, sourceFile := "B.java",
        analyzed := false }
    let granted : List Step := [.request "first" (.addExternalClass ⟨"q.B"⟩)]
    let steps : List Step := granted ++
      [.request "first" (.addClass ⟨"q.B"⟩ .empty),
        .request "second" (.setSourceFile c "C.java")]
    let w := ({} : Workshop).run steps
    let log := ({} : Workshop).notedBy "first" [] steps
    ⟨"q.B"⟩ ∉ Ledger.analyzedNames log ∧
      (w.perform "first" (.addClass ⟨"q.B"⟩ .empty)).1 =
        .error (.duplicateClass ⟨"q.B"⟩) ∧
      (w.perform "second" (.setSourceFile c "C.java")).1 =
        .error (.notOwned .setSourceFile "q.B") ∧
      (∃ c', (w.perform "first" (.addExternalClass ⟨"q.B"⟩)).1 =
        .ok (some (.ofClass c')) ∧
        c'.id = c.id) ∧
      ({} : Workshop).run granted = w := by
  intro c granted steps w log
  obtain ⟨hjudged, hexternal, htraceless, _⟩ := refused_iff_misuse_traceless steps
  have hname : (⟨"q.B"⟩ : TypeName) ∉ Ledger.analyzedNames log := by decide
  have hhead : (⟨c.id, c.name, .empty, false⟩ : ClassHead) ∈ Ledger.heads log := by decide
  obtain ⟨c', hanswer, _, _, hknown, _⟩ := hexternal "first" ⟨"q.B"⟩ hname
  refine ⟨hname, ?_, ?_, ⟨c', hanswer, ?_⟩, ?_⟩
  · exact (hjudged "first" _ _).mpr (by decide)
  · exact (hjudged "second" _ _).mpr (by decide)
  · exact (hknown _ hhead rfl).symm
  · exact htraceless

end Workshop

end Conformance
