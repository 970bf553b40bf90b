import Conformance.Proofs.Condition.Report

/-!
# Grouping joined conditions

Merging leaves the separator out while nothing has been written yet, and an empty message
in front writes nothing.  So a merged message joins the messages of its sides exactly when
no empty message stands before others; and since an inner joined condition merges first,
grouping to the right can lose a separator that grouping to the left keeps.  Both effects
are described here without any assumption on the messages.
-/

namespace Conformance

namespace Join

/-- The text that messages are merged into. -/
def merge (texts : List Text) : Text :=
  texts.foldl append []

/-- An empty message stands before other messages. -/
def LosesSeparator (texts : List Text) : Prop :=
  ∃ rest, rest ≠ [] ∧ texts = [] :: rest

/-- While nothing is written, an empty message leaves no trace. -/
@[simp]
theorem merge_nil_cons (texts : List Text) : merge ([] :: texts) = merge texts := rfl

theorem mergedMessage_eq_merge (left right : List Event) :
    mergedMessage left right = merge (Event.violations left ++ Event.violations right) :=
      rfl

theorem merge_eq_join_dropWhile (texts : List Text) :
    merge texts = Text.join separator (texts.dropWhile List.isEmpty) :=
  foldl_append_nil texts

theorem merge_append (xs ys : List Text) :
    merge (xs ++ ys) = ys.foldl append (merge xs) :=
  List.foldl_append

theorem merge_cons_merge (xs ys : List Text) :
    merge (merge xs :: ys) = merge (xs ++ ys) := by
  rw [merge_append]
  rfl

theorem merge_append_of_ne_nil {xs : List Text} (hxs : merge xs ≠ []) (ys : List Text) :
    merge (xs ++ ys) = Text.join separator (merge xs :: ys) := by
  rw [merge_append, foldl_append_of_ne_nil ys hxs]

/-! ## Lost separators -/

theorem length_merge_le (texts : List Text) :
    (merge texts).length ≤ (Text.join separator texts).length := by
  induction texts with
  | nil => exact Nat.le_refl 0
  | cons text rest ih =>
      by_cases htext : text = []
      · subst htext
        rw [merge_nil_cons]
        cases rest with
        | nil => exact ih
        | cons next rest =>
            refine Nat.le_trans ih ?_
            simp [Text.join, List.intercalate_cons_cons]
      · rw [merge_eq_join_dropWhile]
        simp [htext]

/-- Merging is joining as long as no separator is lost. -/
theorem merge_eq_join_iff (texts : List Text) :
    merge texts = Text.join separator texts ↔ ¬LosesSeparator texts := by
  constructor
  · rintro heq ⟨rest, hrest, rfl⟩
    have hjoin : Text.join separator ([] :: rest) =
        separator ++ Text.join separator rest := by
      rw [Text.join, List.intercalate_cons_of_ne_nil hrest]
      rfl
    have hlength := congrArg List.length heq
    rw [merge_nil_cons, hjoin, List.length_append] at hlength
    have hle := length_merge_le rest
    have hseparator : 0 < separator.length := by decide
    omega
  · intro hkept
    rw [merge_eq_join_dropWhile]
    cases texts with
    | nil => rfl
    | cons text rest =>
        by_cases htext : text = []
        · subst htext
          by_cases hrest : rest = []
          · subst hrest
            rfl
          · exact absurd ⟨rest, hrest, rfl⟩ hkept
        · simp [htext]

theorem merge_eq_nil_iff (texts : List Text) :
    merge texts = [] ↔ ∀ text ∈ texts, text = [] := by
  induction texts with
  | nil => simp [merge]
  | cons text rest ih =>
      by_cases htext : text = []
      · subst htext
        rw [merge_nil_cons, ih]
        simp
      · have hfirst : merge [text] = text := rfl
        have hcons : merge (text :: rest) = Text.join separator (text :: rest) := by
          have hmerged : merge [text] ≠ [] := by rwa [hfirst]
          have happend := merge_append_of_ne_nil hmerged rest
          rwa [hfirst, List.singleton_append] at happend
        rw [hcons]
        simp only [List.forall_mem_cons, htext, false_and, iff_false]
        cases rest with
        | nil => simpa [Text.join] using htext
        | cons next rest => simp [Text.join, List.intercalate_cons_cons, htext]

/-- Merging the end of a list first changes the outcome when something is written before
it and a separator is lost inside it. -/
theorem merge_concat_merge_iff (xs : List Text) {ys : List Text} (hys : ys ≠ []) :
    merge (xs ++ [merge ys]) = merge (xs ++ ys) ↔
      (∀ text ∈ xs, text = []) ∨ ¬LosesSeparator ys := by
  rw [← merge_eq_nil_iff]
  by_cases hxs : merge xs = []
  · rw [merge_append, merge_append, hxs]
    exact iff_of_true rfl (Or.inl rfl)
  · have hjoin : Text.join separator (merge xs :: ys) =
        merge xs ++ separator ++ Text.join separator ys := by
      rw [← List.singleton_append, Text.join_append (List.cons_ne_nil _ _) hys]
      simp [Text.join]
    have hmerged : Text.join separator [merge xs, merge ys] =
        merge xs ++ separator ++ merge ys := by
      simp [Text.join, List.intercalate_cons_cons]
    rw [merge_append_of_ne_nil hxs, merge_append_of_ne_nil hxs, hjoin, hmerged,
      List.append_cancel_left_eq, merge_eq_join_iff]
    simp [hxs]

/-! ## Regrouping -/

theorem verdict_assoc (j : Join) (a b c : Bool) :
    j.verdict (j.verdict a b) c = j.verdict a (j.verdict b c) := by
  cases j with
  | and => exact Bool.or_assoc a b c
  | or => exact Bool.and_assoc a b c

theorem violations_eq_nil_of_not_violated {left right : List Event}
    (h : verdict .and (Event.anyViolated left) (Event.anyViolated right) = false) :
    Event.violations left = [] ∧ Event.violations right = [] := by
  rw [verdict, Bool.or_eq_false_iff] at h
  exact ⟨(Event.anyViolated_eq_false_iff left).mp h.1,
    (Event.anyViolated_eq_false_iff right).mp h.2⟩

variable (j : Join) (e : Element) (left middle right : List Event)

/-- Grouping to the left merges the messages of all three sides. -/
theorem mergedMessage_events_left
    (h : j.verdict (j.verdict (Event.anyViolated left) (Event.anyViolated middle))
      (Event.anyViolated right) = true) :
    mergedMessage (j.events e left middle) right =
      merge (Event.violations left
        ++ (Event.violations middle ++ Event.violations right)) := by
  rw [mergedMessage_eq_merge, violations_events]
  -- If the inner condition reports nothing, *and* has nothing to merge there, and *or* is
  -- not violated at all.
  cases hinner : j.verdict (Event.anyViolated left) (Event.anyViolated middle) with
  | true =>
      rw [if_pos rfl, mergedMessage_eq_merge, List.singleton_append, merge_cons_merge,
        List.append_assoc]
  | false =>
      cases j with
      | and =>
          obtain ⟨hleft, hmiddle⟩ := violations_eq_nil_of_not_violated hinner
          rw [hleft, hmiddle]
          rfl
      | or =>
          rw [hinner] at h
          cases h

/-- Grouping to the right merges the messages of the last two sides first. -/
theorem mergedMessage_events_right_iff
    (h : j.verdict (Event.anyViolated left)
      (j.verdict (Event.anyViolated middle) (Event.anyViolated right)) = true) :
    mergedMessage left (j.events e middle right) =
        merge (Event.violations left
          ++ (Event.violations middle ++ Event.violations right)) ↔
      (∀ text ∈ Event.violations left, text = []) ∨
        ¬LosesSeparator (Event.violations middle ++ Event.violations right) := by
  rw [mergedMessage_eq_merge, violations_events]
  cases hinner : j.verdict (Event.anyViolated middle) (Event.anyViolated right) with
  | true =>
      rw [if_pos rfl, mergedMessage_eq_merge]
      exact merge_concat_merge_iff _ (append_violations_ne_nil hinner)
  | false =>
      cases j with
      | and =>
          obtain ⟨hmiddle, hright⟩ := violations_eq_nil_of_not_violated hinner
          rw [hmiddle, hright]
          refine iff_of_true rfl (Or.inr ?_)
          rintro ⟨rest, _, hnil⟩
          cases hnil
      | or =>
          rw [hinner, verdict, Bool.and_false] at h
          cases h

/-- Both groupings are violated together; then they report the same exactly when no
separator is lost on the right behind something written. -/
theorem events_regrouped_iff :
    j.events e (j.events e left middle) right =
      j.events e left (j.events e middle right) ↔
      (j.verdict (j.verdict (Event.anyViolated left) (Event.anyViolated middle))
          (Event.anyViolated right) = true →
        (∀ text ∈ Event.violations left, text = []) ∨
          ¬LosesSeparator (Event.violations middle ++ Event.violations right)) := by
  let violated := j.verdict
    (j.verdict (Event.anyViolated left) (Event.anyViolated middle))
    (Event.anyViolated right)
  let report := fun (message : Text) =>
    if violated then [({ elements := [e], violated := true, message } : Event)] else []
  have hassoc : violated = j.verdict (Event.anyViolated left)
      (j.verdict (Event.anyViolated middle) (Event.anyViolated right)) :=
        j.verdict_assoc _ _ _
  have hleft : j.events e (j.events e left middle) right =
      report (mergedMessage (j.events e left middle) right) := by
    rw [events, anyViolated_events]
  have hright : j.events e left (j.events e middle right) =
      report (mergedMessage left (j.events e middle right)) := by
    rw [events, anyViolated_events, ← hassoc]
  rw [hleft, hright]
  change _ ↔ (violated = true → _)
  cases hviolated : violated with
  | false => simp [report, hviolated]
  | true =>
      have hmessages : report (mergedMessage (j.events e left middle) right) =
            report (mergedMessage left (j.events e middle right)) ↔
          mergedMessage left (j.events e middle right) =
            mergedMessage (j.events e left middle) right := by
        simp [report, hviolated, eq_comm]
      rw [hmessages, mergedMessage_events_left j e left middle right hviolated,
        mergedMessage_events_right_iff j e left middle right
          (hassoc.symm.trans hviolated)]
      simp

end Join

namespace Condition

variable {α : Type} [ToElement α]

/-- A joined condition that is violated reports the messages of both sides, joined, but
without those in front that are empty.  This is the whole join unless an empty message
stands before others.  Conditions joined in one way, and grouped to the left or to the
right, are violated together; they then report the same event unless the first of them
writes something and the other two lose a separator. -/
theorem join_regrouped_iff (j : Join) (a b c : Condition α) (x : α) (m : Model) :
    let A := Event.violations (a.check x m).value
    let B := Event.violations (b.check x m).value
    let C := Event.violations (c.check x m).value
    let merged := Text.join " and " ((A ++ B).dropWhile List.isEmpty)
    (∀ description, ((a.join j b description).check x m).value =
      if j.verdict (Event.anyViolated (a.check x m).value)
        (Event.anyViolated (b.check x m).value)
      then [{ elements := [toElement x], violated := true, message := merged }]
      else []) ∧
    (merged = Text.join " and " (A ++ B) ↔ ¬Join.LosesSeparator (A ++ B)) ∧
    (∀ d₁ d₂ d₃ d₄,
      (((a.join j b d₁).join j c d₂).check x m).value =
          ((a.join j (b.join j c d₃) d₄).check x m).value ↔
        (j.verdict (j.verdict (Event.anyViolated (a.check x m).value)
            (Event.anyViolated (b.check x m).value))
              (Event.anyViolated (c.check x m).value) =
          true →
        (∀ text ∈ A, text = []) ∨ ¬Join.LosesSeparator (B ++ C))) := by
  intro A B C merged
  have hmerged : Join.merge (A ++ B) = merged := Join.merge_eq_join_dropWhile (A ++ B)
  refine ⟨?_, ?_, ?_⟩
  · intro description
    rw [← hmerged]
    rfl
  · rw [← hmerged]
    exact Join.merge_eq_join_iff (A ++ B)
  · intro d₁ d₂ d₃ d₄
    exact Join.events_regrouped_iff j (toElement x) (a.check x m).value
      (b.check x m).value
      (c.check x m).value

/-- A violated condition without words, joined with others that have some: its empty
message is left out with the separator behind it, and grouping decides whether a separator
stays. -/
theorem silence_regrouped :
    let c : Class :=
      { id := ⟨0, 0⟩, name := ⟨"p.A"⟩, modifiers := .empty, sourceFile := "A.java",
        analyzed := true }
    let m : Model := { classes := [c], edges := #[] }
    let fault := fun (text : Text) =>
      (fixed "be faultless" none [(true, text)] : Condition Class)
    let report := fun (condition : Condition Class) =>
      (condition.check c m).value.map Event.message
    report ((fault []).and (fault "y")) = [("y" : Text)] ∧
      Text.join " and " [[], "y"] = " and y" ∧
      report (((fault "x").and (fault [])).and (fault "y")) =
        [("x and  and y" : Text)] ∧
      report ((fault "x").and ((fault []).and (fault "y"))) =
        [("x and y" : Text)] := by
  decide

end Condition

end Conformance
