import Conformance.Proofs.Condition.Offered

/-!
# What a condition tree reports

A joined condition only sees the events of its two sides, and a side that is itself joined
has already merged the messages of its leaves.  The main result says that nothing is lost
or added on the way: a violated tree reports a single event, and its message is made of
the texts of the exposed leaves.

The induction compares two lists of messages at every node: those the condition reports,
and the texts of the exposed leaves.  They differ in length, since a merged message is one
message, but they are interchangeable in whatever is merged further up.
-/

namespace Conformance

namespace Event

theorem anyViolated_iff (events : List Event) :
    anyViolated events = true ↔ violations events ≠ [] := by
  simp [anyViolated, violations]

theorem anyViolated_eq_false_iff (events : List Event) :
    anyViolated events = false ↔ violations events = [] := by
  rw [← Bool.not_eq_true, anyViolated_iff, not_not]

end Event

namespace Join

/-- A joined condition reports one violated event or nothing. -/
theorem violations_events (j : Join) (e : Element) (left right : List Event) :
    Event.violations (j.events e left right) =
      if j.verdict (Event.anyViolated left) (Event.anyViolated right) then
        [mergedMessage left right]
      else
        [] := by
  unfold events
  split <;> rfl

theorem anyViolated_events (j : Join) (e : Element) (left right : List Event) :
    Event.anyViolated (j.events e left right) =
      j.verdict (Event.anyViolated left) (Event.anyViolated right) := by
  rw [events]
  split
  · rename_i hverdict
    rw [hverdict]
    rfl
  · rename_i hverdict
    rw [Bool.eq_false_iff.mpr hverdict]
    rfl

/-- A violated joined condition has a violated side. -/
theorem append_violations_ne_nil {j : Join} {left right : List Event}
    (hverdict : j.verdict (Event.anyViolated left) (Event.anyViolated right) = true) :
    Event.violations left ++ Event.violations right ≠ [] := by
  intro hnil
  obtain ⟨hleft, hright⟩ := List.append_eq_nil_iff.mp hnil
  rw [(Event.anyViolated_eq_false_iff left).mpr hleft,
    (Event.anyViolated_eq_false_iff right).mpr hright] at hverdict
  cases j <;> exact Bool.false_ne_true hverdict

end Join

namespace ConditionTree

variable {k : Kind}

theorem check_join (j : Join) (left right : ConditionTree k) (description : Text)
    (a : k.Item) (m : Model) :
    ((join j left right description).condition.check a m).value =
      j.events (k.itemElement a) (left.condition.check a m).value
        (right.condition.check a m).value := rfl

/-! ## Verdicts -/

theorem violated_join (j : Join) (left right : ConditionTree k) (description : Text)
    (a : k.Item) (m : Model) :
    (join j left right description).violated a m =
      j.verdict (left.violated a m) (right.violated a m) := by
  cases j <;> rfl

/-- A tree is violated when its condition reports a violated event. -/
theorem anyViolated_check (t : ConditionTree k) (a : k.Item) (m : Model) :
    Event.anyViolated (t.condition.check a m).value = t.violated a m := by
  induction t with
  | leaf c => rfl
  | join j left right description ihleft ihright =>
      rw [violated_join, ← ihleft a, ← ihright a, check_join, Join.anyViolated_events]
  | renamed inner description ih => exact ih a
  | widened w inner ih => exact ih (w.apply a)

/-! ## Exposed texts -/

theorem exposedTexts_leaf (c : Condition k.Item) (a : k.Item) (m : Model) :
    (leaf c).exposedTexts a m = Event.violations (c.check a m).value := by
  have hexposed : ((leaf c).leafReports a m).filter LeafReport.exposed =
      [{ above := [], events := (c.check a m).value }] := rfl
  rw [exposedTexts, hexposed, List.flatMap_singleton]
  rfl

/-- A joined node hides all its leaves unless it is violated. -/
theorem exposedTexts_join (j : Join) (left right : ConditionTree k) (description : Text)
    (a : k.Item) (m : Model) :
    (join j left right description).exposedTexts a m =
      if (join j left right description).violated a m then
        left.exposedTexts a m ++ right.exposedTexts a m
      else
        [] := by
  unfold exposedTexts
  rw [leafReports, List.filter_map, List.flatMap_map]
  cases (join j left right description).violated a m with
  | true => simp [Function.comp_def]
  | false => simp [Function.comp_def]

/-- What does not find fault has nothing to say. -/
theorem exposedTexts_eq_nil_of_not_violated (t : ConditionTree k) (a : k.Item) (m : Model)
    (h : t.violated a m = false) : t.exposedTexts a m = [] := by
  induction t with
  | leaf c =>
      rw [exposedTexts_leaf]
      exact (Event.anyViolated_eq_false_iff _).mp h
  | join j left right description =>
      rw [exposedTexts_join, h]
      exact if_neg Bool.false_ne_true
  | renamed inner description ih => exact ih a h
  | widened w inner ih => exact ih (w.apply a) h

/-- A node that joins its sides by *and* hides nothing. -/
theorem exposedTexts_join_and (left right : ConditionTree k) (description : Text)
    (a : k.Item) (m : Model) :
    (join .and left right description).exposedTexts a m =
      left.exposedTexts a m ++ right.exposedTexts a m := by
  rw [exposedTexts_join]
  split
  · rfl
  · rename_i hviolated
    rw [violated_join, Join.verdict, Bool.not_eq_true, Bool.or_eq_false_iff] at hviolated
    rw [left.exposedTexts_eq_nil_of_not_violated a m hviolated.1,
      right.exposedTexts_eq_nil_of_not_violated a m hviolated.2, List.append_nil]

theorem outspoken_join {j : Join} {left right : ConditionTree k} {description : Text}
    {a : k.Item} {m : Model} (h : (join j left right description).Outspoken a m) :
    left.Outspoken a m ∧ right.Outspoken a m := by
  have hboth : ∀ r ∈ left.leafReports a m ++ right.leafReports a m,
      ∀ text ∈ r.texts, text ≠ [] := by
    intro r hr text htext
    exact h (r.under _) (List.mem_map_of_mem hr) text htext
  constructor
  · intro r hr
    exact hboth r (List.mem_append_left _ hr)
  · intro r hr
    exact hboth r (List.mem_append_right _ hr)

/-! ## Merged messages -/

/-- When no leaf is silent, no merged message is empty either. -/
theorem violations_check_ne_nil (t : ConditionTree k) (a : k.Item) (m : Model)
    (h : t.Outspoken a m) :
    ∀ text ∈ Event.violations (t.condition.check a m).value, text ≠ [] := by
  induction t with
  | leaf c => exact h _ List.mem_cons_self
  | join j left right description ihleft ihright =>
      obtain ⟨hleft, hright⟩ := outspoken_join h
      have htexts : ∀ text ∈ Event.violations (left.condition.check a m).value ++
          Event.violations (right.condition.check a m).value, text ≠ [] :=
        List.forall_mem_append.mpr ⟨ihleft a hleft, ihright a hright⟩
      intro text htext
      rw [check_join, Join.violations_events] at htext
      split at htext
      · rename_i hverdict
        rw [List.mem_singleton] at htext
        rw [htext, Join.mergedMessage_eq_join htexts]
        exact Text.join_ne_nil (Join.append_violations_ne_nil hverdict) htexts
      · exact absurd htext List.not_mem_nil
  | renamed inner description ih => exact ih a h
  | widened w inner ih => exact ih (w.apply a) h

/-- Inside a larger tree, the messages of a condition do the same as the texts of its
exposed leaves. -/
theorem interchangeable_exposedTexts (t : ConditionTree k) (a : k.Item) (m : Model)
    (h : t.Outspoken a m) :
    Join.Interchangeable (Event.violations (t.condition.check a m).value)
      (t.exposedTexts a m) := by
  induction t with
  | leaf c =>
      rw [exposedTexts_leaf]
      exact Join.Interchangeable.refl _
  | join j left right description ihleft ihright =>
      obtain ⟨hleft, hright⟩ := outspoken_join h
      rw [exposedTexts_join, violated_join, ← anyViolated_check left,
        ← anyViolated_check right, check_join, Join.violations_events]
      split
      · rename_i hverdict
        have htexts : ∀ text ∈ Event.violations (left.condition.check a m).value ++
            Event.violations (right.condition.check a m).value, text ≠ [] :=
          List.forall_mem_append.mpr ⟨left.violations_check_ne_nil a m hleft,
            right.violations_check_ne_nil a m hright⟩
        rw [Join.mergedMessage_eq_join htexts]
        exact (Join.Interchangeable.singleton
          (Join.append_violations_ne_nil hverdict)).trans
          ((ihleft a hleft).append (ihright a hright))
      · exact Join.Interchangeable.refl []
  | renamed inner description ih => exact ih a h
  | widened w inner ih => exact ih (w.apply a) h

/-! ## The report of a tree -/

theorem check_eq_of_loneEvents? (t : ConditionTree k) (a : k.Item) (m : Model)
    {events : List Event} (h : t.loneEvents? a m = some events) :
    (t.condition.check a m).value = events := by
  induction t with
  | leaf c => exact Option.some.inj h
  | join j left right description => cases h
  | renamed inner description ih => exact ih a h
  | widened w inner ih => exact ih (w.apply a) h

/-- Without a lone leaf, the root is a joined node under new names and for narrower kinds,
and it reports about the item itself. -/
theorem check_of_not_lone (t : ConditionTree k) (a : k.Item) (m : Model)
    (h : t.loneEvents? a m = none) :
    ∃ message, (t.condition.check a m).value =
      if t.violated a m then
        [{ elements := [k.itemElement a], violated := true, message }]
      else
        [] := by
  induction t with
  | leaf c => cases h
  | join j left right description =>
      rw [check_join, violated_join, ← anyViolated_check left, ← anyViolated_check right]
      exact ⟨_, rfl⟩
  | renamed inner description ih => exact ih a h
  | widened w inner ih =>
      obtain ⟨message, hmessage⟩ := ih (w.apply a) h
      refine ⟨message, ?_⟩
      rw [← w.itemElement_apply a]
      exact hmessage

/-- The one message of a joined root is made of the exposed texts, if there are any. -/
theorem violations_check_of_not_lone (t : ConditionTree k) (a : k.Item) (m : Model)
    (hroot : t.loneEvents? a m = none) (hspeak : t.Outspoken a m) :
    Event.violations (t.condition.check a m).value =
      if t.exposedTexts a m = [] then []
      else [Text.join " and " (t.exposedTexts a m)] := by
  obtain ⟨hnil, hjoin⟩ := t.interchangeable_exposedTexts a m hspeak
  obtain ⟨message, hmessage⟩ := t.check_of_not_lone a m hroot
  split
  · rename_i hquiet
    exact hnil.mpr hquiet
  · rename_i hloud
    have hone : Event.violations (t.condition.check a m).value = [message] := by
      rw [hmessage] at hnil ⊢
      split
      · rfl
      · rename_i hviolated
        rw [if_neg hviolated] at hnil
        exact absurd (hnil.mp rfl) hloud
    rw [hone] at hjoin ⊢
    congr 1
    simpa [Text.join, Join.separator] using hjoin

/-- A tree with a joined root reports nothing unless it is violated; then it reports one
violated event about the item alone, and when no leaf is silent the message joins the
texts of the exposed leaves.  The leaves that the library offers are never silent.  A lone
leaf reports its own events, whatever they are. -/
theorem check_reports (t : ConditionTree k) (a : k.Item) (m : Model) :
    (∀ events, t.loneEvents? a m = some events → (t.condition.check a m).value = events) ∧
    (t.loneEvents? a m = none → t.violated a m = false →
      (t.condition.check a m).value = []) ∧
    (t.loneEvents? a m = none → t.violated a m = true →
      ∃ message,
        (t.condition.check a m).value =
          [{ elements := [k.itemElement a], violated := true, message }] ∧
        (t.Outspoken a m → message = Text.join " and " (t.exposedTexts a m))) ∧
    (t.Offered → t.Outspoken a m) := by
  refine ⟨fun events h => t.check_eq_of_loneEvents? a m h, ?_, ?_,
    fun h => t.outspoken_of_offered h a m⟩
  · intro hroot hviolated
    obtain ⟨message, hmessage⟩ := t.check_of_not_lone a m hroot
    simpa [hviolated] using hmessage
  · intro hroot hviolated
    obtain ⟨message, hmessage⟩ := t.check_of_not_lone a m hroot
    rw [hviolated, if_pos rfl] at hmessage
    refine ⟨message, hmessage, ?_⟩
    intro hspeak
    have hjoin := (t.interchangeable_exposedTexts a m hspeak).join_eq
    rw [hmessage] at hjoin
    simpa [Event.violations, Text.join, Join.separator] using hjoin

/-- A condition that finds one fault and, before it, something to praise. -/
def faultFinding (text : Text) : Condition Element :=
  Condition.fixed "be faultless" none [(false, "is praised"), (true, text)]

/-- A tree in which one fault is excused by an alternative, and two faults are not, one of
them found by a condition for a wider kind. -/
def excusingTree : ConditionTree .classes :=
  let fault := fun (text : Text) =>
    widened (k := .elements) (.step .classElement (.refl _)) (leaf (faultFinding text))
  let excuse := leaf (Condition.fixed "be excused" none [(false, "is excused")])
  (excuse.or (fault "is late")).and
    ((fault "is old").linked .or (renamed (fault "is odd") "be even"))

theorem excusingTree_reports :
    let c : Class :=
      { id := ⟨0, 0⟩, name := ⟨"p.A"⟩, modifiers := .empty, sourceFile := "A.java",
        analyzed := true }
    let m : Model := { classes := [c], edges := #[] }
    excusingTree.loneEvents? c m = none ∧ excusingTree.violated c m = true ∧
      excusingTree.Outspoken c m ∧
      (excusingTree.condition.check c m).value =
        [{ elements := [.ofClass c]
           violated := true
           message := "is old and is odd" }] := by
  intro c m
  have hroot : excusingTree.loneEvents? c m = none := rfl
  have hviolated : excusingTree.violated c m = true := by decide
  have hspeak : excusingTree.Outspoken c m := by
    unfold Outspoken
    decide
  obtain ⟨message, hevents, hmessage⟩ :=
    (check_reports excusingTree c m).2.2.1 hroot hviolated
  have htexts : Text.join " and " (excusingTree.exposedTexts c m) =
      "is old and is odd" := by
    decide
  refine ⟨hroot, hviolated, hspeak, ?_⟩
  rw [hevents, hmessage hspeak, htexts]
  rfl

end ConditionTree

end Conformance
