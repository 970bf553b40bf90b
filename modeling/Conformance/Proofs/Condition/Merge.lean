import Conformance.Proofs.Text.Parts
import Conformance.Rule.Condition

/-!
# Merged messages

A joined condition merges the messages of its sides by adding them one after the other.
This module states what the outcome is: the messages with the separator between every two
neighbours, except that empty messages in front are dropped.  When no message is empty
nothing is dropped, and a merged message can stand for the messages it was merged from.
-/

namespace Conformance

namespace Join

/-- The text between two merged messages. -/
def separator : Text := " and "

theorem append_of_ne_nil {merged : Text} (hmerged : merged ≠ []) (message : Text) :
    append merged message = merged ++ separator ++ message := by
  simp [append, separator, hmerged]

/-- Once something has been written, every further message is added with a separator. -/
theorem foldl_append_of_ne_nil (texts : List Text) {merged : Text}
    (hmerged : merged ≠ []) :
    texts.foldl append merged = Text.join separator (merged :: texts) := by
  induction texts generalizing merged with
  | nil => simp [Text.join]
  | cons text rest ih =>
      have hnext : append merged text ≠ [] := by
        simp [append_of_ne_nil hmerged, hmerged]
      rw [List.foldl_cons, ih hnext, append_of_ne_nil hmerged]
      cases rest with
      | nil => simp [Text.join]
      | cons next rest => simp [Text.join]

/-- Merging messages joins them, but leaves out those in front that are empty. -/
theorem foldl_append_nil (texts : List Text) :
    texts.foldl append [] = Text.join separator (texts.dropWhile List.isEmpty) := by
  induction texts with
  | nil => rfl
  | cons text rest ih =>
      have hfirst : append [] text = text := rfl
      rw [List.foldl_cons, hfirst]
      by_cases htext : text = []
      · subst htext
        simpa using ih
      · rw [foldl_append_of_ne_nil rest htext]
        simp [htext]

theorem mergedMessage_eq_join {left right : List Event}
    (htexts : ∀ text ∈ Event.violations left ++ Event.violations right, text ≠ []) :
    mergedMessage left right =
      Text.join separator (Event.violations left ++ Event.violations right) := by
  rw [mergedMessage, foldl_append_nil]
  congr 1
  cases hall : Event.violations left ++ Event.violations right with
  | nil => rfl
  | cons text rest =>
      have htext : text ≠ [] := htexts text (by rw [hall]; exact List.mem_cons_self)
      simp [htext]

/-- Two lists of messages are interchangeable inside a longer list that is going to be
merged. -/
structure Interchangeable (texts parts : List Text) : Prop where
  nil_iff : texts = [] ↔ parts = []
  join_eq : Text.join separator texts = Text.join separator parts

namespace Interchangeable

theorem refl (texts : List Text) : Interchangeable texts texts :=
  ⟨Iff.rfl, rfl⟩

/-- A merged message stands for the messages it was merged from. -/
theorem singleton {texts : List Text} (htexts : texts ≠ []) :
    Interchangeable [Text.join separator texts] texts where
  nil_iff := by simp [htexts]
  join_eq := by simp [Text.join]

theorem trans {xs ys zs : List Text} (hxy : Interchangeable xs ys)
    (hyz : Interchangeable ys zs) : Interchangeable xs zs :=
  ⟨hxy.nil_iff.trans hyz.nil_iff, hxy.join_eq.trans hyz.join_eq⟩

theorem append {xs xs' ys ys' : List Text} (hxs : Interchangeable xs xs')
    (hys : Interchangeable ys ys') : Interchangeable (xs ++ ys) (xs' ++ ys') where
  nil_iff := by
    simp only [List.append_eq_nil_iff, hxs.nil_iff, hys.nil_iff]
  join_eq := by
    by_cases hx : xs = []
    · have hx' : xs' = [] := hxs.nil_iff.mp hx
      simpa [hx, hx'] using hys.join_eq
    · have hx' : xs' ≠ [] := fun h => hx (hxs.nil_iff.mpr h)
      by_cases hy : ys = []
      · have hy' : ys' = [] := hys.nil_iff.mp hy
        simpa [hy, hy'] using hxs.join_eq
      · have hy' : ys' ≠ [] := fun h => hy (hys.nil_iff.mpr h)
        rw [Text.join_append hx hy, Text.join_append hx' hy', hxs.join_eq, hys.join_eq]

end Interchangeable

end Join

end Conformance
