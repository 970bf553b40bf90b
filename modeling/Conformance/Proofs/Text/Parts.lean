import Conformance.Text
import Mathlib.Data.List.TakeWhile

/-!
# Texts and their parts

A text can be cut at the first or at the last byte of a sort, and some texts can be joined
to one.  When the byte that divides two parts occurs in neither of them, or at least not
on the side of the cut, then the text gives its parts back: two texts that were put
together in this way are equal only if their parts are.
-/

namespace Conformance.Text

variable {p : UInt8 → Bool} {separator : Text}

/-! ## Cuts -/

theorem beforeFirst_eq_self {t : Text} (h : ∀ b ∈ t, p b = false) :
    t.beforeFirst p = t := by
  apply List.takeWhile_eq_self_iff.mpr
  intro b hb
  simp [h b hb]

/-- The cut falls at the first byte of a sort. -/
theorem beforeFirst_append_cons {t : Text} (h : ∀ b ∈ t, p b = false) {b : UInt8}
    (hb : p b) (rest : Text) : (t ++ b :: rest).beforeFirst p = t := by
  rw [beforeFirst, List.takeWhile_append_of_pos (by simpa using h)]
  simp [hb]

/-- Bytes behind a byte of the sort do not move the cut. -/
theorem beforeFirst_append {t : Text} (h : ∃ b ∈ t, p b) (rest : Text) :
    (t ++ rest).beforeFirst p = t.beforeFirst p := by
  induction t with
  | nil => simp at h
  | cons b t ih =>
      by_cases hb : p b = true
      · simp [beforeFirst, hb]
      · have htail : ∃ c ∈ t, p c := by simpa [hb] using h
        have htake := ih htail
        rw [beforeFirst, beforeFirst] at htake ⊢
        simp only [List.cons_append, List.takeWhile_cons, hb]
        simpa using htake

theorem notMem_beforeFirst {t : Text} {b : UInt8} (hb : p b) : b ∉ t.beforeFirst p := by
  intro hmem
  have htest := List.mem_takeWhile_imp hmem
  simp [hb] at htest

/-- Behind a front that is empty or ends in a separator, a text without separators is the
last part. -/
theorem afterLast_append {front t : Text}
    (hfront : front = [] ∨ ∃ init b, front = init ++ [b] ∧ p b)
    (h : ∀ b ∈ t, p b = false) : (front ++ t).afterLast p = t := by
  have hkept : ∀ b ∈ t.reverse, (!p b) = true := by simpa using h
  rw [afterLast, List.reverse_append, List.takeWhile_append_of_pos hkept]
  rcases hfront with rfl | ⟨init, b, rfl, hb⟩
  · simp
  · simp [hb]

theorem beforeLast_eq_nil {t : Text} (h : ∀ b ∈ t, p b = false) :
    t.beforeLast p = [] := by
  have hkept : ∀ b ∈ t.reverse, (!p b) = true := by simpa using h
  rw [beforeLast, List.dropWhile_eq_nil_iff.mpr hkept]
  rfl

/-- The cut falls at the last byte of a sort. -/
theorem beforeLast_append_cons {b : UInt8} (hb : p b) (front : Text) {t : Text}
    (h : ∀ c ∈ t, p c = false) : (front ++ b :: t).beforeLast p = front := by
  have hkept : ∀ c ∈ t.reverse, (!p c) = true := by simpa using h
  rw [beforeLast, List.reverse_append, List.reverse_cons, List.append_assoc,
    List.dropWhile_append_of_pos hkept]
  simp [hb]

theorem afterLast_congr {q : UInt8 → Bool} {t : Text} (h : ∀ b ∈ t, p b = q b) :
    t.afterLast p = t.afterLast q := by
  have hkept : ∀ b ∈ t.reverse, (!p b) = !q b := by
    intro b hb
    rw [h b (List.mem_reverse.mp hb)]
  have htake : t.reverse.takeWhile (fun b => !p b) =
      t.reverse.takeWhile (fun b => !q b) := by
    generalize t.reverse = u at hkept
    induction u with
    | nil => rfl
    | cons b u ih =>
        rw [List.takeWhile_cons, List.takeWhile_cons, hkept b List.mem_cons_self,
          ih fun c hc => hkept c (List.mem_cons_of_mem b hc)]
  rw [afterLast, afterLast, htake]

theorem beforeLast_sublist (t : Text) : (t.beforeLast p).Sublist t := by
  have hreversed : ((t.reverse.dropWhile (fun b => !p b)).drop 1).Sublist t.reverse :=
    (List.drop_sublist _ _).trans (List.dropWhile_sublist _)
  simpa [beforeLast] using hreversed.reverse

/-! ## Parts around a byte -/

variable {b : UInt8} {s t x y : Text}

theorem beq_eq_false_of_notMem (h : b ∉ t) : ∀ c ∈ t, (c == b) = false := by
  intro c hc
  rw [beq_eq_false_iff_ne]
  rintro rfl
  exact h hc

/-- A byte that no front contains divides in one way only: where it first occurs. -/
theorem append_cons_inj_left (hs : b ∉ s) (ht : b ∉ t) (h : s ++ b :: x = t ++ b :: y) :
    s = t ∧ x = y := by
  have hfront := congrArg (beforeFirst (· == b)) h
  rw [beforeFirst_append_cons (beq_eq_false_of_notMem hs) (beq_self_eq_true b),
    beforeFirst_append_cons (beq_eq_false_of_notMem ht) (beq_self_eq_true b)] at hfront
  rw [hfront, List.append_cancel_left_eq, List.cons.injEq] at h
  exact ⟨hfront, h.2⟩

/-- A byte that no rest contains divides in one way only: where it last occurs. -/
theorem append_cons_inj_right (hx : b ∉ x) (hy : b ∉ y) (h : s ++ b :: x = t ++ b :: y) :
    s = t ∧ x = y := by
  have hfront := congrArg (beforeLast (· == b)) h
  rw [beforeLast_append_cons (p := (· == b)) (beq_self_eq_true b) s
    (beq_eq_false_of_notMem hx), beforeLast_append_cons (p := (· == b))
      (beq_self_eq_true b) t (beq_eq_false_of_notMem hy)]
    at hfront
  rw [hfront, List.append_cancel_left_eq, List.cons.injEq] at h
  exact ⟨hfront, h.2⟩

/-! ## Joins -/

/-- The first text, and then each of the others behind a separator. -/
theorem join_cons (separator first : Text) (others : List Text) :
    join separator (first :: others) =
      first ++ others.flatMap (fun other => separator ++ other) := by
  induction others generalizing first with
  | nil => simp [join]
  | cons next rest ih =>
      have hrest := ih next
      unfold join at hrest ⊢
      rw [List.intercalate_cons_cons, hrest, List.flatMap_cons]
      simp only [List.append_assoc]

theorem join_append {xs ys : List Text} (hxs : xs ≠ []) (hys : ys ≠ []) :
    join separator (xs ++ ys) = join separator xs ++ separator ++ join separator ys := by
  obtain ⟨x, xs, rfl⟩ := List.exists_cons_of_ne_nil hxs
  obtain ⟨y, ys, rfl⟩ := List.exists_cons_of_ne_nil hys
  rw [List.cons_append, join_cons, join_cons, join_cons, List.flatMap_append,
    List.flatMap_cons]
  simp only [List.append_assoc]

theorem join_concat {texts : List Text} (htexts : texts ≠ []) (t : Text) :
    join separator (texts ++ [t]) = join separator texts ++ separator ++ t := by
  rw [join_append htexts (List.cons_ne_nil t [])]
  simp [join]

/-- A join of non-empty texts is empty only when there are no texts. -/
theorem join_ne_nil {xs : List Text} (hxs : xs ≠ []) (htexts : ∀ x ∈ xs, x ≠ []) :
    join separator xs ≠ [] := by
  obtain ⟨x, rest, rfl⟩ := List.exists_cons_of_ne_nil hxs
  intro hnil
  rw [join_cons, List.append_eq_nil_iff] at hnil
  exact htexts x List.mem_cons_self hnil.1

/-- A byte of a join stands in one of the texts or in a separator. -/
theorem mem_join {texts : List Text} (h : b ∈ join separator texts) :
    b ∈ separator ∨ ∃ t ∈ texts, b ∈ t := by
  rcases texts with - | ⟨first, others⟩
  · simp [join] at h
  · rw [join_cons, List.mem_append, List.mem_flatMap] at h
    rcases h with hfirst | ⟨other, hother, hb⟩
    · exact Or.inr ⟨first, List.mem_cons_self, hfirst⟩
    · rcases List.mem_append.mp hb with hseparator | hb
      · exact Or.inl hseparator
      · exact Or.inr ⟨other, List.mem_cons_of_mem first hother, hb⟩

/-- All of a join but its last text is empty or ends in the separator. -/
theorem join_eq_front_append {texts : List Text} (htexts : texts ≠ []) (b : UInt8) :
    ∃ front, (front = [] ∨ ∃ init, front = init ++ [b]) ∧
      join [b] texts = front ++ texts.getLast htexts := by
  obtain ⟨init, last, rfl⟩ : ∃ init last, texts = init ++ [last] :=
    ⟨_, _, (List.dropLast_concat_getLast htexts).symm⟩
  rw [List.getLast_concat]
  by_cases hinit : init = []
  · subst hinit
    exact ⟨[], Or.inl rfl, by simp [join]⟩
  · exact ⟨join [b] init ++ [b], Or.inr ⟨_, rfl⟩, join_concat hinit last⟩

/-- A separator behind a join closes the last text as it closes the others. -/
theorem join_append_separator {xs : List Text} (hxs : xs ≠ []) :
    join separator xs ++ separator = xs.flatMap (fun x => x ++ separator) := by
  obtain ⟨x, rest, rfl⟩ := List.exists_cons_of_ne_nil hxs
  rw [join_cons, List.flatMap_cons, List.append_assoc, List.append_assoc]
  congr 1
  clear hxs
  induction rest with
  | nil => simp
  | cons next rest ih =>
      rw [List.flatMap_cons, List.flatMap_cons, List.append_assoc, List.append_assoc, ih,
        List.append_assoc]

/-! ## The texts of a join -/

section

variable {rest : Text} {xs ys : List Text}

/-- A text before a list of separated ones ends where the first separator begins. -/
theorem append_flatMap_inj (hx : b ∉ x) (hy : b ∉ y)
    (h : x ++ xs.flatMap (fun other => b :: rest ++ other) =
      y ++ ys.flatMap (fun other => b :: rest ++ other)) :
    x = y ∧ xs.flatMap (fun other => b :: rest ++ other) =
      ys.flatMap (fun other => b :: rest ++ other) := by
  have hfront : ∀ {t : Text}, b ∉ t → ∀ others : List Text,
      (t ++ others.flatMap (fun other => b :: rest ++ other)).beforeFirst (· == b) =
        t := by
    intro t ht others
    rcases others with - | ⟨next, others⟩
    · rw [List.flatMap_nil, List.append_nil]
      exact beforeFirst_eq_self (beq_eq_false_of_notMem ht)
    · rw [List.flatMap_cons, List.cons_append, List.cons_append]
      exact beforeFirst_append_cons (beq_eq_false_of_notMem ht) (beq_self_eq_true b) _
  have hfirst : x = y := by
    rw [← hfront hx xs, h, hfront hy ys]
  rw [hfirst, List.append_cancel_left_eq] at h
  exact ⟨hfirst, h⟩

theorem flatMap_separated_inj (hxs : ∀ x ∈ xs, b ∉ x) (hys : ∀ y ∈ ys, b ∉ y)
    (h : xs.flatMap (fun other => b :: rest ++ other) =
      ys.flatMap (fun other => b :: rest ++ other)) : xs = ys := by
  induction xs generalizing ys with
  | nil =>
      rcases ys with - | ⟨y, ys⟩
      · rfl
      · simp at h
  | cons x xs ih =>
      rcases ys with - | ⟨y, ys⟩
      · simp at h
      · obtain ⟨hx, hxs⟩ := List.forall_mem_cons.mp hxs
        obtain ⟨hy, hys⟩ := List.forall_mem_cons.mp hys
        rw [List.flatMap_cons, List.flatMap_cons, List.append_assoc, List.append_assoc,
          List.append_cancel_left_eq] at h
        obtain ⟨hfirst, hothers⟩ := append_flatMap_inj hx hy h
        rw [hfirst, ih hxs hys hothers]

/-- Texts that lack the first byte of the separator can be read off their join, if none of
them is empty: then the join of no texts at all is that of no others. -/
theorem join_inj (hxs : ∀ x ∈ xs, x ≠ [] ∧ b ∉ x) (hys : ∀ y ∈ ys, y ≠ [] ∧ b ∉ y)
    (h : join (b :: rest) xs = join (b :: rest) ys) : xs = ys := by
  rcases xs with - | ⟨x, xs⟩
  · by_contra hne
    exact join_ne_nil (Ne.symm hne) (fun y hy => (hys y hy).1) h.symm
  · rcases ys with - | ⟨y, ys⟩
    · exact absurd h (join_ne_nil (List.cons_ne_nil x xs) fun x hx => (hxs x hx).1)
    · obtain ⟨hx, hxs⟩ := List.forall_mem_cons.mp hxs
      obtain ⟨hy, hys⟩ := List.forall_mem_cons.mp hys
      rw [join_cons, join_cons] at h
      obtain ⟨hfirst, hothers⟩ := append_flatMap_inj hx.2 hy.2 h
      rw [hfirst, flatMap_separated_inj (fun x hx => (hxs x hx).2)
        (fun y hy => (hys y hy).2)
        hothers]

/-- Texts that are closed by a byte they lack continue others when they begin with
them. -/
theorem flatMap_closed_prefix_iff (hxs : ∀ x ∈ xs, b ∉ x) (hys : ∀ y ∈ ys, b ∉ y) :
    xs.flatMap (fun x => x ++ [b]) <+: ys.flatMap (fun y => y ++ [b]) ↔ xs <+: ys := by
  constructor
  · intro h
    induction xs generalizing ys with
    | nil => exact List.nil_prefix
    | cons x xs ih =>
        rcases ys with - | ⟨y, ys⟩
        · simp at h
        · obtain ⟨hx, hxs⟩ := List.forall_mem_cons.mp hxs
          obtain ⟨hy, hys⟩ := List.forall_mem_cons.mp hys
          obtain ⟨tail, htail⟩ := h
          have hsplit : x ++ b :: (xs.flatMap (fun x => x ++ [b]) ++ tail) =
              y ++ b :: ys.flatMap (fun y => y ++ [b]) := by simpa using htail
          obtain ⟨hfirst, hothers⟩ := append_cons_inj_left hx hy hsplit
          rw [hfirst, List.prefix_cons_inj]
          exact ih hxs hys ⟨tail, hothers⟩
  · rintro ⟨others, rfl⟩
    rw [List.flatMap_append]
    exact List.prefix_append _ _

end

end Conformance.Text
