import Conformance.Pattern.Matcher

/-!
# Exact matching

The matcher searches with fuel, keeps count of the passes through loops, and goes back
when it is stuck.  What it looks for can be said without any of that: which remainders of
a name a program may leave.  For plain programs, in which a loop goes over single bytes,
the search finds a way through the whole name exactly when there is one.
-/

namespace Conformance.Pattern

namespace Program

/-- The program can use up the front of the first text and leave the second one. -/
inductive Leaves : Program → Text → Text → Prop where
  | skip (t : Text) : Leaves .skip t t
  | byte {set : ByteSet} {b : UInt8} (t : Text) (h : set.contains b = true) :
      Leaves (.byte set) (b :: t) t
  | seq {first second : Program} {t u v : Text} (hfirst : Leaves first t u)
      (hsecond : Leaves second u v) : Leaves (.seq first second) t v
  | loopDone {label : Nat} {greedy : Bool} {body : Program} (t : Text) :
      Leaves (.loop label greedy body) t t
  | loopAgain {label : Nat} {greedy : Bool} {body : Program} {t u v : Text}
      (hbody : Leaves body t u) (hloop : Leaves (.loop label greedy body) u v) :
      Leaves (.loop label greedy body) t v
  | optionalNone {label : Nat} {greedy : Bool} {body : Program} (t : Text) :
      Leaves (.optional label greedy body) t t
  | optionalSome {label : Nat} {greedy : Bool} {body : Program} {t u : Text}
      (hbody : Leaves body t u) : Leaves (.optional label greedy body) t u

/-- Programs without captures, assertions and alternatives whose loops go over single
bytes. -/
inductive Plain : Program → Prop where
  | skip : Plain .skip
  | byte (set : ByteSet) : Plain (.byte set)
  | seq {first second : Program} (hfirst : Plain first) (hsecond : Plain second) :
      Plain (.seq first second)
  | loop (label : Nat) (greedy : Bool) (set : ByteSet) :
      Plain (.loop label greedy (.byte set))
  | optional (label : Nat) (greedy : Bool) {body : Program} (hbody : Plain body) :
      Plain (.optional label greedy body)

/-- The labels of the loops and optional parts, in order. -/
def loopLabels : Program → List Nat
  | skip | byte _ | backref _ | lineStart | lineEnd | wordBoundary _ => []
  | seq a b | alt a b => a.loopLabels ++ b.loopLabels
  | group _ a | lookahead _ a => a.loopLabels
  | loop label _ a | optional label _ a => label :: a.loopLabels

theorem leaves_byte_iff {set : ByteSet} {t u : Text} :
    Leaves (.byte set) t u ↔ ∃ b, t = b :: u ∧ set.contains b = true := by
  constructor
  · intro h
    obtain _ | ⟨_, hb⟩ := h
    exact ⟨_, rfl, hb⟩
  · rintro ⟨b, rfl, hb⟩
    exact .byte u hb

theorem leaves_seq_iff {first second : Program} {t v : Text} :
    Leaves (.seq first second) t v ↔ ∃ u, Leaves first t u ∧ Leaves second u v := by
  constructor
  · intro h
    obtain _ | _ | ⟨hfirst, hsecond⟩ := h
    exact ⟨_, hfirst, hsecond⟩
  · rintro ⟨u, hfirst, hsecond⟩
    exact .seq hfirst hsecond

theorem leaves_loop_iff {label : Nat} {greedy : Bool} {body : Program} {t v : Text} :
    Leaves (.loop label greedy body) t v ↔
      t = v ∨ ∃ u, Leaves body t u ∧ Leaves (.loop label greedy body) u v := by
  constructor
  · intro h
    cases h with
    | loopDone => exact Or.inl rfl
    | loopAgain hbody hloop => exact Or.inr ⟨_, hbody, hloop⟩
  · rintro (rfl | ⟨u, hbody, hloop⟩)
    · exact .loopDone t
    · exact .loopAgain hbody hloop

/-- A loop over single bytes takes any run of them. -/
theorem leaves_loop_byte_iff {label : Nat} {greedy : Bool} {set : ByteSet} {t v : Text} :
    Leaves (.loop label greedy (.byte set)) t v ↔
      ∃ run, t = run ++ v ∧ ∀ b ∈ run, set.contains b = true := by
  constructor
  · intro h
    generalize hp : Program.loop label greedy (.byte set) = p at h
    induction h with
    | loopDone t => exact ⟨[], rfl, nofun⟩
    | loopAgain hbody hloop _ ih =>
        obtain ⟨rfl, rfl, rfl⟩ := Program.loop.inj hp
        obtain ⟨b, rfl, hb⟩ := leaves_byte_iff.mp hbody
        obtain ⟨run, rfl, hrun⟩ := ih rfl
        exact ⟨b :: run, rfl, List.forall_mem_cons.mpr ⟨hb, hrun⟩⟩
    | _ => cases hp
  · rintro ⟨run, rfl, hrun⟩
    induction run with
    | nil => exact .loopDone v
    | cons b run ih =>
        obtain ⟨hb, hrun⟩ := List.forall_mem_cons.mp hrun
        exact .loopAgain (.byte (run ++ v) hb) (ih hrun)

theorem leaves_optional_iff {label : Nat} {greedy : Bool} {body : Program} {t u : Text} :
    Leaves (.optional label greedy body) t u ↔ t = u ∨ Leaves body t u := by
  constructor
  · intro h
    cases h with
    | optionalNone => exact Or.inl rfl
    | optionalSome hbody => exact Or.inr hbody
  · rintro (rfl | hbody)
    · exact .optionalNone t
    · exact .optionalSome hbody

theorem leaves_skip_iff {t u : Text} : Leaves .skip t u ↔ t = u := by
  constructor
  · rintro ⟨⟩
    rfl
  · rintro rfl
    exact .skip t

/-- The programs, one after the other, use the text up. -/
def UseUp : List Program → Text → Prop
  | [], t => t = []
  | p :: ps, t => ∃ u, p.Leaves t u ∧ UseUp ps u

theorem useUp_seq_iff {first second : Program} {ps : List Program} {t : Text} :
    UseUp (.seq first second :: ps) t ↔ UseUp (first :: second :: ps) t := by
  simp only [UseUp, leaves_seq_iff]
  constructor
  · rintro ⟨v, ⟨u, hfirst, hsecond⟩, hps⟩
    exact ⟨u, hfirst, v, hsecond, hps⟩
  · rintro ⟨u, hfirst, v, hsecond, hps⟩
    exact ⟨v, ⟨u, hfirst, hsecond⟩, hps⟩

/-- A loop is left, or its body is passed once more. -/
theorem useUp_loop_iff {label : Nat} {greedy : Bool} {body : Program} {ps : List Program}
    {t : Text} : UseUp (.loop label greedy body :: ps) t ↔
      UseUp ps t ∨ ∃ u, Leaves body t u ∧ UseUp (.loop label greedy body :: ps) u := by
  constructor
  · rintro ⟨v, hloop, hps⟩
    rcases leaves_loop_iff.mp hloop with rfl | ⟨u, hbody, hloop⟩
    · exact Or.inl hps
    · exact Or.inr ⟨u, hbody, v, hloop, hps⟩
  · rintro (hps | ⟨u, hbody, v, hloop, hps⟩)
    · exact ⟨t, .loopDone t, hps⟩
    · exact ⟨v, .loopAgain hbody hloop, hps⟩

/-- An optional part is left out, or its body is passed. -/
theorem useUp_optional_iff {label : Nat} {greedy : Bool} {body : Program}
    {ps : List Program} {t : Text} :
    UseUp (.optional label greedy body :: ps) t ↔ UseUp ps t ∨ UseUp (body :: ps) t := by
  constructor
  · rintro ⟨u, hoptional, hps⟩
    rcases leaves_optional_iff.mp hoptional with rfl | hbody
    · exact Or.inl hps
    · exact Or.inr ⟨u, hbody, hps⟩
  · rintro (hps | ⟨u, hbody, hps⟩)
    · exact ⟨t, .optionalNone t, hps⟩
    · exact ⟨u, .optionalSome hbody, hps⟩

/-- All nodes of the programs together. -/
def totalSize : List Program → Nat
  | [] => 0
  | p :: ps => p.size + totalSize ps

theorem size_pos (p : Program) : 0 < p.size := by
  cases p <;> simp [size]

end Program

namespace Outcome

/-- Something is found by one search or by the other one, whatever the first one leaves
behind. -/
theorem isFound_orElse_iff {o : Outcome} {next : Captures → Outcome} {P Q : Prop}
    (ho : o.isFound = true ↔ P) (hnext : ∀ c, (next c).isFound = true ↔ Q) :
    (o.orElse next).isFound = true ↔ P ∨ Q := by
  cases o with
  | found c => exact iff_of_true rfl (Or.inl (ho.mp rfl))
  | missed c =>
      have hP : ¬ P := fun h => Bool.false_ne_true (ho.mpr h)
      rw [orElse, hnext, or_iff_right hP]

end Outcome

namespace Search

open Program

/-- No loop among the labels has been entered at the position or behind it. -/
def Ready (passes : Passes) (position : Nat) (labels : List Nat) : Prop :=
  ∀ label ∈ labels, (passes.getD label (0, 0)).2 = 0 ∨
    (passes.getD label (0, 0)).1 < position

theorem Ready.oncemore? {passes : Passes} {position label : Nat} {labels : List Nat}
    (h : Ready passes position (label :: labels)) :
    oncemore? passes label position =
      some (passes.setIfInBounds label (position, 1)) := by
  have hlabel := h label List.mem_cons_self
  rw [Search.oncemore?]
  exact if_pos (hlabel.imp_right Nat.ne_of_lt)

theorem getD_setIfInBounds_of_ne {passes : Passes} {label other : Nat} (h : label ≠ other)
    (pass : Nat × Nat) :
    (passes.setIfInBounds label pass).getD other (0, 0) = passes.getD other (0, 0) := by
  simp [Array.getD_eq_getD_getElem?, Array.getElem?_setIfInBounds_ne h]

/-- A pass through one loop leaves the other ones as they were. -/
theorem Ready.enter {passes : Passes} {position label : Nat} {labels : List Nat}
    (h : Ready passes position labels) (hlabel : label ∉ labels) :
    Ready (passes.setIfInBounds label (position, 1)) position labels := by
  intro other hother
  have hne : label ≠ other := fun heq => hlabel (heq ▸ hother)
  rw [getD_setIfInBounds_of_ne hne]
  exact h other hother

/-- A loop can be entered again at the next position. -/
theorem Ready.advance {passes : Passes} {position label : Nat} {labels : List Nat}
    (h : Ready passes position labels) :
    Ready (passes.setIfInBounds label (position, 1)) (position + 1) labels := by
  intro other hother
  by_cases hne : label = other
  · rw [← hne, Array.getD_eq_getD_getElem?, Array.getElem?_setIfInBounds, if_pos rfl]
    by_cases hsize : label < passes.size
    · rw [if_pos hsize]
      exact Or.inr (Nat.lt_succ_self position)
    · rw [if_neg hsize]
      exact Or.inl rfl
  · rw [getD_setIfInBounds_of_ne hne]
    exact (h other hother).imp_right Nat.lt_succ_of_lt

theorem Ready.mono {passes : Passes} {position : Nat} {labels fewer : List Nat}
    (h : Ready passes position labels) (hfewer : fewer ⊆ labels) :
    Ready passes position fewer :=
  fun label hlabel => h label (hfewer hlabel)

theorem ready_succ {passes : Passes} {position : Nat} {labels : List Nat}
    (h : Ready passes position labels) : Ready passes (position + 1) labels :=
  fun label hlabel => (h label hlabel).imp_right Nat.lt_succ_of_lt

variable (s : Search)

/-- What remains of the name at a position. -/
def rest (position : Nat) : Text :=
  s.name.toList.drop position

theorem rest_eq_cons {position : Nat} {b : UInt8} (h : s.name[position]? = some b) :
    s.rest position = b :: s.rest (position + 1) := by
  obtain ⟨hlt, hb⟩ := Array.getElem?_eq_some_iff.mp h
  rw [rest, List.drop_eq_getElem_cons (by simpa using hlt), Array.getElem_toList, hb]
  rfl

theorem rest_eq_nil {position : Nat} (h : s.name[position]? = none) :
    s.rest position = [] := by
  rw [Array.getElem?_eq_none_iff] at h
  exact List.drop_eq_nil_of_le (by simpa using h)

/-- A byte is found at a position where a byte of the set is, and the search goes on
behind it. -/
theorem isFound_run_byte_iff {set : ByteSet} {goals : List Goal} {fuel position : Nat}
    {passes : Passes} {captures : Captures} {P : Text → Prop}
    (h : ∀ b, s.name[position]? = some b →
      ((s.run fuel goals (position + 1) passes captures).isFound = true ↔
        P (s.rest (position + 1)))) :
    (s.run (fuel + 1) (.part (.byte set) :: goals) position passes captures).isFound =
      true ↔
      ∃ u, (Program.byte set).Leaves (s.rest position) u ∧ P u := by
  simp only [run, leaves_byte_iff]
  cases hbyte : s.name[position]? with
  | none =>
      rw [s.rest_eq_nil hbyte]
      simp [Outcome.isFound]
  | some b =>
      rw [s.rest_eq_cons hbyte]
      by_cases hb : set.contains b = true
      · simp only [hb, if_true, h b hbyte]
        constructor
        · exact fun hP => ⟨_, ⟨b, rfl, hb⟩, hP⟩
        · rintro ⟨u, ⟨_, hu, _⟩, hP⟩
          exact (List.cons.inj hu).2 ▸ hP
      · simp [hb, Outcome.isFound]

/-- With enough fuel, and with no loop entered where the search stands, the search through
plain programs finds a way exactly when they use up what remains of the name.  Every step
shrinks the programs, except for a pass through a loop, which is paid for by the byte it
takes. -/
theorem isFound_run_iff (hwhole : s.whole = true) (ps : List Program)
    (fuel position : Nat) (passes : Passes) (captures : Captures)
    (hplain : ∀ p ∈ ps, p.Plain) (hnodup : (ps.flatMap loopLabels).Nodup)
    (hready : Ready passes position (ps.flatMap loopLabels))
    (hposition : position ≤ s.name.size)
    (hfuel : totalSize ps + 2 * (s.name.size - position) < fuel) :
    (s.run fuel (ps.map .part) position passes captures).isFound = true ↔
      UseUp ps (s.rest position) := by
  induction fuel using Nat.strongRecOn generalizing ps position passes captures with
  | ind fuel ih =>
      obtain ⟨fuel, rfl⟩ : ∃ n, fuel = n + 1 := ⟨fuel - 1, by omega⟩
      match ps with
      | [] =>
          have hrest : s.rest position = [] ↔ position = s.name.size := by
            rw [rest, List.drop_eq_nil_iff, Array.length_toList]
            omega
          rw [UseUp, hrest]
          by_cases hend : position = s.name.size
          · simp [run, hwhole, hend, Outcome.isFound]
          · simp [run, hwhole, hend, Outcome.isFound]
      | p :: ps =>
          obtain ⟨hp, hps⟩ := List.forall_mem_cons.mp hplain
          rw [totalSize] at hfuel
          rw [List.flatMap_cons] at hnodup hready
          have hnodup' := (List.nodup_append.mp hnodup).2.1
          have hready' := hready.mono (List.subset_append_right _ _)
          -- The programs after the first one, from where the search stands.
          have hpos := p.size_pos
          have hgoOn : ∀ c, (s.run fuel (ps.map .part) position passes c).isFound = true ↔
              UseUp ps (s.rest position) :=
            fun c => ih fuel (by omega) ps position passes c hps hnodup' hready' hposition
              (by omega)
          cases hp with
          | skip =>
              rw [UseUp]
              simp only [leaves_skip_iff, exists_eq_left']
              exact hgoOn captures
          | byte set =>
              refine s.isFound_run_byte_iff fun b hb => ?_
              have hlt := (Array.getElem?_eq_some_iff.mp hb).1
              exact ih fuel (by omega) ps _ _ _ hps hnodup' (ready_succ hready') hlt
                (by omega)
          | @seq first second hfirst hsecond =>
              rw [useUp_seq_iff]
              rw [loopLabels, List.append_assoc] at hnodup hready
              rw [size] at hfuel
              refine ih fuel (by omega)
                (first :: second :: ps) _ _ _ ?_ hnodup hready hposition ?_
              · exact List.forall_mem_cons.mpr
                  ⟨hfirst, List.forall_mem_cons.mpr ⟨hsecond, hps⟩⟩
              · rw [totalSize, totalSize]
                omega
          | loop label greedy set =>
              have honce := hready.oncemore?
              have hagain : ∀ c, (s.run fuel (.part (.byte set) ::
                  ((.loop label greedy (.byte set)) :: ps).map .part) position
                  (passes.setIfInBounds label (position, 1)) c).isFound = true ↔
                  ∃ u, (Program.byte set).Leaves (s.rest position) u ∧
                    UseUp (.loop label greedy (.byte set) :: ps) u := by
                intro c
                obtain ⟨fuel, rfl⟩ : ∃ n, fuel = n + 1 := ⟨fuel - 1, by omega⟩
                refine s.isFound_run_byte_iff fun b hb => ?_
                have hlt := (Array.getElem?_eq_some_iff.mp hb).1
                refine ih fuel (by omega)
                  (.loop label greedy (.byte set) :: ps) _ _ _ hplain hnodup
                  hready.advance hlt ?_
                rw [totalSize]
                omega
              rw [useUp_loop_iff]
              simp only [List.map_cons, run, honce]
              cases greedy with
              | true =>
                  rw [or_comm]
                  exact Outcome.isFound_orElse_iff (hagain captures) hgoOn
              | false => exact Outcome.isFound_orElse_iff (hgoOn captures) hagain
          | @optional label greedy body hbody =>
              have honce := hready.oncemore?
              rw [loopLabels, List.cons_append] at hnodup hready
              obtain ⟨hlabel, hnodup⟩ := List.nodup_cons.mp hnodup
              have hready := (hready.mono (List.subset_cons_self _ _)).enter hlabel
              have hagain : ∀ c, (s.run fuel ((body :: ps).map .part) position
                  (passes.setIfInBounds label (position, 1)) c).isFound = true ↔
                  UseUp (body :: ps) (s.rest position) := by
                intro c
                rw [size] at hfuel
                refine ih fuel (by omega) (body :: ps) _ _ _
                  (List.forall_mem_cons.mpr ⟨hbody, hps⟩)
                  hnodup hready hposition ?_
                rw [totalSize]
                omega
              rw [useUp_optional_iff]
              simp only [List.map_cons, run, honce]
              cases greedy with
              | true =>
                  rw [or_comm]
                  exact Outcome.isFound_orElse_iff (hagain captures) hgoOn
              | false => exact Outcome.isFound_orElse_iff (hgoOn captures) hagain

end Search

/-- The fuel for a search is enough for a plain program. -/
theorem size_lt_fuelFor (p : Program) (length : Nat) :
    p.size + 2 * length < fuelFor p length := by
  have hcube : p.size + 1 ≤ (p.size + 1) * (p.size + 1) * (p.size + 1) := by
    rw [Nat.mul_assoc]
    exact Nat.le_mul_of_pos_right _ (Nat.mul_pos p.size.succ_pos p.size.succ_pos)
  have hsize : p.size + 1 ≤ (p.size + 1) * (p.size + 1) * (p.size + 1) * (length + 1) :=
    Nat.le_trans hcube (Nat.le_mul_of_pos_right _ length.succ_pos)
  have hlength : length + 1 ≤ (p.size + 1) * (p.size + 1) * (p.size + 1) * (length + 1) :=
    Nat.le_mul_of_pos_left _ (Nat.lt_of_lt_of_le p.size.succ_pos hcube)
  rw [fuelFor, Nat.mul_assoc]
  omega

/-- A plain pattern matches a name when its program can use the name up, and only then. -/
theorem matchesWhole_iff (p : Pattern) (hplain : p.program.Plain)
    (hnodup : p.program.loopLabels.Nodup) (name : Text) :
    p.matchesWhole name = true ↔ p.program.Leaves name [] := by
  have hready : Search.Ready
      (Array.replicate p.labels (0, 0)) 0 p.program.loopLabels := by
    intro label _
    rw [Array.getD_eq_getD_getElem?, Array.getElem?_replicate]
    by_cases hlabel : label < p.labels <;> simp [hlabel]
  have hfuel : Program.totalSize [p.program] + 2 * (name.toArray.size - 0) <
      fuelFor p.program name.length := by
    rw [Program.totalSize]
    exact size_lt_fuelFor p.program name.length
  have hfound := Search.isFound_run_iff
    { name := name.toArray, start := 0, whole := true } rfl [p.program]
    (fuelFor p.program name.length) 0 (Array.replicate p.labels (0, 0))
    (Array.replicate (p.groups + 1) {}) (List.forall_mem_singleton.mpr hplain)
    (by rwa [List.flatMap_singleton]) (by rwa [List.flatMap_singleton])
      (Nat.zero_le _) hfuel
  refine hfound.trans ?_
  simp [Program.UseUp, Search.rest]

/-! ## Trees -/

/-- However the labels of its program are chosen, the tree has a plain program that leaves
the remainders of the relation.  The labels are those from the next free one on, each used
once. -/
structure Tree.Means (tree : Tree) (leaves : Text → Text → Prop) : Prop where
  le_next : ∀ next, next ≤ (Program.ofTree tree next).2
  plain : ∀ next, (Program.ofTree tree next).1.Plain
  nodup_labels : ∀ next, (Program.ofTree tree next).1.loopLabels.Nodup
  mem_labels : ∀ next, ∀ label ∈ (Program.ofTree tree next).1.loopLabels,
    next ≤ label ∧ label < (Program.ofTree tree next).2
  leaves_iff : ∀ next t u, (Program.ofTree tree next).1.Leaves t u ↔ leaves t u

namespace Tree.Means

variable {tree first second : Tree} {leaves leaves' : Text → Text → Prop}

theorem congr (h : tree.Means leaves) (hleaves : ∀ t u, leaves t u ↔ leaves' t u) :
    tree.Means leaves' :=
  { h with leaves_iff := fun next t u => (h.leaves_iff next t u).trans (hleaves t u) }

theorem empty : Tree.empty.Means (fun t u => t = u) where
  le_next := Nat.le_refl
  plain := fun _ => .skip
  nodup_labels := fun _ => List.nodup_nil
  mem_labels := fun _ _ h => absurd h List.not_mem_nil
  leaves_iff := fun _ _ _ => Program.leaves_skip_iff

theorem byte (set : ByteSet) :
    (Tree.byte set).Means (fun t u => ∃ b, t = b :: u ∧ set.contains b = true) where
  le_next := Nat.le_refl
  plain := fun _ => .byte set
  nodup_labels := fun _ => List.nodup_nil
  mem_labels := fun _ _ h => absurd h List.not_mem_nil
  leaves_iff := fun _ _ _ => Program.leaves_byte_iff

theorem seq (hfirst : first.Means leaves) (hsecond : second.Means leaves') :
    (Tree.seq first second).Means (fun t v => ∃ u, leaves t u ∧ leaves' u v) where
  le_next := fun next => Nat.le_trans (hfirst.le_next next) (hsecond.le_next _)
  plain := fun next => .seq (hfirst.plain next) (hsecond.plain _)
  nodup_labels := by
    intro next
    refine List.nodup_append.mpr ⟨hfirst.nodup_labels next, hsecond.nodup_labels _, ?_⟩
    intro label hlabel other hother
    exact Nat.ne_of_lt (Nat.lt_of_lt_of_le (hfirst.mem_labels next label hlabel).2
      (hsecond.mem_labels _ other hother).1)
  mem_labels := by
    intro next label hlabel
    rcases List.mem_append.mp hlabel with hlabel | hlabel
    · have hmem := hfirst.mem_labels next label hlabel
      exact ⟨hmem.1, Nat.lt_of_lt_of_le hmem.2 (hsecond.le_next _)⟩
    · have hmem := hsecond.mem_labels _ label hlabel
      exact ⟨Nat.le_trans (hfirst.le_next next) hmem.1, hmem.2⟩
  leaves_iff := by
    intro next t v
    simp only [← hfirst.leaves_iff next,
      ← hsecond.leaves_iff (Program.ofTree first next).2]
    exact Program.leaves_seq_iff

theorem optional (greedy : Bool) (h : tree.Means leaves) :
    (Tree.repeated ⟨.optional, greedy⟩ tree).Means (fun t u => t = u ∨ leaves t u) where
  le_next := fun next => Nat.le_of_succ_le (h.le_next (next + 1))
  plain := fun next => .optional next greedy (h.plain (next + 1))
  nodup_labels := by
    intro next
    refine List.nodup_cons.mpr ⟨fun hnext => ?_, h.nodup_labels (next + 1)⟩
    exact Nat.not_succ_le_self next (h.mem_labels (next + 1) next hnext).1
  mem_labels := by
    intro next label hlabel
    rcases List.mem_cons.mp hlabel with rfl | hlabel
    · exact ⟨Nat.le_refl label, h.le_next (label + 1)⟩
    · have hmem := h.mem_labels (next + 1) label hlabel
      exact ⟨Nat.le_of_succ_le hmem.1, hmem.2⟩
  leaves_iff := by
    intro next t u
    rw [← h.leaves_iff (next + 1)]
    exact Program.leaves_optional_iff

theorem star (greedy : Bool) (set : ByteSet) :
    (Tree.repeated ⟨.star, greedy⟩ (.byte set)).Means
      (fun t u => ∃ run, t = run ++ u ∧ ∀ b ∈ run, set.contains b = true) where
  le_next := Nat.le_succ
  plain := fun next => .loop next greedy set
  nodup_labels := fun _ => List.pairwise_singleton _ _
  mem_labels := by
    intro next label hlabel
    rw [List.mem_singleton.mp hlabel]
    exact ⟨Nat.le_refl next, Nat.lt_succ_self next⟩
  leaves_iff := fun _ _ _ => Program.leaves_loop_byte_iff

theorem plus (greedy : Bool) (set : ByteSet) :
    (Tree.repeated ⟨.plus, greedy⟩ (.byte set)).Means
      (fun t u => ∃ run, t = run ++ u ∧ run ≠ [] ∧ ∀ b ∈ run, set.contains b = true) where
  le_next := Nat.le_succ
  plain := fun next => .seq (.byte set) (.loop next greedy set)
  nodup_labels := fun _ => List.pairwise_singleton _ _
  mem_labels := by
    intro next label hlabel
    rw [List.mem_singleton.mp hlabel]
    exact ⟨Nat.le_refl next, Nat.lt_succ_self next⟩
  leaves_iff := by
    intro next t v
    refine Program.leaves_seq_iff.trans ?_
    simp only [Program.leaves_byte_iff, Program.leaves_loop_byte_iff]
    constructor
    · rintro ⟨_, ⟨b, rfl, hb⟩, run, rfl, hrun⟩
      exact ⟨b :: run, rfl, nofun, List.forall_mem_cons.mpr ⟨hb, hrun⟩⟩
    · rintro ⟨run, rfl, hne, hrun⟩
      obtain ⟨b, run, rfl⟩ := List.exists_cons_of_ne_nil hne
      obtain ⟨hb, hrun⟩ := List.forall_mem_cons.mp hrun
      exact ⟨run ++ v, ⟨b, rfl, hb⟩, run, rfl, hrun⟩

/-- The matcher is exact for the pattern of such a tree. -/
theorem matchesWhole_iff (h : tree.Means leaves) (groups : Nat) (name : Text) :
    (ofTree tree groups).matchesWhole name = true ↔ leaves name [] :=
  (Pattern.matchesWhole_iff _ (h.plain 0) (h.nodup_labels 0) name).trans
    (h.leaves_iff 0 name [])

end Tree.Means

end Conformance.Pattern
