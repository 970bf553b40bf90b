import Conformance.Proofs.Package.Remainders
import Mathlib.Data.List.Forall2

/-!
# Identifiers segment by segment

The pieces of a package identifier work on the bytes of a name.  An identifier is meant
segment by segment, though: two dots stand for some segments of the name, and anything
between dots for a single one.  For an identifier that is put together from segments, both
views agree.
-/

namespace Conformance.Package

/-! ## Cuts -/

/-- The items can be cut into runs that match the pattern in order. -/
def Cuts {α β : Type} (covers : α → List β → Prop) (pattern : List α)
    (items : List β) : Prop :=
  ∃ runs : List (List β), runs.flatten = items ∧ List.Forall₂ covers pattern runs

section Cuts

variable {α β : Type} {covers : α → List β → Prop}

theorem cuts_nil {items : List β} : Cuts covers [] items ↔ items = [] := by
  constructor
  · rintro ⟨runs, rfl, h⟩
    cases h
    rfl
  · rintro rfl
    exact ⟨[], rfl, .nil⟩

theorem cuts_cons {a : α} {pattern : List α} {items : List β} :
    Cuts covers (a :: pattern) items ↔
      ∃ run rest, items = run ++ rest ∧ covers a run ∧ Cuts covers pattern rest := by
  constructor
  · rintro ⟨runs, rfl, h⟩
    obtain _ | ⟨hrun, hruns⟩ := h
    exact ⟨_, _, rfl, hrun, _, rfl, hruns⟩
  · rintro ⟨run, rest, rfl, hrun, runs, rfl, hruns⟩
    exact ⟨run :: runs, rfl, .cons hrun hruns⟩

end Cuts

/-! ## Segments of names -/

/-- The segments of a name. -/
def segmentsOf (name : Text) : List Text :=
  name.splitOn Text.dot

theorem segmentsOf_of_dot_notMem {name : Text} (h : Text.dot ∉ name) :
    segmentsOf name = [name] :=
  List.splitOn_eq_singleton h

theorem segmentsOf_append_dot (front rest : Text) :
    segmentsOf (front ++ Text.dot :: rest) = segmentsOf front ++ segmentsOf rest :=
  List.splitOn_append_cons_self front rest

theorem segmentsOf_ne_nil (name : Text) : segmentsOf name ≠ [] :=
  List.splitOn_ne_nil _ _

/-- Induction over the segments of a name. -/
@[elab_as_elim]
theorem segment_induction {motive : Text → Prop}
    (last : ∀ segment, Text.dot ∉ segment → motive segment)
    (step : ∀ segment rest, Text.dot ∉ segment → motive rest →
      motive (segment ++ Text.dot :: rest)) (name : Text) : motive name := by
  generalize hlength : name.length = n
  induction n using Nat.strongRecOn generalizing name with
  | ind n ih =>
      by_cases hdot : Text.dot ∈ name
      · obtain ⟨segment, rest, rfl, hsegment⟩ := List.eq_append_cons_of_mem hdot
        rw [List.length_append, List.length_cons] at hlength
        exact step segment rest hsegment (ih rest.length (by omega) rest rfl)
      · exact last name hdot

theorem segmentsOf_cons {segment : Text} (h : Text.dot ∉ segment) (rest : Text) :
    segmentsOf (segment ++ Text.dot :: rest) = segment :: segmentsOf rest :=
  List.splitOn_append_cons_self_of_not_mem h rest

/-- What holds of a dot holds of all bytes of a name when it holds of those of its
segments. -/
theorem forall_mem_segmentsOf {p : UInt8 → Prop} (hdot : p Text.dot) (name : Text) :
    (∀ segment ∈ segmentsOf name, ∀ b ∈ segment, p b) ↔ ∀ b ∈ name, p b := by
  induction name using segment_induction with
  | last segment hsegment =>
      rw [segmentsOf_of_dot_notMem hsegment, List.forall_mem_singleton]
  | step segment rest hsegment ih =>
      rw [segmentsOf_cons hsegment, List.forall_mem_cons, ih, List.forall_mem_append,
        List.forall_mem_cons]
      exact and_congr_right fun _ => (and_iff_right hdot).symm

/-! ## Identifiers -/

/-- The byte that stands for a run of word bytes. -/
def star : UInt8 := 42

/-- A segment of an identifier: some bytes, none of them a dot. -/
structure Segment where
  bytes : Text
  ne_nil : bytes ≠ []
  dot_notMem : Text.dot ∉ bytes

/-- The runs of bytes that a byte of a segment stands for: one or more word bytes for a
star, and the byte alone for any other. -/
def ByteCovers (b : UInt8) (run : Text) : Prop :=
  if b = star then run ≠ [] ∧ ∀ x ∈ run, Pattern.ByteClass.word.contains x = true
  else run = [b]

/-- The segment of the identifier matches a segment of a name. -/
def Segment.Matches (s : Segment) (segment : Text) : Prop :=
  Cuts ByteCovers s.bytes segment

/-- What stands between two segments of an identifier. -/
inductive Separator where
  | dot
  | gap

/-- The bytes of the separator. -/
def Separator.text : Separator → Text
  | dot => [Text.dot]
  | gap => Package.gap

/-- An identifier that is put together from segments: two dots alone, or some segments
with separators between them, and perhaps two dots in front and at the end. -/
inductive Identifier where
  | anything
  | segments (leading : Bool) (first : Segment) (others : List (Separator × Segment))
      (trailing : Bool)

/-- The part of an identifier: two dots, or a segment. -/
inductive Part where
  | gap
  | segment (s : Segment)

/-- The runs of segments that a part stands for: any number of segments without the end of
a line for two dots, and exactly one that matches for a segment. -/
def Part.Covers : Part → List Text → Prop
  | gap, run => ∀ segment ∈ run, ∀ b ∈ segment, skippable b = true
  | segment s, run => ∃ segment, run = [segment] ∧ s.Matches segment

namespace Identifier

/-- The bytes of the segments after the first one. -/
def othersText : List (Separator × Segment) → Text
  | [] => []
  | (separator, s) :: others => separator.text ++ (s.bytes ++ othersText others)

/-- The bytes of the identifier. -/
def text : Identifier → Text
  | anything => gap
  | segments leading first others trailing =>
      (if leading then gap else []) ++ (first.bytes ++ othersText others)
        ++ (if trailing then gap else [])

/-- The parts after the first segment. -/
def otherParts (trailing : Bool) : List (Separator × Segment) → List Part
  | [] => if trailing then [.gap] else []
  | (.dot, s) :: others => .segment s :: otherParts trailing others
  | (.gap, s) :: others => .gap :: .segment s :: otherParts trailing others

/-- The parts of the identifier, in order. -/
def parts : Identifier → List Part
  | anything => [.gap]
  | segments leading first others trailing =>
      (if leading then [.gap] else []) ++ .segment first :: otherParts trailing others

/-- The name can be cut, segment by segment, into runs that match the parts in order. -/
def Describes (d : Identifier) (name : Text) : Prop :=
  Cuts Part.Covers d.parts (segmentsOf name)

end Identifier

/-! ## Segments of identifiers -/

/-- The piece of a byte within a segment. -/
def Piece.ofByte (b : UInt8) : Piece :=
  if b = star then .word else .byte b

theorem mem_remainders_ofByte {b : UInt8} {name rest : Text} :
    rest ∈ (Piece.ofByte b).remainders name ↔ ∃ run, name = run ++ rest ∧
      ByteCovers b run := by
  by_cases hstar : b = star
  · simp only [Piece.ofByte, ByteCovers, if_pos hstar]
    exact mem_afterWord
  · simp only [Piece.ofByte, ByteCovers, if_neg hstar, mem_remainders_byte]
    constructor
    · rintro rfl
      exact ⟨[b], rfl, rfl⟩
    · rintro ⟨_, rfl, rfl⟩
      rfl

theorem ByteCovers.dot_notMem {b : UInt8} {run : Text} (h : ByteCovers b run)
    (hb : Text.dot ≠ b) : Text.dot ∉ run := by
  by_cases hstar : b = star
  · rw [ByteCovers, if_pos hstar] at h
    intro hdot
    exact absurd (h.2 _ hdot) (by decide)
  · rw [ByteCovers, if_neg hstar] at h
    rw [h, List.mem_singleton]
    exact hb

/-- Bytes without a dot stay within a segment. -/
theorem dot_notMem_of_cuts {bytes segment : Text} (h : Cuts ByteCovers bytes segment)
    (hbytes : Text.dot ∉ bytes) : Text.dot ∉ segment := by
  induction bytes generalizing segment with
  | nil => exact cuts_nil.mp h ▸ List.not_mem_nil
  | cons b bytes ih =>
      obtain ⟨run, rest, rfl, hrun, hrest⟩ := cuts_cons.mp h
      rw [List.mem_cons, not_or] at hbytes
      rw [List.mem_append, not_or]
      exact ⟨hrun.dot_notMem hbytes.1, ih hrest hbytes.2⟩

theorem usesUp_map_ofByte_append (bytes : Text) (ps : List Piece) (name : Text) :
    UsesUp (bytes.map Piece.ofByte ++ ps) name ↔
      ∃ segment rest, name = segment ++ rest ∧ Cuts ByteCovers bytes segment ∧
        UsesUp ps rest := by
  induction bytes generalizing name with
  | nil => simp [cuts_nil]
  | cons b bytes ih =>
      simp only [List.map_cons, List.cons_append, UsesUp, mem_remainders_ofByte, ih,
        cuts_cons]
      constructor
      · rintro ⟨_, ⟨run, rfl, hrun⟩, segment, rest, rfl, hsegment, hrest⟩
        exact ⟨run ++ segment, rest, (List.append_assoc ..).symm,
          ⟨run, segment, rfl, hrun, hsegment⟩, hrest⟩
      · rintro ⟨_, rest, rfl, ⟨run, segment, rfl, hrun, hsegment⟩, hrest⟩
        exact ⟨segment ++ rest, ⟨run, List.append_assoc .., hrun⟩, segment, rest, rfl,
          hsegment, hrest⟩

/-! ## Pieces of identifiers -/

theorem innerPieces_cons_of_ne {b : UInt8} (hb : b ≠ Text.dot) (rest : Text) :
    innerPieces (b :: rest) = Piece.ofByte b :: innerPieces rest := by
  by_cases hstar : b = star
  · rw [hstar]
    rfl
  · rw [innerPieces, Piece.ofByte, if_neg hstar]
    · exact fun _ h _ => hb h
    · exact hstar

theorem innerPieces_dot_of_ne {b : UInt8} (hb : b ≠ Text.dot) (rest : Text) :
    innerPieces (Text.dot :: b :: rest) = .byte Text.dot :: innerPieces (b :: rest) := by
  rw [innerPieces]
  · rintro _ _ h
    exact hb (List.cons.inj h).1
  · decide

theorem innerPieces_append {bytes : Text} (hbytes : Text.dot ∉ bytes) (rest : Text) :
    innerPieces (bytes ++ rest) = bytes.map Piece.ofByte ++ innerPieces rest := by
  induction bytes with
  | nil => rfl
  | cons b bytes ih =>
      rw [List.mem_cons, not_or] at hbytes
      rw [List.cons_append, innerPieces_cons_of_ne (Ne.symm hbytes.1), ih hbytes.2]
      rfl

/-- The piece of a separator. -/
def Separator.piece : Separator → Piece
  | dot => .byte Text.dot
  | gap => .innerGap

theorem innerPieces_separator (separator : Separator) (s : Segment) (rest : Text) :
    innerPieces (separator.text ++ (s.bytes ++ rest)) =
      separator.piece :: (s.bytes.map Piece.ofByte ++ innerPieces rest) := by
  rw [← innerPieces_append s.dot_notMem]
  cases separator with
  | gap => rfl
  | dot =>
      obtain ⟨b, bytes, hbytes⟩ := List.exists_cons_of_ne_nil s.ne_nil
      have hb : b ≠ Text.dot := fun h => s.dot_notMem (hbytes ▸ h ▸ List.mem_cons_self)
      rw [hbytes]
      exact innerPieces_dot_of_ne hb (bytes ++ rest)

namespace Identifier

/-- The pieces after the first segment. -/
def otherPieces (trailing : Bool) : List (Separator × Segment) → List Piece
  | [] => if trailing then [.trailingGap] else []
  | (separator, s) :: others =>
      separator.piece :: (s.bytes.map Piece.ofByte ++ otherPieces trailing others)

theorem innerPieces_othersText (others : List (Separator × Segment)) :
    innerPieces (othersText others) = otherPieces false others := by
  induction others with
  | nil => rfl
  | cons other others ih => rw [othersText, innerPieces_separator, ih, otherPieces]

theorem otherPieces_append (others : List (Separator × Segment)) :
    otherPieces false others ++ [.trailingGap] = otherPieces true others := by
  induction others with
  | nil => rfl
  | cons other others ih =>
      rw [otherPieces, List.cons_append, List.append_assoc, ih, otherPieces]

/-- Some segments with separators between them begin with something else than a dot. -/
theorem exists_cons_segments (first : Segment) (others : List (Separator × Segment)) :
    ∃ b rest, first.bytes ++ othersText others = b :: rest ∧ b ≠ Text.dot := by
  obtain ⟨b, bytes, hbytes⟩ := List.exists_cons_of_ne_nil first.ne_nil
  refine ⟨b, bytes ++ othersText others, by rw [hbytes, List.cons_append], ?_⟩
  exact fun h => first.dot_notMem (hbytes ▸ h ▸ List.mem_cons_self)

/-- Some segments with separators between them end with something else than a dot. -/
theorem exists_concat_segments (first : Segment) (others : List (Separator × Segment)) :
    ∃ front b, first.bytes ++ othersText others = front ++ [b] ∧ b ≠ Text.dot := by
  induction others generalizing first with
  | nil =>
      obtain hnil | ⟨front, b, hbytes⟩ := List.eq_nil_or_concat first.bytes
      · exact absurd hnil first.ne_nil
      · rw [List.concat_eq_append] at hbytes
        refine ⟨front, b, by rw [othersText, List.append_nil, hbytes], ?_⟩
        exact fun h => first.dot_notMem (hbytes ▸ h ▸ by simp)
  | cons other others ih =>
      obtain ⟨front, b, hback, hb⟩ := ih other.2
      refine ⟨first.bytes ++ (other.1.text ++ front), b, ?_, hb⟩
      rw [othersText, hback, List.append_assoc, List.append_assoc]

/-- The ends of an identifier are taken off when what is between them does not begin or
end with a dot. -/
theorem pieces_ends (leading trailing : Bool) {body : Text}
    (hfront : ∃ b rest, body = b :: rest ∧ b ≠ Text.dot)
    (hback : ∃ front b, body = front ++ [b] ∧ b ≠ Text.dot) :
    Package.pieces ((if leading then gap else []) ++ body
      ++ (if trailing then gap else [])) =
      (if leading then [.leadingGap] else []) ++ innerPieces body
        ++ (if trailing then [.trailingGap] else []) := by
  obtain ⟨b, rest, hbody, hb⟩ := hfront
  obtain ⟨front, x, hbody', hx⟩ := hback
  obtain ⟨after, hafter⟩ :
      ∃ after, after = body ++ (if trailing then gap else []) := ⟨_, rfl⟩
  have hprefix : gap.isPrefixOf after = false := by
    simp [hafter, hbody, gap, List.isPrefixOf, Ne.symm hb]
  have hne : (if leading then gap else []) ++ after ≠ gap := by
    cases leading with
    | true => simp [hafter, hbody]
    | false =>
        intro h
        rw [hafter, hbody] at h
        exact hb (List.cons.inj h).1
  have hleading : gap.isPrefixOf ((if leading then gap else []) ++ after) = leading := by
    cases leading with
    | true => rfl
    | false => exact hprefix
  have hdrop : (if leading then ((if leading then gap else []) ++ after).drop 2
      else (if leading then gap else []) ++ after) = after := by
    cases leading <;> rfl
  have htrailing : gap.isSuffixOf after = trailing := by
    cases trailing with
    | true => simp [hafter]
    | false => simp [hafter, hbody', gap, List.isSuffixOf, List.isPrefixOf, Ne.symm hx]
  have hinner : (if trailing then after.dropLast.dropLast else after) = body := by
    cases trailing <;> simp [hafter, gap]
  rw [List.append_assoc, ← hafter, Package.pieces, if_neg hne]
  simp only [hleading, hdrop, htrailing, hinner]

/-- The pieces of an identifier that is put together from segments. -/
theorem pieces_text (d : Identifier) : Package.pieces d.text =
    match d with
    | anything => [.anything]
    | segments leading first others trailing =>
        (if leading then [.leadingGap] else []) ++
          (first.bytes.map Piece.ofByte ++ otherPieces trailing others) := by
  cases d with
  | anything => rfl
  | segments leading first others trailing =>
      rw [text, pieces_ends leading trailing (exists_cons_segments first others)
        (exists_concat_segments first others), innerPieces_append first.dot_notMem,
        innerPieces_othersText]
      cases trailing with
      | true => simp [← otherPieces_append]
      | false => simp

end Identifier

/-! ## Gaps -/

/-- What is left behind a gap: the name itself, or what follows after a dot, as long as no
line ends before that. -/
theorem exists_behind_gap_iff {name : Text} {p : List Text → Prop} (hp : ¬ p []) :
    (∃ rest ∈ name :: afterRunToDot name, p (segmentsOf rest)) ↔
      ∃ run rest, segmentsOf name = run ++ rest ∧
        (∀ segment ∈ run, ∀ b ∈ segment, skippable b = true) ∧ p rest := by
  constructor
  · rintro ⟨rest, hrest, h⟩
    rcases List.mem_cons.mp hrest with rfl | hrest
    · exact ⟨[], segmentsOf rest, rfl, nofun, h⟩
    · obtain ⟨run, rfl, hrun⟩ := mem_afterRunToDot.mp hrest
      refine ⟨segmentsOf run, segmentsOf rest, segmentsOf_append_dot run rest, ?_, h⟩
      exact (forall_mem_segmentsOf (p := fun b => skippable b = true) rfl run).mpr hrun
  · rintro ⟨run, rest, hname, hrun, h⟩
    induction name using segment_induction generalizing run with
    | last segment hsegment =>
        rw [segmentsOf_of_dot_notMem hsegment] at hname
        obtain ⟨rfl, rfl⟩ | ⟨run, rfl, hnil⟩ := List.cons_eq_append_iff.mp hname
        · exact ⟨segment, List.mem_cons_self, by rwa [segmentsOf_of_dot_notMem hsegment]⟩
        · exact absurd ((List.append_eq_nil_iff.mp hnil.symm).2 ▸ h) hp
    | step segment name hsegment ih =>
        rw [segmentsOf_cons hsegment] at hname
        obtain ⟨rfl, rfl⟩ | ⟨run, rfl, htail⟩ := List.cons_eq_append_iff.mp hname
        · exact ⟨_, List.mem_cons_self, by rwa [segmentsOf_cons hsegment]⟩
        · obtain ⟨hskip, hrun⟩ := List.forall_mem_cons.mp hrun
          obtain ⟨rest', hrest', h'⟩ := ih run htail hrun
          refine ⟨rest', List.mem_cons_of_mem _ (mem_afterRunToDot.mpr ?_), h'⟩
          -- The run is the first segment, or it goes on behind the dot after it.
          rcases List.mem_cons.mp hrest' with rfl | hrest'
          · exact ⟨segment, rfl, hskip⟩
          · obtain ⟨run', rfl, hrun'⟩ := mem_afterRunToDot.mp hrest'
            refine ⟨segment ++ Text.dot :: run', by simp, ?_⟩
            exact List.forall_mem_append.mpr
              ⟨hskip, List.forall_mem_cons.mpr ⟨rfl, hrun'⟩⟩

/-! ## Identifiers and names -/

theorem Part.cuts_gap {parts : List Part} {segments : List Text} :
    Cuts Part.Covers (.gap :: parts) segments ↔
      ∃ run rest, segments = run ++ rest ∧
        (∀ segment ∈ run, ∀ b ∈ segment, skippable b = true) ∧
          Cuts Part.Covers parts rest :=
  cuts_cons

theorem Part.cuts_segment {s : Segment} {parts : List Part} {segments : List Text} :
    Cuts Part.Covers (.segment s :: parts) segments ↔
      ∃ segment rest, segments = segment :: rest ∧ s.Matches segment ∧
        Cuts Part.Covers parts rest := by
  rw [cuts_cons]
  constructor
  · rintro ⟨_, rest, rfl, ⟨segment, rfl, hsegment⟩, hrest⟩
    exact ⟨segment, rest, rfl, hsegment, hrest⟩
  · rintro ⟨segment, rest, rfl, hsegment, hrest⟩
    exact ⟨[segment], rest, rfl, ⟨segment, rfl, hsegment⟩, hrest⟩

theorem Part.not_cuts_segment_nil (s : Segment) (parts : List Part) :
    ¬ Cuts Part.Covers (.segment s :: parts) [] := by
  rw [cuts_segment]
  rintro ⟨_, _, hnil, _⟩
  cases hnil

/-- Behind a segment the name has come to its end, or to a dot with more segments after
it. -/
def Behind (parts : List Part) (rest : Text) : Prop :=
  rest = [] ∧ Cuts Part.Covers parts [] ∨
    ∃ name, rest = Text.dot :: name ∧ Cuts Part.Covers parts (segmentsOf name)

theorem behind_iff {parts : List Part} (h : ¬ Cuts Part.Covers parts []) {rest : Text} :
    Behind parts rest ↔
      ∃ name, rest = Text.dot :: name ∧ Cuts Part.Covers parts (segmentsOf name) :=
  or_iff_right fun hnil => h hnil.2

/-- A segment of an identifier is used up by the first segment of a name. -/
theorem usesUp_segment_iff (s : Segment) {ps : List Piece} {parts : List Part}
    (hbehind : ∀ rest, UsesUp ps rest ↔ Behind parts rest) (name : Text) :
    UsesUp (s.bytes.map Piece.ofByte ++ ps) name ↔
      Cuts Part.Covers (.segment s :: parts) (segmentsOf name) := by
  rw [usesUp_map_ofByte_append, Part.cuts_segment]
  constructor
  · rintro ⟨segment, rest, rfl, hsegment, hrest⟩
    have hdot := dot_notMem_of_cuts hsegment s.dot_notMem
    obtain ⟨rfl, hparts⟩ | ⟨name, rfl, hparts⟩ := (hbehind rest).mp hrest
    · exact ⟨segment, [], by rw [List.append_nil, segmentsOf_of_dot_notMem hdot],
        hsegment, hparts⟩
    · exact ⟨segment, _, segmentsOf_cons hdot name, hsegment, hparts⟩
  · rintro ⟨segment, rest, hname, hsegment, hparts⟩
    induction name using segment_induction with
    | last first hfirst =>
        rw [segmentsOf_of_dot_notMem hfirst] at hname
        obtain ⟨rfl, rfl⟩ := List.cons.inj hname
        exact ⟨first, [], (List.append_nil _).symm, hsegment,
          (hbehind []).mpr (Or.inl ⟨rfl, hparts⟩)⟩
    | step first name hfirst _ =>
        rw [segmentsOf_cons hfirst] at hname
        obtain ⟨rfl, rfl⟩ := List.cons.inj hname
        exact ⟨first, Text.dot :: name, rfl, hsegment,
          (hbehind _).mpr (Or.inr ⟨name, rfl, hparts⟩)⟩

/-- Two dots before a segment are used up by some segments of a name. -/
theorem exists_usesUp_gap_iff (s : Segment) {ps : List Piece} {parts : List Part}
    (hbehind : ∀ rest, UsesUp ps rest ↔ Behind parts rest) (name : Text) :
    (∃ rest ∈ name :: afterRunToDot name, UsesUp (s.bytes.map Piece.ofByte ++ ps) rest) ↔
      Cuts Part.Covers (.gap :: .segment s :: parts) (segmentsOf name) := by
  simp only [usesUp_segment_iff s hbehind]
  rw [exists_behind_gap_iff (Part.not_cuts_segment_nil s parts), Part.cuts_gap]

theorem usesUp_dot_cons {ps : List Piece} {rest : Text} :
    UsesUp (.byte Text.dot :: ps) rest ↔ ∃ name, rest = Text.dot :: name ∧
      UsesUp ps name := by
  simp only [UsesUp, mem_remainders_byte]

theorem usesUp_innerGap_cons {ps : List Piece} {rest : Text} :
    UsesUp (.innerGap :: ps) rest ↔
      ∃ name, rest = Text.dot :: name ∧
        ∃ rest ∈ name :: afterRunToDot name, UsesUp ps rest := by
  simp only [UsesUp, mem_remainders_innerGap]
  constructor
  · rintro ⟨rest, ⟨name, hrest, hmem⟩, huses⟩
    exact ⟨name, hrest, rest, hmem, huses⟩
  · rintro ⟨name, hrest, rest, hmem, huses⟩
    exact ⟨rest, ⟨name, hrest, hmem⟩, huses⟩

theorem cuts_gap_alone {segments : List Text} : Cuts Part.Covers [.gap] segments ↔
    ∀ segment ∈ segments, ∀ b ∈ segment, skippable b = true := by
  rw [Part.cuts_gap]
  simp [cuts_nil]

theorem nil_mem_afterRun_iff {name : Text} :
    [] ∈ afterRun name ↔ Cuts Part.Covers [.gap] (segmentsOf name) := by
  rw [mem_afterRun, cuts_gap_alone,
    forall_mem_segmentsOf (p := fun b => skippable b = true) rfl]
  simp

namespace Identifier

/-- What comes after the first segment of an identifier. -/
theorem usesUp_otherPieces_iff (trailing : Bool) (others : List (Separator × Segment))
    (rest : Text) :
    UsesUp (otherPieces trailing others) rest ↔
      Behind (otherParts trailing others) rest := by
  induction others generalizing rest with
  | nil =>
      cases trailing with
      | true =>
          change UsesUp [.trailingGap] rest ↔ Behind [.gap] rest
          simp [UsesUp, mem_remainders_trailingGap, Behind, nil_mem_afterRun_iff,
            cuts_gap_alone]
      | false =>
          change UsesUp [] rest ↔ Behind [] rest
          simp [UsesUp, Behind, cuts_nil, segmentsOf_ne_nil]
  | cons other others ih =>
      obtain ⟨separator, s⟩ := other
      cases separator with
      | dot =>
          change UsesUp (.byte Text.dot :: _) rest ↔
            Behind (.segment s :: otherParts trailing others) rest
          rw [usesUp_dot_cons, behind_iff (Part.not_cuts_segment_nil s _)]
          simp only [usesUp_segment_iff s ih]
      | gap =>
          have hnil : ¬ Cuts Part.Covers
              (.gap :: .segment s :: otherParts trailing others) [] := by
            rw [Part.cuts_gap]
            rintro ⟨run, rest, hrest, _, hcuts⟩
            rw [(List.append_eq_nil_iff.mp hrest.symm).2] at hcuts
            exact Part.not_cuts_segment_nil s _ hcuts
          change UsesUp (.innerGap :: _) rest ↔
            Behind (.gap :: .segment s :: otherParts trailing others) rest
          rw [usesUp_innerGap_cons, behind_iff hnil]
          simp only [exists_usesUp_gap_iff s ih]

/-- An identifier matches a name byte by byte when it matches it segment by segment. -/
theorem matchesName_text_iff (d : Identifier) (name : Text) :
    matchesName d.text name = true ↔ d.Describes name := by
  rw [matchesName_iff, d.pieces_text, Describes]
  cases d with
  | anything =>
      change UsesUp [.anything] name ↔ Cuts Part.Covers [.gap] (segmentsOf name)
      rw [← nil_mem_afterRun_iff]
      simp [UsesUp, Piece.remainders]
  | segments leading first others trailing =>
      have hbehind := usesUp_otherPieces_iff trailing others
      cases leading with
      | false => exact usesUp_segment_iff first hbehind name
      | true => exact exists_usesUp_gap_iff first hbehind name

end Identifier

end Conformance.Package
