import Conformance.Proofs.Package.Segments

/-!
# Stars for segments

Some segments of a package name can be replaced by stars.  What comes out is an identifier
that describes names of the same number of segments: at a star any segment of word bytes,
and elsewhere the segment that was kept.  So it describes the name that it was made from
only when all that the stars stand for are word bytes.
-/

namespace Conformance.Package

/-- A segment of a name: some bytes, none of them a dot or a star. -/
structure PlainSegment extends Segment where
  star_notMem : star ∉ bytes

/-- A star as a segment. -/
def Segment.star : Segment where
  bytes := [Package.star]
  ne_nil := List.cons_ne_nil _ _
  dot_notMem := by decide

/-- A segment of a name, with the choice to write a star for it. -/
structure Replaceable where
  segment : PlainSegment
  starred : Bool

namespace Replaceable

/-- The segment of the identifier. -/
def written (r : Replaceable) : Segment :=
  if r.starred then .star else r.segment.toSegment

/-- The runs of bytes that the segment of the identifier stands for. -/
def Covers (r : Replaceable) (run : Text) : Prop :=
  if r.starred then run ≠ [] ∧ ∀ b ∈ run, Pattern.ByteClass.word.contains b = true
  else run = r.segment.bytes

/-- The name that some segments make. -/
def name (rs : List Replaceable) : Text :=
  Text.join [Text.dot] (rs.map fun r => r.segment.bytes)

/-- The identifier, with a star for each segment that is replaced. -/
def identifier (rs : List Replaceable) : Text :=
  Text.join [Text.dot] (rs.map fun r => r.written.bytes)

end Replaceable

/-! ## Segments -/

/-- Without a star a segment matches itself alone. -/
theorem cuts_byteCovers_of_star_notMem {bytes run : Text} (h : star ∉ bytes) :
    Cuts ByteCovers bytes run ↔ run = bytes := by
  induction bytes generalizing run with
  | nil => exact cuts_nil
  | cons b bytes ih =>
      rw [List.mem_cons, not_or] at h
      have hb : ∀ front, ByteCovers b front ↔ front = [b] := by
        intro front
        rw [ByteCovers, if_neg (Ne.symm h.1)]
      simp only [cuts_cons, hb, ih h.2]
      constructor
      · rintro ⟨_, _, rfl, rfl, rfl⟩
        rfl
      · rintro rfl
        exact ⟨[b], bytes, rfl, rfl, rfl⟩

theorem Segment.matches_star {run : Text} :
    Segment.star.Matches run ↔
      run ≠ [] ∧ ∀ b ∈ run, Pattern.ByteClass.word.contains b = true := by
  change Cuts ByteCovers [Package.star] run ↔ _
  rw [cuts_cons]
  constructor
  · rintro ⟨front, rest, rfl, hfront, hrest⟩
    rw [cuts_nil.mp hrest, List.append_nil]
    exact hfront
  · intro hrun
    exact ⟨run, [], (List.append_nil run).symm, hrun, cuts_nil.mpr rfl⟩

theorem Replaceable.matches_written (r : Replaceable) {run : Text} :
    r.written.Matches run ↔ r.Covers run := by
  obtain ⟨segment, starred⟩ := r
  cases starred with
  | true => exact Segment.matches_star
  | false => exact cuts_byteCovers_of_star_notMem segment.star_notMem

/-! ## Names and identifiers -/

/-- Parts that are segments describe names with as many segments. -/
theorem cuts_map_segment {segments : List Segment} {texts : List Text} :
    Cuts Part.Covers (segments.map .segment) texts ↔
      List.Forall₂ Segment.Matches segments texts := by
  induction segments generalizing texts with
  | nil => rw [List.map_nil, cuts_nil, List.forall₂_nil_left_iff]
  | cons s segments ih =>
      rw [List.map_cons, Part.cuts_segment, List.forall₂_cons_left_iff]
      simp only [ih]
      constructor
      · rintro ⟨text, rest, rfl, hs, hrest⟩
        exact ⟨text, rest, hs, hrest, rfl⟩
      · rintro ⟨text, rest, hs, hrest, rfl⟩
        exact ⟨text, rest, rfl, hs, hrest⟩

theorem join_dot_cons (first next : Text) (others : List Text) :
    Text.join [Text.dot] (first :: next :: others) =
      first ++ Text.dot :: Text.join [Text.dot] (next :: others) := by
  simp [Text.join, List.intercalate_cons_cons]

/-- The segments of texts that were joined by dots. -/
theorem segmentsOf_join {first : Text} {others : List Text}
    (h : ∀ text ∈ first :: others, Text.dot ∉ text) :
    segmentsOf (Text.join [Text.dot] (first :: others)) = first :: others := by
  induction others generalizing first with
  | nil =>
      have hfirst : Text.join [Text.dot] [first] = first := by simp [Text.join]
      rw [hfirst]
      exact segmentsOf_of_dot_notMem (h first List.mem_cons_self)
  | cons next others ih =>
      obtain ⟨hfirst, hothers⟩ := List.forall_mem_cons.mp h
      rw [join_dot_cons, segmentsOf_cons hfirst, ih hothers]

namespace Identifier

/-- Segments with dots between them. -/
def dotted (first : Segment) (others : List Segment) : Identifier :=
  segments false first (others.map fun s => (.dot, s)) false

theorem text_dotted (first : Segment) (others : List Segment) :
    (dotted first others).text =
      Text.join [Text.dot] (first.bytes :: others.map Segment.bytes) := by
  change [] ++ (first.bytes ++ othersText (others.map fun s => (.dot, s))) ++ [] = _
  rw [List.nil_append, List.append_nil]
  induction others generalizing first with
  | nil => simp [othersText, Text.join]
  | cons next others ih =>
      rw [List.map_cons, List.map_cons, join_dot_cons, othersText, ih]
      rfl

theorem parts_dotted (first : Segment) (others : List Segment) :
    (dotted first others).parts = (first :: others).map .segment := by
  change [] ++ Part.segment first :: otherParts false (others.map fun s => (.dot, s)) = _
  rw [List.nil_append, List.map_cons]
  congr 1
  induction others with
  | nil => rfl
  | cons next others ih => exact congrArg _ ih

end Identifier

namespace Replaceable

/-- An identifier with stars for segments matches a name segment by segment. -/
theorem matchesName_identifier_iff (first : Replaceable) (others : List Replaceable)
    (text : Text) :
    matchesName (identifier (first :: others)) text = true ↔
      List.Forall₂ Covers (first :: others) (segmentsOf text) := by
  have htext : identifier (first :: others) =
      (Identifier.dotted first.written (others.map written)).text := by
    rw [Identifier.text_dotted, List.map_map]
    rfl
  rw [htext, Identifier.matchesName_text_iff, Identifier.Describes,
    Identifier.parts_dotted, ← List.map_cons, cuts_map_segment, List.forall₂_map_left_iff]
  simp only [matches_written]

theorem segmentsOf_name (first : Replaceable) (others : List Replaceable) :
    segmentsOf (name (first :: others)) =
      (first :: others).map fun r => r.segment.bytes := by
  have hdots : ∀ text ∈ (first :: others).map fun r => r.segment.bytes, Text.dot ∉ text :=
    List.forall_mem_map.mpr fun r _ => r.segment.dot_notMem
  exact segmentsOf_join hdots

/-- A star stands for what it replaced when that consists of word bytes. -/
theorem covers_segment_iff (r : Replaceable) :
    r.Covers r.segment.bytes ↔
      (r.starred = true →
        ∀ b ∈ r.segment.bytes, Pattern.ByteClass.word.contains b = true) := by
  obtain ⟨segment, starred⟩ := r
  cases starred with
  | true => simp [Covers, segment.ne_nil]
  | false => simp [Covers]

/-- Some segments of a name are replaced by stars.  The identifier matches the names that
have, at a star, a segment of word bytes, and elsewhere the segment that was kept; so it
matches no name with another number of segments, and it matches the name itself exactly
when all replaced segments consist of word bytes. -/
theorem identifier_matches (first : Replaceable) (others : List Replaceable) :
    let rs := first :: others
    (∀ text, matchesName (identifier rs) text = true ↔
      List.Forall₂ Covers rs (segmentsOf text)) ∧
    segmentsOf (name rs) = rs.map (fun r => r.segment.bytes) ∧
    (matchesName (identifier rs) (name rs) = true ↔
      ∀ r ∈ rs, r.starred = true →
        ∀ b ∈ r.segment.bytes, Pattern.ByteClass.word.contains b = true) ∧
    (∀ text, (segmentsOf text).length ≠ rs.length →
      matchesName (identifier rs) text = false) := by
  intro rs
  have hmatches := matchesName_identifier_iff first others
  have hname := segmentsOf_name first others
  refine ⟨hmatches, hname, ?_, ?_⟩
  · rw [hmatches, hname, List.forall₂_map_right_iff, List.forall₂_same]
    simp only [covers_segment_iff]
    rfl
  · intro text hlength
    rw [← Bool.not_eq_true, hmatches]
    intro hcovers
    exact hlength hcovers.length_eq.symm

/-- A star does not stand for a segment with a dollar sign in it. -/
theorem identifier_not_matches_dollar :
    let com : PlainSegment :=
      { bytes := "com", ne_nil := by decide, dot_notMem := by decide,
        star_notMem := by decide }
    let inner : PlainSegment :=
      { bytes := "p$q", ne_nil := by decide, dot_notMem := by decide,
        star_notMem := by decide }
    let rs : List Replaceable := [⟨com, false⟩, ⟨inner, true⟩]
    name rs = "com.p$q" ∧ identifier rs = "com.*" ∧
      matchesName (identifier rs) (name rs) = false := by
  decide

end Replaceable

end Conformance.Package
