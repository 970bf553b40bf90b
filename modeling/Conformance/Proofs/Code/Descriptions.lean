import Conformance.Code.Edge
import Conformance.Proofs.Text.Parts

/-!
# What descriptions tell

The description of an edge is one line of text, put together from the sorts and full names
of its ends, from a verb and from a location.  Unless names contain the bytes that frame
them, the parts can be read off the line again, so two edges with one description agree in
all that it tells.

Most parts are read from the left, up to the first byte that they do not contain.  Two are
not: the names of classes and files may contain the byte behind them, but what follows it
does not.  So a full name is divided at its last dot, and a location at its last colon.
-/

namespace Conformance

namespace Text

/-- The byte behind every word of a description. -/
def space : UInt8 := 32

/-- The byte behind every parameter but the last. -/
def comma : UInt8 := 44

/-- The byte between the file and the line of a location. -/
def colon : UInt8 := 58

/-- The byte before the parameters of a code unit. -/
def opening : UInt8 := 40

/-- The byte behind the parameters of a code unit. -/
def closing : UInt8 := 41

/-- The byte before a full name. -/
def less : UInt8 := 60

/-- The byte behind a full name. -/
def greater : UInt8 := 62

/-! ## Words -/

/-- A word that is one of several, and contains no space, can be read off the text it
begins. -/
theorem word_append_inj {α : Type} {word : α → Text} (hword : Function.Injective word)
    (hspace : ∀ a, space ∉ word a) {a a' : α} {x y : Text}
    (h : word a ++ space :: x = word a' ++ space :: y) : a = a' ∧ x = y := by
  obtain ⟨hsame, hrest⟩ := append_cons_inj_left (hspace a) (hspace a') h
  exact ⟨hword hsame, hrest⟩

/-! ## Numbers -/

theorem exists_digit_of_mem_decimal {b : UInt8} {n : Nat} (h : b ∈ decimal n) :
    ∃ c : Char, c.isDigit = true ∧ b = c.toNat.toUInt8 := by
  obtain ⟨c, hc, rfl⟩ := List.mem_map.mp h
  exact ⟨c, Nat.isDigit_of_mem_toDigits (by decide) (by decide) hc, rfl⟩

theorem toNat_le_of_isDigit {c : Char} (h : c.isDigit = true) :
    48 ≤ c.toNat ∧ c.toNat ≤ 57 := by
  rw [Char.isDigit, Bool.and_eq_true, decide_eq_true_iff, decide_eq_true_iff] at h
  exact h

theorem toNat_toUInt8_of_isDigit {c : Char} (h : c.isDigit = true) :
    c.toNat.toUInt8.toNat = c.toNat := by
  have hle := (toNat_le_of_isDigit h).2
  rw [Nat.toUInt8, UInt8.toNat_ofNat']
  omega

theorem colon_notMem_decimal (n : Nat) : colon ∉ decimal n := by
  intro h
  obtain ⟨c, hdigit, hc⟩ := exists_digit_of_mem_decimal h
  have hle := (toNat_le_of_isDigit hdigit).2
  rw [← toNat_toUInt8_of_isDigit hdigit, ← hc] at hle
  exact absurd hle (by decide)

/-- The digits of a number, and so the number, can be read off its text. -/
theorem decimal_injective : Function.Injective decimal := by
  have hread : ∀ n, (decimal n).map (fun b => Char.ofNat b.toNat) =
      Nat.toDigits 10 n := by
    intro n
    rw [decimal, List.map_map, List.map_congr_left, List.map_id]
    intro c hc
    have hdigit := Nat.isDigit_of_mem_toDigits (by decide) (by decide) hc
    rw [Function.comp_apply, toNat_toUInt8_of_isDigit hdigit, Char.ofNat_toNat, id]
  intro n n' h
  have hdigits : Nat.toDigits 10 n = Nat.toDigits 10 n' := by
    rw [← hread, ← hread, h]
  rw [← Nat.ofDigitChars_toDigits (b := 10) (n := n) (by decide) (by decide), hdigits,
    Nat.ofDigitChars_toDigits (by decide) (by decide)]

end Text

/-! ## Locations -/

/-- A location can be read off its text, whatever the name of the file is. -/
theorem Location.render_injective : Function.Injective Location.render := by
  intro l l' h
  have hbytes : ∀ l : Location, l.render =
      Text.opening :: (l.file
        ++ Text.colon :: (Text.decimal l.line.toNat ++ [Text.closing])) := by
    intro l
    rw [render, List.append_assoc, List.append_assoc, List.append_assoc]
    rfl
  have hcolon : ∀ n, Text.colon ∉ Text.decimal n ++ [Text.closing] := by
    intro n hmem
    rcases List.mem_append.mp hmem with hmem | hmem
    · exact Text.colon_notMem_decimal n hmem
    · exact absurd (List.mem_singleton.mp hmem) (by decide)
  rw [hbytes, hbytes, List.cons.injEq] at h
  obtain ⟨hfile, hline⟩ := Text.append_cons_inj_right (hcolon _) (hcolon _) h.2
  rw [List.append_cancel_right_eq] at hline
  rw [Location.mk.injEq, ← UInt32.toNat_inj]
  exact ⟨hfile, Text.decimal_injective hline⟩

/-! ## Names -/

/-- A name without the bytes that frame names in messages. -/
def Text.Plain (t : Text) : Prop :=
  t ≠ [] ∧ ∀ b ∈ ("<>(), " : Text), b ∉ t

instance (t : Text) : Decidable t.Plain :=
  -- Only the framing bytes are to be tried, not all bytes.
  let _ := List.decidableBAll (fun b => b ∉ t) "<>(), "
  inferInstanceAs (Decidable (_ ∧ _))

/-- The parameter types of a member.  A field has none. -/
def Member.parameters (m : Member) : List TypeName :=
  match m.decl with
  | .field _ => []
  | .unit d => d.parameters

/-- What messages tell of a member. -/
structure Signature where
  kind : MemberKind
  owner : TypeName
  name : Text
  parameters : List TypeName
  deriving DecidableEq

/-- The signature of a member. -/
def Member.signature (m : Member) : Signature :=
  { kind := m.kind, owner := m.owner.name, name := m.name, parameters := m.parameters }

/-- The names in the signature of a member are plain, and the name of the member itself
has no dot.  The name that all constructors share is allowed, although it is not plain. -/
structure Member.PlainlyNamed (m : Member) : Prop where
  owner : m.owner.name.text.Plain
  name : m.name = UnitDecl.constructorName ∨ m.name.Plain ∧ Text.dot ∉ m.name
  parameters : ∀ t ∈ m.parameters, t.text.Plain

/-! ## Reading full names -/

theorem TypeName.commaSeparated_inj {ts ts' : List TypeName}
    (hts : ∀ t ∈ ts, t.text.Plain) (hts' : ∀ t ∈ ts', t.text.Plain)
    (h : commaSeparated ts = commaSeparated ts') : ts = ts' := by
  have htexts : ∀ {l : List TypeName}, (∀ t ∈ l, t.text.Plain) →
      ∀ x ∈ l.map TypeName.text, x ≠ [] ∧ Text.comma ∉ x := by
    intro l hl x hx
    obtain ⟨t, ht, rfl⟩ := List.mem_map.mp hx
    exact ⟨(hl t ht).1, (hl t ht).2 Text.comma (by decide)⟩
  have hinjective : ∀ t t' : TypeName, t.text = t'.text → t = t' := by
    rintro ⟨text⟩ ⟨text'⟩ rfl
    rfl
  change Text.join [Text.comma, Text.space] _ = Text.join [Text.comma, Text.space] _ at h
  exact (List.map_inj_right hinjective).mp (Text.join_inj (htexts hts) (htexts hts') h)

theorem TypeName.closing_notMem_commaSeparated {ts : List TypeName}
    (hts : ∀ t ∈ ts, t.text.Plain) : Text.closing ∉ commaSeparated ts := by
  intro h
  rcases Text.mem_join h with hseparator | ⟨text, htext, hmem⟩
  · exact absurd hseparator (by decide)
  · obtain ⟨t, ht, rfl⟩ := List.mem_map.mp htext
    exact (hts t ht).2 Text.closing (by decide) hmem

namespace Member.PlainlyNamed

variable {m : Member} (h : m.PlainlyNamed)

include h

/-- No name of a member contains a space or the beginning of a list of parameters, not
even that of a constructor. -/
theorem name_notMem {b : UInt8} (hb : b = Text.space ∨ b = Text.opening ∨ b = Text.dot) :
    b ∉ m.name := by
  rcases h.name with hname | ⟨hplain, hdot⟩
  · rw [hname]
    rcases hb with rfl | rfl | rfl <;> decide
  · rcases hb with rfl | rfl | rfl
    · exact hplain.2 Text.space (by decide)
    · exact hplain.2 Text.opening (by decide)
    · exact hdot

theorem qualified_notMem {b : UInt8} (hb : b = Text.space ∨ b = Text.opening) :
    b ∉ m.owner.name.text ++ Text.dot :: m.name := by
  intro hmem
  rcases List.mem_append.mp hmem with howner | hname
  · rcases hb with rfl | rfl
    · exact h.owner.2 Text.space (by decide) howner
    · exact h.owner.2 Text.opening (by decide) howner
  · rcases List.mem_cons.mp hname with hdot | hname
    · rcases hb with rfl | rfl <;> exact absurd hdot (by decide)
    · exact h.name_notMem (hb.imp_right Or.inl) hname

end Member.PlainlyNamed

namespace Member

variable {m m' : Member} {x y : Text}

/-- A name behind the name of its class is divided from it by the last dot. -/
theorem qualified_inj (hm : m.PlainlyNamed) (hm' : m'.PlainlyNamed)
    (h : m.owner.name.text ++ Text.dot :: m.name =
      m'.owner.name.text ++ Text.dot :: m'.name) :
    m.owner.name = m'.owner.name ∧ m.name = m'.name := by
  obtain ⟨howner, hname⟩ :=
    Text.append_cons_inj_right (hm.name_notMem (Or.inr (Or.inr rfl)))
    (hm'.name_notMem (Or.inr (Or.inr rfl))) h
  rw [TypeName.mk.injEq]
  exact ⟨howner, hname⟩

end Member

namespace CodeUnit

variable {u u' : CodeUnit} {x y : Text}

theorem fullName_append (u : CodeUnit) (x : Text) : u.fullName ++ x =
    (u.owner.name.text ++ Text.dot :: u.decl.name) ++ Text.opening ::
      (TypeName.commaSeparated u.decl.parameters ++ Text.closing :: x) := by
  have hbytes : u.fullName =
      u.owner.name.text ++ [Text.dot] ++ u.decl.name ++ [Text.opening]
    ++ TypeName.commaSeparated u.decl.parameters ++ [Text.closing] := rfl
  rw [hbytes]
  simp only [List.append_assoc, List.cons_append, List.nil_append]

/-- The full name of a code unit tells its class, its name and its parameters, and where
it ends. -/
theorem fullName_append_inj (hu : u.toMember.PlainlyNamed)
    (hu' : u'.toMember.PlainlyNamed) (h : u.fullName ++ x = u'.fullName ++ y) :
    (u.owner.name = u'.owner.name ∧ u.decl.name = u'.decl.name ∧
      u.decl.parameters = u'.decl.parameters) ∧ x = y := by
  rw [fullName_append, fullName_append] at h
  obtain ⟨hqualified, hparameters⟩ := Text.append_cons_inj_left
    (hu.qualified_notMem (Or.inr rfl)) (hu'.qualified_notMem (Or.inr rfl)) h
  obtain ⟨howner, hname⟩ := Member.qualified_inj hu hu' hqualified
  obtain ⟨htypes, hrest⟩ := Text.append_cons_inj_left
    (TypeName.closing_notMem_commaSeparated hu.parameters)
    (TypeName.closing_notMem_commaSeparated hu'.parameters) hparameters
  exact ⟨⟨howner, hname, TypeName.commaSeparated_inj hu.parameters hu'.parameters htypes⟩,
    hrest⟩

theorem fullName_congr (howner : u.owner.name = u'.owner.name)
    (hname : u.decl.name = u'.decl.name) (hparameters : u.decl.parameters =
      u'.decl.parameters) : u.fullName = u'.fullName := by
  rw [fullName, fullName, howner, hname, hparameters]

end CodeUnit

namespace Field

variable {f f' : Field} {x y : Text}

theorem fullName_framed (f : Field) (x : Text) :
    f.toMember.fullName ++ Text.greater :: Text.space :: x =
      (f.owner.name.text ++ Text.dot :: f.decl.name ++ [Text.greater])
        ++ Text.space :: x := by
  have hbytes : f.toMember.fullName = f.owner.name.text ++ [Text.dot] ++ f.decl.name :=
    rfl
  rw [hbytes]
  simp only [List.append_assoc, List.cons_append, List.nil_append]

/-- Nothing of its own closes the full name of a field, but the frame around it does,
since a full name contains no space. -/
theorem fullName_framed_inj (hf : f.toMember.PlainlyNamed)
    (hf' : f'.toMember.PlainlyNamed)
    (h : f.toMember.fullName ++ Text.greater :: Text.space :: x =
      f'.toMember.fullName ++ Text.greater :: Text.space :: y) :
    (f.owner.name = f'.owner.name ∧ f.decl.name = f'.decl.name) ∧ x = y := by
  have hspace : ∀ {f : Field}, f.toMember.PlainlyNamed →
      Text.space ∉ f.owner.name.text ++ Text.dot :: f.decl.name ++ [Text.greater] := by
    intro f hf hmem
    rcases List.mem_append.mp hmem with hmem | hmem
    · exact hf.qualified_notMem (Or.inl rfl) hmem
    · exact absurd (List.mem_singleton.mp hmem) (by decide)
  rw [fullName_framed, fullName_framed] at h
  obtain ⟨hqualified, hrest⟩ := Text.append_cons_inj_left (hspace hf) (hspace hf') h
  rw [List.append_cancel_right_eq] at hqualified
  exact ⟨Member.qualified_inj hf hf' hqualified, hrest⟩

end Field

namespace Member

variable {m m' : Member} {x y : Text}

/-- Behind the word for its sort, the full name of a member tells its signature. -/
theorem fullName_framed_inj (hm : m.PlainlyNamed) (hm' : m'.PlainlyNamed)
    (hkind : m.kind = m'.kind)
    (h : m.fullName ++ Text.greater :: Text.space :: x =
      m'.fullName ++ Text.greater :: Text.space :: y) :
    m.signature = m'.signature ∧ x = y := by
  obtain ⟨owner, decl⟩ := m
  obtain ⟨owner', decl'⟩ := m'
  rw [signature, signature, Signature.mk.injEq]
  rcases decl with d | d <;> rcases decl' with d' | d'
  · have hf : (Field.mk owner d).toMember.PlainlyNamed := hm
    have hf' : (Field.mk owner' d').toMember.PlainlyNamed := hm'
    obtain ⟨⟨howner, hname⟩, hrest⟩ := Field.fullName_framed_inj hf hf' h
    exact ⟨⟨hkind, howner, hname, rfl⟩, hrest⟩
  · rcases d' with d' | d' <;> simp [kind] at hkind
  · rcases d with d | d <;> simp [kind] at hkind
  · have hu : (CodeUnit.mk owner d).toMember.PlainlyNamed := hm
    have hu' : (CodeUnit.mk owner' d').toMember.PlainlyNamed := hm'
    obtain ⟨⟨howner, hname, hparameters⟩, hrest⟩ := CodeUnit.fullName_append_inj hu hu' h
    rw [List.cons.injEq, List.cons.injEq] at hrest
    exact ⟨⟨hkind, howner, hname, hparameters⟩, hrest.2.2⟩

/-- The full name of a member is made of its signature. -/
theorem fullName_congr (h : m.signature = m'.signature) : m.fullName = m'.fullName := by
  obtain ⟨owner, decl⟩ := m
  obtain ⟨owner', decl'⟩ := m'
  rw [signature, signature, Signature.mk.injEq] at h
  obtain ⟨hkind, howner, hname, hparameters⟩ := h
  rcases decl with d | d <;> rcases decl' with d' | d'
  · change owner.name.text ++ "." ++ d.name = owner'.name.text ++ "." ++ d'.name
    rw [show owner.name = owner'.name from howner, show d.name = d'.name from hname]
  · rcases d' with d' | d' <;> simp [kind] at hkind
  · rcases d with d | d <;> simp [kind] at hkind
  · exact CodeUnit.fullName_congr howner hname hparameters

end Member

/-! ## Reading descriptions -/

namespace MemberKind

theorem label_injective : Function.Injective label := by
  intro k k'
  cases k <;> cases k' <;> decide

theorem lowerLabel_injective : Function.Injective lowerLabel := by
  intro k k'
  cases k <;> cases k' <;> decide

theorem space_notMem_label (k : MemberKind) : Text.space ∉ k.label := by
  cases k <;> decide

theorem space_notMem_lowerLabel (k : MemberKind) : Text.space ∉ k.lowerLabel := by
  cases k <;> decide

end MemberKind

namespace Access

theorem verb_injective : Function.Injective verb := by
  intro a a'
  cases a <;> cases a' <;> decide

theorem space_notMem_verb (a : Access) : Text.space ∉ a.verb := by
  cases a <;> decide

end Access

namespace Edge

/-- The names of both ends of the edge are plain. -/
structure PlainlyNamed (e : Edge) : Prop where
  origin : e.origin.toMember.PlainlyNamed
  target : e.target.PlainlyNamed

variable {e e' : Edge}

theorem description_framed (e : Edge) : e.description =
    e.origin.toMember.kind.label ++ Text.space :: Text.less ::
      (e.origin.toMember.fullName ++ Text.greater :: Text.space ::
        (e.access.verb ++ Text.space :: (e.target.kind.lowerLabel
          ++ Text.space :: Text.less ::
          (e.target.fullName
            ++ Text.greater :: Text.space :: ("in " ++ e.location.render))))) := by
  have hbytes : e.description = e.origin.toMember.kind.label ++ [Text.space, Text.less]
    ++ e.origin.toMember.fullName ++ [Text.greater, Text.space] ++ e.access.verb
      ++ [Text.space]
    ++ e.target.kind.lowerLabel ++ [Text.space, Text.less] ++ e.target.fullName
    ++ ([Text.greater, Text.space] ++ "in ") ++ e.location.render := rfl
  rw [hbytes]
  simp only [List.append_assoc, List.cons_append, List.nil_append]

/-- The parts of a description can be read off it one after the other. -/
theorem parts_of_description_eq (he : e.PlainlyNamed) (he' : e'.PlainlyNamed)
    (h : e.description = e'.description) :
    e.origin.toMember.signature = e'.origin.toMember.signature ∧ e.access = e'.access ∧
      e.target.signature = e'.target.signature ∧ e.location = e'.location := by
  rw [description_framed, description_framed] at h
  obtain ⟨hkind, h⟩ :=
    Text.word_append_inj MemberKind.label_injective MemberKind.space_notMem_label h
  rw [List.cons.injEq] at h
  obtain ⟨horigin, h⟩ := Member.fullName_framed_inj he.origin he'.origin hkind h.2
  obtain ⟨haccess, h⟩ :=
    Text.word_append_inj Access.verb_injective Access.space_notMem_verb h
  obtain ⟨hkind, h⟩ :=
    Text.word_append_inj MemberKind.lowerLabel_injective
      MemberKind.space_notMem_lowerLabel h
  rw [List.cons.injEq] at h
  obtain ⟨htarget, h⟩ := Member.fullName_framed_inj he.target he'.target hkind h.2
  rw [List.append_cancel_left_eq] at h
  exact ⟨horigin, haccess, htarget, Location.render_injective h⟩

theorem description_congr
    (horigin : e.origin.toMember.signature = e'.origin.toMember.signature)
    (haccess : e.access = e'.access) (htarget : e.target.signature = e'.target.signature)
    (hlocation : e.location = e'.location) : e.description = e'.description := by
  rw [description_framed, description_framed, Member.fullName_congr horigin,
    Member.fullName_congr htarget, haccess, hlocation,
    show e.origin.toMember.kind =
      e'.origin.toMember.kind from congrArg Signature.kind horigin,
    show e.target.kind = e'.target.kind from congrArg Signature.kind htarget]

/-- Two edges between plainly named members have the same description exactly when they
agree in the signatures of both ends, in what they record, and in file and line; the name
of the file may be any.  In particular, the full name of a code unit tells its class, its
name and its parameters, and the text of a location tells its file and its line. -/
theorem description_identifies :
    (∀ e e' : Edge, e.PlainlyNamed → e'.PlainlyNamed →
      (e.description = e'.description ↔
        e.origin.toMember.signature = e'.origin.toMember.signature ∧
          e.access = e'.access ∧
          e.target.signature = e'.target.signature ∧ e.location = e'.location)) ∧
    (∀ u u' : CodeUnit, u.toMember.PlainlyNamed → u'.toMember.PlainlyNamed →
      (u.fullName = u'.fullName ↔
        u.owner.name = u'.owner.name ∧ u.decl.name = u'.decl.name ∧
          u.decl.parameters = u'.decl.parameters)) ∧
    ∀ l l' : Location, l.render = l'.render → l = l' := by
  refine ⟨?_, ?_, fun _ _ => @Location.render_injective _ _⟩
  · intro e e' he he'
    constructor
    · exact parts_of_description_eq he he'
    · rintro ⟨horigin, haccess, htarget, hlocation⟩
      exact description_congr horigin haccess htarget hlocation
  · intro u u' hu hu'
    constructor
    · intro h
      have hnothing : u.fullName ++ [] = u'.fullName ++ [] := by rw [h]
      exact (CodeUnit.fullName_append_inj hu hu' hnothing).1
    · rintro ⟨howner, hname, hparameters⟩
      exact CodeUnit.fullName_congr howner hname hparameters

/-- The call of a constructor, recorded in two drafts: the edges are two, and the
description shows that they have the same parts.  On another line of a file with a
stranger name, the description is another one. -/
theorem description_identifies_constructorCall :
    let c := fun (draft : Nat) (name : Text) =>
      ({ id := ⟨draft, 0⟩, name := ⟨name⟩, modifiers := .empty, sourceFile := "A.java",
         analyzed := true } : Class)
    let run := fun (draft : Nat) =>
      (Method.mk (c draft "p.A")
        { id := ⟨draft, 1⟩, modifiers := .empty, name := "run", returnType := ⟨"void"⟩
          parameters := [⟨"int"⟩, ⟨"p.B$C"⟩] }).toCodeUnit
    let make := fun (draft : Nat) =>
      (Constructor.mk (c draft "p.B")
        { id := ⟨draft, 2⟩, modifiers := .empty, parameters := [] })
    let edge := fun (draft : Nat) (location : Location) =>
      Edge.mk (run draft) (make draft).toCodeUnit.toMember .call location
    let e := edge 0 ⟨"A", 31⟩
    let e' := edge 1 ⟨"A", 31⟩
    let strange := edge 1 ⟨"A:3", 1⟩
    e ≠ e' ∧ e.PlainlyNamed ∧ e'.PlainlyNamed ∧ strange.PlainlyNamed ∧
      e.description =
        "Method <p.A.run(int, p.B$C)> calls constructor <p.B.<init>()> in (A:31)" ∧
      e.target.signature = e'.target.signature ∧ e.description ≠ strange.description ∧
      (run 0).decl.parameters = (run 1).decl.parameters ∧ e.location = e'.location := by
  intro c run make edge e e' strange
  obtain ⟨hedges, hunits, hlocations⟩ := description_identifies
  have he : e.PlainlyNamed :=
    ⟨⟨by decide, by decide, by decide⟩, ⟨by decide, by decide, by decide⟩⟩
  have he' : e'.PlainlyNamed :=
    ⟨⟨by decide, by decide, by decide⟩, ⟨by decide, by decide, by decide⟩⟩
  have hstrange : strange.PlainlyNamed := ⟨he'.origin, he'.target⟩
  have hsame := (hedges e e' he he').mp (by decide)
  have hrun := (hunits (run 0) (run 1) he.origin he'.origin).mp (by decide)
  refine ⟨by decide, he, he', hstrange, by decide, hsame.2.2.1, ?_, hrun.2.2,
    hlocations _ _ (by decide)⟩
  intro h
  have hlocation := ((hedges e strange he hstrange).mp h).2.2.2
  exact absurd hlocation (by decide)

end Edge

end Conformance
