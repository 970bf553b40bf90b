import Conformance.Package

/-!
# Remainders of names

The pieces of an identifier are tried on all remainders of a name at once.  What a piece
leaves can be said by a run at the front of the name, and a name matches when the pieces,
one after the other, use it up.
-/

namespace Conformance.Package

/-! ## Names used up -/

/-- The pieces, one after the other, use the name up. -/
def UsesUp : List Piece → Text → Prop
  | [], name => name = []
  | p :: ps, name => ∃ rest ∈ p.remainders name, UsesUp ps rest

theorem nil_mem_remaindersOf (ps : List Piece) (names : List Text) :
    [] ∈ remaindersOf ps names ↔ ∃ name ∈ names, UsesUp ps name := by
  induction ps generalizing names with
  | nil => simp [remaindersOf, UsesUp]
  | cons p ps ih =>
      rw [remaindersOf, ih]
      constructor
      · rintro ⟨rest, hrest, huses⟩
        obtain ⟨name, hname, hremainder⟩ :=
          List.mem_flatMap.mp (List.mem_eraseDups.mp hrest)
        exact ⟨name, hname, rest, hremainder, huses⟩
      · rintro ⟨name, hname, rest, hremainder, huses⟩
        have hrest := List.mem_flatMap.mpr ⟨name, hname, hremainder⟩
        exact ⟨rest, List.mem_eraseDups.mpr hrest, huses⟩

theorem matchesName_iff (identifier name : Text) :
    matchesName identifier name = true ↔ UsesUp (pieces identifier) name := by
  rw [matchesName, List.contains_iff_mem, nil_mem_remaindersOf]
  simp

/-! ## What the pieces leave -/

theorem mem_afterRun {name rest : Text} :
    rest ∈ afterRun name ↔ ∃ run, name = run ++ rest ∧ ∀ b ∈ run, skippable b = true := by
  induction name with
  | nil =>
      rw [afterRun, List.mem_singleton]
      constructor
      · rintro rfl
        exact ⟨[], rfl, nofun⟩
      · rintro ⟨run, hname, _⟩
        exact (List.append_eq_nil_iff.mp hname.symm).2
  | cons b name ih =>
      rw [afterRun, List.mem_cons]
      constructor
      · rintro (rfl | hrest)
        · exact ⟨[], rfl, nofun⟩
        · by_cases hb : skippable b = true
          · rw [if_pos hb, ih] at hrest
            obtain ⟨run, rfl, hrun⟩ := hrest
            exact ⟨b :: run, rfl, List.forall_mem_cons.mpr ⟨hb, hrun⟩⟩
          · rw [if_neg hb] at hrest
            cases hrest
      · rintro ⟨run, hname, hrun⟩
        match run with
        | [] => exact Or.inl hname.symm
        | x :: run =>
            obtain ⟨rfl, rfl⟩ := List.cons.inj hname
            obtain ⟨hb, hrun⟩ := List.forall_mem_cons.mp hrun
            rw [if_pos hb, ih]
            exact Or.inr ⟨run, rfl, hrun⟩

theorem mem_afterRunToDot {name rest : Text} :
    rest ∈ afterRunToDot name ↔
      ∃ run, name = run ++ Text.dot :: rest ∧ ∀ b ∈ run, skippable b = true := by
  induction name with
  | nil => simp [afterRunToDot]
  | cons b name ih =>
      simp only [afterRunToDot, List.mem_append, List.cons_eq_append_iff]
      constructor
      · rintro (hb | hrest)
        · by_cases hdot : b = Text.dot
          · rw [if_pos hdot, List.mem_singleton] at hb
            exact ⟨[], Or.inl ⟨rfl, by rw [hdot, hb]⟩, nofun⟩
          · rw [if_neg hdot] at hb
            cases hb
        · by_cases hb : skippable b = true
          · rw [if_pos hb, ih] at hrest
            obtain ⟨run, hname, hrun⟩ := hrest
            exact ⟨b :: run, Or.inr ⟨run, rfl, hname⟩,
              List.forall_mem_cons.mpr ⟨hb, hrun⟩⟩
          · rw [if_neg hb] at hrest
            cases hrest
      · rintro ⟨run, ⟨rfl, hname⟩ | ⟨run, rfl, hname⟩, hrun⟩
        · obtain ⟨rfl, rfl⟩ := List.cons.inj hname
          exact Or.inl (by simp)
        · obtain ⟨hb, hrun⟩ := List.forall_mem_cons.mp hrun
          rw [if_pos hb, ih]
          exact Or.inr ⟨run, hname, hrun⟩

theorem mem_afterWord {name rest : Text} :
    rest ∈ afterWord name ↔ ∃ run, name = run ++ rest ∧ run ≠ [] ∧
      ∀ b ∈ run, Pattern.ByteClass.word.contains b = true := by
  induction name with
  | nil => simp [afterWord]
  | cons b name ih =>
      rw [afterWord]
      by_cases hb : Pattern.ByteClass.word.contains b = true
      · rw [if_pos hb, List.mem_cons, ih]
        constructor
        · rintro (rfl | ⟨run, rfl, _, hrun⟩)
          · exact ⟨[b], rfl, nofun, List.forall_mem_singleton.mpr hb⟩
          · exact ⟨b :: run, rfl, nofun, List.forall_mem_cons.mpr ⟨hb, hrun⟩⟩
        · rintro ⟨run, hname, hne, hrun⟩
          obtain ⟨rfl, rfl⟩ | ⟨run, rfl, rfl⟩ := List.cons_eq_append_iff.mp hname
          · exact absurd rfl hne
          · by_cases hempty : run = []
            · exact Or.inl (by rw [hempty]; rfl)
            · exact Or.inr ⟨run, rfl, hempty, (List.forall_mem_cons.mp hrun).2⟩
      · rw [if_neg hb]
        constructor
        · exact nofun
        · rintro ⟨run, hname, hne, hrun⟩
          obtain ⟨rfl, rfl⟩ | ⟨run, rfl, rfl⟩ := List.cons_eq_append_iff.mp hname
          · exact absurd rfl hne
          · exact absurd (hrun b List.mem_cons_self) hb

theorem mem_remainders_byte {b : UInt8} {t u : Text} :
    u ∈ (Piece.byte b).remainders t ↔ t = b :: u := by
  match t with
  | [] => simp [Piece.remainders]
  | x :: t =>
      by_cases hx : x = b
      · simp [Piece.remainders, hx, eq_comm]
      · simp [Piece.remainders, hx]

theorem mem_remainders_trailingGap {t u : Text} :
    u ∈ Piece.trailingGap.remainders t ↔
      t = u ∨ ∃ rest, t = Text.dot :: rest ∧ u ∈ afterRun rest := by
  match t with
  | [] => simp [Piece.remainders, eq_comm]
  | x :: t => by_cases hx : x = Text.dot <;> simp [Piece.remainders, hx, eq_comm]

theorem mem_remainders_innerGap {t u : Text} :
    u ∈ Piece.innerGap.remainders t ↔
      ∃ rest, t = Text.dot :: rest ∧ u ∈ rest :: afterRunToDot rest := by
  match t with
  | [] => simp [Piece.remainders]
  | x :: t => by_cases hx : x = Text.dot <;> simp [Piece.remainders, hx]

end Conformance.Package
