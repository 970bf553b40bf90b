import Conformance.Package.Written
import Conformance.Proofs.Package.Segments
import Conformance.Proofs.Pattern.Exact
import Conformance.Rule.Vocabulary

/-!
# Reading identifiers as patterns

The pattern that an identifier is written as follows the grammar, whatever bytes the
identifier is made of, and only its size can keep it from being read.  The matcher finds
in it what the pieces of the identifier say.
-/

namespace Conformance.Package

open Pattern

/-! ## Tokens -/

/-- The bytes of a text as characters. -/
def characters (t : Text) : List Char :=
  t.map (fun b => Char.ofNat b.toNat)

theorem byteOf_character (b : UInt8) : byteOf (Char.ofNat b.toNat) = b := by
  have hlt := b.toNat_lt
  have hvalid : b.toNat.isValidChar := Or.inl (by omega)
  have hcharacter : (Char.ofNat b.toNat).toNat = b.toNat := by
    rw [Char.ofNat, dif_pos hvalid]
    rfl
  rw [byteOf, hcharacter]
  exact UInt8.ofNat_toNat

theorem mem_characters_iff {b : UInt8} {t : Text} :
    Char.ofNat b.toNat ∈ characters t ↔ b ∈ t := by
  constructor
  · intro h
    obtain ⟨x, hx, heq⟩ := List.mem_map.mp h
    rwa [← byteOf_character b, ← heq, byteOf_character]
  · exact fun h => List.mem_map_of_mem h

theorem characters_append (t u : Text) :
    characters (t ++ u) = characters t ++ characters u :=
  List.map_append

/-- A byte that means nothing of its own is a token. -/
theorem readToken_character {b : UInt8} (hdot : b ≠ Text.dot) (hstar : b ≠ star)
    (hmeaning : ¬ hasMeaning b = true) (rest : List Char) :
    readToken (Char.ofNat b.toNat) rest = .ok (.byte (.single b), rest) := by
  have hb : b ∉ (".*\\^$|?+()[]\x7b\x7d" : Text) := by
    rw [hasMeaning, List.contains_iff_mem] at hmeaning
    exact fun h => (List.mem_cons.mp h).elim hdot fun h =>
      (List.mem_cons.mp h).elim hstar hmeaning
  have hne : ∀ c ∈ characters ".*\\^$|?+()[]\x7b\x7d", Char.ofNat b.toNat ≠ c :=
    fun c hc heq => hb (mem_characters_iff.mp (heq ▸ hc))
  rw [readToken, byteOf_character]
  all_goals exact hne _ (by decide)

/-- What means something of its own is a token with a backslash in front, and so is a
dot. -/
theorem readToken_escaped {b : UInt8} (hb : b = Text.dot ∨ hasMeaning b = true)
    (rest : List Char) :
    readToken '\\' (Char.ofNat b.toNat :: rest) = .ok (.byte (.single b), rest) := by
  have hmem : b ∈ (".\\^$|?+()[]\x7b\x7d" : Text) := by
    rw [hasMeaning, List.contains_iff_mem] at hb
    exact List.mem_cons.mpr hb
  have hplain : (".\\^$|?+()[]\x7b\x7d" : Text).all (fun b =>
      !("0bBfnrtvdDsSwWcxu" : Text).contains b && !isDigit (Char.ofNat b.toNat)) =
        true := by
    decide
  have hplain := List.all_eq_true.mp hplain b hmem
  rw [Bool.and_eq_true, Bool.not_eq_true', Bool.not_eq_true', ← Bool.not_eq_true,
    List.contains_iff_mem] at hplain
  obtain ⟨hletter, hdigit⟩ := hplain
  have hne : ∀ c ∈ characters "0bBfnrtvdDsSwWcxu", Char.ofNat b.toNat ≠ c :=
    fun c hc heq => hletter (mem_characters_iff.mp (heq ▸ hc))
  have hescape : readEscape false (Char.ofNat b.toNat :: rest) = .ok (.byte b, rest) := by
    rw [readEscape, if_neg (by rw [hdigit]; exact Bool.false_ne_true), byteOf_character]
    all_goals exact hne _ (by decide)
  rw [readToken, hescape]
  rfl

/-- A quantifier takes more occurrences first, unless a question mark comes after it. -/
theorem readQuantifier_of_ne (times : Times) {rest : List Char}
    (h : rest.head? ≠ some '?') :
    readQuantifier times rest = (.quantifier ⟨times, true⟩, rest) := by
  rw [readQuantifier]
  rintro rest' rfl
  exact h rfl

namespace Piece

/-- The tokens of a group that may be left out. -/
def optionalTokens (inner : List Token) : List Token :=
  .openPlain :: inner ++ [.close, .quantifier ⟨.optional, true⟩]

/-- The tokens of a run of any length. -/
def runTokens : List Token :=
  [.byte .exceptLineEnds, .quantifier ⟨.star, true⟩]

/-- The tokens of the piece. -/
def tokens : Piece → List Token
  | byte b => [.byte (.single b)]
  | word => [.byte ⟨false, [.named .word]⟩, .quantifier ⟨.plus, true⟩]
  | leadingGap => optionalTokens (runTokens ++ [.byte (.single Text.dot)])
  | innerGap =>
      .byte (.single Text.dot) :: optionalTokens (runTokens ++ [.byte (.single Text.dot)])
  | trailingGap => optionalTokens (.byte (.single Text.dot) :: runTokens)
  | anything => runTokens

end Piece

theorem readTokens_cons {c : Char} {cs rest : List Char} {token : Token} {ts : List Token}
    {n : Nat} (htoken : readToken c cs = .ok (token, rest))
    (h : readTokens n rest = .ok ts) :
    readTokens (n + 1) (c :: cs) = .ok (token :: ts) := by
  rw [readTokens, htoken]
  simp only [bind, Except.bind, h]
  rfl

section Tokens

variable {rest : List Char} {ts : List Token} {n : Nat}

theorem readTokens_run (hrest : rest.head? ≠ some '?') (h : readTokens n rest = .ok ts) :
    readTokens (n + 2) ('.' :: '*' :: rest) = .ok (Piece.runTokens ++ ts) :=
  readTokens_cons rfl
    (readTokens_cons (congrArg Except.ok (readQuantifier_of_ne .star hrest)) h)

theorem readTokens_dot (h : readTokens n rest = .ok ts) :
    readTokens (n + 1) ('\\' :: '.' :: rest) = .ok (.byte (.single Text.dot) :: ts) :=
  readTokens_cons rfl h

theorem readTokens_openPlain (h : readTokens n rest = .ok ts) :
    readTokens (n + 1) ('(' :: '?' :: ':' :: rest) = .ok (.openPlain :: ts) :=
  readTokens_cons rfl h

theorem readTokens_closeOptional (hrest : rest.head? ≠ some '?')
    (h : readTokens n rest = .ok ts) :
    readTokens (n + 2) (')' :: '?' :: rest) =
      .ok (.close :: .quantifier ⟨.optional, true⟩ :: ts) :=
  readTokens_cons rfl
    (readTokens_cons (congrArg Except.ok (readQuantifier_of_ne .optional hrest)) h)

/-- The tokens of a piece, and then those of what comes after it. -/
theorem readTokens_piece {p : Piece} (hp : p ≠ .byte star) (hrest : rest.head? ≠ some '?')
    (h : readTokens n rest = .ok ts) :
    readTokens (n + p.tokens.length) (characters p.patternText ++ rest) =
      .ok (p.tokens ++ ts) := by
  cases p with
  | byte b =>
      by_cases hescape : b = Text.dot ∨ hasMeaning b = true
      · rw [Piece.patternText, if_pos hescape]
        exact readTokens_cons (readToken_escaped hescape rest) h
      · rw [Piece.patternText, if_neg hescape]
        rw [not_or] at hescape
        have hstar : b ≠ star := fun hb => hp (congrArg Piece.byte hb)
        exact readTokens_cons (readToken_character hescape.1 hstar hescape.2 rest) h
  | word =>
      have hword : readToken '\\' ('w' :: '+' :: rest) =
          .ok (.byte ⟨false, [.named .word]⟩, '+' :: rest) := rfl
      exact readTokens_cons hword
        (readTokens_cons (congrArg Except.ok (readQuantifier_of_ne .plus hrest)) h)
  | leadingGap =>
      exact readTokens_openPlain (readTokens_run (by simp) (readTokens_dot
        (readTokens_closeOptional hrest h)))
  | innerGap =>
      exact readTokens_dot (readTokens_openPlain (readTokens_run (by simp) (readTokens_dot
        (readTokens_closeOptional hrest h))))
  | trailingGap =>
      exact readTokens_openPlain (readTokens_dot (readTokens_run (by simp)
        (readTokens_closeOptional hrest h)))
  | anything => exact readTokens_run hrest h

end Tokens

/-- The pattern of a piece does not begin with a question mark. -/
theorem Piece.head?_patternText (p : Piece) (rest : Text) :
    (characters (p.patternText ++ rest)).head? ≠ some '?' := by
  cases p with
  | byte b =>
      by_cases hescape : b = Text.dot ∨ hasMeaning b = true
      · rw [patternText, if_pos hescape]
        exact fun h => absurd (Option.some.inj h) (by decide)
      · rw [patternText, if_neg hescape]
        intro h
        have hcharacter : Char.ofNat b.toNat = '?' := Option.some.inj h
        have hb : b = 63 := by
          rw [← byteOf_character b, hcharacter]
          rfl
        rw [hb] at hescape
        exact absurd hescape (by decide)
  | word => exact fun h => absurd (Option.some.inj h) (by decide)
  | leadingGap => exact fun h => absurd (Option.some.inj h) (by decide)
  | innerGap => exact fun h => absurd (Option.some.inj h) (by decide)
  | trailingGap => exact fun h => absurd (Option.some.inj h) (by decide)
  | anything => exact fun h => absurd (Option.some.inj h) (by decide)

theorem Piece.length_tokens_le (p : Piece) : p.tokens.length ≤ p.patternText.length := by
  cases p with
  | byte b => by_cases h :
      b = Text.dot ∨ hasMeaning b = true <;> simp [patternText, tokens, h]
  | word => decide
  | leadingGap => decide
  | innerGap => decide
  | trailingGap => decide
  | anything => decide

theorem readTokens_pieces {ps : List Piece} (hps : ∀ p ∈ ps, p ≠ .byte star) (n : Nat) :
    readTokens (n + (ps.flatMap Piece.tokens).length)
      (characters (ps.flatMap Piece.patternText)) = .ok (ps.flatMap Piece.tokens) := by
  induction ps with
  | nil => rw [List.flatMap_nil, List.flatMap_nil, characters, List.map_nil, readTokens]
  | cons p ps ih =>
      obtain ⟨hp, hps⟩ := List.forall_mem_cons.mp hps
      have hrest : (characters (ps.flatMap Piece.patternText)).head? ≠ some '?' := by
        match ps with
        | [] => exact nofun
        | q :: ps => exact q.head?_patternText _
      have hread := readTokens_piece hp hrest (ih hps)
      rw [Nat.add_assoc, Nat.add_comm _ p.tokens.length, ← List.length_append,
        ← characters_append] at hread
      exact hread

theorem star_notMem_innerPieces (t : Text) : Piece.byte star ∉ innerPieces t := by
  induction t using innerPieces.induct with
  | case1 => exact List.not_mem_nil
  | case2 rest ih => simp [innerPieces, ih]
  | case3 rest ih => simp [innerPieces, ih]
  | case4 b rest hgap hstar ih =>
      rw [innerPieces]
      · rw [List.mem_cons, not_or]
        exact ⟨fun heq => hstar (Piece.byte.inj heq).symm, ih⟩
      · exact hgap
      · exact hstar

theorem star_notMem_pieces (identifier : Text) : Piece.byte star ∉ pieces identifier := by
  rw [pieces]
  by_cases hgap : identifier = gap
  · rw [if_pos hgap]
    decide
  · rw [if_neg hgap]
    have hend : ∀ (there : Bool) (p : Piece), .byte star ≠ p →
        .byte star ∉ (if there then [p] else []) := by
      intro there p hp
      cases there <;> simp [hp]
    simp only [List.mem_append, not_or]
    exact ⟨⟨hend _ _ (by decide), star_notMem_innerPieces _⟩, hend _ _ (by decide)⟩

/-- The tokens of the pattern of an identifier are those of its pieces. -/
theorem tokens_patternText (identifier : Text) :
    Pattern.tokens (patternText identifier) =
      .ok ((pieces identifier).flatMap Piece.tokens) := by
  have hle : ((pieces identifier).flatMap Piece.tokens).length ≤
      (patternText identifier).length := by
    rw [patternText]
    induction pieces identifier with
    | nil => exact Nat.le_refl _
    | cons p ps ih =>
        simp only [List.flatMap_cons, List.length_append]
        exact Nat.add_le_add p.length_tokens_le ih
  have hpieces : ∀ p ∈ pieces identifier, p ≠ .byte star :=
    fun p hp heq => star_notMem_pieces identifier (heq ▸ hp)
  rw [Pattern.tokens, ← Nat.sub_add_cancel hle]
  exact readTokens_pieces hpieces _

/-! ## Trees -/

/-- Trees one after the other. -/
def rowTree (trees : List Tree) : Tree :=
  trees.foldr .seq .empty

/-- A run of any length, as a tree. -/
def runTree : Tree :=
  .repeated ⟨.star, true⟩ (.byte .exceptLineEnds)

/-- Some trees one after the other that may be left out. -/
def optionalTree (trees : List Tree) : Tree :=
  .repeated ⟨.optional, true⟩ (.seq .empty (rowTree trees))

/-- The trees of the piece. -/
def Piece.trees : Piece → List Tree
  | byte b => [.byte (.single b)]
  | word => [.repeated ⟨.plus, true⟩ (.byte ⟨false, [.named .word]⟩)]
  | leadingGap => [optionalTree [runTree, .byte (.single Text.dot)]]
  | innerGap =>
      [.byte (.single Text.dot), optionalTree [runTree, .byte (.single Text.dot)]]
  | trailingGap => [optionalTree [.byte (.single Text.dot), runTree]]
  | anything => [runTree]

/-- Reading a piece adds its trees to the group that is open. -/
theorem foldlM_read_tokens (p : Piece) (s : ReaderState) :
    p.tokens.foldlM ReaderState.read s =
      .ok { s with frame := p.trees.foldl Frame.addAtom s.frame } := by
  cases p <;> rfl

theorem foldlM_read_pieces (ps : List Piece) (s : ReaderState) :
    (ps.flatMap Piece.tokens).foldlM ReaderState.read s =
      .ok { s with frame := (ps.flatMap Piece.trees).foldl Frame.addAtom s.frame } := by
  induction ps generalizing s with
  | nil => rfl
  | cons p ps ih =>
      rw [List.flatMap_cons, List.foldlM_append, foldlM_read_tokens, List.flatMap_cons,
        List.foldl_append]
      exact ih _

theorem settled_foldl_addAtom (trees : List Tree) (f : Frame) :
    (trees.foldl Frame.addAtom f).settled = trees.reverse ++ f.settled := by
  induction trees generalizing f with
  | nil => rfl
  | cons t trees ih =>
      rw [List.foldl_cons, ih, List.reverse_cons, List.append_assoc]
      rfl

theorem branches_foldl_addAtom (trees : List Tree) (f : Frame) :
    (trees.foldl Frame.addAtom f).branches = f.branches := by
  induction trees generalizing f with
  | nil => rfl
  | cons t trees ih => exact ih _

theorem alternatives_foldl_addAtom (trees : List Tree) (opener : Opener) :
    (trees.foldl Frame.addAtom { opener }).alternatives = rowTree trees := by
  have hsettled := settled_foldl_addAtom trees { opener }
  rw [Frame.alternatives, branches_foldl_addAtom, List.nil_append]
  change Frame.branch _ = _
  rw [Frame.branch, hsettled]
  exact (congrArg _ (List.append_nil _)).trans List.foldl_reverse

/-- The tree of the pattern of an identifier. -/
def tree (identifier : Text) : Tree :=
  rowTree ((pieces identifier).flatMap Piece.trees)

/-- The grammar finds no fault with the pattern of an identifier, whatever bytes the
identifier is made of. -/
theorem parse_patternText (identifier : Text) :
    Pattern.parse (patternText identifier) = .ok (tree identifier, 0) := by
  rw [Pattern.parse, tokens_patternText]
  simp only [bind, Except.bind, foldlM_read_pieces]
  rw [ReaderState.initial, alternatives_foldl_addAtom]
  rfl

/-! ## Sizes -/

theorem Piece.states_trees (p : Piece) (rest : Tree) :
    (p.trees.foldr .seq rest).states.2 = p.states + rest.states.2 := by
  cases p with
  | innerGap => exact (Nat.add_assoc 1 7 _).symm
  | byte b => rfl
  | word => rfl
  | leadingGap => rfl
  | trailingGap => rfl
  | anything => rfl

theorem states_pieces (ps : List Piece) :
    (rowTree (ps.flatMap Piece.trees)).states.2 = statesOf ps + 1 := by
  induction ps with
  | nil => rfl
  | cons p ps ih =>
      rw [List.flatMap_cons, rowTree, List.foldr_append, p.states_trees, ← rowTree, ih,
        statesOf, Nat.add_assoc]

/-- The states of an identifier are those of its tree, and three around it. -/
theorem states_tree (identifier : Text) :
    (tree identifier).states.2 + 3 = states identifier := by
  rw [tree, states_pieces, states]

theorem statesOf_append (ps qs : List Piece) :
    statesOf (ps ++ qs) = statesOf ps + statesOf qs := by
  induction ps with
  | nil => exact (Nat.zero_add _).symm
  | cons p ps ih => rw [List.cons_append, statesOf, ih, statesOf, Nat.add_assoc]

theorem statesOf_innerPieces_le (t : Text) : statesOf (innerPieces t) ≤ 4 * t.length := by
  induction t using innerPieces.induct with
  | case1 => exact Nat.le_refl _
  | case2 rest ih =>
      change 8 + _ ≤ 4 * (rest.length + 2)
      omega
  | case3 rest ih =>
      change 2 + _ ≤ 4 * (rest.length + 1)
      omega
  | case4 b rest hgap hstar ih =>
      rw [innerPieces]
      · change 1 + _ ≤ 4 * (rest.length + 1)
        omega
      · exact hgap
      · exact hstar

/-- Two dots in front cost no more states than two other bytes may. -/
theorem statesOf_leadingGap_le (identifier : Text) :
    statesOf (if gap.isPrefixOf identifier then [Piece.leadingGap] else [])
      + 4 * (if gap.isPrefixOf identifier then identifier.drop 2 else identifier).length ≤
        4 * identifier.length := by
  by_cases hleading : gap.isPrefixOf identifier = true
  · have hlength := (List.isPrefixOf_iff_prefix.mp hleading).length_le
    rw [if_pos hleading, if_pos hleading, List.length_drop]
    change 2 ≤ _ at hlength
    change 7 + _ ≤ _
    omega
  · rw [if_neg hleading, if_neg hleading]
    exact Nat.le_of_eq (Nat.zero_add _)

theorem statesOf_trailingGap_le (rest : Text) :
    4 * (if gap.isSuffixOf rest then rest.dropLast.dropLast else rest).length
      + statesOf (if gap.isSuffixOf rest then [Piece.trailingGap] else []) ≤
        4 * rest.length := by
  by_cases htrailing : gap.isSuffixOf rest = true
  · have hlength := (List.isSuffixOf_iff_suffix.mp htrailing).length_le
    rw [if_pos htrailing, if_pos htrailing, List.length_dropLast, List.length_dropLast]
    change 2 ≤ _ at hlength
    change _ + 7 ≤ _
    omega
  · rw [if_neg htrailing, if_neg htrailing]
    exact Nat.le_refl _

/-- No byte of an identifier costs more than four states. -/
theorem states_le (identifier : Text) :
    states identifier ≤ 4 * identifier.length + 4 := by
  rw [states, Nat.add_le_add_iff_right, pieces]
  by_cases hgap : identifier = gap
  · rw [if_pos hgap, hgap]
    decide
  · rw [if_neg hgap]
    simp only [statesOf_append]
    have hfront := statesOf_leadingGap_le identifier
    generalize (if gap.isPrefixOf identifier then identifier.drop 2
      else identifier) = rest at hfront ⊢
    have hback := statesOf_trailingGap_le rest
    generalize (if gap.isSuffixOf rest then rest.dropLast.dropLast
      else rest) = inner at hback ⊢
    have hinner := statesOf_innerPieces_le inner
    omega

/-! ## Accepted and refused identifiers -/

section Accepted

variable {identifier : Text} (h : states identifier ≤ maxStates)

include h

theorem accept_of_le : accept identifier = .ok () :=
  if_pos h

/-- The pattern of an accepted identifier can be made. -/
theorem read_patternText_of_le :
    Pattern.read (patternText identifier) =
      .ok (Pattern.ofTree (tree identifier) 0) := by
  have hfits : (tree identifier).fits = true :=
    decide_eq_true (le_of_eq_of_le (states_tree identifier) h)
  rw [Pattern.read, Pattern.readTree, parse_patternText]
  simp only [bind, Except.bind, if_pos hfits]
  rfl

theorem matches?_of_le (name : Text) :
    matches? identifier name = .ok (matchesName identifier name) := by
  rw [matches?, accept_of_le h]
  rfl

theorem inPackage?_of_le :
    Predicate.inPackage? identifier = .ok (Predicate.inPackage identifier) := by
  rw [Predicate.inPackage?, accept_of_le h]
  rfl

end Accepted

section Refused

variable {identifier : Text} (h : maxStates < states identifier)

include h

theorem accept_of_lt : accept identifier = .error .tooLarge :=
  if_neg (Nat.not_le.mpr h)

/-- Only its size keeps the pattern of a refused identifier from being made. -/
theorem read_patternText_of_lt :
    Pattern.read (patternText identifier) = .error .tooLarge := by
  have hfits : ¬ (tree identifier).fits = true := by
    rw [Tree.fits, states_tree, decide_eq_true_iff]
    exact Nat.not_le.mpr h
  rw [Pattern.read, Pattern.readTree, parse_patternText]
  simp only [bind, Except.bind, if_neg hfits]
  rfl

theorem matches?_of_lt (name : Text) : matches? identifier name = .error .tooLarge := by
  rw [matches?, accept_of_lt h]
  rfl

theorem inPackage?_of_lt : Predicate.inPackage? identifier = .error .tooLarge := by
  rw [Predicate.inPackage?, accept_of_lt h]
  rfl

end Refused

/-! ## Meanings -/

theorem contains_single {b x : UInt8} : (ByteSet.single b).contains x = true ↔ x = b := by
  simp [ByteSet.single, ByteSet.contains, SetEntry.covers]

theorem contains_exceptLineEnds {b : UInt8} :
    ByteSet.exceptLineEnds.contains b = skippable b := by
  simp [ByteSet.exceptLineEnds, ByteSet.contains, SetEntry.covers, skippable, bne,
    ← Bool.not_or]

theorem contains_word {b : UInt8} :
    (ByteSet.mk false [.named .word]).contains b = ByteClass.word.contains b := by
  simp [ByteSet.contains, SetEntry.covers]

theorem means_single (b : UInt8) :
    (Tree.byte (.single b)).Means (fun t u => t = b :: u) :=
  (Tree.Means.byte _).congr fun t u => by simp [contains_single]

theorem means_run : runTree.Means (fun t u => u ∈ afterRun t) :=
  (Tree.Means.star true _).congr fun t u => by
    rw [mem_afterRun]
    simp only [contains_exceptLineEnds]

theorem means_gap : (optionalTree [runTree, .byte (.single Text.dot)]).Means
    (fun t u => u ∈ t :: afterRunToDot t) := by
  have hrow := means_run.seq ((means_single Text.dot).seq .empty)
  refine ((Tree.Means.empty.seq hrow).optional true).congr fun t u => ?_
  rw [List.mem_cons, mem_afterRunToDot, eq_comm]
  refine or_congr_right ⟨?_, ?_⟩
  · rintro ⟨_, rfl, rest, hrest, _, rfl, rfl⟩
    exact mem_afterRun.mp hrest
  · intro hrun
    exact ⟨t, rfl, _, mem_afterRun.mpr hrun, u, rfl, rfl⟩

/-- The trees of a piece leave what the piece leaves, and then comes the rest of the
pattern. -/
theorem means_piece (p : Piece) {rest : Tree} {leaves : Text → Text → Prop}
    (h : rest.Means leaves) :
    (p.trees.foldr .seq rest).Means (fun t v => ∃ u ∈ p.remainders t, leaves u v) := by
  cases p with
  | byte b =>
      refine ((means_single b).seq h).congr fun t v => ?_
      simp only [mem_remainders_byte]
  | word =>
      refine ((Tree.Means.plus true _).seq h).congr fun t v => ?_
      simp only [Piece.remainders, mem_afterWord, contains_word]
  | leadingGap => exact means_gap.seq h
  | innerGap =>
      refine ((means_single Text.dot).seq (means_gap.seq h)).congr fun t v => ?_
      simp only [mem_remainders_innerGap]
      constructor
      · rintro ⟨name, ht, u, hu, hv⟩
        exact ⟨u, ⟨name, ht, hu⟩, hv⟩
      · rintro ⟨u, ⟨name, ht, hu⟩, hv⟩
        exact ⟨name, ht, u, hu, hv⟩
  | trailingGap =>
      have hrow := (means_single Text.dot).seq (means_run.seq .empty)
      refine (((Tree.Means.empty.seq hrow).optional true).seq h).congr fun t v => ?_
      simp only [mem_remainders_trailingGap]
      refine exists_congr fun u => and_congr_left fun _ => or_congr_right ⟨?_, ?_⟩
      · rintro ⟨_, rfl, name, ht, _, hu, rfl⟩
        exact ⟨name, ht, hu⟩
      · rintro ⟨name, ht, hu⟩
        exact ⟨t, rfl, name, ht, u, hu, rfl⟩
  | anything => exact means_run.seq h

theorem means_pieces (ps : List Piece) :
    ∃ leaves, (rowTree (ps.flatMap Piece.trees)).Means leaves ∧
      ∀ name, leaves name [] ↔ UsesUp ps name := by
  induction ps with
  | nil => exact ⟨_, .empty, fun _ => Iff.rfl⟩
  | cons p ps ih =>
      obtain ⟨leaves, hmeans, hleaves⟩ := ih
      have hmeans := means_piece p hmeans
      rw [rowTree, ← List.foldr_append, ← List.flatMap_cons] at hmeans
      exact ⟨_, hmeans, fun name => exists_congr fun u => and_congr_right fun _ =>
        hleaves u⟩

/-- The matcher finds the pattern of an identifier in the names that the identifier
matches. -/
theorem matchesWhole_tree (identifier name : Text) :
    (Pattern.ofTree (tree identifier) 0).matchesWhole name =
      matchesName identifier name := by
  obtain ⟨leaves, hmeans, hleaves⟩ := means_pieces (pieces identifier)
  rw [Bool.eq_iff_iff, matchesName_iff, ← hleaves]
  exact hmeans.matchesWhole_iff 0 name

/-- The names that an identifier matches are those that the pattern made of it matches. -/
theorem matches?_eq (identifier name : Text) :
    matches? identifier name =
      (fun pattern => pattern.matchesWhole name) <$>
        Pattern.read (patternText identifier) := by
  obtain h | h := Nat.lt_or_ge maxStates (states identifier)
  · rw [matches?_of_lt h, read_patternText_of_lt h]
    rfl
  · rw [matches?_of_le h, read_patternText_of_le h, ← matchesWhole_tree]
    rfl

/-- The predicate about the packages of classes asks the pattern made of the identifier. -/
theorem inPackage?_eq (identifier : Text) :
    Predicate.inPackage? identifier =
      (fun pattern => Predicate.describe ("reside in a package " ++ identifier.quoted)
        (fun c : Class => pattern.matchesWhole c.packageName)) <$>
        Pattern.read (patternText identifier) := by
  obtain h | h := Nat.lt_or_ge maxStates (states identifier)
  · rw [inPackage?_of_lt h, read_patternText_of_lt h]
    rfl
  · rw [inPackage?_of_le h, read_patternText_of_le h, Predicate.inPackage]
    simp only [← matchesWhole_tree]
    rfl

/-- A package identifier means what it says, segment by segment.  The grammar finds no
fault with the pattern that an identifier is written as; only an identifier whose
automaton has more states than any may have is refused, and no identifier of less than
25000 bytes is.  Both the question about a name and the predicate about classes are
answered by the pattern.  For an identifier that is put together from segments and not
refused, the names it matches are those whose segments can be cut into runs that match its
parts in order. -/
theorem identifiers_segmentwise :
    (∀ identifier, ∃ tree, Pattern.parse (patternText identifier) = .ok (tree, 0)) ∧
    (∀ identifier, if states identifier ≤ maxStates
      then ∃ pattern, Pattern.read (patternText identifier) = .ok pattern
      else Pattern.read (patternText identifier) = .error .tooLarge) ∧
    (∀ identifier, identifier.length < 25000 → states identifier ≤ maxStates) ∧
    (∀ identifier name, matches? identifier name =
      (fun pattern => pattern.matchesWhole name)
        <$> Pattern.read (patternText identifier)) ∧
    (∀ identifier, Predicate.inPackage? identifier =
      (fun pattern => Predicate.describe ("reside in a package " ++ identifier.quoted)
        (fun c : Class => pattern.matchesWhole c.packageName)) <$>
        Pattern.read (patternText identifier)) ∧
    (∀ d : Identifier, states d.text ≤ maxStates → ∀ name, ∃ answer,
      matches? d.text name = .ok answer ∧ (answer = true ↔ d.Describes name)) ∧
    (∀ d : Identifier, states d.text ≤ maxStates → ∃ p,
      Predicate.inPackage? d.text = .ok p ∧
        ∀ c, p.accepts c = true ↔ d.Describes c.packageName) := by
  refine ⟨?parse, ?size, ?short, matches?_eq, inPackage?_eq, ?name, ?predicate⟩
  case parse => exact fun identifier => ⟨tree identifier, parse_patternText identifier⟩
  case size =>
    intro identifier
    split
    case isTrue h => exact ⟨_, read_patternText_of_le h⟩
    case isFalse h => exact read_patternText_of_lt (Nat.not_le.mp h)
  case short =>
    intro identifier h
    have hstates := states_le identifier
    rw [maxStates]
    omega
  case name =>
    intro d h name
    exact ⟨_, matches?_of_le h name, d.matchesName_text_iff name⟩
  case predicate =>
    intro d h
    exact ⟨_, inPackage?_of_le h, fun c => d.matchesName_text_iff c.packageName⟩

/-- The identifier `..api.v*`. -/
def apiVersions : Identifier :=
  .segments true ⟨"api", by decide, by decide⟩
    [(.dot, ⟨"v*", by decide, by decide⟩)] false

theorem apiVersions_describes :
    states apiVersions.text ≤ maxStates ∧
    matches? apiVersions.text "org.api.v2" = .ok true ∧
    apiVersions.Describes "org.api.v2" ∧ ¬ apiVersions.Describes "org.api.v2.draft" ∧
    ∃ p, Predicate.inPackage? apiVersions.text = .ok p ∧
      ∀ c, p.accepts c = true ↔ apiVersions.Describes c.packageName := by
  obtain ⟨-, -, hshort, -, -, hname, hpredicate⟩ := identifiers_segmentwise
  have hstates : states apiVersions.text ≤ maxStates := hshort _ (by decide)
  obtain ⟨answer, hanswer, hdescribes⟩ := hname apiVersions hstates "org.api.v2"
  obtain ⟨answer', hanswer', hdescribes'⟩ := hname apiVersions hstates "org.api.v2.draft"
  have hyes : matches? apiVersions.text "org.api.v2" = .ok true := rfl
  have hno : matches? apiVersions.text "org.api.v2.draft" = .ok false := rfl
  obtain rfl : answer = true := Except.ok.inj (hanswer.symm.trans hyes)
  obtain rfl : answer' = false := Except.ok.inj (hanswer'.symm.trans hno)
  refine ⟨hstates, hyes, hdescribes.mp rfl, ?_, hpredicate apiVersions hstates⟩
  exact fun h => Bool.false_ne_true (hdescribes'.mpr h)

/-! ### A refused identifier -/

/-- The identifier of one letter. -/
def letter : Segment where
  bytes := "a"
  ne_nil := by decide
  dot_notMem := by decide

/-- The identifier of `n` times two dots, with a letter around each. -/
def spaced (n : Nat) : Identifier :=
  .segments false letter (List.replicate n (.gap, letter)) false

theorem states_spaced (n : Nat) : states (spaced n).text = 9 * n + 5 := by
  have hothers : ∀ n, statesOf (Identifier.otherPieces false
      (List.replicate n (.gap, letter))) = 9 * n := by
    intro n
    induction n with
    | zero => rfl
    | succ n ih =>
        rw [List.replicate_succ, Identifier.otherPieces, statesOf, statesOf_append, ih]
        change 8 + (1 + 9 * n) = _
        omega
  have hpieces : pieces (spaced n).text =
      letter.bytes.map Piece.ofByte ++
        Identifier.otherPieces false (List.replicate n (.gap, letter)) :=
    (spaced n).pieces_text
  rw [states, hpieces, statesOf_append, hothers]
  change 1 + 9 * n + 4 = _
  omega

theorem text_spaced (n : Nat) :
    (spaced n).text = "a" ++ (List.replicate n ("..a" : Text)).flatten := by
  have hothers : ∀ n, Identifier.othersText (List.replicate n (.gap, letter)) =
      (List.replicate n ("..a" : Text)).flatten := by
    intro n
    induction n with
    | zero => rfl
    | succ n ih =>
        rw [List.replicate_succ, Identifier.othersText, ih, List.replicate_succ,
          List.flatten_cons]
        rfl
  rw [spaced, Identifier.text, hothers]
  exact List.append_nil _

/-- An identifier with twelve thousand times two dots is refused, wherever it is used. -/
theorem twelveThousandGaps_refused :
    (spaced 12000).text = "a" ++ (List.replicate 12000 ("..a" : Text)).flatten ∧
    Pattern.read (patternText (spaced 12000).text) = .error .tooLarge ∧
    matches? (spaced 12000).text "a" = .error .tooLarge ∧
    Predicate.inPackage? (spaced 12000).text = .error .tooLarge := by
  have hstates : maxStates < states (spaced 12000).text := by
    rw [states_spaced]
    decide
  exact ⟨text_spaced 12000, read_patternText_of_lt hstates, matches?_of_lt hstates "a",
    inPackage?_of_lt hstates⟩

end Conformance.Package
