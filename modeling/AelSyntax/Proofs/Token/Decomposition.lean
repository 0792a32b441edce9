import AelSyntax.Proofs.Token.Draining
import AelSyntax.Proofs.Token.Gap
import AelSyntax.Proofs.Token.Longest
import Mathlib.Data.List.Induction
import Mathlib.Tactic.Common

/-! # The tokens of a text

A text decomposes into pieces and a last gap when every gap is the longest gap where it begins and
every lexeme is the first lexeme of what is left (`Decomposes`). These conditions leave no choice:
the pieces are those that `cut` finds (`decomposes_iff`). The tokens of the text are the lexemes,
and the place of a token counts the newlines before it and the characters since the last of them
(`Place.ofOffset`, `placed_eq_tokensAt`). -/

namespace AelSyntax

open AelSyntax.Text

/-- A text is a row of pieces and a last gap, each gap and each lexeme the longest one possible. -/
def Decomposes : List Char → List Piece → List Char → Prop
  | cs, [], last => cs = last ∧ IsLongestGap last []
  | cs, ⟨gap, lexeme⟩ :: pieces, last =>
    ∃ rest, cs = gap ++ (lexeme.chars ++ rest) ∧ IsLongestGap gap (lexeme.chars ++ rest) ∧
      IsFirstLexeme lexeme rest ∧ Decomposes rest pieces last

/-- The place of an offset: the newlines before it give the line, the characters since the last
newline give the column. -/
def Place.ofOffset (cs : List Char) (n : Nat) : Place :=
  ⟨1 + ((cs.take n).count '\n' : Nat),
    1 + (((cs.take n).reverse.takeWhile fun c => c ≠ '\n').length : Nat)⟩

/-- The lexemes of the pieces of a text as tokens, the first piece beginning at an offset, and the
end of the text. -/
def tokensAt (cs : List Char) : Nat → List Piece → List Token
  | _, [] => [.finish (.ofOffset cs cs.length)]
  | n, ⟨gap, lexeme⟩ :: pieces =>
    ⟨lexeme.kind, String.ofList lexeme.chars, .ofOffset cs (n + gap.length)⟩ ::
      tokensAt cs (n + gap.length + lexeme.chars.length) pieces

/-! ### The conditions determine the pieces -/

theorem Decomposes.cut_eq : ∀ {cs : List Char} {pieces : List Piece} {last : List Char},
    Decomposes cs pieces last → cut cs = (pieces, last)
  | cs, [], last, ⟨hcs, hlast⟩ => by
    subst hcs
    rw [isLongestGap_iff, List.append_nil] at hlast
    rw [cut_of_eq_nil (by rw [hlast]), hlast]
  | cs, ⟨gap, lexeme⟩ :: pieces, last, ⟨rest, hcs, hgap, hlexeme, hrest⟩ => by
    subst hcs
    rw [isLongestGap_iff] at hgap
    obtain ⟨c, ds, hc⟩ := List.exists_cons_of_ne_nil hlexeme.chars_ne_nil
    have hsplit : (splitGap false (gap ++ (lexeme.chars ++ rest))).2 = c :: (ds ++ rest) := by
      rw [hgap, hc]; rfl
    obtain ⟨hl, hr⟩ := (Lexeme.isFirstLexeme_scan c (ds ++ rest)).unique hlexeme
      (by rw [Lexeme.scan_append, hc]; rfl)
    rw [cut_of_eq_cons hsplit, hl, hr, hrest.cut_eq, hgap]

theorem decomposes_cut (cs : List Char) : Decomposes cs (cut cs).1 (cut cs).2 := by
  have happ := splitGap_append false cs
  have hgap : IsLongestGap (splitGap false cs).1 (splitGap false cs).2 := by
    rw [isLongestGap_iff, happ]
  cases hs : (splitGap false cs).2 with
  | nil =>
    rw [hs, List.append_nil] at happ
    rw [hs] at hgap
    rw [cut_of_eq_nil hs]
    exact ⟨happ.symm, hgap⟩
  | cons c rest =>
    have hlt := length_scan_lt_of_splitGap hs
    rw [hs, ← Lexeme.scan_append c rest] at happ hgap
    rw [cut_of_eq_cons hs]
    exact ⟨_, happ.symm, hgap, Lexeme.isFirstLexeme_scan c rest, decomposes_cut _⟩
termination_by cs.length

/-- **The pieces of a text are those that are cut.** -/
theorem decomposes_iff {cs : List Char} {pieces : List Piece} {last : List Char} :
    Decomposes cs pieces last ↔ pieces = (cut cs).1 ∧ last = (cut cs).2 := by
  constructor
  · intro h
    rw [h.cut_eq]
    exact ⟨rfl, rfl⟩
  · rintro ⟨rfl, rfl⟩
    exact decomposes_cut cs

theorem Decomposes.chars_ne_nil : ∀ {cs : List Char} {pieces : List Piece} {last : List Char},
    Decomposes cs pieces last → ∀ p ∈ pieces, p.lexeme.chars ≠ []
  | _, [], _, _, p, hp => by cases hp
  | _, ⟨gap, lexeme⟩ :: pieces, _, ⟨_, _, _, hlexeme, hrest⟩, p, hp => by
    rcases List.mem_cons.mp hp with rfl | hp
    · exact hlexeme.chars_ne_nil
    · exact hrest.chars_ne_nil p hp

/-! ### Places -/

theorem Place.afterAll_start (cs : List Char) :
    Place.start.afterAll cs = .ofOffset cs cs.length := by
  rw [Place.ofOffset, List.take_length]
  induction cs using List.reverseRecOn with
  | nil => rfl
  | append_singleton cs c ih =>
    rw [Place.afterAll_append, ih, Place.afterAll_cons, Place.afterAll_nil, Place.after,
      List.count_append, List.reverse_append]
    by_cases hc : c = '\n'
    · subst hc
      simp [Int.add_assoc]
    · simp [hc, Int.add_assoc]

theorem Place.ofOffset_append (before rest : List Char) :
    Place.ofOffset (before ++ rest) before.length = Place.start.afterAll before := by
  rw [Place.afterAll_start, Place.ofOffset, Place.ofOffset, List.take_left, List.take_length]

/-- **Tokens are where their lexemes begin.** -/
theorem placed_eq_tokensAt : ∀ {cs : List Char} {pieces : List Piece} {last : List Char}
    (before : List Char), Decomposes cs pieces last →
      placed (Place.start.afterAll before) pieces last =
        tokensAt (before ++ cs) before.length pieces
  | cs, [], last, before, ⟨hcs, _⟩ => by
    subst hcs
    rw [placed, tokensAt, ← Place.afterAll_append, Place.afterAll_start]
  | cs, ⟨gap, lexeme⟩ :: pieces, last, before, ⟨rest, hcs, _, _, hrest⟩ => by
    subst hcs
    have ih := placed_eq_tokensAt (before ++ (gap ++ lexeme.chars)) hrest
    have hplace := Place.ofOffset_append (before ++ gap) (lexeme.chars ++ rest)
    simp only [List.append_assoc, List.length_append] at ih hplace
    rw [placed, tokensAt, hplace, Nat.add_assoc, ← ih, Place.afterAll_append,
      Place.afterAll_append, Place.afterAll_append]

theorem tokensOf_eq_tokensAt (source : String) :
    tokensOf source = tokensAt source.toList 0 (cut source.toList).1 :=
  placed_eq_tokensAt [] (decomposes_cut source.toList)

/-- **The tokens of a text**: there is exactly one way to cut it into longest gaps and first
lexemes, and the tokens, which also come when a reader is drained, are the lexemes of that one. -/
theorem exists_unique_decomposition (source : String) :
    ∃ pieces last,
      (∀ pieces' last', Decomposes source.toList pieces' last' ↔
        pieces' = pieces ∧ last' = last) ∧
      (∀ p ∈ pieces, p.lexeme.chars ≠ []) ∧
      tokensOf source = tokensAt source.toList 0 pieces ∧
      ∃ r, (Reader.ofText source).Drains (tokensOf source) r := by
  have hcut := decomposes_cut source.toList
  refine ⟨_, _, fun _ _ => decomposes_iff, hcut.chars_ne_nil, placed_eq_tokensAt [] hcut, _,
    Reader.drains_tokensFrom (r := Reader.ofText source) (Int.le_refl 0)⟩

end AelSyntax
