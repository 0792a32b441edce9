import AelSyntax.Proofs.Token.Spacing
import Mathlib.Tactic.Common

/-! # Texts that are built from lexemes

Lexemes of any choice are put in a row, with separators of layout characters and comments around
them. A separator is judged by itself, whatever follows it, so its comments end with their newlines;
only behind the last lexeme a comment may be broken off. If every separator behind a lexeme begins
with layout, the text falls into the lexemes it was built from, each at the place of its offset
(`tokensOf_built`). -/

namespace AelSyntax

open AelSyntax.Text

/-! ### Separators -/

/-- Layout characters and comments, each comment with the newline that ends it. -/
inductive IsSeparator : List Char → Prop
  | nil : IsSeparator []
  | layout {c : Char} {gap : List Char} (hc : isLayout c = true) (h : IsSeparator gap) :
    IsSeparator (c :: gap)
  | comment {body gap : List Char} (hbody : '\n' ∉ body) (h : IsSeparator gap) :
    IsSeparator ('/' :: '/' :: (body ++ '\n' :: gap))

/-- A separator at the end of a text, behind which a last comment may be broken off. -/
inductive IsClosing : List Char → Prop
  | whole {gap : List Char} (h : IsSeparator gap) : IsClosing gap
  | broken {gap body : List Char} (h : IsSeparator gap) (hbody : '\n' ∉ body) :
    IsClosing (gap ++ '/' :: '/' :: body)

/-- A separator in front of a gap makes up a gap with it. -/
theorem IsSeparator.isGap_append {gap more rest : List Char} (h : IsSeparator gap)
    (hmore : IsGap more rest) : IsGap (gap ++ more) rest := by
  induction h with
  | nil => exact hmore
  | layout hc _ ih => exact .layout hc ih
  | comment hbody _ ih =>
    have hgap := IsGap.comment hbody (endsLine_newline _) (.layout isLayout_newline ih)
    simpa using hgap

theorem IsSeparator.isGap {gap : List Char} (h : IsSeparator gap) (rest : List Char) :
    IsGap gap rest := by
  have hgap := h.isGap_append (.nil rest)
  rwa [List.append_nil] at hgap

theorem IsClosing.isGap {gap : List Char} (h : IsClosing gap) : IsGap gap [] := by
  cases h with
  | whole h => exact h.isGap []
  | @broken gap body h hbody =>
    have hcomment : IsGap ('/' :: '/' :: (body ++ [])) [] :=
      .comment hbody endsLine_nil (.nil [])
    rw [List.append_nil] at hcomment
    exact h.isGap_append hcomment

/-! ### Lexemes in a row -/

/-- The text of some pieces and a last gap. -/
def built (pieces : List Piece) (last : List Char) : List Char :=
  pieces.flatMap (fun p => p.gap ++ p.lexeme.chars) ++ last

/-- Pieces and a last gap that may be put in a row: the lexemes are free, the gaps are separators,
and behind a lexeme a gap begins with layout, or it is empty and the text ends there. -/
structure Composable (pieces : List Piece) (last : List Char) : Prop where
  lexemes : ∀ p ∈ pieces, StandsAlone p.lexeme.kind p.lexeme.chars
  separators : ∀ p ∈ pieces, IsSeparator p.gap
  apart : ∀ p ∈ pieces.tail, p.gap ≠ [] ∧ BeginsApart p.gap
  closing : IsClosing last
  closing_apart : pieces ≠ [] → BeginsApart last

theorem built_cons (p : Piece) (pieces : List Piece) (last : List Char) :
    built (p :: pieces) last = p.gap ++ (p.lexeme.chars ++ built pieces last) := by
  rw [built, List.flatMap_cons, List.append_assoc, List.append_assoc]
  rfl

theorem BeginsApart.append {gap : List Char} (h : BeginsApart gap) (hne : gap ≠ [])
    (rest : List Char) : BeginsApart (gap ++ rest) := by
  obtain ⟨c, cs, rfl⟩ := List.exists_cons_of_ne_nil hne
  exact h

namespace Composable

variable {p : Piece} {pieces : List Piece} {last : List Char}

theorem tail (h : Composable (p :: pieces) last) : Composable pieces last where
  lexemes q hq := h.lexemes q (List.mem_cons_of_mem p hq)
  separators q hq := h.separators q (List.mem_cons_of_mem p hq)
  apart q hq := h.apart q (List.mem_of_mem_tail hq)
  closing := h.closing
  closing_apart _ := h.closing_apart (List.cons_ne_nil p pieces)

/-- Behind its first lexeme the text ends or goes on with layout. -/
theorem beginsApart (h : Composable (p :: pieces) last) : BeginsApart (built pieces last) := by
  cases pieces with
  | nil => exact h.closing_apart (List.cons_ne_nil p [])
  | cons q pieces =>
    obtain ⟨hne, hapart⟩ := h.apart q List.mem_cons_self
    rw [built_cons]
    exact hapart.append hne _

/-- The pieces are the longest possible ones. -/
theorem decomposes : ∀ {pieces : List Piece}, Composable pieces last →
    Decomposes (built pieces last) pieces last
  | [], h => ⟨rfl, isLongestGap_of_endsGap h.closing.isGap trivial⟩
  | p :: pieces, h => by
    have hlexeme := h.lexemes p List.mem_cons_self
    have hgap := (h.separators p List.mem_cons_self).isGap (p.lexeme.chars ++ built pieces last)
    exact ⟨_, built_cons p pieces last,
      isLongestGap_of_endsGap hgap (hlexeme.endsGap h.beginsApart),
      hlexeme.isFirstLexeme h.beginsApart, h.tail.decomposes⟩

end Composable

/-! ### The tokens of a text that was built -/

/-- **Lexemes that are put in a row are found again.** The tokens of the text, which also come when
a reader is drained, are the chosen lexemes in their order, each at the place of its offset, and the
end of the text. -/
theorem tokensOf_built {pieces : List Piece} {last : List Char} (h : Composable pieces last) :
    tokensOf (String.ofList (built pieces last)) = tokensAt (built pieces last) 0 pieces ∧
      ∃ r, (Reader.ofText (String.ofList (built pieces last))).Drains
        (tokensAt (built pieces last) 0 pieces) r := by
  have htokens : tokensOf (String.ofList (built pieces last)) =
      tokensAt (built pieces last) 0 pieces := by
    rw [tokensOf, tokensFrom, String.toList_ofList, h.decomposes.cut_eq]
    exact placed_eq_tokensAt [] h.decomposes
  have hdrains := Reader.drains_tokensFrom
    (r := Reader.ofText (String.ofList (built pieces last))) (Int.le_refl 0)
  refine ⟨htokens, ?_⟩
  rw [← htokens]
  exact ⟨_, hdrains⟩

/-- A name and a stray point, between comments that hold a slash, an operator and a point. -/
theorem tokensOf_built_of_comments : tokensOf "///\nlets //=\n. //." =
    [⟨.identifier, "lets", ⟨2, 1⟩⟩, ⟨.unknown, ".", ⟨3, 1⟩⟩, .finish ⟨3, 6⟩] := by
  have hfirst : IsSeparator ['/', '/', '/', '\n'] :=
    .comment (by decide : '\n' ∉ ['/']) .nil
  have hsecond : IsSeparator [' ', '/', '/', '=', '\n'] :=
    .layout (by decide) (.comment (by decide : '\n' ∉ ['=']) .nil)
  have hlast : IsClosing ([' '] ++ '/' :: '/' :: ['.']) :=
    .broken (.layout (by decide) .nil) (by decide)
  have hname : StandsAlone .identifier ['l', 'e', 't', 's'] :=
    .inl (.word (by decide : IsWord ['l', 'e', 't', 's']))
  have hstray : StandsAlone .unknown ['.'] := by
    refine .inr ⟨rfl, '.', rfl, by decide, fun k cs h => ?_⟩
    cases cs <;> cases h.of_other (by decide) (by decide)
  have h : Composable [⟨['/', '/', '/', '\n'], ⟨.identifier, ['l', 'e', 't', 's']⟩⟩,
      ⟨[' ', '/', '/', '=', '\n'], ⟨.unknown, ['.']⟩⟩] ([' '] ++ '/' :: '/' :: ['.']) :=
    ⟨by simpa using ⟨hname, hstray⟩, by simpa using ⟨hfirst, hsecond⟩,
      by simp [BeginsApart, isLayout], hlast, by simp [BeginsApart, isLayout]⟩
  exact (tokensOf_built h).1

end AelSyntax
