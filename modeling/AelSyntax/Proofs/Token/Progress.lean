import AelSyntax.Proofs.Token.Draining
import Mathlib.Tactic.Common

/-! # Progress of a reader

A reader makes progress with a token if the token is the end of the text, or if the token has a text
and the reader comes behind it (`Reader.Advances`). Inside its text a reader always makes progress,
so it is drained by no more tokens than there are characters ahead of it, and one for the end.
Before its text it never does: a number without digits is found there, again and again, and the
reader stays where it is.

* `Reader.advances_iff`: a reader makes progress, and can be drained, if and only if it does not
  stand before its text. -/

namespace AelSyntax

open AelSyntax.Text

namespace Reader

variable {r r' : Reader}

/-- The next token is the end of the text, or it has a text and the reader comes behind it. -/
def Advances (r : Reader) : Prop :=
  r.nextToken.1.kind = .finish ∨
    r.position < r.nextToken.2.position ∧ r.nextToken.1.text ≠ ""

/-! ### One token -/

theorem position_past (r : Reader) (cs : List Char) :
    (r.past cs).position = r.position + cs.length := rfl

/-- No token leads back. -/
theorem position_le_nextToken (r : Reader) : r.position ≤ r.nextToken.2.position := by
  have hgap : r.position ≤ r.skipGap.position := by
    rw [skipGap, position_past]
    omega
  have htaken : ∀ l, r.skipGap.position ≤ (r.skipGap.takeLexeme l).2.position := by
    intro l
    show r.skipGap.position ≤ (r.skipGap.past l.chars).position
    rw [position_past]
    omega
  rw [nextToken]
  split
  · exact hgap
  · split
    · exact Int.le_trans hgap (htaken _)
    · exact Int.le_trans hgap (htaken _)

/-- Inside the text a lexeme is passed, or the end of the text has come. -/
theorem advances_of_nonneg (h : 0 ≤ r.position) : r.Advances := by
  cases hr : (splitGap false r.ahead).2 with
  | nil =>
    left
    rw [nextToken_of_eq_nil h hr]
    rfl
  | cons c rest =>
    right
    have hne := Lexeme.chars_scan_ne_nil c rest
    have hlen := List.length_pos_iff.mpr hne
    rw [nextToken_of_eq_cons h hr]
    constructor
    · show r.position < ((r.past _).past _).position
      rw [position_past, position_past]
      omega
    · exact fun hempty => hne (String.ofList_eq_empty_iff.mp hempty)

/-- Before the text nothing is seen, and what is taken for a lexeme is a number without digits. -/
theorem nextToken_of_neg (h : r.position < 0) : r.nextToken = (⟨.number, "", r.place⟩, r) := by
  have hahead : r.ahead = [] := if_pos h
  have hgap : r.skipGap = r := by
    rw [skipGap, hahead]
    exact r.past_nil
  have hend : ¬ r.atEnd = true := by
    rw [atEnd, decide_eq_true_eq]
    omega
  rw [nextToken, hgap, if_neg hend, hahead]
  show (Token.mk Kind.number "" r.place, r.past []) = _
  rw [past_nil]

theorem not_advances_of_neg (h : r.position < 0) : ¬ r.Advances := by
  rw [Advances, nextToken_of_neg h]
  rintro (hk | ⟨hlt, -⟩)
  · cases hk
  · exact absurd hlt (Int.lt_irrefl _)

/-! ### All tokens -/

/-- A reader that is drained stands nowhere before its text. -/
theorem Drains.nonneg {ts : List Token} (h : r.Drains ts r') : 0 ≤ r.position := by
  induction h with
  | @last r hk =>
    by_contra hneg
    rw [nextToken_of_neg (by omega)] at hk
    cases hk
  | @step r _ _ _ _ ih =>
    by_contra hneg
    rw [nextToken_of_neg (by omega)] at ih
    exact hneg ih

/-- Each token but the last one takes the reader at least one character further. -/
theorem Drains.length_le {ts : List Token} (h : r.Drains ts r') :
    (ts.length : Int) ≤ r'.position - r.position + 1 := by
  induction h with
  | @last r _ =>
    have hle := r.position_le_nextToken
    rw [List.length_singleton]
    omega
  | @step r _ _ hk hs ih =>
    have hlt := ((advances_of_nonneg (Drains.step hk hs).nonneg).resolve_left hk).1
    rw [List.length_cons]
    omega

theorem tokens?_eq_some_iff {ts : List Token} : r.tokens? = some (ts, r') ↔ r.Drains ts r' := by
  constructor
  · intro h
    rw [tokens?] at h
    split_ifs at h with hneg
    obtain ⟨rfl, rfl⟩ := Prod.mk.inj (Option.some.inj h)
    exact drains_tokensFrom (by omega)
  · intro h
    have hpos := h.nonneg
    obtain ⟨rfl, rfl⟩ := h.unique (drains_tokensFrom hpos)
    rw [tokens?, if_neg (by omega)]

/-! ### The main statement -/

/-- **A reader makes progress unless it stands before its text.** If it does not, the next token is
the end of the text, or it has a text and the reader comes behind it; and so the reader can be
drained, by no more tokens than there are characters ahead and one for the end. If it does, no token
brings it on, and it cannot be drained. -/
theorem advances_iff (r : Reader) :
    (r.Advances ↔ 0 ≤ r.position) ∧
    ((∃ ts r', r.Drains ts r') ↔ 0 ≤ r.position) ∧
    (∀ ts r', r.tokens? = some (ts, r') ↔ r.Drains ts r') ∧
    ∀ ts r', r.Drains ts r' → ts.length ≤ r.ahead.length + 1 := by
  refine ⟨⟨fun h => ?_, advances_of_nonneg⟩, ⟨fun ⟨_, _, h⟩ => h.nonneg, fun h => ?_⟩,
    fun _ _ => tokens?_eq_some_iff, fun ts r' h => ?_⟩
  · by_contra hneg
    exact not_advances_of_neg (by omega) h
  · exact ⟨_, _, drains_tokensFrom h⟩
  · have hle := h.length_le
    obtain ⟨-, rfl⟩ := h.unique (drains_tokensFrom h.nonneg)
    rw [position_past] at hle
    omega

/-- At the last character of a text, counted from its end, a reader finds a number without digits,
and it stays there. -/
theorem not_advances_before_text :
    let r : Reader := ⟨['a'], -1, .start⟩
    r.nextToken = (⟨.number, "", ⟨1, 1⟩⟩, r) ∧ ¬ r.Advances ∧ ∀ ts r', ¬ r.Drains ts r' := by
  intro r
  have hneg : r.position < 0 := by decide
  exact ⟨nextToken_of_neg hneg, not_advances_of_neg hneg, fun _ _ h => absurd h.nonneg (by decide)⟩

end Reader

end AelSyntax
