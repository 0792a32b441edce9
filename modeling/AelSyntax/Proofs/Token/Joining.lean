import AelSyntax.Proofs.Token.Continuing
import AelSyntax.Proofs.Tree.Moving
import Mathlib.Tactic.Common

/-! # Texts joined by a newline

Nothing that is read reaches beyond a newline: it ends a comment, it belongs to no lexeme, and
behind it the columns are counted anew. So a text that is read from another place on has the same
tokens, moved to that place (`tokensFrom_begunAt`), and the tokens of two texts with a newline
between them are those of the first without its end, and then those of the second, further down
(`tokensOf_join`). -/

namespace AelSyntax

open AelSyntax.Text

/-! ### Tokens -/

theorem endsLexeme_newline (cs : List Char) : EndsLexeme ('\n' :: cs) := by
  refine BeginsApart.endsLexeme fun c hc => ?_
  obtain rfl := Option.some.inj hc
  exact isLayout_newline

/-- A newline ends the gap before it, whether it is a comment or not. -/
theorem tokensBehind_newline (inComment : Bool) (p : Place) (cs : List Char) :
    tokensBehind inComment p ('\n' :: cs) = tokensFrom (p.after '\n') cs := by
  have hgap : (inComment || isLayout '\n') = true := by rw [isLayout_newline, Bool.or_true]
  rw [tokensBehind_cons_of_gap hgap, bne_self_eq_false, Bool.and_false, tokensBehind_false]

/-- Behind a newline the tokens are those of the rest alone. -/
theorem tokensFrom_join (p : Place) (as bs : List Char) :
    tokensFrom p (as ++ '\n' :: bs) =
      (tokensFrom p as).dropLast ++ tokensFrom ((p.afterAll as).after '\n') bs := by
  rw [tokensFrom_append p as (endsLexeme_newline bs), tokensBehind_newline]

/-! ### Places -/

theorem Place.line_le_after (p : Place) (c : Char) : p.line ≤ (p.after c).line := by
  rw [after]
  split_ifs <;> dsimp only <;> omega

theorem Place.line_le_afterAll (p : Place) (cs : List Char) : p.line ≤ (p.afterAll cs).line := by
  induction cs generalizing p with
  | nil => exact Int.le_refl _
  | cons c cs ih =>
    rw [afterAll_cons]
    exact Int.le_trans (p.line_le_after c) (ih _)

section Moved

variable {f : Place → Place} (hf : ∀ p c, 1 ≤ p.line → f (Place.after p c) = (f p).after c)
include hf

theorem Place.afterAll_moved {p : Place} (hp : 1 ≤ p.line) (cs : List Char) :
    (f p).afterAll cs = f (p.afterAll cs) := by
  induction cs generalizing p with
  | nil => rfl
  | cons c cs ih =>
    rw [afterAll_cons, afterAll_cons, ← hf p c hp, ih (Int.le_trans hp (p.line_le_after c))]

/-- The tokens of a text that is read from another place on are moved as that place is. -/
theorem tokensFrom_moved {p : Place} (hp : 1 ≤ p.line) (cs : List Char) :
    tokensFrom (f p) cs = (tokensFrom p cs).map (Token.moved f) := by
  cases hs : (splitGap false cs).2 with
  | nil =>
    rw [tokensFrom_of_eq_nil _ hs, tokensFrom_of_eq_nil _ hs, Place.afterAll_moved hf hp]
    rfl
  | cons c rest =>
    have hlt := length_scan_lt_of_splitGap hs
    have hgap := Int.le_trans hp (p.line_le_afterAll (splitGap false cs).1)
    rw [tokensFrom_of_eq_cons _ hs, tokensFrom_of_eq_cons _ hs, Place.afterAll_moved hf hp,
      Place.afterAll_moved hf hgap,
      tokensFrom_moved (Int.le_trans hgap (Place.line_le_afterAll _ _))]
    rfl
termination_by cs.length

end Moved

/-- Where a place of a text is if the text begins at another place: the lines are counted on from
that place, and on the first line the columns too. -/
def Place.begunAt (first p : Place) : Place :=
  ⟨p.line + (first.line - 1), if p.line = 1 then p.column + (first.column - 1) else p.column⟩

theorem Place.begunAt_start (first : Place) : first.begunAt start = first := by
  have hback (a : Int) : 1 + (a - 1) = a := by omega
  simp only [begunAt, start, if_pos, hback]

theorem Place.begunAt_after (first : Place) {p : Place} (hp : 1 ≤ p.line) (c : Char) :
    first.begunAt (p.after c) = (first.begunAt p).after c := by
  by_cases hc : c = '\n'
  · have hline : p.line + 1 ≠ 1 := by omega
    simp only [after, begunAt, if_pos hc, if_neg hline, Place.mk.injEq, and_true]
    omega
  · simp only [after, begunAt, if_neg hc, Place.mk.injEq, true_and]
    split_ifs <;> omega

/-- The tokens of a text that is read from a place on are those of the text as it begins there. -/
theorem tokensFrom_begunAt (first : Place) (cs : List Char) :
    tokensFrom first cs = (tokensFrom .start cs).map (Token.moved first.begunAt) := by
  have hmoved := tokensFrom_moved (fun _ c hp => first.begunAt_after hp c) (p := .start)
    (by decide) cs
  rwa [first.begunAt_start] at hmoved

/-- Where a place of a text is if another text and a newline come before: as many lines further down
as that text has newlines, and one more. -/
def Place.below (before : String) (p : Place) : Place := p.down (before.toList.count '\n' + 1)

/-- **The tokens of two texts with a newline between them**: those of the first without its end,
and those of the second below it. -/
theorem tokensOf_join (a b : String) : tokensOf (a ++ "\n" ++ b) =
    (tokensOf a).dropLast ++ (tokensOf b).map (Token.moved (Place.below a)) := by
  have hplace : (Place.start.afterAll a.toList).after '\n' = Place.start.below a := by
    rw [Place.afterAll_start, Place.ofOffset, List.take_length]
    simp only [Place.after, Place.below, Place.down, Place.start, if_pos, Place.mk.injEq, and_true]
    omega
  have hjoined : (a ++ "\n" ++ b).toList = a.toList ++ '\n' :: b.toList := by simp
  rw [tokensOf, hjoined, tokensFrom_join, hplace,
    tokensFrom_moved (f := Place.below a) (fun p c _ => (Place.after_down _ p c).symm) (by decide)]
  rfl

end AelSyntax
