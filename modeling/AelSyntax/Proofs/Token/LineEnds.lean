import AelSyntax.Proofs.Token.Joining
import AelSyntax.Text.Newline
import Mathlib.Tactic.Common

/-! # Line ends of two characters

A line may end with a carriage return before its newline. The carriage return is layout, or it
stands in the comment that ends the line; no lexeme goes on with it, and behind the newline the
columns are counted anew. So the tokens are those of the text with newlines alone, each of them
where it was (`tokensOf_withNewlines`). A carriage return by itself is another matter: it is layout
inside a line, but would be changed into the end of one. -/

namespace AelSyntax

open AelSyntax.Text

/-- Each carriage return stands right before a newline. -/
def ReturnsEndLines (cs : List Char) : Prop :=
  ∀ i < cs.length, cs[i]? = some '\r' → cs[i + 1]? = some '\n'

instance : DecidablePred ReturnsEndLines := fun cs =>
  inferInstanceAs (Decidable (∀ i < cs.length, cs[i]? = some '\r' → cs[i + 1]? = some '\n'))

theorem ReturnsEndLines.of_cons {c : Char} {cs : List Char} (h : ReturnsEndLines (c :: cs)) :
    ReturnsEndLines cs := by
  intro i hi hc
  have hi' : i + 1 < (c :: cs).length := by simpa using hi
  simpa using h (i + 1) hi' (by simpa using hc)

theorem ReturnsEndLines.head?_eq {cs : List Char} (h : ReturnsEndLines ('\r' :: cs)) :
    cs.head? = some '\n' := by
  have hnext := h 0 (by simp) rfl
  simpa [List.head?_eq_getElem?] using hnext

/-- A newline leads to the first column of the next line from every column. -/
theorem Place.after_return_newline (p : Place) : (p.after '\r').after '\n' = p.after '\n' := by
  simp [Place.after]

/-- A carriage return before a newline is not seen. -/
theorem tokensFrom_return (p : Place) (as bs : List Char) :
    tokensFrom p (as ++ '\r' :: '\n' :: bs) = tokensFrom p (as ++ '\n' :: bs) := by
  have hlayout : isLayout '\r' = true := by decide
  have hends : EndsLexeme ('\r' :: '\n' :: bs) := by
    refine BeginsApart.endsLexeme fun c hc => ?_
    obtain rfl := Option.some.inj hc
    exact hlayout
  have hgap : (endsInComment as || isLayout '\r') = true := by rw [hlayout, Bool.or_true]
  rw [tokensFrom_append p as hends, tokensBehind_cons_of_gap hgap, tokensBehind_newline,
    Place.after_return_newline, tokensFrom_join]

/-- The line ends behind some characters are changed one by one. -/
theorem tokensFrom_newlinesOnly (p : Place) {cs : List Char} (h : ReturnsEndLines cs)
    (as : List Char) : tokensFrom p (as ++ newlinesOnly cs) = tokensFrom p (as ++ cs) := by
  fun_induction newlinesOnly cs generalizing as with
  | case1 => rfl
  | case2 cs ih =>
    rw [tokensFrom_return, List.append_cons, ih h.of_cons.of_cons, ← List.append_cons]
  | case3 cs hne ih =>
    obtain ⟨cs', rfl⟩ : ∃ cs', cs = '\n' :: cs' := List.head?_eq_some_iff.mp h.head?_eq
    exact absurd rfl (hne cs')
  | case4 c cs _ _ ih => rw [List.append_cons, ih h.of_cons, ← List.append_cons]

/-- **Carriage returns at the ends of lines change no token**, nor where it is. -/
theorem tokensOf_withNewlines {text : String} (h : ReturnsEndLines text.toList) :
    tokensOf (withNewlines text) = tokensOf text := by
  unfold tokensOf withNewlines
  rw [String.toList_ofList]
  exact tokensFrom_newlinesOnly .start h []

end AelSyntax
