import AelSyntax.Proofs.Token.Longest
import AelSyntax.Token.Reader
import Mathlib.Tactic.Common

/-! # Draining a reader

A reader is drained by asking for the next token again and again until the end of the text comes.
`tokens?` gives all tokens at once; here they are the tokens that come one by one
(`Reader.drains_tokensFrom`), and there is only one way to drain a reader (`Reader.Drains.unique`).
A reader that has not come to its text yet is left out: it never reaches the end. -/

namespace AelSyntax

open AelSyntax.Text

/-! ### Cutting, step by step -/

theorem cut_of_eq_nil {cs : List Char} (h : (splitGap false cs).2 = []) :
    cut cs = ([], (splitGap false cs).1) := by
  rw [cut]
  split
  · rfl
  · next h' => rw [h] at h'; cases h'

theorem cut_of_eq_cons {cs : List Char} {c : Char} {rest : List Char}
    (h : (splitGap false cs).2 = c :: rest) :
    cut cs = (⟨(splitGap false cs).1, (Lexeme.scan c rest).1⟩ :: (cut (Lexeme.scan c rest).2).1,
      (cut (Lexeme.scan c rest).2).2) := by
  rw [cut]
  split
  · next h' => rw [h] at h'; cases h'
  · next c' rest' h' =>
    rw [h] at h'
    obtain ⟨rfl, rfl⟩ := List.cons.inj h'
    rfl

theorem tokensFrom_of_eq_nil (p : Place) {cs : List Char} (h : (splitGap false cs).2 = []) :
    tokensFrom p cs = [.finish (p.afterAll (splitGap false cs).1)] := by
  rw [tokensFrom, cut_of_eq_nil h]
  rfl

theorem tokensFrom_of_eq_cons (p : Place) {cs : List Char} {c : Char} {rest : List Char}
    (h : (splitGap false cs).2 = c :: rest) :
    tokensFrom p cs =
      ⟨(Lexeme.scan c rest).1.kind, String.ofList (Lexeme.scan c rest).1.chars,
          p.afterAll (splitGap false cs).1⟩ ::
        tokensFrom ((p.afterAll (splitGap false cs).1).afterAll (Lexeme.scan c rest).1.chars)
          (Lexeme.scan c rest).2 := by
  rw [tokensFrom, cut_of_eq_cons h]
  rfl

/-! ### Readers inside their text -/

namespace Reader

theorem ahead_of_nonneg {r : Reader} (h : 0 ≤ r.position) :
    r.ahead = r.source.drop r.position.toNat := by
  rw [ahead, if_neg (by omega)]

theorem index_of_nonneg {r : Reader} (h : 0 ≤ r.position) : r.index = r.position :=
  if_neg (by omega)

theorem indexFault?_of_nonneg {r : Reader} (h : 0 ≤ r.position) : r.indexFault? = none := by
  rw [indexFault?, index_of_nonneg h, leastIndex, if_neg (by omega), if_neg (by omega)]

theorem nonneg_past {r : Reader} (h : 0 ≤ r.position) (cs : List Char) :
    0 ≤ (r.past cs).position := by
  show (0 : Int) ≤ r.position + cs.length
  omega

theorem ahead_past {r : Reader} {cs rest : List Char} (h : 0 ≤ r.position)
    (hr : r.ahead = cs ++ rest) : (r.past cs).ahead = rest := by
  have hpos : (r.past cs).position = r.position + cs.length := rfl
  rw [ahead_of_nonneg h] at hr
  rw [ahead_of_nonneg (nonneg_past h cs), hpos,
    show (r.position + (cs.length : Int)).toNat = r.position.toNat + cs.length by omega]
  show r.source.drop _ = rest
  rw [← List.drop_drop, hr, List.drop_left]

theorem atEnd_iff {r : Reader} (h : 0 ≤ r.position) : r.atEnd = true ↔ r.ahead = [] := by
  rw [ahead_of_nonneg h, List.drop_eq_nil_iff, atEnd, decide_eq_true_eq]
  omega

theorem past_nil (r : Reader) : r.past [] = r := by
  rw [past, List.length_nil, Int.natCast_zero, Int.add_zero, Place.afterAll_nil]

theorem past_append (r : Reader) (as bs : List Char) : r.past (as ++ bs) = (r.past as).past bs := by
  simp only [past, Place.afterAll_append, List.length_append]
  rw [Int.natCast_add, Int.add_assoc]

/-! ### One token after the other -/

/-- A reader is drained: the tokens that come, up to the end of the text, and the reader there. -/
inductive Drains : Reader → List Token → Reader → Prop
  | last {r : Reader} (h : r.nextToken.1.kind = .finish) : Drains r [r.nextToken.1] r.nextToken.2
  | step {r r' : Reader} {ts : List Token} (h : r.nextToken.1.kind ≠ .finish)
    (hs : Drains r.nextToken.2 ts r') : Drains r (r.nextToken.1 :: ts) r'

theorem Drains.unique {r r₁ r₂ : Reader} {ts₁ ts₂ : List Token} (h₁ : Drains r ts₁ r₁)
    (h₂ : Drains r ts₂ r₂) : ts₁ = ts₂ ∧ r₁ = r₂ := by
  induction h₁ generalizing ts₂ r₂ with
  | last h =>
    cases h₂ with
    | last _ => exact ⟨rfl, rfl⟩
    | step h' _ => exact absurd h h'
  | step h _ ih =>
    cases h₂ with
    | last h' => exact absurd h' h
    | step _ hs =>
      obtain ⟨rfl, rfl⟩ := ih hs
      exact ⟨rfl, rfl⟩

theorem nextToken_of_eq_nil {r : Reader} (h : 0 ≤ r.position)
    (hr : (splitGap false r.ahead).2 = []) :
    r.nextToken = (.finish (r.place.afterAll (splitGap false r.ahead).1), r.past r.ahead) := by
  have happ := splitGap_append false r.ahead
  rw [hr, List.append_nil] at happ
  have hend : r.skipGap.atEnd = true :=
    (atEnd_iff (nonneg_past h _)).mpr (ahead_past h (by rw [happ, List.append_nil]))
  rw [nextToken, if_pos hend, skipGap, happ]
  rfl

theorem nextToken_of_eq_cons {r : Reader} {c : Char} {rest : List Char} (h : 0 ≤ r.position)
    (hr : (splitGap false r.ahead).2 = c :: rest) :
    r.nextToken = r.skipGap.takeLexeme (Lexeme.scan c rest).1 := by
  have hpos : 0 ≤ r.skipGap.position := nonneg_past h _
  have hahead : r.skipGap.ahead = c :: rest :=
    ahead_past h (by rw [← hr, splitGap_append])
  have hend : ¬ r.skipGap.atEnd = true := by
    rw [atEnd_iff hpos, hahead]
    simp
  rw [nextToken, if_neg hend, hahead]

/-- **The tokens that come one by one are all tokens of the text.** -/
theorem drains_tokensFrom {r : Reader} (h : 0 ≤ r.position) :
    r.Drains (tokensFrom r.place r.ahead) (r.past r.ahead) := by
  cases hr : (splitGap false r.ahead).2 with
  | nil =>
    have hnext := nextToken_of_eq_nil h hr
    have hlast := Drains.last (r := r) (by rw [hnext]; rfl)
    rw [hnext] at hlast
    rw [tokensFrom_of_eq_nil _ hr]
    exact hlast
  | cons c rest =>
    have hnext := nextToken_of_eq_cons h hr
    have hpos : 0 ≤ r.nextToken.2.position := by
      rw [hnext]
      exact nonneg_past (nonneg_past h _) _
    have happ := splitGap_append false r.ahead
    rw [hr] at happ
    have hahead : r.nextToken.2.ahead = (Lexeme.scan c rest).2 := by
      rw [hnext]
      refine ahead_past (nonneg_past h _) ?_
      rw [Lexeme.scan_append]
      exact ahead_past h happ.symm
    have hlt := length_scan_lt_of_splitGap hr
    have ih := drains_tokensFrom hpos
    rw [hahead] at ih
    rw [tokensFrom_of_eq_cons _ hr]
    have hkind : r.nextToken.1.kind ≠ .finish := by
      rw [hnext]
      exact (Lexeme.isFirstLexeme_scan c rest).kind_ne_finish
    have hpast : r.past r.ahead = r.nextToken.2.past (Lexeme.scan c rest).2 := by
      rw [hnext]
      show _ = (r.skipGap.past _).past _
      rw [skipGap, ← past_append, ← past_append, Lexeme.scan_append, happ]
    have hstep := Drains.step hkind ih
    rw [← hpast, hnext] at hstep
    exact hstep
termination_by r.ahead.length
decreasing_by rw [hahead]; exact hlt

end Reader

end AelSyntax
