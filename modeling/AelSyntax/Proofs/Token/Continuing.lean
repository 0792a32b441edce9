import AelSyntax.Proofs.Token.Spacing
import AelSyntax.Proofs.Token.Standing
import Mathlib.Tactic.Common

/-! # Texts that go on

More is written behind a text. If no lexeme goes on with the first character of it (`EndsLexeme`),
all lexemes of the text stay as they were, and so do its gaps but for the last one. That one goes
on: inside the comment it may end in, and else as a gap (`tokensBehind`). So the tokens of both
together are those of the first without its end, and then those of the second, read from there on
(`tokensFrom_append`). -/

namespace AelSyntax

open AelSyntax.Text

/-- No lexeme goes on with the first character of a text. -/
def EndsLexeme (cs : List Char) : Prop := ∀ c ∈ cs.head?, ∀ k ds, Spells k ds → c ∉ ds

theorem BeginsApart.endsLexeme {cs : List Char} (h : BeginsApart cs) : EndsLexeme cs :=
  fun c hc => not_mem_of_isLayout (h c hc)

theorem EndsLexeme.head?_ne_slash {cs : List Char} (h : EndsLexeme cs) : cs.head? ≠ some '/' :=
  fun hc => h '/' hc .divide ['/'] (.operator (by decide)) List.mem_cons_self

/-! ### Lexemes -/

/-- Whatever is spelled at the beginning of both texts is spelled at that of the first. -/
theorem Spells.exists_append {k : Kind} {cs rest as bs : List Char} (h : Spells k cs)
    (hbs : EndsLexeme bs) (happ : cs ++ rest = as ++ bs) : ∃ rest', cs ++ rest' = as := by
  rcases List.append_eq_append_iff.mp happ with ⟨ds, rfl, -⟩ | ⟨ds, rfl, hds⟩
  · exact ⟨ds, rfl⟩
  · cases ds with
    | nil => exact ⟨[], by simp⟩
    | cons d ds =>
      have hmem : d ∈ as ++ d :: ds := List.mem_append_right _ List.mem_cons_self
      exact absurd hmem (hbs d (by rw [hds]; rfl) k _ h)

theorem IsFirstLexeme.append {l : Lexeme} {rest : List Char} (h : IsFirstLexeme l rest)
    {bs : List Char} (hbs : EndsLexeme bs) : IsFirstLexeme l (rest ++ bs) := by
  rcases h with ⟨hs, hmax⟩ | ⟨hk, hlen, hnone⟩
  · refine .inl ⟨hs, fun k cs rest' happ h' => ?_⟩
    rw [← List.append_assoc] at happ
    obtain ⟨rest'', happ'⟩ := h'.exists_append hbs happ
    exact hmax k cs rest'' happ' h'
  · refine .inr ⟨hk, hlen, fun k cs rest' happ h' => ?_⟩
    rw [← List.append_assoc] at happ
    obtain ⟨rest'', happ'⟩ := h'.exists_append hbs happ
    exact hnone k cs rest'' happ' h'

/-- The scan stops where no lexeme goes on. -/
theorem Lexeme.scan_append_of_endsLexeme (c : Char) (cs : List Char) {bs : List Char}
    (hbs : EndsLexeme bs) :
    (scan c (cs ++ bs)).1 = (scan c cs).1 ∧ (scan c (cs ++ bs)).2 = (scan c cs).2 ++ bs := by
  refine (isFirstLexeme_scan c (cs ++ bs)).unique ((isFirstLexeme_scan c cs).append hbs) ?_
  rw [scan_append, ← List.append_assoc, scan_append, List.cons_append]

/-! ### Gaps -/

/-- A gap ends inside a comment, given whether it begins inside one. -/
def commentAtEnd : Bool → List Char → Bool
  | inComment, [] => inComment
  | inComment, c :: cs => commentAtEnd (commentGoesOn inComment c cs) cs

/-- A text ends inside a comment. -/
def endsInComment (cs : List Char) : Bool := commentAtEnd false (cut cs).2

section Gaps

variable {bs : List Char} (hbs : bs.head? ≠ some '/')
include hbs

theorem beginsComment_append (c : Char) (cs : List Char) :
    beginsComment (c :: (cs ++ bs)) = beginsComment (c :: cs) := by
  rw [Bool.eq_iff_iff, beginsComment_iff, beginsComment_iff]
  cases cs with
  | nil => simp [hbs]
  | cons d cs => rfl

theorem belongsToGap_append (inComment : Bool) (c : Char) (cs : List Char) :
    belongsToGap inComment c (cs ++ bs) = belongsToGap inComment c cs := by
  rw [belongsToGap, belongsToGap, beginsComment_append hbs]

theorem commentGoesOn_append (inComment : Bool) (c : Char) (cs : List Char) :
    commentGoesOn inComment c (cs ++ bs) = commentGoesOn inComment c cs := by
  rw [commentGoesOn, commentGoesOn, beginsComment_append hbs]

/-- A text that is a gap goes on as one. -/
theorem splitGap_append_of_eq_nil : ∀ {cs : List Char} (inComment : Bool),
    (splitGap inComment cs).2 = [] → splitGap inComment (cs ++ bs) =
      (cs ++ (splitGap (commentAtEnd inComment cs) bs).1,
        (splitGap (commentAtEnd inComment cs) bs).2)
  | [], _, _ => rfl
  | c :: cs, inComment, h => by
    rw [splitGap] at h
    split_ifs at h with hgap
    · have ih := splitGap_append_of_eq_nil (commentGoesOn inComment c cs) h
      rw [List.cons_append, splitGap, belongsToGap_append hbs, if_pos hgap,
        commentGoesOn_append hbs, ih]
      rfl

/-- A gap in front of a lexeme stays as it was. -/
theorem splitGap_append_of_eq_cons {d : Char} {rest : List Char} : ∀ {cs : List Char}
    (inComment : Bool), (splitGap inComment cs).2 = d :: rest →
      splitGap inComment (cs ++ bs) = ((splitGap inComment cs).1, d :: (rest ++ bs))
  | [], _, h => by cases h
  | c :: cs, inComment, h => by
    rw [splitGap] at h ⊢
    rw [List.cons_append, splitGap, belongsToGap_append hbs]
    split_ifs at h ⊢ with hgap
    · have ih := splitGap_append_of_eq_cons (commentGoesOn inComment c cs) h
      rw [commentGoesOn_append hbs, ih]
    · obtain ⟨rfl, rfl⟩ := List.cons.inj h
      rfl

end Gaps

/-! ### Tokens -/

/-- The tokens of a text that is read from a place on, given whether it begins inside a comment. -/
def tokensBehind (inComment : Bool) (p : Place) (cs : List Char) : List Token :=
  tokensFrom (p.afterAll (splitGap inComment cs).1) (splitGap inComment cs).2

/-- The tokens behind a gap are those of the text. -/
theorem tokensFrom_append_of_isGap (p : Place) {gap rest : List Char} (h : IsGap gap rest) :
    tokensFrom p (gap ++ rest) = tokensFrom (p.afterAll gap) rest := by
  have hsplit := splitGap_append_of_isGap h
  cases hrest : (splitGap false rest).2 with
  | nil =>
    rw [tokensFrom_of_eq_nil _ hrest, tokensFrom_of_eq_nil _ (by rw [hsplit, hrest]), hsplit,
      Place.afterAll_append]
  | cons c cs =>
    rw [tokensFrom_of_eq_cons _ hrest, tokensFrom_of_eq_cons _ (by rw [hsplit, hrest]), hsplit,
      Place.afterAll_append]

theorem tokensBehind_false (p : Place) (cs : List Char) :
    tokensBehind false p cs = tokensFrom p cs := by
  rw [tokensBehind, ← tokensFrom_append_of_isGap p (isGap_splitGap cs).1, splitGap_append]

/-- A character of a comment or of layout is passed. -/
theorem tokensBehind_cons_of_gap {inComment : Bool} {c : Char}
    (h : (inComment || isLayout c) = true) (p : Place) (cs : List Char) :
    tokensBehind inComment p (c :: cs) = tokensBehind (inComment && c != '\n') (p.after c) cs := by
  have hgap : belongsToGap inComment c cs = true := by
    rw [belongsToGap, Bool.or_right_comm, h, Bool.true_or]
  have hgoes : commentGoesOn inComment c cs = (inComment && c != '\n') := by
    cases inComment with
    | false => exact beginsComment_eq_false cs h
    | true => rfl
  rw [tokensBehind, splitGap, if_pos hgap, hgoes]
  rfl

theorem tokensFrom_ne_nil (p : Place) (cs : List Char) : tokensFrom p cs ≠ [] := by
  obtain ⟨ts, hts, -⟩ := tokensFrom_eq_append_finish p cs
  rw [hts]
  exact List.append_ne_nil_of_right_ne_nil _ (List.cons_ne_nil _ _)

/-- **The tokens of a text that goes on** where no lexeme goes on: those of the text without its
end, and those of what follows. -/
theorem tokensFrom_append (p : Place) (as : List Char) {bs : List Char} (hbs : EndsLexeme bs) :
    tokensFrom p (as ++ bs) =
      (tokensFrom p as).dropLast ++ tokensBehind (endsInComment as) (p.afterAll as) bs := by
  have hslash := hbs.head?_ne_slash
  cases hs : (splitGap false as).2 with
  | nil =>
    have happ := splitGap_append false as
    rw [hs, List.append_nil] at happ
    rw [tokensFrom_of_eq_nil p hs, endsInComment, cut_of_eq_nil hs, happ, ← tokensBehind_false,
      tokensBehind, splitGap_append_of_eq_nil hslash false hs, Place.afterAll_append]
    rfl
  | cons c rest =>
    have hlt := length_scan_lt_of_splitGap hs
    have hsplit := splitGap_append_of_eq_cons hslash false hs
    obtain ⟨hlexeme, hrest⟩ := Lexeme.scan_append_of_endsLexeme c rest hbs
    rw [tokensFrom_of_eq_cons p (congrArg Prod.snd hsplit), hsplit, hlexeme, hrest,
      tokensFrom_append _ _ hbs, afterAll_of_eq_cons p hs, tokensFrom_of_eq_cons p hs,
      List.dropLast_cons_of_ne_nil (tokensFrom_ne_nil _ _), endsInComment, endsInComment,
      cut_of_eq_cons hs, List.cons_append]
termination_by as.length

end AelSyntax
