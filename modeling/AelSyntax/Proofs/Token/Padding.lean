import AelSyntax.Proofs.Token.Joining
import AelSyntax.Text.Blank
import Mathlib.Data.List.DropRight
import Mathlib.Tactic.Common

/-! # Blanks around a text

White space is cut off both ends of a text (`strip_append`). No lexeme holds a character of it, and
none holds layout (`LexemeFree`). So around a text such characters change no token but the end:
before it they move the tokens on (`Place.behind`), and all they add is a stray character for each
of them that is no layout and stands in no comment (`straysFrom`, `tokensOf_surrounded`). Layout
adds nothing (`tokensOf_padded`). -/

namespace AelSyntax

open AelSyntax.Text

/-! ### What is cut off a text -/

/-- The white space at the front of a text. -/
def cutFront (s : String) : List Char := s.toList.takeWhile isWhiteSpace

/-- The white space at the back of a text, behind that at its front. -/
def cutBack (s : String) : List Char := (s.toList.dropWhile isWhiteSpace).rtakeWhile isWhiteSpace

/-- A text is what is left of it between what is cut off. -/
theorem strip_append (s : String) :
    s.toList = cutFront s ++ ((strip s).toList ++ cutBack s) := by
  have hback (cs : List Char) : cs.rdropWhile isWhiteSpace ++ cs.rtakeWhile isWhiteSpace = cs := by
    rw [List.rdropWhile, List.rtakeWhile, ← List.reverse_append, List.takeWhile_append_dropWhile,
      List.reverse_reverse]
  have hstrip : (strip s).toList = (s.toList.dropWhile isWhiteSpace).rdropWhile isWhiteSpace :=
    String.toList_ofList
  rw [cutFront, cutBack, hstrip, hback, List.takeWhile_append_dropWhile]

/-! ### Places -/

/-- Where a place of a text is if some characters come before: as many lines further down as they
have newlines, and on the first line as many columns further as stand behind the last newline. -/
def Place.behind (before : List Char) (p : Place) : Place :=
  ⟨p.line + (before.count '\n' : Nat),
    if p.line = 1 then p.column + ((before.reverse.takeWhile fun c => c ≠ '\n').length : Nat)
    else p.column⟩

/-- Behind some characters a text begins at the place after them. -/
theorem Place.behind_eq (before : List Char) :
    Place.behind before = Place.begunAt (start.afterAll before) := by
  have hback (n : Nat) : (1 + n : Int) - 1 = n := by omega
  funext p
  rw [afterAll_start, ofOffset, List.take_length]
  simp only [behind, begunAt, hback]

/-! ### Characters of no lexeme -/

/-- No character of a text is one of a lexeme. -/
def LexemeFree (cs : List Char) : Prop := ∀ c ∈ cs, ∀ k ds, Spells k ds → c ∉ ds

theorem LexemeFree.endsLexeme {cs : List Char} (h : LexemeFree cs) : EndsLexeme cs :=
  fun c hc => h c (List.mem_of_mem_head? hc)

theorem lexemeFree_of_layout {cs : List Char} (h : ∀ c ∈ cs, isLayout c = true) :
    LexemeFree cs := fun c hc => not_mem_of_isLayout (h c hc)

/-- No character of a range is in other ranges, if it lies between them. -/
theorem inRanges_eq_false {ranges : List (Nat × Nat)} {c : Char} (first last : Nat)
    (h : ∀ r ∈ ranges, r.2 < first ∨ last < r.1) (hfirst : first ≤ c.toNat)
    (hlast : c.toNat ≤ last) : inRanges ranges c = false := by
  rw [inRanges, List.any_eq_false]
  intro r hr
  have hr := h r hr
  simp only [Bool.and_eq_true, decide_eq_true_eq]
  omega

theorem isLetter_eq_false_of_isWhiteSpace {c : Char} (h : isWhiteSpace c = true) :
    isLetter c = false := by
  simp only [isWhiteSpace, Bool.or_eq_true, Bool.and_eq_true, decide_eq_true_eq] at h
  by_cases hlow : c.toNat < 65
  · exact isLetter_eq_false_of_lt hlow
  rw [isLetter, if_neg (by omega)]
  -- white space beyond ASCII lies in gaps between the ranges of letters
  have hgaps : c.toNat = 0x85 ∨ c.toNat = 0xA0 ∨ c.toNat = 0x1680 ∨
      (0x2000 ≤ c.toNat ∧ c.toNat ≤ 0x205F) ∨ c.toNat = 0x3000 := by omega
  rcases hgaps with h | h | h | h | h
  · exact inRanges_eq_false 0x85 0x85 (by decide +kernel) (by omega) (by omega)
  · exact inRanges_eq_false 0xA0 0xA0 (by decide +kernel) (by omega) (by omega)
  · exact inRanges_eq_false 0x1680 0x1680 (by decide +kernel) (by omega) (by omega)
  · exact inRanges_eq_false 0x2000 0x205F (by decide +kernel) (by omega) (by omega)
  · exact inRanges_eq_false 0x3000 0x3000 (by decide +kernel) (by omega) (by omega)

theorem lexemeFree_of_isWhiteSpace {cs : List Char} (h : ∀ c ∈ cs, isWhiteSpace c = true) :
    LexemeFree cs := by
  have hmarks : marks.all (fun c => !isWhiteSpace c) = true := by decide
  intro c hc k ds hds hmem
  have hwhite := h c hc
  rcases hds.mem_alphabet c hmem with hword | hmark
  · rw [isWordPart, isLetter_eq_false_of_isWhiteSpace hwhite, Bool.false_or] at hword
    have hdigit := toNat_of_isDigit hword
    simp only [isWhiteSpace, Bool.or_eq_true, Bool.and_eq_true, decide_eq_true_eq] at hwhite
    omega
  · have hmark := List.all_eq_true.mp hmarks c hmark
    rw [hwhite] at hmark
    cases hmark

theorem lexemeFree_cutFront (s : String) : LexemeFree (cutFront s) :=
  lexemeFree_of_isWhiteSpace fun _ hc => List.mem_takeWhile_imp hc

theorem lexemeFree_cutBack (s : String) : LexemeFree (cutBack s) :=
  lexemeFree_of_isWhiteSpace fun _ hc => List.mem_rtakeWhile_imp hc

/-! ### Stray characters -/

/-- The tokens of characters that are in no lexeme, given whether they begin inside a comment: one
for each that is no layout and stands in no comment. -/
def straysFrom : Bool → Place → List Char → List Token
  | _, _, [] => []
  | inComment, p, c :: cs =>
    if inComment || isLayout c then straysFrom (inComment && c != '\n') (p.after c) cs
    else ⟨.unknown, String.ofList [c], p⟩ :: straysFrom false (p.after c) cs

theorem straysFrom_of_layout {cs : List Char} (h : ∀ c ∈ cs, isLayout c = true) :
    ∀ (inComment : Bool) (p : Place), straysFrom inComment p cs = [] := by
  induction cs with
  | nil => exact fun _ _ => rfl
  | cons c cs ih =>
    rw [List.forall_mem_cons] at h
    intro inComment p
    rw [straysFrom, h.1, Bool.or_true, if_pos rfl, ih h.2]

/-- A character of no lexeme that is no layout stands for itself. -/
theorem tokensBehind_cons_of_stray {c : Char} (hc : ∀ k ds, Spells k ds → c ∉ ds)
    (hlayout : isLayout c = false) (p : Place) (cs : List Char) :
    tokensBehind false p (c :: cs) =
      ⟨.unknown, String.ofList [c], p⟩ :: tokensBehind false (p.after c) cs := by
  have hfirst : IsFirstLexeme ⟨.unknown, [c]⟩ cs := by
    refine .inr ⟨rfl, rfl, fun k ds rest happ hds => ?_⟩
    obtain ⟨d, ds, rfl⟩ := List.exists_cons_of_ne_nil hds.ne_nil
    obtain ⟨rfl, -⟩ := List.cons.inj happ
    exact hc k _ hds List.mem_cons_self
  have hslash : c ≠ '/' := by
    rintro rfl
    exact hc .divide ['/'] (.operator (by decide)) List.mem_cons_self
  have hends : EndsGap (c :: cs) := by
    have hcomment : beginsComment (c :: cs) = false := by simp [beginsComment, hslash]
    show belongsToGap false c cs = false
    rw [belongsToGap, hcomment, hlayout]
    rfl
  obtain ⟨hlexeme, hrest⟩ :=
    (Lexeme.isFirstLexeme_scan c cs).unique hfirst (Lexeme.scan_append c cs)
  have hsplit := splitGap_of_endsGap hends
  rw [tokensBehind_false, tokensBehind_false, tokensFrom_of_eq_cons p (congrArg Prod.snd hsplit),
    hsplit, hlexeme, hrest]
  rfl

theorem tokensBehind_nil (inComment : Bool) (p : Place) :
    tokensBehind inComment p [] = [.finish p] := by
  rw [tokensBehind, splitGap]
  exact tokensFrom_of_eq_nil p rfl

/-- Characters of no lexeme are read one by one. -/
theorem tokensBehind_append {cs : List Char} (h : LexemeFree cs) (rest : List Char) :
    ∀ (inComment : Bool) (p : Place), tokensBehind inComment p (cs ++ rest) =
      straysFrom inComment p cs ++
        tokensBehind (inComment && !cs.contains '\n') (p.afterAll cs) rest := by
  induction cs with
  | nil => intro inComment p; simp [straysFrom]
  | cons c cs ih =>
    intro inComment p
    have ih := ih fun d hd => h d (List.mem_cons_of_mem _ hd)
    rw [List.cons_append, straysFrom]
    split_ifs with hgap
    · rw [tokensBehind_cons_of_gap hgap, ih, List.contains_cons, Bool.not_or, ← Bool.and_assoc,
        Bool.beq_comm]
      rfl
    · rw [Bool.or_eq_true, not_or, Bool.not_eq_true, Bool.not_eq_true] at hgap
      obtain ⟨rfl, hlayout⟩ := hgap
      rw [tokensBehind_cons_of_stray (h c List.mem_cons_self) hlayout, ih]
      rfl

theorem LexemeFree.tokensBehind_eq {cs : List Char} (h : LexemeFree cs) (inComment : Bool)
    (p : Place) : tokensBehind inComment p cs =
      straysFrom inComment p cs ++ [.finish (p.afterAll cs)] := by
  have hbehind := tokensBehind_append h [] inComment p
  rwa [List.append_nil, tokensBehind_nil] at hbehind

/-! ### Tokens -/

section Surrounded

variable {s e : String} {front back : List Char} (he : e.toList = front ++ (s.toList ++ back))
include he

/-- **The tokens of a text with blanks around it**: those of the text, moved on behind the blanks
before it, with the stray characters before and behind, and the end. -/
theorem tokensOf_surrounded (hfront : LexemeFree front) (hback : LexemeFree back) :
    tokensOf e = straysFrom false .start front ++
      ((tokensOf s).dropLast.map (Token.moved (Place.behind front)) ++
        (straysFrom (endsInComment s.toList) (Place.start.afterAll (front ++ s.toList)) back ++
          [.finish (.ofOffset e.toList e.toList.length)])) := by
  rw [← Place.afterAll_start, tokensOf, he, ← tokensBehind_false, tokensBehind_append hfront,
    Bool.false_and, tokensBehind_false, tokensFrom_append _ _ hback.endsLexeme, tokensFrom_begunAt,
    ← Place.behind_eq, ← List.map_dropLast, hback.tokensBehind_eq, ← Place.afterAll_append,
    ← Place.afterAll_append, List.append_assoc]
  rfl

/-- Layout around a text adds nothing to its tokens. -/
theorem tokensOf_padded (hfront : ∀ c ∈ front, isLayout c = true)
    (hback : ∀ c ∈ back, isLayout c = true) :
    tokensOf e = (tokensOf s).dropLast.map (Token.moved (Place.behind front)) ++
      [.finish (.ofOffset e.toList e.toList.length)] := by
  rw [tokensOf_surrounded he (lexemeFree_of_layout hfront) (lexemeFree_of_layout hback),
    straysFrom_of_layout hfront, straysFrom_of_layout hback]
  rfl

end Surrounded

end AelSyntax
