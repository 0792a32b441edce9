import AelSyntax.Proofs.Session.Continuation
import AelSyntax.Proofs.Session.Entries
import AelSyntax.Proofs.Token.Padding
import Mathlib.Tactic.Common

/-! # The display of tokens

The tokens that are displayed of an entry are those of its lines as they were typed, but what is
read is what is left of these lines without the white space at both ends. White space is no lexeme,
so the display has all lexemes of the text that is read, and besides them one stray character for
each that is cut off, is no layout and stands in no comment (`lexemesOf_strip`). If there is none,
what is displayed is what is read (`Session.displayed_iff`). -/

namespace AelSyntax

open AelSyntax.Text

/-! ### Lexemes that are displayed -/

/-- The kind and the characters of a token. -/
def Token.lexeme (t : Token) : Lexeme := ⟨t.kind, t.text.toList⟩

/-- The kinds and the characters of tokens, but for the end of a text. -/
def lexemesOf (ts : List Token) : List Lexeme := (bodyOf ts).map Token.lexeme

theorem lexemesOf_append (as bs : List Token) :
    lexemesOf (as ++ bs) = lexemesOf as ++ lexemesOf bs := by
  rw [lexemesOf, bodyOf, List.filter_append, List.map_append]
  rfl

theorem lexemesOf_cons {t : Token} (ht : t.kind ≠ .finish) (ts : List Token) :
    lexemesOf (t :: ts) = t.lexeme :: lexemesOf ts := by
  rw [lexemesOf, bodyOf, List.filter_cons, if_pos (decide_eq_true ht)]
  rfl

theorem lexemesOf_finish (p : Place) : lexemesOf [.finish p] = [] := rfl

theorem lexemesOf_map_moved (f : Place → Place) (ts : List Token) :
    lexemesOf (ts.map (Token.moved f)) = lexemesOf ts := by
  rw [lexemesOf, bodyOf, List.filter_map, List.map_map]
  rfl

/-- The end of a text is not displayed. -/
theorem lexemesOf_dropLast (source : String) :
    lexemesOf (tokensOf source).dropLast = lexemesOf (tokensOf source) := by
  obtain ⟨ts, p, hts, -⟩ := tokensOf_eq_append_finish source
  rw [hts, List.dropLast_concat, lexemesOf_append, lexemesOf_finish, List.append_nil]

/-! ### Stray characters -/

/-- The characters behind a comment, if they begin inside one. -/
def uncommented (inComment : Bool) (cs : List Char) : List Char :=
  if inComment then cs.dropWhile fun c => c ≠ '\n' else cs

/-- Each character that is no layout and stands in no comment, by itself. -/
def straysIn (inComment : Bool) (cs : List Char) : List Lexeme :=
  ((uncommented inComment cs).filter fun c => !isLayout c).map fun c => ⟨.unknown, [c]⟩

theorem straysIn_cons_of_gap {inComment : Bool} {c : Char} (h : (inComment || isLayout c) = true)
    (cs : List Char) : straysIn inComment (c :: cs) = straysIn (inComment && c != '\n') cs := by
  cases inComment with
  | false =>
    have hlayout : ¬ (!isLayout c) = true := by
      rw [show isLayout c = true from h]
      decide
    rw [straysIn, uncommented, if_neg Bool.false_ne_true, List.filter_cons, if_neg hlayout]
    rfl
  | true =>
    by_cases hc : c = '\n'
    · subst hc
      rfl
    · have hne : (c != '\n') = true := bne_iff_ne.mpr hc
      rw [Bool.true_and, hne, straysIn, uncommented, if_pos rfl, List.dropWhile_cons,
        if_pos (decide_eq_true hc)]
      rfl

theorem lexemesOf_straysFrom (cs : List Char) : ∀ (inComment : Bool) (p : Place),
    lexemesOf (straysFrom inComment p cs) = straysIn inComment cs := by
  induction cs with
  | nil => intro inComment p; cases inComment <;> rfl
  | cons c cs ih =>
    intro inComment p
    rw [straysFrom]
    split_ifs with hgap
    · rw [ih, straysIn_cons_of_gap hgap]
    · rw [Bool.or_eq_true, not_or, Bool.not_eq_true, Bool.not_eq_true] at hgap
      obtain ⟨rfl, hlayout⟩ := hgap
      rw [lexemesOf_cons Kind.noConfusion, ih, straysIn, straysIn, uncommented, uncommented,
        if_neg Bool.false_ne_true, if_neg Bool.false_ne_true,
        List.filter_cons, if_pos (by rw [hlayout]; rfl), List.map_cons, Token.lexeme,
        String.toList_ofList]

theorem straysIn_eq_nil_iff {inComment : Bool} {cs : List Char} :
    straysIn inComment cs = [] ↔ ∀ c ∈ uncommented inComment cs, isLayout c = true := by
  rw [straysIn, List.map_eq_nil_iff, List.filter_eq_nil_iff]
  simp

/-- **The lexemes of a text with white space at its ends**: those of what is left without it, and
the stray characters that are cut off. -/
theorem lexemesOf_strip (text : String) :
    lexemesOf (tokensOf text) = straysIn false (cutFront text) ++
      (lexemesOf (tokensOf (strip text)) ++
        straysIn (endsInComment (strip text).toList) (cutBack text)) := by
  rw [tokensOf_surrounded (strip_append text) (lexemeFree_cutFront text) (lexemeFree_cutBack text)]
  simp only [lexemesOf_append, lexemesOf_straysFrom, lexemesOf_map_moved, lexemesOf_dropLast,
    lexemesOf_finish, List.append_nil]

/-- The lexemes are the same with the white space and without if no stray character is cut off. -/
theorem lexemesOf_strip_eq_iff (text : String) :
    lexemesOf (tokensOf text) = lexemesOf (tokensOf (strip text)) ↔
      ∀ c ∈ cutFront text ++ uncommented (endsInComment (strip text).toList) (cutBack text),
        isLayout c = true := by
  have hfront : (∀ c ∈ cutFront text, isLayout c = true) ↔ straysIn false (cutFront text) = [] := by
    rw [straysIn_eq_nil_iff]
    rfl
  rw [List.forall_mem_append, hfront, ← straysIn_eq_nil_iff, lexemesOf_strip]
  constructor
  · intro h
    have hlength := congrArg List.length h
    simp only [List.length_append] at hlength
    exact ⟨List.eq_nil_of_length_eq_zero (by omega), List.eq_nil_of_length_eq_zero (by omega)⟩
  · rintro ⟨hnil, hnil'⟩
    rw [hnil, hnil', List.nil_append, List.append_nil]

namespace Session

theorem respond_of_source {e : Entry} (hidle : ¬ IsIdle e.lines) (hswitch : e.isSwitch = false) :
    (respond true e.lines).1 = "[tokens] >>> " ++ echoOf (tokensOf (joined e.lines)) ++ "\n" ++
      answer (sourceOf e.lines) := by
  rw [respond_of_not_idle true hidle, if_neg (of_decide_eq_false hswitch)]
  rfl

/-- **What is displayed of an entry, and what is read of it.** Let tokens be displayed when an entry
is read as a program text. Then those of its lines are shown, and behind them the outline of what is
left of the lines without white space at both ends, or what is wrong with it. The kinds and the
texts shown are those of the tokens that are read, with one stray character for each that is cut
off, is no layout and stands in no comment. So what is shown is what is read if and only if there is
none. -/
theorem displayed_iff (verbose : Bool) {events : List Event} {c : Course} (hc : c.IsOf events)
    {before after : List Entry} {e : Entry} (he : c.entries = before ++ e :: after)
    (hverbose : displayAfter verbose before = true) (hidle : ¬ IsIdle e.lines)
    (hswitch : e.isSwitch = false) :
    (∃ earlier later, (fresh verbose).exchanges events = earlier ++
      ⟨promptAt e.opening.length, "[tokens] >>> " ++ echoOf (tokensOf (joined e.lines)) ++ "\n" ++
        answer (sourceOf e.lines)⟩ :: later) ∧
    lexemesOf (tokensOf (joined e.lines)) = straysIn false (cutFront (joined e.lines)) ++
      (lexemesOf (tokensOf (sourceOf e.lines)) ++
        straysIn (endsInComment (sourceOf e.lines).toList) (cutBack (joined e.lines))) ∧
    (lexemesOf (tokensOf (joined e.lines)) = lexemesOf (tokensOf (sourceOf e.lines)) ↔
      ∀ c ∈ cutFront (joined e.lines) ++
        uncommented (endsInComment (sourceOf e.lines).toList) (cutBack (joined e.lines)),
          isLayout c = true) := by
  refine ⟨?_, lexemesOf_strip _, lexemesOf_strip_eq_iff _⟩
  have hclosed := hc.closed
  rw [he, List.forall_mem_append, List.forall_mem_cons] at hclosed
  rw [hc.events_eq, Course.events, he, List.flatMap_append, List.flatMap_cons, List.append_assoc,
    List.append_assoc, exchanges_of_entries _ verbose hclosed.1, hverbose,
    exchanges_of_closed true hclosed.2.1, Entry.exchanges, respond_of_source hidle hswitch,
    ← List.append_assoc, ← List.append_assoc, List.append_assoc, List.singleton_append]
  exact ⟨_, _, rfl⟩

/-- White space behind a comment is not displayed. -/
theorem displayed_iff_of_comment :
    lexemesOf (tokensOf (joined ["print 1 // one\u00A0 "])) =
      lexemesOf (tokensOf (sourceOf ["print 1 // one\u00A0 "])) := by
  let e : Entry := ⟨[], "print 1 // one\u00A0 "⟩
  have hclosed : e.Closed := ⟨isOpen_nil, by decide +kernel⟩
  have hcourse : Course.IsOf ⟨[e], [], []⟩ [.line "print 1 // one\u00A0 "] :=
    ⟨rfl, by simpa using hclosed, isOpen_nil, trivial⟩
  have hentries : [e] = [] ++ e :: [] := rfl
  have hidle : ¬ IsIdle e.lines := by
    rw [IsIdle]
    decide +kernel
  obtain ⟨-, -, hiff⟩ := displayed_iff true hcourse hentries rfl hidle (by decide +kernel)
  exact hiff.mpr (List.all_eq_true.mp (by decide +kernel))

/-- A no-break space behind a statement is displayed as a stray character, and the statement is read
without it. -/
theorem displayed_ne_of_no_break_space :
    (fresh true).exchanges [.line "print 1\u00A0"] =
      [⟨">>> ", "[tokens] >>> PRINT(print) NUMBER(1) ERROR(\u00A0)\n" ++
        "   1 | program: Program\n   2 |   statements[0]: PrintStatement\n" ++
        "   3 |     expression: LiteralExpression value=1\n"⟩,
        ⟨">>> ", "\n" ++ farewell⟩] ∧
    lexemesOf (tokensOf (joined ["print 1\u00A0"])) ≠
      lexemesOf (tokensOf (sourceOf ["print 1\u00A0"])) := by
  decide +kernel

end Session

end AelSyntax
