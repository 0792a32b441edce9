import AelSyntax.Proofs.Grammar.Bookkeeping
import AelSyntax.Proofs.Grammar.Legible
import AelSyntax.Proofs.Grammar.Location
import AelSyntax.Proofs.Grammar.Moving
import Mathlib.Data.List.Forall2
import Mathlib.Tactic.Common

/-! # Places decide nothing

Two lists of tokens that are alike have the same kinds and texts one by one; where the tokens stand
is left open (`Token.Alike`). With all places moved to one, alike lists become equal, and since the
rules do the same on moved tokens, both readings go the same way. What they give is the same but for
its places: the tree, or the fault and the token at which it is found.

* `Program.outcome_of_alike`: so it is with all alike lists, and with all texts whose tokens are
  alike. -/

namespace AelSyntax

/-- Two tokens have the same kind and the same text. -/
def Token.Alike (t t' : Token) : Prop := t.kind = t'.kind ∧ t.text = t'.text

instance (t t' : Token) : Decidable (t.Alike t') := inferInstanceAs (Decidable (_ ∧ _))

/-- The one place to which all others are moved. -/
abbrev Place.nowhere (_ : Place) : Place := .start

theorem Token.Alike.moved_eq {t t' : Token} (h : t.Alike t') :
    t.moved Place.nowhere = t'.moved Place.nowhere := by
  rw [Token.moved, Token.moved, h.1, h.2]

theorem map_moved_eq_of_alike {ts ts' : List Token} (h : List.Forall₂ Token.Alike ts ts') :
    ts.map (Token.moved Place.nowhere) = ts'.map (Token.moved Place.nowhere) := by
  induction h with
  | nil => rfl
  | cons ht _ ih => rw [List.map_cons, List.map_cons, ht.moved_eq, ih]

namespace Program

open Rule

variable {limit : Nat} {ts ts' : List Token}

/-- The readings of two lists of tokens stop at the same index, where the tokens are refused with the
same family and description, or in both the same node cannot be built. -/
def FailAlike (limit : Nat) (ts ts' : List Token) : Prop :=
  (∃ j ≤ ts.length, ∃ reason reason' : Refusal,
    stop limit ts = .before ts j 0 ∧ stop limit ts' = .before ts' j 0 ∧
    ofTokensWithin limit ts = .error (.refused reason (Cursor.before ts j 0).current.place) ∧
    ofTokensWithin limit ts' = .error (.refused reason' (Cursor.before ts' j 0).current.place) ∧
    reason.family = reason'.family ∧ reason.description = reason'.description) ∨
  ∃ m, ofTokensWithin limit ts = .error (.malformed m) ∧
    ofTokensWithin limit ts' = .error (.malformed m)

/-- Readings of alike lists end alike. -/
theorem endMoved_eq_of_alike (limit : Nat) (h : List.Forall₂ Token.Alike ts ts') :
    endMoved Place.nowhere (Program.moved Place.nowhere)
        (program (statement (expression limit)) (.ofTokens ts)) =
      endMoved Place.nowhere (Program.moved Place.nowhere)
        (program (statement (expression limit)) (.ofTokens ts')) := by
  -- the place behind the last token is moved too, so both readings begin at one and the same cursor
  have hstart : (Cursor.ofTokens ts).moved Place.nowhere =
      (Cursor.ofTokens ts').moved Place.nowhere := by
    rw [Cursor.moved, Cursor.moved]
    exact congrArg (Cursor.mk · .start 0 0) (map_moved_eq_of_alike h)
  rw [← moves_program limit (.ofTokens ts), ← moves_program limit (.ofTokens ts'), hstart]

/-- A refused token stands where the reading stops, in the list or behind its last token. -/
theorem exists_index_of_refused {reason : Refusal} {p : Place} {c : Cursor}
    (hrun : program (statement (expression limit)) (.ofTokens ts) =
      .error (.refused reason p) c) :
    c.position ≤ ts.length ∧ stop limit ts = .before ts c.position 0 ∧
      p = (Cursor.before ts c.position 0).current.place := by
  have hrun' : program (statement (expression limit)) (.before ts 0 0) =
    .error (.refused reason p) c := hrun
  obtain ⟨j, rfl, -, hj, rfl, -⟩ := (orderly_program limit).exists_refused hrun'
  exact ⟨hj.trans (Cursor.finishFrom_le_length (Nat.zero_le _)), congrArg endOf hrun, rfl⟩

/-- Faults that differ in their places only, at the same index, are alike. -/
theorem failAlike_of_moved_eq {e e' : Fault} {c c' : Cursor}
    (hrun : program (statement (expression limit)) (.ofTokens ts) = .error e c)
    (hrun' : program (statement (expression limit)) (.ofTokens ts') = .error e' c')
    (hfault : e.moved Place.nowhere = e'.moved Place.nowhere) (hposition : c.position = c'.position) :
    FailAlike limit ts ts' := by
  have hts : ofTokensWithin limit ts = .error e := by rw [ofTokensWithin_eq, hrun, outcome]
  have hts' : ofTokensWithin limit ts' = .error e' := by rw [ofTokensWithin_eq, hrun', outcome]
  cases e <;> cases e'
  case malformed.malformed m m' =>
    cases hfault
    exact .inr ⟨m, hts, hts'⟩
  case refused.refused reason p reason' p' =>
    obtain ⟨hj, hstop, hp⟩ := exists_index_of_refused hrun
    obtain ⟨-, hstop', hp'⟩ := exists_index_of_refused hrun'
    obtain ⟨hreason, -⟩ := Fault.refused.inj hfault
    rw [← hposition] at hstop' hp'
    rw [hp] at hts
    rw [hp'] at hts'
    refine .inl ⟨c.position, hj, reason, reason', hstop, hstop', hts, hts', ?_, ?_⟩
    · rw [← reason.family_moved Place.nowhere, hreason, Refusal.family_moved]
    · rw [← reason.description_moved Place.nowhere, hreason, Refusal.description_moved]
  all_goals cases hfault

/-- Alike lists have trees that are equal when all places are the same, or they fail alike. -/
theorem moved_eq_or_failAlike (limit : Nat) (h : List.Forall₂ Token.Alike ts ts') :
    (∃ p p', ofTokensWithin limit ts = .ok p ∧ ofTokensWithin limit ts' = .ok p' ∧
      p.moved Place.nowhere = p'.moved Place.nowhere) ∨ FailAlike limit ts ts' := by
  have hends := endMoved_eq_of_alike limit h
  cases hrun : program (statement (expression limit)) (.ofTokens ts) with
  | ok p c =>
    cases hrun' : program (statement (expression limit)) (.ofTokens ts') with
    | ok p' c' =>
      rw [hrun, hrun'] at hends
      refine .inl ⟨p, p', ?_, ?_, (EStateM.Result.ok.inj hends).1⟩
      · rw [ofTokensWithin_eq, hrun, outcome]
      · rw [ofTokensWithin_eq, hrun', outcome]
    | error e' c' =>
      rw [hrun, hrun'] at hends
      cases hends
  | error e c =>
    cases hrun' : program (statement (expression limit)) (.ofTokens ts') with
    | ok p' c' =>
      rw [hrun, hrun'] at hends
      cases hends
    | error e' c' =>
      rw [hrun, hrun'] at hends
      obtain ⟨hfault, hcursor⟩ := EStateM.Result.error.inj hends
      exact .inr (failAlike_of_moved_eq hrun hrun' hfault (Cursor.mk.inj hcursor).2.2.1)

/-- Trees that are equal when all places are the same are compared as one of them with itself. -/
theorem sameTree_of_moved_eq {p p' : Program}
    (h : p.moved Place.nowhere = p'.moved Place.nowhere) :
    (Node.program p).sameTree (.program p') = (Node.program p).sameTree (.program p) := by
  rw [← sameTree_moved Place.nowhere Place.nowhere p p', ← h, sameTree_moved]

/-- **Places decide nothing.** Lists of tokens that are alike have trees that differ in their places
only, or they fail alike, under any limit. Without regard to places the trees are equal if and only
if no literal in them is no number, which no text can bring about: two texts with alike tokens are
equal programs, or they fail alike. -/
theorem outcome_of_alike (limit : Nat) :
    (∀ ts ts', List.Forall₂ Token.Alike ts ts' →
      (∃ p p', ofTokensWithin limit ts = .ok p ∧ ofTokensWithin limit ts' = .ok p' ∧
        p.moved Place.nowhere = p'.moved Place.nowhere ∧
        ((Node.program p).sameTree (.program p') = true ↔
          ∀ q, Node.expr (.literal .nan q) ∉ (Node.program p).walk)) ∨
      FailAlike limit ts ts') ∧
    ∀ source source', List.Forall₂ Token.Alike (tokensOf source) (tokensOf source') →
      (∃ p p', ofTokensWithin limit (tokensOf source) = .ok p ∧
        ofTokensWithin limit (tokensOf source') = .ok p' ∧
        (Node.program p).sameTree (.program p') = true) ∨
      FailAlike limit (tokensOf source) (tokensOf source') := by
  refine ⟨fun ts ts' h => ?_, fun source source' h => ?_⟩
  · refine (moved_eq_or_failAlike limit h).imp_left fun ⟨p, p', hp, hp', heq⟩ => ?_
    refine ⟨p, p', hp, hp', heq, ?_⟩
    rw [sameTree_of_moved_eq heq, sameTree_self]
  · refine (moved_eq_or_failAlike limit h).imp_left fun ⟨p, p', hp, hp', heq⟩ => ?_
    refine ⟨p, p', hp, hp', ?_⟩
    rw [sameTree_of_moved_eq heq]
    -- a numeral that is read from a text is a number, so the tree is the same as itself
    have hlegible := legible_of_ofTokensWithin hp
    exact (picture_eq_iff_of_legible hlegible hlegible).mp rfl

/-- A newline and spaces in front of the operand leave the tokens alike. -/
theorem outcome_of_alike_of_newline :
    List.Forall₂ Token.Alike (tokensOf "print x") (tokensOf "print\n  x") ∧
      ∃ p p', ofText "print x" = .ok p ∧ ofText "print\n  x" = .ok p' ∧ p ≠ p' ∧
        (Node.program p).sameTree (.program p') = true := by
  have halike : List.Forall₂ Token.Alike (tokensOf "print x") (tokensOf "print\n  x") := by
    decide +kernel
  have hp : ofText "print x" = .ok ⟨[.print (.name ⟨"x", ⟨1, 7⟩⟩) ⟨1, 1⟩], ⟨1, 1⟩⟩ := by
    decide +kernel
  have hp' : ofText "print\n  x" = .ok ⟨[.print (.name ⟨"x", ⟨2, 3⟩⟩) ⟨1, 1⟩], ⟨1, 1⟩⟩ := by
    decide +kernel
  refine ⟨halike, _, _, hp, hp', by decide +kernel, ?_⟩
  rcases (outcome_of_alike nestingLimit).2 _ _ halike with ⟨p, p', h, h', hsame⟩ | hfail
  · cases hp.symm.trans h
    cases hp'.symm.trans h'
    exact hsame
  · rcases hfail with ⟨_, -, _, _, -, -, h, -⟩ | ⟨_, h, -⟩
    all_goals cases hp.symm.trans h

/-- A number token that was made by hand may be no number. Then a list of tokens and the same list
one line further down are programs that are not equal. -/
theorem not_sameTree_of_nan :
    List.Forall₂ Token.Alike
        [⟨.printWord, "print", ⟨1, 1⟩⟩, ⟨.number, "nan", ⟨1, 7⟩⟩, .finish ⟨1, 10⟩]
        [⟨.printWord, "print", ⟨2, 1⟩⟩, ⟨.number, "nan", ⟨2, 7⟩⟩, .finish ⟨2, 10⟩] ∧
      ∃ p p',
        ofTokens [⟨.printWord, "print", ⟨1, 1⟩⟩, ⟨.number, "nan", ⟨1, 7⟩⟩, .finish ⟨1, 10⟩] =
          .ok p ∧
        ofTokens [⟨.printWord, "print", ⟨2, 1⟩⟩, ⟨.number, "nan", ⟨2, 7⟩⟩, .finish ⟨2, 10⟩] =
          .ok p' ∧
        (Node.program p).sameTree (.program p') = false := by
  refine ⟨by decide, ⟨[.print (.literal .nan ⟨1, 7⟩) ⟨1, 1⟩], ⟨1, 1⟩⟩,
    ⟨[.print (.literal .nan ⟨2, 7⟩) ⟨2, 1⟩], ⟨2, 1⟩⟩, ?_, ?_, by decide⟩
  · decide +kernel
  · decide +kernel

end Program

end AelSyntax
