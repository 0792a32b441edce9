import AelSyntax.Proofs.Number.Reading
import AelSyntax.Proofs.Token.Decomposition
import AelSyntax.Tree.Basic
import Mathlib.Tactic.Common

/-! # Well-formed tokens

A token is well formed if its text spells its kind, wherever the kind leaves no choice or is that of
numbers; names and all other kinds may have any text. The tokens of a text are well formed
(`wellFormed_of_mem_tokensOf`). Conversely, a well-formed token of an operator, a word or a
parenthesis is known from its kind and its place, and one of a number holds a number. -/

namespace AelSyntax

open AelSyntax.Text

/-- The text of a word, an operator, a parenthesis or a number spells its kind. -/
def Token.WellFormed (t : Token) : Prop :=
  t.kind = .number ∨ t.kind.fixedText?.isSome = true → Spells t.kind t.text.toList

/-! ### The tokens of the grammar -/

namespace BinaryOp

/-- The kind of token an operator with two operands is written with. -/
def kind : BinaryOp → Kind
  | equals => .equals
  | plus => .plus
  | minus => .minus
  | times => .times
  | divide => .divide
  | modulo => .modulo
  | power => .power

/-- The token of an operator with two operands. -/
def token (o : BinaryOp) (p : Place) : Token := ⟨o.kind, o.spelling, p⟩

theorem fixedText?_kind (o : BinaryOp) : o.kind.fixedText? = some o.spelling := by
  cases o <;> rfl

@[simp] theorem kind_token (o : BinaryOp) (p : Place) : (o.token p).kind = o.kind := rfl

@[simp] theorem text_token (o : BinaryOp) (p : Place) : (o.token p).text = o.spelling := rfl

theorem token_inj {o o' : BinaryOp} {p p' : Place} (h : o.token p = o'.token p') :
    o = o' ∧ p = p' := by
  have hs : o.spelling = o'.spelling := congrArg Token.text h
  refine ⟨Option.some.inj ?_, congrArg Token.place h⟩
  rw [← ofSpelling?_spelling, hs, ofSpelling?_spelling]

end BinaryOp

namespace UnaryOp

/-- The kind of token an operator with one operand is written with. -/
def kind : UnaryOp → Kind
  | negate => .minus
  | absolute => .absWord
  | squareRoot => .sqrtWord

/-- The token of an operator with one operand. -/
def token (o : UnaryOp) (p : Place) : Token := ⟨o.kind, o.spelling, p⟩

theorem fixedText?_kind (o : UnaryOp) : o.kind.fixedText? = some o.spelling := by
  cases o <;> rfl

@[simp] theorem kind_token (o : UnaryOp) (p : Place) : (o.token p).kind = o.kind := rfl

@[simp] theorem text_token (o : UnaryOp) (p : Place) : (o.token p).text = o.spelling := rfl

@[simp] theorem place_token (o : UnaryOp) (p : Place) : (o.token p).place = p := rfl

theorem token_inj {o o' : UnaryOp} {p p' : Place} (h : o.token p = o'.token p') :
    o = o' ∧ p = p' := by
  have hs : o.spelling = o'.spelling := congrArg Token.text h
  refine ⟨Option.some.inj ?_, congrArg Token.place h⟩
  rw [← ofSpelling?_spelling, hs, ofSpelling?_spelling]

end UnaryOp

/-- The token of a name. -/
def Identifier.token (id : Identifier) : Token := ⟨.identifier, id.name, id.place⟩

theorem Identifier.token_inj {id id' : Identifier} (h : id.token = id'.token) : id = id' := by
  obtain ⟨name, p⟩ := id
  obtain ⟨name', p'⟩ := id'
  obtain rfl : name = name' := congrArg Token.text h
  obtain rfl : p = p' := congrArg Token.place h
  rfl

/-- A number as it is written, with its value. -/
structure Number where
  text : String
  value : Binary64
  isNumber : IsNumber text.toList
  read_eq : Numeral.read text = some value

namespace Number

/-- The token of a number. -/
def token (n : Number) (p : Place) : Token := ⟨.number, n.text, p⟩

theorem ext_text {n n' : Number} (h : n.text = n'.text) : n = n' := by
  obtain ⟨text, v, _, hv⟩ := n
  obtain ⟨text', v', _, hv'⟩ := n'
  dsimp only at h
  subst h
  obtain rfl : v = v' := Option.some.inj (hv.symm.trans hv')
  rfl

theorem token_inj {n n' : Number} {p p' : Place} (h : n.token p = n'.token p') :
    n = n' ∧ p = p' :=
  ⟨ext_text (congrArg Token.text h), congrArg Token.place h⟩

theorem exists_value_eq (n : Number) : ∃ m, n.value = .signed false m := by
  obtain ⟨m, hm⟩ := Numeral.read_of_isNumber n.isNumber
  exact ⟨m, Option.some.inj (n.read_eq.symm.trans hm)⟩

theorem isBelowZero_value (n : Number) : n.value.isBelowZero = false := by
  obtain ⟨m, hm⟩ := n.exists_value_eq
  rw [hm]
  rfl

end Number

namespace Token

/-- The token of an opening parenthesis. -/
def opening (p : Place) : Token := ⟨.openParen, "(", p⟩

/-- The token of a closing parenthesis. -/
def closing (p : Place) : Token := ⟨.closeParen, ")", p⟩

/-- The token of an assignment sign. -/
def assigning (p : Place) : Token := ⟨.assign, "=", p⟩

/-- The token of the word that begins a declaration. -/
def declaring (p : Place) : Token := ⟨.letWord, "let", p⟩

/-- The token of the word that begins a print. -/
def printing (p : Place) : Token := ⟨.printWord, "print", p⟩

end Token

/-! ### A kind and a place give the token -/

namespace Token

theorem WellFormed.text_eq {t : Token} (h : t.WellFormed) {s : String}
    (hs : t.kind.fixedText? = some s) : t.text = s := by
  have hspell := h (.inr (by rw [hs]; rfl))
  rcases hspell.cases_fixedText? with hk | hk | hk
  · rw [hk] at hs; cases hs
  · rw [hk] at hs; cases hs
  · rw [hs, String.ofList_toList] at hk
    exact (Option.some.inj hk).symm

theorem WellFormed.eq_mk {t : Token} (h : t.WellFormed) {k : Kind} {s : String} (hk : t.kind = k)
    (hs : k.fixedText? = some s) : t = ⟨k, s, t.place⟩ := by
  subst hk
  rw [← h.text_eq hs]

theorem WellFormed.eq_number {t : Token} (h : t.WellFormed) (hk : t.kind = .number) :
    ∃ n : Number, t = n.token t.place := by
  have hspell := h (.inl hk)
  rw [hk] at hspell
  obtain ⟨m, hm⟩ := Numeral.read_of_isNumber hspell.isNumber
  refine ⟨⟨t.text, _, hspell.isNumber, hm⟩, ?_⟩
  rw [Number.token, ← hk]

/-- A well-formed token that belongs to a lexeme. -/
structure Proper (t : Token) : Prop where
  wellFormed : t.WellFormed
  kind_ne_unknown : t.kind ≠ .unknown
  kind_ne_finish : t.kind ≠ .finish

theorem proper_mk {k : Kind} {s : String} {p : Place} (hs : k.fixedText? = some s) :
    Proper ⟨k, s, p⟩ := by
  refine ⟨fun _ => Spells.of_fixedText? hs, ?_, ?_⟩
  · rintro rfl
    cases hs
  · rintro rfl
    cases hs

end Token

theorem BinaryOp.proper_token (o : BinaryOp) (p : Place) : (o.token p).Proper :=
  Token.proper_mk o.fixedText?_kind

theorem UnaryOp.proper_token (o : UnaryOp) (p : Place) : (o.token p).Proper :=
  Token.proper_mk o.fixedText?_kind

theorem Identifier.proper_token (id : Identifier) : id.token.Proper := by
  refine ⟨?_, by simp [token], by simp [token]⟩
  rintro (h | h) <;> cases h

theorem Number.proper_token (n : Number) (p : Place) : (n.token p).Proper :=
  ⟨fun _ => .number n.isNumber, by simp [token], by simp [token]⟩

/-! ### Nodes of well-formed tokens -/

theorem BinaryOp.ofBinary_spelling (o : BinaryOp) (left right : Expr) (p : Place) :
    Expr.ofBinary o.spelling left right p = .ok (.binary o left right p) := by
  rw [Expr.ofBinary, ofSpelling?_spelling]

theorem UnaryOp.ofUnary_spelling (o : UnaryOp) (operand : Expr) (p : Place) :
    Expr.ofUnary o.spelling operand p = .ok (.unary o operand p) := by
  rw [Expr.ofUnary, ofSpelling?_spelling]

theorem Number.ofNumeral_text (n : Number) (p : Place) :
    Expr.ofNumeral n.text p = .ok (.literal n.value p) := by
  have hvalue : Expr.ofNumeral n.text p = Expr.ofValue n.value p := by
    rw [Expr.ofNumeral, Binary64.ofNumeral, n.read_eq]
    rfl
  rw [hvalue, Expr.ofValue, n.isBelowZero_value]
  rfl

namespace Token.WellFormed

variable {t : Token}

theorem ofBinary (h : t.WellFormed) {o : BinaryOp} (hk : t.kind = o.kind) (left right : Expr)
    (p : Place) : Expr.ofBinary t.text left right p = .ok (.binary o left right p) := by
  have htext : t.text = o.spelling := h.text_eq (by rw [hk]; exact o.fixedText?_kind)
  rw [htext, o.ofBinary_spelling]

theorem ofUnary (h : t.WellFormed) {o : UnaryOp} (hk : t.kind = o.kind) (operand : Expr)
    (p : Place) : Expr.ofUnary t.text operand p = .ok (.unary o operand p) := by
  have htext : t.text = o.spelling := h.text_eq (by rw [hk]; exact o.fixedText?_kind)
  rw [htext, o.ofUnary_spelling]

theorem ofNumeral (h : t.WellFormed) (hk : t.kind = .number) (p : Place) :
    ∃ e, Expr.ofNumeral t.text p = .ok e := by
  obtain ⟨n, hn⟩ := h.eq_number hk
  have htext : t.text = n.text := congrArg Token.text hn
  exact ⟨_, by rw [htext, n.ofNumeral_text]⟩

end Token.WellFormed

/-! ### Where well-formed tokens come from -/

/-- A token of a text is its end, or a character that begins nothing, or it is spelled as its kind
says. -/
theorem Decomposes.spells : ∀ {cs : List Char} {pieces : List Piece} {last : List Char}
    (whole : List Char) (n : Nat), Decomposes cs pieces last → ∀ t ∈ tokensAt whole n pieces,
      t.kind = .finish ∨ t.kind = .unknown ∨ Spells t.kind t.text.toList
  | _, [], _, whole, n, _, t, ht => by
    rw [tokensAt, List.mem_singleton] at ht
    subst ht
    exact .inl rfl
  | _, ⟨gap, lexeme⟩ :: pieces, _, whole, n, ⟨_, _, _, hlexeme, hrest⟩, t, ht => by
    rw [tokensAt, List.mem_cons] at ht
    rcases ht with rfl | ht
    · rcases hlexeme with ⟨h, -⟩ | ⟨h, -⟩
      · refine .inr (.inr ?_)
        rwa [String.toList_ofList]
      · exact .inr (.inl h)
    · exact hrest.spells whole _ t ht

theorem spells_of_mem_tokensOf {source : String} {t : Token} (ht : t ∈ tokensOf source) :
    t.kind = .finish ∨ t.kind = .unknown ∨ Spells t.kind t.text.toList := by
  rw [tokensOf_eq_tokensAt] at ht
  exact (decomposes_cut source.toList).spells _ _ t ht

/-- **The tokens of a text are well formed.** -/
theorem wellFormed_of_mem_tokensOf {source : String} {t : Token} (ht : t ∈ tokensOf source) :
    t.WellFormed := by
  intro hkind
  rcases spells_of_mem_tokensOf ht with h | h | h
  · rw [h] at hkind
    rcases hkind with h | h <;> cases h
  · rw [h] at hkind
    rcases hkind with h | h <;> cases h
  · exact h

end AelSyntax
