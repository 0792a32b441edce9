import AelSyntax.Text.Place
import AelSyntax.Text.Quoted

/-! # Tokens

A token has a kind, the text it was read from and the place where that text begins. The kinds are
those of the words, operators and parentheses of the language, one for a character that begins no
token and one for the end of the text. A list of tokens that was made by hand may hold kinds of any
other name. -/

namespace AelSyntax

/-- The kinds of tokens. -/
inductive Kind where
  | identifier
  | number
  | letWord
  | printWord
  | absWord
  | sqrtWord
  | equals
  | power
  | assign
  | plus
  | minus
  | times
  | divide
  | modulo
  | openParen
  | closeParen
  | unknown
  | finish
  | other (name : String)
deriving DecidableEq

namespace Kind

/-- The name of a kind. -/
def name : Kind → String
  | identifier => "IDENT"
  | number => "NUMBER"
  | letWord => "LET"
  | printWord => "PRINT"
  | absWord => "ABS"
  | sqrtWord => "SQRT"
  | equals => "EQ"
  | power => "POW"
  | assign => "ASSIGN"
  | plus => "PLUS"
  | minus => "SUB"
  | times => "MULT"
  | divide => "DIV"
  | modulo => "MOD"
  | openParen => "LPAREN"
  | closeParen => "RPAREN"
  | unknown => "ERROR"
  | finish => "EOF"
  | other s => s

/-- The kinds with a name of their own. -/
def known : List Kind :=
  [identifier, number, letWord, printWord, absWord, sqrtWord, equals, power, assign, plus, minus,
    times, divide, modulo, openParen, closeParen, unknown, finish]

/-- The kind of a name. -/
def ofName (s : String) : Kind := (known.find? fun k => k.name == s).getD (other s)

theorem ofName_name : ∀ k ∈ known, ofName k.name = k := by decide

end Kind

/-- A kind, a text and the place where the text begins. -/
structure Token where
  kind : Kind
  text : String
  place : Place
deriving DecidableEq

namespace Token

/-- The token that stands for the end of a text. -/
def finish (p : Place) : Token := ⟨.finish, "EOF", p⟩

/-- The place after the text of a token that ends no line. -/
def endPlace (t : Token) : Place := t.place.columnsOn t.text.length

/-- What a message calls the token. -/
def description (t : Token) : String :=
  match t.kind with
  | .finish => "end of input"
  | .identifier => "identifier " ++ Text.quoted t.text
  | .number => "number " ++ Text.quoted t.text
  | _ => Text.quoted t.text

/-- The kind of a token with its text in parentheses. -/
def echo (t : Token) : String := t.kind.name ++ "(" ++ t.text ++ ")"

/-- A token on one line, in the form of a constructor. -/
def oneLine (t : Token) : String := "Token(" ++ t.kind.name ++ ", " ++ t.text ++ ")"

end Token

end AelSyntax
